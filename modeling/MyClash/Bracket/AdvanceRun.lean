import MyClash.Bracket.AdvanceWrites

/-!
# Every run of a bracket

Bouts are started and completed, completed bouts are told to the bracket in any order and as often
as one likes, and results are changed. Whatever the run, a side holds what its source denotes.
-/

namespace MyClash.Bracket.Advance

open Knockout

universe u v

variable {κ : Type u} {F : Type v} [DecidableEq κ] [DecidableEq F]

/-- A phase whose slots advancement tells apart, and whose byes wait for no bout. -/
structure Wired (phase : BracketPhase κ) : Prop where
  nodup : (phase.slots.map PhaseSlot.selfRef).Nodup
  autoAdvance : phase.autoAdvance = true
  bye : ∀ slot ∈ phase.slots, slot.isBye = true → ∀ side, (slot.source side).reads? = none

/-! ## What a source denotes -/

/-- The fighter of a bye goes through; a bout has the winner of its completed row. -/
def boutWinner (s : BracketState κ F) (slot : PhaseSlot κ) : Option F :=
  if slot.isBye then s.side slot.selfRef .a
  else (s.row slot.selfRef).bind fun row => if row.status = .completed then row.winner else none

/-- The other of the two fighters on the slot. -/
def boutLoser (s : BracketState κ F) (slot : PhaseSlot κ) : Option F :=
  if slot.isBye then none
  else (boutWinner s slot).bind fun winner =>
    resolveLoser winner (s.side slot.selfRef .a) (s.side slot.selfRef .b)

def denoted (s : BracketState κ F) (feeder : PhaseSlot κ) (source : Feed κ) : Option F :=
  if source = .winnerOf feeder.selfRef then boutWinner s feeder else boutLoser s feeder

/-- The winners-bracket entrant won the grand final. -/
def ended (phase : BracketPhase κ) (s : BracketState κ F) (slot : PhaseSlot κ) : Bool :=
  phase.grandFinalEndsBracket slot (s.side slot.selfRef .a) (boutWinner s slot)

/-- Byes are sent on with the seeding, a bout once it was told. -/
def sent (phase : BracketPhase κ) (handed : List κ) (s : BracketState κ F)
    (feeder : PhaseSlot κ) : Bool :=
  feeder.isBye || (feeder.selfRef ∈ handed && !ended phase s feeder)

def fedValue (phase : BracketPhase κ) (handed : List κ) (s : BracketState κ F)
    (feeder : PhaseSlot κ) (source : Feed κ) : Option F :=
  if sent phase handed s feeder then denoted s feeder source else none

/-- Both fighters are known, and the winner is one of them or nobody. -/
structure MayWin (s : BracketState κ F) (slot : PhaseSlot κ) (winner : Option F) : Prop where
  a : (s.side slot.selfRef .a).isSome
  b : (s.side slot.selfRef .b).isSome
  winner : winner = none ∨ winner = s.side slot.selfRef .a ∨ winner = s.side slot.selfRef .b

/-- Every side holds what its source denotes, of the bouts told so far. -/
structure Settled (phase : BracketPhase κ) (entrant : ℕ → F) (handed : List κ)
    (s : BracketState κ F) : Prop where
  entered : ∀ slot ∈ phase.slots, ∀ side, (slot.source side).reads? = none →
    s.side slot.selfRef side = seededSide entrant slot side
  fed : ∀ slot ∈ phase.slots, ∀ feeder ∈ phase.slots, ∀ side,
    feeds feeder.selfRef (slot.source side) = true →
      s.side slot.selfRef side = fedValue phase handed s feeder (slot.source side)
  told : ∀ k ∈ handed, ∃ row, s.row k = some row ∧ row.status = .completed
  known : ∀ slot ∈ phase.slots, ∀ row, s.row slot.selfRef = some row → row.status = .completed →
    MayWin s slot row.winner

section Values

variable {phase : BracketPhase κ} {entrant : ℕ → F} {handed handed' : List κ}
variable {s t : BracketState κ F} {slot feeder : PhaseSlot κ} {source : Feed κ} {side : Side}
variable {row : BoutRow F}

theorem feeds_of_reads {self : κ} (h : feeds self source = true) : source.reads? = some self := by
  simp only [feeds, Bool.or_eq_true, decide_eq_true_eq] at h
  rcases h with rfl | rfl <;> rfl

theorem feeds_iff_reads {self : κ} : feeds self source = true ↔ source.reads? = some self := by
  refine ⟨feeds_of_reads, fun h => ?_⟩
  cases source <;> simp_all [feeds, Feed.reads?]

/-- A side is fed by one bout. -/
theorem eq_of_feeds {self self' : κ} (h : feeds self source = true)
    (h' : feeds self' source = true) : self = self' := by
  rw [feeds_iff_reads] at h h'
  exact Option.some.inj (h.symm.trans h')

omit [DecidableEq κ] [DecidableEq F] in
theorem boutWinner_of_row (hBout : slot.isBye = false) (hRow : s.row slot.selfRef = some row)
    (hDone : row.status = .completed) : boutWinner s slot = row.winner := by
  rw [boutWinner, hBout, hRow]
  exact if_pos hDone

omit [DecidableEq κ] [DecidableEq F] in
theorem exists_row_of_boutWinner (hBout : slot.isBye = false) {f : F}
    (h : boutWinner s slot = some f) :
    ∃ row, s.row slot.selfRef = some row ∧ row.status = .completed ∧ row.winner = some f := by
  rw [boutWinner, hBout, if_neg Bool.false_ne_true] at h
  obtain ⟨row, hRow, hWinner⟩ := Option.bind_eq_some_iff.mp h
  split at hWinner
  · rename_i hDone
    exact ⟨row, hRow, hDone, hWinner⟩
  · cases hWinner

omit [DecidableEq κ] [DecidableEq F] in
theorem boutWinner_congr (hKeeps : ∀ row : BoutRow F, row.status = .completed →
      (t.row slot.selfRef = some row ↔ s.row slot.selfRef = some row))
    (hBye : slot.isBye = true → t.side slot.selfRef .a = s.side slot.selfRef .a) :
    boutWinner t slot = boutWinner s slot := by
  cases hBout : slot.isBye with
  | true =>
    rw [boutWinner, boutWinner, hBout, hBye hBout]
    rfl
  | false =>
    refine Option.ext fun f => ⟨fun h => ?_, fun h => ?_⟩
    · obtain ⟨row, hRow, hDone, hWinner⟩ := exists_row_of_boutWinner hBout h
      rw [boutWinner_of_row hBout ((hKeeps row hDone).mp hRow) hDone, hWinner]
    · obtain ⟨row, hRow, hDone, hWinner⟩ := exists_row_of_boutWinner hBout h
      rw [boutWinner_of_row hBout ((hKeeps row hDone).mpr hRow) hDone, hWinner]

theorem denoted_of_none (h : boutWinner s feeder = none) : denoted s feeder source = none := by
  rw [denoted, boutLoser, h]
  simp

/-- What a feeder sends on is decided by its own row and its own sides. -/
theorem fedValue_congr (hHanded : feeder.selfRef ∈ handed' ↔ feeder.selfRef ∈ handed)
    (hWinner : boutWinner t feeder = boutWinner s feeder)
    (hSides : feeder.isBye = false → boutWinner s feeder ≠ none →
      ∀ side, t.side feeder.selfRef side = s.side feeder.selfRef side) :
    fedValue phase handed' t feeder source = fedValue phase handed s feeder source := by
  by_cases hNone : boutWinner s feeder = none
  · rw [fedValue, fedValue, denoted_of_none hNone, denoted_of_none (hWinner.trans hNone)]
    simp
  · cases hBye : feeder.isBye with
    | true =>
      simp only [fedValue, sent, hBye, Bool.true_or, if_true, denoted, boutLoser, hWinner]
    | false =>
      have hSame := hSides hBye hNone
      simp only [fedValue, sent, ended, denoted, boutLoser, hBye, hWinner, hSame, hHanded]

theorem fedValue_of_not_handed (hBout : feeder.isBye = false) (h : feeder.selfRef ∉ handed) :
    fedValue phase handed s feeder source = none := by
  simp [fedValue, sent, hBout, h]

/-! ## A bout told -/

theorem Settled.side_of_fed (h : Settled phase entrant handed s) (hSlot : slot ∈ phase.slots)
    (hFeeder : feeder ∈ phase.slots) (hFed : feeds feeder.selfRef (slot.source side) = true)
    {f : F} (hSide : s.side slot.selfRef side = some f) :
    sent phase handed s feeder = true ∧ denoted s feeder (slot.source side) = some f := by
  rw [h.fed slot hSlot feeder hFeeder side hFed, fedValue] at hSide
  split at hSide
  · rename_i hSent
    exact ⟨hSent, hSide⟩
  · cases hSide

omit [DecidableEq κ] in
theorem resolveLoser_known {w : F} (h : MayWin s slot (some w)) (red blue : Option F) :
    resolveLoser w ((s.side slot.selfRef .a).or red) ((s.side slot.selfRef .b).or blue) =
      resolveLoser w (s.side slot.selfRef .a) (s.side slot.selfRef .b) := by
  obtain ⟨x, hx⟩ := Option.isSome_iff_exists.mp h.a
  obtain ⟨y, hy⟩ := Option.isSome_iff_exists.mp h.b
  rw [hx, hy]
  rfl

/-- After the bout of `slot` was told: the sides it feeds, and the rest as they were. -/
theorem Settled.onMatchCompleted_side (h : Settled phase entrant handed s) (hWired : Wired phase)
    (hSlot : slot ∈ phase.slots) (hBout : slot.isBye = false)
    (hRow : s.row slot.selfRef = some row) (hDone : row.status = .completed)
    {slot' : PhaseSlot κ} (hSlot' : slot' ∈ phase.slots) (side : Side) :
    (onMatchCompleted phase slot s).side slot'.selfRef side =
      if feeds slot.selfRef (slot'.source side) then
        fedValue phase (slot.selfRef :: handed) s slot (slot'.source side)
      else s.side slot'.selfRef side := by
  have hBoutWinner := boutWinner_of_row hBout hRow hDone
  simp only [onMatchCompleted, hRow, hWired.autoAdvance, Bool.not_true, Bool.false_eq_true,
    if_false]
  cases hWinner : row.winner with
  | none =>
    rw [hWinner] at hBoutWinner
    dsimp only
    split_ifs with hFed
    · rw [h.fed slot' hSlot' slot hSlot side hFed, fedValue, fedValue,
        denoted_of_none hBoutWinner]
      simp
    · rfl
  | some w =>
    have hMay := h.known slot hSlot row hRow hDone
    rw [hWinner] at hBoutWinner hMay
    dsimp only
    split
    · -- the grand final ended the bracket: what it feeds is empty
      rename_i hEnds
      rw [retractGrandFinalReset_side, clearFedSides_side hWired.nodup hSlot']
      have hEnded : ended phase s slot = true := by rw [ended, hBoutWinner, hEnds]
      simp [fedValue, sent, hBout, hEnded]
    · rename_i hGoesOn
      have hEnded : ended phase s slot = false := by
        rw [ended, hBoutWinner]
        exact Bool.eq_false_iff.mpr hGoesOn
      rw [advanceFromSlot_side hWired.nodup hSlot', resolveLoser_known hMay]
      have hLoser : boutLoser s slot =
          resolveLoser w (s.side slot.selfRef .a) (s.side slot.selfRef .b) := by
        rw [boutLoser, hBout, hBoutWinner]
        rfl
      split_ifs with hFed
      · have hNew : resolveSide slot.selfRef w (boutLoser s slot) (slot'.source side) none =
            denoted s slot (slot'.source side) := by
          simp only [feeds, Bool.or_eq_true, decide_eq_true_eq] at hFed
          simp only [resolveSide, denoted, hBoutWinner]
          split_ifs with hSource hSource'
          · rfl
          · rfl
          · exact absurd hFed (not_or.mpr ⟨hSource, hSource'⟩)
        have hSent : sent phase (slot.selfRef :: handed) s slot = true := by
          simp [sent, hEnded]
        rw [← hLoser, resolveSide_eq_or, hNew, h.fed slot' hSlot' slot hSlot side hFed, fedValue,
          fedValue, if_pos hSent]
        split_ifs
        · exact Option.or_self
        · exact Option.none_or
      · exact resolveSide_of_not_feeds (Bool.eq_false_iff.mpr hFed) _

/-- A side that is filled keeps its fighter, whoever is told again. -/
theorem Settled.onMatchCompleted_filled (h : Settled phase entrant handed s) (hWired : Wired phase)
    (hSlot : slot ∈ phase.slots) (hBout : slot.isBye = false)
    (hRow : s.row slot.selfRef = some row) (hDone : row.status = .completed)
    {slot' : PhaseSlot κ} (hSlot' : slot' ∈ phase.slots) {side : Side} {f : F}
    (hFilled : s.side slot'.selfRef side = some f) :
    (onMatchCompleted phase slot s).side slot'.selfRef side = some f := by
  rw [h.onMatchCompleted_side hWired hSlot hBout hRow hDone hSlot']
  split_ifs with hFed
  · obtain ⟨hSent, hDenoted⟩ := h.side_of_fed hSlot' hSlot hFed hFilled
    have hStill : sent phase (slot.selfRef :: handed) s slot = true := by
      rw [sent, hBout, Bool.false_or, Bool.and_eq_true] at hSent ⊢
      exact ⟨by simp, hSent.2⟩
    rw [fedValue, if_pos hStill, hDenoted]
  · exact hFilled

omit [DecidableEq κ] [DecidableEq F] in
theorem MayWin.congr {winner : Option F} (h : MayWin s slot winner)
    (hSides : ∀ side, t.side slot.selfRef side = s.side slot.selfRef side) :
    MayWin t slot winner := by
  constructor
  · rw [hSides]
    exact h.a
  · rw [hSides]
    exact h.b
  · rw [hSides, hSides]
    exact h.winner

omit [DecidableEq κ] [DecidableEq F] in
theorem MayWin.isSome {winner : Option F} (h : MayWin s slot winner) (side : Side) :
    (s.side slot.selfRef side).isSome := by
  cases side with
  | a => exact h.a
  | b => exact h.b

/-- A step of the bracket that keeps the completed rows, and the sides of their slots. -/
theorem Settled.of_keeps (h : Settled phase entrant handed s) (hWired : Wired phase)
    (hKeeps : Keeps s t)
    (hEntered : ∀ slot ∈ phase.slots, ∀ side, (slot.source side).reads? = none →
      t.side slot.selfRef side = s.side slot.selfRef side)
    (hSides : ∀ slot ∈ phase.slots, ∀ row, s.row slot.selfRef = some row →
      row.status = .completed → ∀ side, t.side slot.selfRef side = s.side slot.selfRef side)
    (hTold : ∀ k ∈ handed', ∃ row, s.row k = some row ∧ row.status = .completed)
    (hFed : ∀ slot ∈ phase.slots, ∀ feeder ∈ phase.slots, ∀ side,
      feeds feeder.selfRef (slot.source side) = true →
        t.side slot.selfRef side = fedValue phase handed' s feeder (slot.source side)) :
    Settled phase entrant handed' t where
  entered slot hSlot side hReads :=
    (hEntered slot hSlot side hReads).trans (h.entered slot hSlot side hReads)
  fed slot hSlot feeder hFeeder side hFeeds := by
    rw [hFed slot hSlot feeder hFeeder side hFeeds]
    refine (fedValue_congr Iff.rfl (boutWinner_congr (hKeeps _) fun hBye => ?_) ?_).symm
    · exact hEntered feeder hFeeder .a (hWired.bye feeder hFeeder hBye .a)
    · intro hBout hWinner
      obtain ⟨f, hf⟩ := Option.ne_none_iff_exists'.mp hWinner
      obtain ⟨row, hRow, hDone, -⟩ := exists_row_of_boutWinner hBout hf
      exact hSides feeder hFeeder row hRow hDone
  told k hk := by
    obtain ⟨row, hRow, hDone⟩ := hTold k hk
    exact ⟨row, (hKeeps k row hDone).mpr hRow, hDone⟩
  known slot hSlot row hRow hDone := by
    have hBefore := (hKeeps _ row hDone).mp hRow
    exact (h.known slot hSlot row hBefore hDone).congr (hSides slot hSlot row hBefore hDone)

theorem Settled.hand (h : Settled phase entrant handed s) (hWired : Wired phase)
    (hSlot : slot ∈ phase.slots) (hBout : slot.isBye = false)
    (hRow : s.row slot.selfRef = some row) (hDone : row.status = .completed) :
    Settled phase entrant (slot.selfRef :: handed) (onMatchCompleted phase slot s) := by
  refine h.of_keeps hWired onMatchCompleted_keeps ?_ ?_ ?_ ?_
  · intro slot' hSlot' side hReads
    rw [h.onMatchCompleted_side hWired hSlot hBout hRow hDone hSlot', if_neg]
    rw [feeds_iff_reads, hReads]
    nofun
  · intro slot' hSlot' row' hRow' hDone' side
    obtain ⟨f, hf⟩ :=
      Option.isSome_iff_exists.mp ((h.known slot' hSlot' row' hRow' hDone').isSome side)
    rw [h.onMatchCompleted_filled hWired hSlot hBout hRow hDone hSlot' hf, hf]
  · intro k hk
    rcases List.mem_cons.mp hk with rfl | hk
    · exact ⟨row, hRow, hDone⟩
    · exact h.told k hk
  · intro slot' hSlot' feeder hFeeder side hFed
    rw [h.onMatchCompleted_side hWired hSlot hBout hRow hDone hSlot']
    by_cases hSame : feeder.selfRef = slot.selfRef
    · obtain rfl := eq_of_selfRef hWired.nodup hFeeder hSlot hSame
      exact if_pos hFed
    · rw [if_neg fun hFed' => hSame (eq_of_feeds hFed hFed'),
        h.fed slot' hSlot' feeder hFeeder side hFed]
      refine (fedValue_congr ?_ rfl fun _ _ _ => rfl).symm
      simp [hSame]

/-! ## A bout started, completed or put right -/

/-- The bout's clock was started. -/
def startedRow (row : BoutRow F) : BoutRow F :=
  { row with status := .running, started := true, live := nofun }

def completedRow (row : BoutRow F) (winner : Option F) : BoutRow F where
  status := .completed
  started := true
  winner := winner
  red := row.red
  blue := row.blue
  live := nofun

theorem Settled.start (h : Settled phase entrant handed s) (hWired : Wired phase) {k : κ}
    (hRow : s.row k = some row) (hOpen : row.status ≠ .completed) :
    Settled phase entrant handed (s.setRow k (some (startedRow row))) := by
  refine h.of_keeps hWired (.setRow (fun r hr => ?_) (fun r hr => ?_)) (fun _ _ _ _ => rfl)
    (fun _ _ _ _ _ _ => rfl) h.told h.fed
  · rw [hRow] at hr
    exact Option.some.inj hr ▸ hOpen
  · exact Option.some.inj hr ▸ nofun

/-- A bout gets a result nobody was told of: the completed rows of the others are kept, and
nothing of it is sent on. -/
theorem Settled.of_result (h : Settled phase entrant handed s) (hWired : Wired phase)
    (hSlot : slot ∈ phase.slots) (hBout : slot.isBye = false) {winner : Option F}
    (hMay : MayWin s slot winner) (hRow : t.row slot.selfRef = some (completedRow row winner))
    (hKeeps : ∀ k ≠ slot.selfRef, ∀ row : BoutRow F, row.status = .completed →
      (t.row k = some row ↔ s.row k = some row))
    (hUnfed : ∀ slot' ∈ phase.slots, ∀ side, feeds slot.selfRef (slot'.source side) = true →
      t.side slot'.selfRef side = none)
    (hElse : ∀ slot' ∈ phase.slots, ∀ side, feeds slot.selfRef (slot'.source side) = false →
      t.side slot'.selfRef side = s.side slot'.selfRef side)
    (hSides : ∀ slot' ∈ phase.slots, slot' = slot ∨ (∃ row, s.row slot'.selfRef = some row ∧
        row.status = .completed) → ∀ side,
      t.side slot'.selfRef side = s.side slot'.selfRef side)
    (hNew : slot.selfRef ∉ handed')
    (hHanded : ∀ k ≠ slot.selfRef, k ∈ handed' ↔ k ∈ handed) :
    Settled phase entrant handed' t where
  entered slot' hSlot' side hReads := by
    have hNot : feeds slot.selfRef (slot'.source side) = false := by
      rw [Bool.eq_false_iff, ne_eq, feeds_iff_reads, hReads]
      nofun
    exact (hElse slot' hSlot' side hNot).trans (h.entered slot' hSlot' side hReads)
  fed slot' hSlot' feeder hFeeder side hFed := by
    by_cases hSame : feeder.selfRef = slot.selfRef
    · obtain rfl := eq_of_selfRef hWired.nodup hFeeder hSlot hSame
      rw [hUnfed slot' hSlot' side hFed, fedValue_of_not_handed hBout hNew]
    · have hNot : feeds slot.selfRef (slot'.source side) = false :=
        Bool.eq_false_iff.mpr fun hFed' => hSame (eq_of_feeds hFed hFed')
      rw [hElse slot' hSlot' side hNot, h.fed slot' hSlot' feeder hFeeder side hFed]
      refine (fedValue_congr (hHanded _ hSame) (boutWinner_congr (hKeeps _ hSame) ?_) ?_).symm
      · intro hBye
        refine hElse feeder hFeeder .a ?_
        rw [Bool.eq_false_iff, ne_eq, feeds_iff_reads, hWired.bye feeder hFeeder hBye]
        nofun
      · intro hFeederBout hWinner
        obtain ⟨f, hf⟩ := Option.ne_none_iff_exists'.mp hWinner
        obtain ⟨r, hr, hDone, -⟩ := exists_row_of_boutWinner hFeederBout hf
        exact hSides feeder hFeeder (Or.inr ⟨r, hr, hDone⟩)
  told k hk := by
    have hNe : k ≠ slot.selfRef := fun hEq => hNew (hEq ▸ hk)
    obtain ⟨r, hr, hDone⟩ := h.told k ((hHanded k hNe).mp hk)
    exact ⟨r, (hKeeps k hNe r hDone).mpr hr, hDone⟩
  known slot' hSlot' r hr hDone := by
    by_cases hSame : slot'.selfRef = slot.selfRef
    · obtain rfl := eq_of_selfRef hWired.nodup hSlot' hSlot hSame
      rw [hRow] at hr
      obtain rfl := Option.some.inj hr
      exact hMay.congr (hSides slot' hSlot (Or.inl rfl))
    · have hBefore := (hKeeps _ hSame r hDone).mp hr
      exact (h.known slot' hSlot' r hBefore hDone).congr
        (hSides slot' hSlot' (Or.inr ⟨r, hBefore, hDone⟩))

theorem Settled.complete (h : Settled phase entrant handed s) (hWired : Wired phase)
    (hSlot : slot ∈ phase.slots) (hBout : slot.isBye = false)
    (hRow : s.row slot.selfRef = some row) (hOpen : row.status ≠ .completed) {winner : Option F}
    (hMay : MayWin s slot winner) :
    Settled phase entrant handed (s.setRow slot.selfRef (some (completedRow row winner))) := by
  have hNew : slot.selfRef ∉ handed := by
    intro hHanded
    obtain ⟨r, hr, hDone⟩ := h.told _ hHanded
    rw [hRow] at hr
    exact hOpen (Option.some.inj hr ▸ hDone)
  refine h.of_result hWired hSlot hBout hMay (by simp; rfl) (fun k hNe r _ => ?_)
    (fun slot' hSlot' side hFed => ?_) (fun _ _ _ _ => rfl) (fun _ _ _ _ => rfl) hNew
    (fun _ _ => Iff.rfl)
  · rw [setRow_row, if_neg hNe]
  · rw [setRow_side, h.fed slot' hSlot' slot hSlot side hFed, fedValue_of_not_handed hBout hNew]

/-- None of the bouts that this one feeds has been fought. -/
def NoneFought (phase : BracketPhase κ) (s : BracketState κ F) (self : κ) : Prop :=
  ∀ ds ∈ phase.downstreamSlots self, ∀ row, s.row ds.selfRef = some row → row.hasStarted = false

omit [DecidableEq F] in
/-- A completed bout is none of those that this one feeds. -/
theorem NoneFought.not_mem {self k : κ} (h : NoneFought phase s self) (hRow : s.row k = some row)
    (hDone : row.status = .completed) :
    k ∉ (phase.downstreamSlots self).map PhaseSlot.selfRef := by
  intro hMem
  obtain ⟨ds, hds, rfl⟩ := List.mem_map.mp hMem
  exact Bool.noConfusion ((hasStarted_of_completed hDone).symm.trans (h ds hds row hRow))

omit [DecidableEq F] in
theorem takenBack_row (hRow : s.row slot.selfRef = some row) (hDone : row.status = .completed)
    (hUnfought : NoneFought phase s slot.selfRef) {winner : Option F} :
    (clearFedBouts phase slot.selfRef
      (s.setRow slot.selfRef (some (completedRow row winner)))).row slot.selfRef =
      some (completedRow row winner) := by
  rw [clearFedBouts_row, if_neg (hUnfought.not_mem hRow hDone), setRow_row, if_pos rfl]

/-- The new result on the row, and what the old one sent on taken back. -/
theorem Settled.takenBack (h : Settled phase entrant handed s) (hWired : Wired phase)
    (hSlot : slot ∈ phase.slots) (hBout : slot.isBye = false)
    (hRow : s.row slot.selfRef = some row) (hDone : row.status = .completed)
    (hUnfought : NoneFought phase s slot.selfRef) {winner : Option F}
    (hMay : MayWin s slot winner) :
    Settled phase entrant (handed.filter (· ≠ slot.selfRef))
      (clearFedBouts phase slot.selfRef
        (s.setRow slot.selfRef (some (completedRow row winner)))) := by
  have hSide : ∀ slot' ∈ phase.slots, ∀ side,
      (clearFedBouts phase slot.selfRef
        (s.setRow slot.selfRef (some (completedRow row winner)))).side slot'.selfRef side =
        if feeds slot.selfRef (slot'.source side) then none else s.side slot'.selfRef side := by
    intro slot' hSlot' side
    rw [clearFedBouts_side, clearFedSides_side hWired.nodup hSlot']
    rfl
  refine h.of_result hWired hSlot hBout hMay (takenBack_row hRow hDone hUnfought) ?_ ?_ ?_ ?_
    (by simp) (fun k hNe => by simp [hNe])
  · intro k hNe r hStatus
    rw [clearFedBouts_row, setRow_row, if_neg hNe]
    split_ifs with hFed
    · refine ⟨fun hr => ?_, fun hr => absurd hFed (hUnfought.not_mem hr hStatus)⟩
      obtain ⟨r', hr', rfl⟩ := Option.map_eq_some_iff.mp hr
      exact absurd hFed (hUnfought.not_mem hr' hStatus)
    · exact Iff.rfl
  · intro slot' hSlot' side hFed
    rw [hSide slot' hSlot' side, if_pos hFed]
  · intro slot' hSlot' side hFed
    rw [hSide slot' hSlot' side, hFed]
    rfl
  · intro slot' hSlot' hWhich side
    rw [hSide slot' hSlot' side, if_neg]
    intro hFed
    have hMem : slot'.selfRef ∈ (phase.downstreamSlots slot.selfRef).map PhaseSlot.selfRef :=
      List.mem_map_of_mem (mem_downstreamSlots.mpr ⟨hSlot', side, hFed⟩)
    rcases hWhich with rfl | ⟨r, hr, hStatus⟩
    · exact hUnfought.not_mem hRow hDone hMem
    · exact hUnfought.not_mem hr hStatus hMem

end Values

/-! ## A bracket before its first bout -/

section Populated

variable {phase : BracketPhase κ} {entrant : ℕ → F} {slot : PhaseSlot κ} {side : Side}

theorem slot?_selfRef (hNodup : (phase.slots.map PhaseSlot.selfRef).Nodup)
    (hSlot : slot ∈ phase.slots) : phase.slot? slot.selfRef = some slot := by
  cases hFind : phase.slot? slot.selfRef with
  | none =>
    have hNot := List.find?_eq_none.mp hFind slot hSlot
    simp at hNot
  | some found =>
    have hKey := List.find?_some hFind
    rw [eq_of_selfRef hNodup (List.mem_of_find?_eq_some hFind) hSlot (of_decide_eq_true hKey)]

omit [DecidableEq F] in
theorem seeded_side (hNodup : (phase.slots.map PhaseSlot.selfRef).Nodup)
    (hSlot : slot ∈ phase.slots) :
    (seeded phase entrant).side slot.selfRef side = seededSide entrant slot side := by
  rw [seeded]
  dsimp only
  rw [slot?_selfRef hNodup hSlot]
  rfl

/-- What the byes of a pass send to a side. -/
def byeValue (byes : List (PhaseSlot κ)) (s : BracketState κ F) (source : Feed κ) : Option F :=
  byes.findSome? fun bye =>
    if source = .winnerOf bye.selfRef then s.side bye.selfRef .a else none

omit [DecidableEq F] in
theorem byeValue_cons (bye : PhaseSlot κ) (byes : List (PhaseSlot κ)) (s : BracketState κ F)
    (source : Feed κ) : byeValue (bye :: byes) s source =
      (if source = .winnerOf bye.selfRef then s.side bye.selfRef .a else none).or
        (byeValue byes s source) := by
  rw [byeValue, List.findSome?_cons]
  split
  · rename_i f hf
    rw [hf, Option.some_or]
  · rename_i hf
    rw [hf, Option.none_or, byeValue]

omit [DecidableEq F] in
theorem foldl_bye_side (hNodup : (phase.slots.map PhaseSlot.selfRef).Nodup)
    (hSlot : slot ∈ phase.slots) (byes : List (PhaseSlot κ)) (s t : BracketState κ F) :
    (byes.foldl (advanceBye phase s) t).side slot.selfRef side =
      (t.side slot.selfRef side).or (byeValue byes s (slot.source side)) := by
  induction byes generalizing t with
  | nil => exact Option.or_none.symm
  | cons bye byes ih =>
    rw [List.foldl_cons, ih, byeValue_cons, ← Option.or_assoc]
    congr 1
    rw [advanceBye]
    cases hBye : s.side bye.selfRef .a with
    | none => simp
    | some f =>
      dsimp only
      rw [advanceFromSlot_side hNodup hSlot, resolveSide_eq_or]
      congr 1
      simp [resolveSide]

omit [DecidableEq F] in
theorem populated_side (hNodup : (phase.slots.map PhaseSlot.selfRef).Nodup)
    (hSlot : slot ∈ phase.slots) :
    (populated phase entrant).side slot.selfRef side =
      (seededSide entrant slot side).or
        (byeValue (phase.slots.filter (·.isBye)) (seeded phase entrant) (slot.source side)) := by
  rw [populated, advanceByeSlots, foldl_bye_side hNodup hSlot, seeded_side hNodup hSlot]

omit [DecidableEq F] in
theorem exists_of_byeValue {byes : List (PhaseSlot κ)} {s : BracketState κ F} {source : Feed κ}
    {f : F} (h : byeValue byes s source = some f) :
    ∃ bye ∈ byes, source = .winnerOf bye.selfRef ∧ s.side bye.selfRef .a = some f := by
  obtain ⟨bye, hMem, hValue⟩ := List.exists_of_findSome?_eq_some h
  split at hValue
  · rename_i hSource
    exact ⟨bye, hMem, hSource, hValue⟩
  · cases hValue

omit [DecidableEq F] in
/-- A side that waits for a slot gets the fighter of its bye. -/
theorem byeValue_of_feeds (hNodup : (phase.slots.map PhaseSlot.selfRef).Nodup)
    {feeder : PhaseSlot κ} (hFeeder : feeder ∈ phase.slots) {source : Feed κ}
    (hFed : feeds feeder.selfRef source = true) (s : BracketState κ F) :
    byeValue (phase.slots.filter (·.isBye)) s source =
      if feeder.isBye ∧ source = .winnerOf feeder.selfRef then s.side feeder.selfRef .a
      else none := by
  have hOnly : ∀ f, byeValue (phase.slots.filter (·.isBye)) s source = some f →
      (feeder.isBye = true ∧ source = .winnerOf feeder.selfRef) ∧
        s.side feeder.selfRef .a = some f := by
    intro f hf
    obtain ⟨bye, hMem, rfl, hSide⟩ := exists_of_byeValue hf
    obtain ⟨hBye, hIs⟩ := List.mem_filter.mp hMem
    have hKey : feeder.selfRef = bye.selfRef := eq_of_feeds hFed (by simp [feeds])
    obtain rfl := eq_of_selfRef hNodup hFeeder hBye hKey
    exact ⟨⟨hIs, rfl⟩, hSide⟩
  cases hValue : byeValue (phase.slots.filter (·.isBye)) s source with
  | some f =>
    obtain ⟨hBye, hSide⟩ := hOnly f hValue
    rw [if_pos hBye, hSide]
  | none =>
    split_ifs with hBye
    · have hNone := List.findSome?_eq_none_iff.mp hValue feeder
        (List.mem_filter.mpr ⟨hFeeder, hBye.1⟩)
      rw [if_pos hBye.2] at hNone
      exact hNone.symm
    · rfl

omit [DecidableEq F] in
theorem seeded_row_status {k : κ} {row : BoutRow F}
    (hRow : (seeded phase entrant).row k = some row) : row.status = .scheduled := by
  obtain ⟨slot, -, hRow⟩ := Option.bind_eq_some_iff.mp hRow
  split at hRow
  · cases hRow
  · exact Option.some.inj hRow ▸ rfl

omit [DecidableEq F] in
theorem populated_keeps : Keeps (seeded phase entrant) (populated phase entrant) := by
  rw [populated, advanceByeSlots]
  refine .foldl (fun t ds _ => ?_) _
  rw [advanceBye]
  split
  · exact advanceFromSlot_keeps
  · exact .of_row_eq rfl

omit [DecidableEq F] in
theorem populated_side_of_reads (hNodup : (phase.slots.map PhaseSlot.selfRef).Nodup)
    (hSlot : slot ∈ phase.slots) (hReads : (slot.source side).reads? = none) :
    (populated phase entrant).side slot.selfRef side = seededSide entrant slot side := by
  rw [populated_side hNodup hSlot]
  cases hValue : byeValue (phase.slots.filter (·.isBye)) (seeded phase entrant)
      (slot.source side) with
  | none => exact Option.or_none
  | some f =>
    obtain ⟨bye, -, hSource, -⟩ := exists_of_byeValue hValue
    rw [hSource] at hReads
    cases hReads

/-- A bracket that was just populated: the seeds are entered, and the byes sent on. -/
theorem settled_populated (hWired : Wired phase) :
    Settled phase entrant [] (populated phase entrant) where
  entered slot hSlot side hReads := populated_side_of_reads hWired.nodup hSlot hReads
  fed slot hSlot feeder hFeeder side hFed := by
    have hSeed : seededSide entrant slot side = none := by
      rw [seededSide]
      rw [feeds_iff_reads] at hFed
      cases hSource : slot.source side with
      | seed n =>
        rw [hSource] at hFed
        cases hFed
      | bye => rfl
      | winnerOf k => rfl
      | loserOf k => rfl
    rw [populated_side hWired.nodup hSlot, hSeed, Option.none_or,
      byeValue_of_feeds hWired.nodup hFeeder hFed, seeded_side hWired.nodup hFeeder]
    cases hBye : feeder.isBye with
    | false => rw [if_neg (by simp), fedValue_of_not_handed hBye (by simp)]
    | true =>
      have hSide : (populated phase entrant).side feeder.selfRef .a =
          seededSide entrant feeder .a :=
        populated_side_of_reads hWired.nodup hFeeder (hWired.bye feeder hFeeder hBye .a)
      simp only [fedValue, sent, hBye, Bool.true_or, if_true, denoted, boutWinner, boutLoser,
        hSide, true_and]
  told _ hk := (List.not_mem_nil hk).elim
  known slot _ row hRow hDone := by
    have hSeeded := (populated_keeps _ row hDone).mp hRow
    rw [seeded_row_status hSeeded] at hDone
    cases hDone

end Populated

/-! ## The runs -/

/-- The states a bracket comes to, with the bouts that were told to it last. -/
inductive Reached (phase : BracketPhase κ) (entrant : ℕ → F) : List κ → BracketState κ F → Prop
  | populated : Reached phase entrant [] (populated phase entrant)
  | start {handed : List κ} {s : BracketState κ F} {slot : PhaseSlot κ} {row : BoutRow F}
      (hReached : Reached phase entrant handed s) (hRow : s.row slot.selfRef = some row)
      (hOpen : row.status ≠ .completed) :
      Reached phase entrant handed (s.setRow slot.selfRef (some (startedRow row)))
  | complete {handed : List κ} {s : BracketState κ F} {slot : PhaseSlot κ} {row : BoutRow F}
      {winner : Option F} (hReached : Reached phase entrant handed s) (hSlot : slot ∈ phase.slots)
      (hBout : slot.isBye = false) (hRow : s.row slot.selfRef = some row)
      (hOpen : row.status ≠ .completed) (hMay : MayWin s slot winner) :
      Reached phase entrant handed (s.setRow slot.selfRef (some (completedRow row winner)))
  | told {handed : List κ} {s : BracketState κ F} {slot : PhaseSlot κ} {row : BoutRow F}
      (hReached : Reached phase entrant handed s) (hSlot : slot ∈ phase.slots)
      (hBout : slot.isBye = false) (hRow : s.row slot.selfRef = some row)
      (hDone : row.status = .completed) :
      Reached phase entrant (slot.selfRef :: handed) (onMatchCompleted phase slot s)
  | changed {handed : List κ} {s : BracketState κ F} {slot : PhaseSlot κ} {row : BoutRow F}
      {winner : Option F} (hReached : Reached phase entrant handed s) (hSlot : slot ∈ phase.slots)
      (hBout : slot.isBye = false) (hRow : s.row slot.selfRef = some row)
      (hDone : row.status = .completed) (hUnfought : NoneFought phase s slot.selfRef)
      (hMay : MayWin s slot winner) :
      Reached phase entrant (slot.selfRef :: handed.filter (· ≠ slot.selfRef))
        (onResultChanged phase slot false
          (s.setRow slot.selfRef (some (completedRow row winner))))

theorem Reached.settled {phase : BracketPhase κ} {entrant : ℕ → F} {handed : List κ}
    {s : BracketState κ F} (h : Reached phase entrant handed s) (hWired : Wired phase) :
    Settled phase entrant handed s := by
  induction h with
  | populated => exact settled_populated hWired
  | start _ hRow hOpen ih => exact ih.start hWired hRow hOpen
  | complete _ hSlot hBout hRow hOpen hMay ih =>
    exact ih.complete hWired hSlot hBout hRow hOpen hMay
  | told _ hSlot hBout hRow hDone ih => exact ih.hand hWired hSlot hBout hRow hDone
  | changed _ hSlot hBout hRow hDone hUnfought hMay ih =>
    exact (ih.takenBack hWired hSlot hBout hRow hDone hUnfought hMay).hand hWired hSlot hBout
      (takenBack_row hRow hDone hUnfought) rfl

end MyClash.Bracket.Advance
