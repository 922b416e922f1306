import MyClash.Bracket.AdvanceRun
import MyClash.Bracket.DoubleElimFinish
import MyClash.Bracket.SingleElimLaw

/-!
# The advancement of the generated brackets

Both generators give phases whose references tell the slots apart. Once every completed bout was
told, in any order, a side holds the fighter its source denotes; the reset of a double elimination
is filled when the losers-bracket entrant won the grand final, and not before.
-/

namespace MyClash.Bracket.Advance

open Knockout

universe u v

variable {κ : Type u} {F : Type v} [DecidableEq κ] [DecidableEq F]

def AllTold (phase : BracketPhase κ) (handed : List κ) (s : BracketState κ F) : Prop :=
  ∀ slot ∈ phase.slots, slot.isBye = false → ∀ row, s.row slot.selfRef = some row →
    row.status = .completed → slot.selfRef ∈ handed

def fighterOf (phase : BracketPhase κ) (entrant : ℕ → F) (s : BracketState κ F) :
    Feed κ → Option F
  | .seed n => some (entrant n)
  | .bye => none
  | .winnerOf k => (phase.slot? k).bind (boutWinner s)
  | .loserOf k => (phase.slot? k).bind (boutLoser s)

/-- The entrant of side B won, who is not the one of side A. -/
def LosersEntrantWon (s : BracketState κ F) (grandFinal : PhaseSlot κ) : Prop :=
  ∃ f, boutWinner s grandFinal = some f ∧ s.side grandFinal.selfRef .b = some f ∧
    s.side grandFinal.selfRef .a ≠ some f

structure AdvanceLaw (phase : BracketPhase κ) (text : κ → String) (entrant : ℕ → F) : Prop where
  texts : (phase.slots.map fun slot => text slot.selfRef).Nodup
  refs : ∀ slot ∈ phase.slots, ∀ side k, (slot.source side).reads? = some k →
    k ∈ phase.slots.map PhaseSlot.selfRef
  sides : ∀ handed s, Reached phase entrant handed s → AllTold phase handed s →
    ∀ slot ∈ phase.slots, phase.isReset slot = false → ∀ side,
      s.side slot.selfRef side = fighterOf phase entrant s (slot.source side)
  reset : ∀ handed s, Reached phase entrant handed s → AllTold phase handed s →
    ∀ slot ∈ phase.slots, phase.isReset slot = true → ∃ grandFinal ∈ phase.slots,
      phase.isGrandFinalWithReset grandFinal = true ∧ ∀ side,
        (LosersEntrantWon s grandFinal → (s.side slot.selfRef side).isSome ∧
          s.side slot.selfRef side = fighterOf phase entrant s (slot.source side)) ∧
        (¬LosersEntrantWon s grandFinal → s.side slot.selfRef side = none)

/-- A wired phase of which only the reset waits for the grand final, for both its fighters. -/
structure Joined (phase : BracketPhase κ) : Prop where
  wired : Wired phase
  refs : ∀ slot ∈ phase.slots, ∀ side k, (slot.source side).reads? = some k →
    k ∈ phase.slots.map PhaseSlot.selfRef
  plain : ∀ slot ∈ phase.slots, phase.isReset slot = false → ∀ feeder ∈ phase.slots, ∀ side,
    feeds feeder.selfRef (slot.source side) = true → phase.isGrandFinalWithReset feeder = false
  reset : ∀ slot ∈ phase.slots, phase.isReset slot = true → ∃ grandFinal ∈ phase.slots,
    phase.isGrandFinalWithReset grandFinal = true ∧ grandFinal.isBye = false ∧
      slot.sourceA = .loserOf grandFinal.selfRef ∧ slot.sourceB = .winnerOf grandFinal.selfRef

section Law

variable {phase : BracketPhase κ} {entrant : ℕ → F} {handed : List κ} {s : BracketState κ F}
  {slot feeder : PhaseSlot κ} {source : Feed κ} {side : Side}

theorem fighterOf_eq_denoted (hNodup : (phase.slots.map PhaseSlot.selfRef).Nodup)
    (hFeeder : feeder ∈ phase.slots) (hFed : feeds feeder.selfRef source = true) :
    fighterOf phase entrant s source = denoted s feeder source := by
  simp only [feeds, Bool.or_eq_true, decide_eq_true_eq] at hFed
  rcases hFed with rfl | rfl
  · rw [fighterOf, slot?_selfRef hNodup hFeeder, Option.bind_some, denoted, if_pos rfl]
  · rw [fighterOf, slot?_selfRef hNodup hFeeder, Option.bind_some, denoted, if_neg (by rintro ⟨⟩)]

theorem fighterOf_of_reads (hReads : (slot.source side).reads? = none) :
    fighterOf phase entrant s (slot.source side) = seededSide entrant slot side := by
  rw [seededSide]
  cases hSource : slot.source side with
  | seed n => rfl
  | bye => rfl
  | winnerOf k =>
    rw [hSource] at hReads
    cases hReads
  | loserOf k =>
    rw [hSource] at hReads
    cases hReads

/-- A side that waits for a bout, once all completed bouts were told. -/
theorem Settled.side_of_told (h : Settled phase entrant handed s) (hAll : AllTold phase handed s)
    (hSlot : slot ∈ phase.slots) (hFeeder : feeder ∈ phase.slots)
    (hFed : feeds feeder.selfRef (slot.source side) = true) :
    s.side slot.selfRef side =
      if feeder.isBye = false ∧ ended phase s feeder = true then none
      else denoted s feeder (slot.source side) := by
  rw [h.fed slot hSlot feeder hFeeder side hFed, fedValue, sent]
  cases hBye : feeder.isBye with
  | true => simp
  | false =>
    cases hWinner : boutWinner s feeder with
    | none => simp [denoted_of_none hWinner]
    | some f =>
      obtain ⟨row, hRow, hDone, -⟩ := exists_row_of_boutWinner hBye hWinner
      have hTold := hAll feeder hFeeder hBye row hRow hDone
      cases ended phase s feeder <;> simp [hTold]

omit [DecidableEq κ] in
theorem ended_of_plain (hPlain : phase.isGrandFinalWithReset feeder = false) :
    ended phase s feeder = false := by
  rw [ended, BracketPhase.grandFinalEndsBracket, hPlain]
  rfl

theorem exists_feeder (hRefs : ∀ slot ∈ phase.slots, ∀ side k, (slot.source side).reads? = some k →
      k ∈ phase.slots.map PhaseSlot.selfRef)
    (hSlot : slot ∈ phase.slots) {k : κ} (hReads : (slot.source side).reads? = some k) :
    ∃ feeder ∈ phase.slots, feeds feeder.selfRef (slot.source side) = true := by
  obtain ⟨feeder, hFeeder, rfl⟩ := List.mem_map.mp (hRefs slot hSlot side k hReads)
  exact ⟨feeder, hFeeder, feeds_iff_reads.mpr hReads⟩

theorem Settled.side_eq (h : Settled phase entrant handed s) (hJoined : Joined phase)
    (hAll : AllTold phase handed s) (hSlot : slot ∈ phase.slots)
    (hPlain : phase.isReset slot = false) :
    s.side slot.selfRef side = fighterOf phase entrant s (slot.source side) := by
  cases hReads : (slot.source side).reads? with
  | none => rw [h.entered slot hSlot side hReads, fighterOf_of_reads hReads]
  | some k =>
    obtain ⟨feeder, hFeeder, hFed⟩ := exists_feeder hJoined.refs hSlot hReads
    have hGoesOn := ended_of_plain (s := s) (hJoined.plain slot hSlot hPlain feeder hFeeder side hFed)
    rw [h.side_of_told hAll hSlot hFeeder hFed, if_neg fun hEnds => by simp [hGoesOn] at hEnds,
      fighterOf_eq_denoted hJoined.wired.nodup hFeeder hFed]

/-- Both fighters of a decided bout are known. -/
theorem Settled.known_of_winner (h : Settled phase entrant handed s) (hSlot : slot ∈ phase.slots)
    (hBout : slot.isBye = false) {f : F} (hWinner : boutWinner s slot = some f) :
    MayWin s slot (some f) := by
  obtain ⟨row, hRow, hDone, hRowWinner⟩ := exists_row_of_boutWinner hBout hWinner
  exact hRowWinner ▸ h.known slot hSlot row hRow hDone

theorem Settled.reset_side (h : Settled phase entrant handed s) (hJoined : Joined phase)
    (hAll : AllTold phase handed s) (hSlot : slot ∈ phase.slots)
    (hReset : phase.isReset slot = true) :
    ∃ grandFinal ∈ phase.slots, phase.isGrandFinalWithReset grandFinal = true ∧ ∀ side,
      (LosersEntrantWon s grandFinal → (s.side slot.selfRef side).isSome ∧
        s.side slot.selfRef side = fighterOf phase entrant s (slot.source side)) ∧
      (¬LosersEntrantWon s grandFinal → s.side slot.selfRef side = none) := by
  obtain ⟨grandFinal, hGf, hIs, hBout, hA, hB⟩ := hJoined.reset slot hSlot hReset
  refine ⟨grandFinal, hGf, hIs, fun side => ?_⟩
  have hFed : feeds grandFinal.selfRef (slot.source side) = true := by
    cases side
    · simp [PhaseSlot.source, feeds, hA]
    · simp [PhaseSlot.source, feeds, hB]
  have hSide := h.side_of_told hAll hSlot hGf hFed
  have hEnded : ended phase s grandFinal = true ↔ ∃ f, boutWinner s grandFinal = some f ∧
      s.side grandFinal.selfRef .a = some f := by
    rw [ended, BracketPhase.grandFinalEndsBracket, hIs]
    cases boutWinner s grandFinal with
    | none => simp
    | some f => simp [eq_comm]
  rw [fighterOf_eq_denoted hJoined.wired.nodup hGf hFed, hSide]
  constructor
  · rintro ⟨f, hWinner, hSideB, hSideA⟩
    have hNot : ¬(grandFinal.isBye = false ∧ ended phase s grandFinal = true) := by
      rintro ⟨-, hEnds⟩
      obtain ⟨g, hOther, hSame⟩ := hEnded.mp hEnds
      rw [hWinner] at hOther
      obtain rfl := Option.some.inj hOther
      exact hSideA hSame
    rw [if_neg hNot]
    refine ⟨?_, rfl⟩
    obtain ⟨g, hg⟩ := Option.isSome_iff_exists.mp
      (h.known_of_winner hGf hBout hWinner).a
    have hLoser : boutLoser s grandFinal = some g := by
      rw [boutLoser, hBout, if_neg Bool.false_ne_true, hWinner, Option.bind_some, resolveLoser,
        if_neg fun hEq => hSideA hEq.symm, if_pos hSideB.symm, hg]
    rw [denoted]
    split
    · rw [hWinner]
      rfl
    · rw [hLoser]
      rfl
  · intro hNot
    split
    · rfl
    · rename_i hGoesOn
      refine denoted_of_none (Option.eq_none_iff_forall_ne_some.mpr fun f hWinner => ?_)
      rcases (h.known_of_winner hGf hBout hWinner).winner with hNone | hSideA | hSideB
      · cases hNone
      · exact hGoesOn ⟨hBout, hEnded.mpr ⟨f, hWinner, hSideA.symm⟩⟩
      · refine hNot ⟨f, hWinner, hSideB.symm, fun hSideA => ?_⟩
        exact hGoesOn ⟨hBout, hEnded.mpr ⟨f, hWinner, hSideA⟩⟩

theorem Joined.law (hJoined : Joined phase) {text : κ → String} (hText : Function.Injective text)
    (entrant : ℕ → F) : AdvanceLaw phase text entrant where
  texts := by
    have hTexts := hJoined.wired.nodup.map hText
    rwa [List.map_map] at hTexts
  refs := hJoined.refs
  sides handed s hReached hAll slot hSlot hPlain side :=
    (hReached.settled hJoined.wired).side_eq hJoined hAll hSlot hPlain
  reset handed s hReached hAll slot hSlot hReset :=
    (hReached.settled hJoined.wired).reset_side hJoined hAll hSlot hReset

end Law

/-! ## The phases of the two generators -/

section SingleElim

variable {b : SingleElimBracket} {legacy playIn : Bool} {fighterCount byeSeedCount m k : ℕ}

theorem seatSource_bye {seed : ℕ}
    (h : (seatSource legacy playIn fighterCount byeSeedCount seed).isBye = true) :
    legacy = true := by
  rw [seatSource] at h
  split at h
  next hBye => exact (Bool.and_eq_true_iff.mp hBye).1
  next => split at h <;> cases h

/-- Byes and a play-in do not go together, so a bye waits for no bout. -/
theorem bye_reads (hMode : legacy = true → playIn = false) {s : BracketSlot}
    (hs : s ∈ singleElimSlots legacy playIn fighterCount (2 ^ (k + 1)) byeSeedCount m (k + 1))
    (hBye : s.awaySource.isBye = true) :
    s.homeSource.reads? = none ∧ s.awaySource.reads? = none := by
  rw [singleElimSlots, List.mem_append, List.mem_append, List.mem_append] at hs
  rcases hs with ((hs | hs) | hs) | hs
  · obtain ⟨pos, -, rfl⟩ := List.mem_map.mp hs
    cases hBye
  · obtain ⟨⟨pair, pos⟩, -, rfl⟩ := List.mem_map.mp hs
    have hNoPlayIn := hMode (seatSource_bye hBye)
    have hSeat : ∀ seed, (seatSource legacy playIn fighterCount byeSeedCount seed).reads? = none := by
      intro seed
      rw [seatSource, hNoPlayIn]
      split <;> rfl
    exact ⟨hSeat pair.1, hSeat pair.2⟩
  · obtain ⟨round, -, hs⟩ := List.mem_flatMap.mp hs
    obtain ⟨pos, -, rfl⟩ := List.mem_map.mp hs
    cases hBye
  · obtain ⟨-, rfl⟩ := mem_bronzeSlots hs
    cases hBye

theorem ref_mem_round {round position : ℕ} (hRound : 1 ≤ round ∧ round ≤ k + 1)
    (hPosition : 1 ≤ position ∧ position ≤ 2 ^ (k + 1 - round)) :
    ⟨round, position⟩ ∈ (singleElimSlots legacy playIn fighterCount (2 ^ (k + 1)) byeSeedCount m
      (k + 1)).map BracketSlot.ref := by
  rw [singleElimSlots, List.map_append, List.map_append, List.map_append, map_ref_playIn,
    map_ref_firstRound, map_ref_winnerSlots]
  refine List.mem_append_left _ ?_
  rcases Nat.eq_or_lt_of_le hRound.1 with rfl | hTwo
  · refine List.mem_append_left _ (List.mem_append_right _ ?_)
    rw [Nat.add_sub_cancel] at hPosition
    exact List.mem_map.mpr ⟨position, List.mem_range'_1.mpr (by omega), rfl⟩
  · refine List.mem_append_right _ (List.mem_flatMap.mpr ⟨round, ?_, ?_⟩)
    · exact List.mem_range'_1.mpr (by omega)
    · rw [Nat.pow_div hRound.2 (by decide)]
      exact List.mem_map.mpr ⟨position, List.mem_range'_1.mpr (by omega), rfl⟩

theorem ref_mem_playIn {position : ℕ} (hPosition : 1 ≤ position ∧ position ≤ m) :
    ⟨0, position⟩ ∈ (singleElimSlots legacy playIn fighterCount (2 ^ (k + 1)) byeSeedCount m
      (k + 1)).map BracketSlot.ref := by
  rw [singleElimSlots, List.map_append, List.map_append, List.map_append, map_ref_playIn]
  refine List.mem_append_left _ (List.mem_append_left _ (List.mem_append_left _ ?_))
  exact List.mem_map.mpr ⟨position, List.mem_range'_1.mpr (by omega), rfl⟩

theorem read_mem (hPlayIn : playIn = true → byeSeedCount + m = 2 ^ (k + 1)) {s : BracketSlot}
    (hs : s ∈ singleElimSlots legacy playIn fighterCount (2 ^ (k + 1)) byeSeedCount m (k + 1))
    {x : Source} (hx : x ∈ s.node.sides) {r : SlotRef} (hr : x.reads? = some r) :
    r ∈ (singleElimSlots legacy playIn fighterCount (2 ^ (k + 1)) byeSeedCount m
      (k + 1)).map BracketSlot.ref := by
  rw [singleElimSlots, List.mem_append, List.mem_append, List.mem_append] at hs
  rcases hs with ((hs | hs) | hs) | hs
  · obtain ⟨pos, -, rfl⟩ := List.mem_map.mp hs
    rcases List.mem_pair.mp hx with rfl | rfl <;> cases hr
  · obtain ⟨⟨pair, pos⟩, hEntry, rfl⟩ := List.mem_map.mp hs
    obtain ⟨hPos, hTop, hAway⟩ := mem_buildSeedingOrder (List.fst_mem_of_mem_zipIdx hEntry)
    have hHalf : 2 ^ (k + 1) = 2 ^ k * 2 := Nat.pow_succ 2 k
    simp only at hPos hTop hAway
    obtain ⟨seed, hSeed, rfl⟩ : ∃ seed, seed ≤ 2 ^ (k + 1) ∧
        x = seatSource legacy playIn fighterCount byeSeedCount seed := by
      rcases List.mem_pair.mp hx with rfl | rfl
      · exact ⟨pair.1, by omega, rfl⟩
      · exact ⟨pair.2, by omega, rfl⟩
    rw [seatSource] at hr
    split at hr
    · cases hr
    · split at hr
      next hLow =>
        rw [Bool.and_eq_true, decide_eq_true_eq] at hLow
        have hSum := hPlayIn hLow.1
        cases hr
        exact ref_mem_playIn (by omega)
      next => cases hr
  · obtain ⟨round, hRound, hs⟩ := List.mem_flatMap.mp hs
    obtain ⟨pos, hPos, rfl⟩ := List.mem_map.mp hs
    rw [List.mem_range'_1] at hRound hPos
    rw [Nat.pow_div (by omega) (by decide)] at hPos
    have hTwice : 2 ^ (k + 1 - (round - 1)) = 2 ^ (k + 1 - round) * 2 := by
      rw [← Nat.pow_succ]
      congr 1
      omega
    rcases List.mem_pair.mp hx with rfl | rfl
    · cases hr
      exact ref_mem_round (by omega) (by omega)
    · cases hr
      exact ref_mem_round (by omega) (by omega)
  · obtain ⟨hk, rfl⟩ := mem_bronzeSlots hs
    have hLast : 2 ^ (k + 1 - k) = 2 := by rw [Nat.add_sub_cancel_left, Nat.pow_one]
    rcases List.mem_pair.mp hx with rfl | rfl
    · cases hr
      exact ref_mem_round (by omega) (by omega)
    · cases hr
      exact ref_mem_round (by omega) (by omega)

theorem source_mem_sides {s : BracketSlot} (side : Side) :
    (PhaseSlot.mk s.ref s.round s.homeSource s.awaySource).source side ∈ s.node.sides := by
  cases side
  · exact List.mem_cons_self
  · exact List.mem_cons_of_mem _ List.mem_cons_self

theorem joined_of_slots (hMode : legacy = true → playIn = false)
    (hPlayIn : playIn = true → byeSeedCount + m = 2 ^ (k + 1))
    (hSlots : b.slots = singleElimSlots legacy playIn fighterCount (2 ^ (k + 1)) byeSeedCount m
      (k + 1)) : Joined (singleElimPhase b) where
  wired :=
    { nodup := by
        have hOrdered : Ordered b.slots := by
          rw [hSlots]
          exact ordered_singleElimSlots
        have hNodup := hOrdered.ranked.nodup
        rw [List.map_map] at hNodup
        rw [singleElimPhase, List.map_map]
        exact hNodup
      autoAdvance := rfl
      bye := by
        intro slot hSlot hBye side
        obtain ⟨s, hs, rfl⟩ := List.mem_map.mp hSlot
        rw [hSlots] at hs
        have hReads := bye_reads hMode hs hBye
        cases side
        · exact hReads.1
        · exact hReads.2 }
  refs slot hSlot side r hr := by
    obtain ⟨s, hs, rfl⟩ := List.mem_map.mp hSlot
    rw [hSlots] at hs
    have hMem := read_mem hPlayIn hs (source_mem_sides side) hr
    rw [← hSlots] at hMem
    rw [singleElimPhase, List.map_map]
    exact hMem
  plain _ _ _ _ _ _ _ := rfl
  reset _ _ hReset := by cases hReset

theorem singleElimPhase_joined {size : Option ℕ} (h : singleElimBracket fighterCount size = .ok b) :
    Joined (singleElimPhase b) := by
  obtain ⟨-, -, k, -, ⟨-, -, hSlots⟩ | ⟨-, m, -, hFit, hSlots⟩⟩ := singleElimBracket_ok h
  · exact joined_of_slots (fun _ => rfl) nofun hSlots
  · refine joined_of_slots (fun hLegacy => ?_) (fun hPlayIn => ?_) hSlots
    · cases hLegacy
    · rw [if_pos (of_decide_eq_true hPlayIn), Nat.sub_add_cancel hFit]

end SingleElim

end MyClash.Bracket.Advance

namespace MyClash.Bracket.DoubleElim

open Knockout Advance

variable {shape : DoubleElimShape} {fighterCount surplus depth : ℕ}

theorem selfRef_eq_gf {b : DoubleElimBracket} {s : DoubleElimSlot} (h : b.selfRef s = .gf) :
    s.round = b.wbRounds + b.lbRounds + 1 := by
  rw [DoubleElimBracket.selfRef] at h
  split at h
  · cases h
  · split at h
    · cases h
    · split at h
      · assumption
      · cases h

theorem node_mem {b : DoubleElimBracket} {slot : PhaseSlot MatchRef}
    (hSlot : slot ∈ (doubleElimPhase b).slots) : slot.node ∈ b.nodes := by
  obtain ⟨s, hs, rfl⟩ := List.mem_map.mp hSlot
  exact List.mem_map_of_mem hs

theorem source_mem_node {slot : PhaseSlot MatchRef} (side : Side) :
    slot.source side ∈ slot.node.sides := by
  cases side
  · exact List.mem_cons_self
  · exact List.mem_cons_of_mem _ List.mem_cons_self

/-- Only the reset waits for the grand final. -/
theorem Sized.reads_gf (h : Sized shape fighterCount surplus depth) {n : Node MatchRef}
    (hn : n ∈ (ofShape shape).nodes) {x : MatchSource} (hx : x ∈ n.sides)
    (hr : x.reads? = some .gf) : n = ⟨.gfReset, .loserOf .gf, .winnerOf .gf⟩ := by
  have hRanked := h.ladder.ranked fighterCount surplus shape.grandFinalReset
  rw [← h.nodes] at hRanked
  have hLt : rank shape.wbRounds shape.lbRounds .gf < rank shape.wbRounds shape.lbRounds n.key := by
    rcases List.mem_pair.mp hx with rfl | rfl
    · exact hRanked.home_lt n hn _ hr
    · exact hRanked.away_lt n hn _ hr
  rw [h.nodes] at hn
  rcases List.mem_append.mp hn with hn | hn
  · rcases List.mem_append.mp hn with hn | hn
    · obtain ⟨round, position, hKey, hLe⟩ := wb_rank_le h.rounds_pos hn
      rw [hKey, rank, rank] at hLt
      omega
    · obtain ⟨k, position, -, hLe, rfl⟩ := mem_lbNodes hn
      simp only [rank] at hLt
      omega
  · obtain ⟨-, rfl | ⟨-, rfl⟩⟩ := mem_finalsNodes hn
    · exact absurd hLt (Nat.lt_irrefl _)
    · rfl

theorem selfRef_eq_gfReset {b : DoubleElimBracket} {s : DoubleElimSlot}
    (h : b.selfRef s = .gfReset) : b.wbRounds + b.lbRounds + 1 < s.round := by
  rw [DoubleElimBracket.selfRef] at h
  split at h
  · cases h
  · split at h
    · cases h
    · split at h
      · cases h
      · omega

theorem isReset_iff {slot : PhaseSlot MatchRef} :
    (doubleElimPhase (ofShape shape)).isReset slot = true ↔ shape.grandFinalReset = true ∧
      slot.round = shape.wbRounds + shape.lbRounds + 1 + 1 := by
  rw [BracketPhase.isReset, doubleElimPhase, ofShape]
  cases shape.grandFinalReset <;> simp [eq_comm]

theorem isGrandFinalWithReset_iff {slot : PhaseSlot MatchRef} :
    (doubleElimPhase (ofShape shape)).isGrandFinalWithReset slot = true ↔
      shape.grandFinalReset = true ∧ slot.round = shape.wbRounds + shape.lbRounds + 1 := by
  rw [BracketPhase.isGrandFinalWithReset, doubleElimPhase, ofShape]
  cases shape.grandFinalReset <;> simp [eq_comm]

theorem Sized.noBye (h : Sized shape fighterCount surplus depth) {slot : PhaseSlot MatchRef}
    (hSlot : slot ∈ (doubleElimPhase (ofShape shape)).slots) : slot.isBye = false := by
  have hNode := node_mem hSlot
  rw [h.nodes] at hNode
  exact (allNodes_noBye _ hNode).2

theorem Sized.refs_mem (h : Sized shape fighterCount surplus depth) {slot : PhaseSlot MatchRef}
    (hSlot : slot ∈ (doubleElimPhase (ofShape shape)).slots) (side : Side) {k : MatchRef}
    (hReads : (slot.source side).reads? = some k) :
    k ∈ (doubleElimPhase (ofShape shape)).slots.map PhaseSlot.selfRef := by
  have hSide : slot.source side ∈ (ofShape shape).sides :=
    List.mem_flatMap.mpr ⟨slot.node, node_mem hSlot, source_mem_node side⟩
  rw [doubleElimPhase, List.map_map]
  exact h.refs _ hSide k hReads

/-- The reset's slot is the one that waits for the grand final. -/
theorem Sized.reset_node (h : Sized shape fighterCount surplus depth) {n : Node MatchRef}
    (hn : n ∈ (ofShape shape).nodes) (hKey : n.key = .gfReset) :
    n = ⟨.gfReset, .loserOf .gf, .winnerOf .gf⟩ := by
  rw [h.nodes] at hn
  rcases List.mem_append.mp hn with hn | hn
  · rcases List.mem_append.mp hn with hn | hn
    · obtain ⟨round, position, hWb, -⟩ := wb_rank_le h.rounds_pos hn
      rw [hWb] at hKey
      cases hKey
    · obtain ⟨k, position, -, -, rfl⟩ := mem_lbNodes hn
      cases hKey
  · obtain ⟨-, rfl | ⟨-, rfl⟩⟩ := mem_finalsNodes hn
    · cases hKey
    · rfl

theorem Sized.phase_joined (h : Sized shape fighterCount surplus depth) :
    Joined (doubleElimPhase (ofShape shape)) where
  wired :=
    { nodup := by
        have hKeys := (h.ladder.ranked fighterCount surplus shape.grandFinalReset).nodup
        rw [← h.nodes, DoubleElimBracket.nodes, List.map_map] at hKeys
        rw [doubleElimPhase, List.map_map]
        exact hKeys
      autoAdvance := rfl
      bye := by
        intro slot hSlot hBye
        rw [h.noBye hSlot] at hBye
        cases hBye }
  refs slot hSlot side k hReads := h.refs_mem hSlot side hReads
  plain slot hSlot hPlain feeder hFeeder side hFed := by
    refine Bool.eq_false_iff.mpr fun hGf => Bool.eq_false_iff.mp hPlain ?_
    obtain ⟨hHasReset, hRound⟩ := isGrandFinalWithReset_iff.mp hGf
    obtain ⟨g, -, rfl⟩ := List.mem_map.mp hFeeder
    have hKey : (ofShape shape).selfRef g = .gf := selfRef_gf hRound
    have hReads := feeds_iff_reads.mp hFed
    simp only [hKey] at hReads
    have hNode := h.reads_gf (node_mem hSlot) (source_mem_node side) hReads
    obtain ⟨s, hs, rfl⟩ := List.mem_map.mp hSlot
    have hPast := selfRef_eq_gfReset (congrArg Node.key hNode)
    have hLast := (mem_finals h.rounds_pos hs (Nat.lt_of_succ_lt hPast)).2
    exact isReset_iff.mpr ⟨hHasReset, hLast.resolve_left (Nat.ne_of_gt hPast)⟩
  reset slot hSlot hReset := by
    obtain ⟨hHasReset, hRound⟩ := isReset_iff.mp hReset
    have hNode : slot.node = ⟨.gfReset, .loserOf .gf, .winnerOf .gf⟩ := by
      refine h.reset_node (node_mem hSlot) ?_
      obtain ⟨s, -, rfl⟩ := List.mem_map.mp hSlot
      exact selfRef_reset hRound
    have hA : slot.sourceA = .loserOf .gf := congrArg Node.home hNode
    have hB : slot.sourceB = .winnerOf .gf := congrArg Node.away hNode
    have hReads : (slot.source .a).reads? = some .gf := by
      rw [PhaseSlot.source, hA]
      rfl
    obtain ⟨grandFinal, hGf, hRef⟩ := List.mem_map.mp (h.refs_mem hSlot .a hReads)
    refine ⟨grandFinal, hGf, ?_, h.noBye hGf, ?_, ?_⟩
    · obtain ⟨g, -, rfl⟩ := List.mem_map.mp hGf
      exact isGrandFinalWithReset_iff.mpr ⟨hHasReset, selfRef_eq_gf hRef⟩
    · rw [hRef, hA]
    · rw [hRef, hB]

theorem exists_sized {options : DoubleElimOptions} {b : DoubleElimBracket}
    (h : doubleElimBracket fighterCount options = .ok b) :
    ∃ shape surplus depth, b = ofShape shape ∧ Sized shape fighterCount surplus depth := by
  rw [doubleElimBracket] at h
  cases hShape : resolveDoubleElimShape fighterCount options with
  | error message =>
    rw [hShape] at h
    cases h
  | ok shape =>
    rw [hShape] at h
    cases h
    obtain ⟨surplus, depth, hSized⟩ := resolveDoubleElimShape_sized hShape
    exact ⟨shape, surplus, depth, rfl, hSized⟩

theorem doubleElimPhase_joined {options : DoubleElimOptions} {b : DoubleElimBracket}
    (h : doubleElimBracket fighterCount options = .ok b) : Joined (doubleElimPhase b) := by
  obtain ⟨shape, surplus, depth, rfl, hSized⟩ := exists_sized h
  exact hSized.phase_joined

end MyClash.Bracket.DoubleElim

namespace MyClash.Bracket.Advance

universe v

/-- Both generators' brackets, whatever bouts were won and in whatever order, and how often,
they were told. -/
theorem generated_advanceLaw {F : Type v} [DecidableEq F] (fighterCount : ℕ)
    (entrant : ℕ → F) :
    (∀ size b, singleElimBracket fighterCount size = .ok b →
      AdvanceLaw (singleElimPhase b) SlotRef.text entrant) ∧
    ∀ options b, doubleElimBracket fighterCount options = .ok b →
      AdvanceLaw (doubleElimPhase b) MatchRef.text entrant := by
  constructor
  · intro size b h
    exact (singleElimPhase_joined h).law SlotRef.text_injective entrant
  · intro options b h
    exact (DoubleElim.doubleElimPhase_joined h).law MatchRef.text_injective entrant

/-- Thirteen fighters in a bracket of sixteen seats, eight with a reset of the grand final. -/
theorem generated_advanceLaw_thirteen :
    (∃ b, singleElimBracket 13 (some 16) = .ok b ∧
      AdvanceLaw (singleElimPhase b) SlotRef.text (id : ℕ → ℕ)) ∧
    ∃ b, doubleElimBracket 8 { grandFinalReset := some true } = .ok b ∧
      b.grandFinalReset = true ∧ AdvanceLaw (doubleElimPhase b) MatchRef.text (id : ℕ → ℕ) :=
  ⟨⟨_, rfl, (generated_advanceLaw 13 id).1 (some 16) _ rfl⟩,
    ⟨_, rfl, rfl, (generated_advanceLaw 8 id).2 { grandFinalReset := some true } _ rfl⟩⟩

end MyClash.Bracket.Advance
