import MyClash.Bracket.AdvanceLaw

/-!
# A result that is put right

The sides of a bracket are decided by its results and by which bouts were told. So a bout whose
result is changed, before any bout it feeds was fought, leaves the sides of a bracket where it had
that result in the first place. On an event that is over, a second grand final is not asked for.
-/

namespace MyClash.Bracket.Advance

open Knockout

universe u v

variable {κ : Type u} {F : Type v} [DecidableEq κ] [DecidableEq F]

/-- The winner of a completed bout, or nobody. -/
def result (s : BracketState κ F) (k : κ) : Option (Option F) :=
  (s.row k).bind fun row => if row.status = .completed then some row.winner else none

/-- The bout gets another result; `onResultChanged` is told so. -/
def changed (phase : BracketPhase κ) (eventOver : Bool) (s : BracketState κ F)
    (slot : PhaseSlot κ) (row : BoutRow F) (winner : Option F) : BracketState κ F :=
  onResultChanged phase slot eventOver
    (s.setRow slot.selfRef (some (completedRow row winner)))

/-- A completed bout, none of whose dependents was fought, and its new winner, or nobody. -/
structure Correction (phase : BracketPhase κ) (entrant : ℕ → F) (handed : List κ)
    (s : BracketState κ F) (slot : PhaseSlot κ) (row : BoutRow F) (winner : Option F) : Prop where
  reached : Reached phase entrant handed s
  slot_mem : slot ∈ phase.slots
  bout : slot.isBye = false
  row_eq : s.row slot.selfRef = some row
  completed : row.status = .completed
  unfought : NoneFought phase s slot.selfRef
  mayWin : MayWin s slot winner

/-- The same bouts have the same results and were told, but for this one, completed with the
new result and told. -/
structure CompletedInstead (phase : BracketPhase κ) (handed : List κ) (s : BracketState κ F)
    (slot : PhaseSlot κ) (winner : Option F) (handed' : List κ) (t : BracketState κ F) :
    Prop where
  told : ∀ k, k ∈ handed' ↔ k = slot.selfRef ∨ k ∈ handed
  results : ∀ slot' ∈ phase.slots, slot'.isBye = false → result t slot'.selfRef =
    if slot'.selfRef = slot.selfRef then some winner else result s slot'.selfRef

/-- The new winner of a grand final with a reset is not the winners-bracket entrant. -/
def AsksForReset (phase : BracketPhase κ) (s : BracketState κ F) (slot : PhaseSlot κ)
    (winner : Option F) : Prop :=
  phase.isGrandFinalWithReset slot = true ∧ winner.isSome = true ∧
    winner ≠ s.side slot.selfRef .a

structure ResultChangeLaw (phase : BracketPhase κ) (entrant : ℕ → F) : Prop where
  as_first : ∀ {handed s slot row winner}, Correction phase entrant handed s slot row winner →
    ∀ eventOver, (eventOver = true → ¬AsksForReset phase s slot winner) →
      ∀ {handed' t}, Reached phase entrant handed' t →
        CompletedInstead phase handed s slot winner handed' t →
          ∀ slot' ∈ phase.slots, ∀ side,
            (changed phase eventOver s slot row winner).side slot'.selfRef side =
              t.side slot'.selfRef side
  left_empty : ∀ {handed s slot row winner}, Correction phase entrant handed s slot row winner →
    AsksForReset phase s slot winner → ∀ slot' ∈ phase.slots, ∀ side,
      (changed phase true s slot row winner).side slot'.selfRef side =
        if feeds slot.selfRef (slot'.source side) then none else s.side slot'.selfRef side
  retracted : ∀ {handed s slot row winner}, Correction phase entrant handed s slot row winner →
    phase.isGrandFinalWithReset slot = true → winner.isSome = true →
      winner = s.side slot.selfRef .a → ∀ eventOver, ∀ reset ∈ phase.slots,
        phase.isReset reset = true →
          (∀ side, (changed phase eventOver s slot row winner).side reset.selfRef side = none) ∧
            (changed phase eventOver s slot row winner).row reset.selfRef = none

/-- A joined phase whose slots wait for earlier ones, with one grand final. -/
structure Drawn (phase : BracketPhase κ) : Prop where
  joined : Joined phase
  ranked : ∃ rank, Ranked rank phase.nodes
  final_unique : ∀ slot ∈ phase.slots, ∀ slot' ∈ phase.slots,
    phase.isGrandFinalWithReset slot = true → phase.isGrandFinalWithReset slot' = true →
      slot.selfRef = slot'.selfRef

section Law

variable {phase : BracketPhase κ} {entrant : ℕ → F} {handed handed' : List κ}
variable {s t : BracketState κ F} {slot feeder : PhaseSlot κ} {row : BoutRow F}
variable {winner : Option F} {k : κ} {side : Side}

/-! ## Results decide the sides -/

omit [DecidableEq κ] [DecidableEq F] in
theorem boutWinner_eq_result (hBout : slot.isBye = false) :
    boutWinner s slot = (result s slot.selfRef).join := by
  rw [boutWinner, hBout, result]
  cases s.row slot.selfRef with
  | none => rfl
  | some row =>
    simp only [Option.bind_some, Bool.false_eq_true, if_false]
    split <;> rfl

omit [DecidableEq κ] [DecidableEq F] in
theorem result_congr (h : Keeps s t) (k : κ) : result t k = result s k := by
  have hSame : ∀ winner, result t k = some winner ↔ result s k = some winner := by
    have hRow : ∀ (u : BracketState κ F) winner, result u k = some winner ↔
        ∃ row : BoutRow F, u.row k = some row ∧ row.status = .completed ∧ row.winner = winner := by
      intro u winner
      rw [result, Option.bind_eq_some_iff]
      refine exists_congr fun row => and_congr_right fun _ => ?_
      split
      next hDone => simp [hDone]
      next hOpen => simp [hOpen]
    intro winner
    rw [hRow, hRow]
    exact exists_congr fun row =>
      ⟨fun ⟨hr, hDone, hw⟩ => ⟨(h k row hDone).mp hr, hDone, hw⟩,
        fun ⟨hr, hDone, hw⟩ => ⟨(h k row hDone).mpr hr, hDone, hw⟩⟩
  exact Option.ext hSame

theorem Ranked.feeder_lt {rank : κ → ℕ} (h : Ranked rank phase.nodes)
    (hSlot : slot ∈ phase.slots) (hFed : feeds feeder.selfRef (slot.source side) = true) :
    rank feeder.selfRef < rank slot.selfRef := by
  have hNode : slot.node ∈ phase.nodes := List.mem_map_of_mem hSlot
  have hReads := feeds_iff_reads.mp hFed
  cases side with
  | a => exact h.home_lt _ hNode _ hReads
  | b => exact h.away_lt _ hNode _ hReads

/-- Two settled states with the same results, of which the same bouts were told, have the same
fighters on every side: slot by slot, from those a slot waits for. -/
theorem Settled.side_unique (h : Settled phase entrant handed s)
    (h' : Settled phase entrant handed' t) {rank : κ → ℕ} (hRanked : Ranked rank phase.nodes)
    (hJoined : Joined phase) (hHanded : ∀ k, k ∈ handed' ↔ k ∈ handed)
    (hResults : ∀ slot ∈ phase.slots, slot.isBye = false →
      result t slot.selfRef = result s slot.selfRef)
    (hSlot : slot ∈ phase.slots) (side : Side) :
    t.side slot.selfRef side = s.side slot.selfRef side := by
  induction hRank : rank slot.selfRef using Nat.strong_induction_on generalizing slot side with
  | _ n ih =>
    subst hRank
    cases hReads : (slot.source side).reads? with
    | none => rw [h.entered slot hSlot side hReads, h'.entered slot hSlot side hReads]
    | some k =>
      obtain ⟨feeder, hFeeder, hFed⟩ := exists_feeder hJoined.refs hSlot hReads
      have hEarlier := Ranked.feeder_lt hRanked hSlot hFed
      have hSides : ∀ side, t.side feeder.selfRef side = s.side feeder.selfRef side :=
        fun side => ih _ hEarlier hFeeder side rfl
      rw [h.fed slot hSlot feeder hFeeder side hFed, h'.fed slot hSlot feeder hFeeder side hFed]
      refine fedValue_congr (hHanded _) ?_ fun _ _ => hSides
      cases hBout : feeder.isBye with
      | true =>
        rw [boutWinner, boutWinner, hBout, if_pos rfl, if_pos rfl]
        exact hSides .a
      | false => rw [boutWinner_eq_result hBout, boutWinner_eq_result hBout,
          hResults feeder hFeeder hBout]

/-! ## The new result -/

/-- The new result on the row, and what the old one sent on taken back. -/
def takenBack (phase : BracketPhase κ) (s : BracketState κ F) (slot : PhaseSlot κ)
    (row : BoutRow F) (winner : Option F) : BracketState κ F :=
  clearFedBouts phase slot.selfRef (s.setRow slot.selfRef (some (completedRow row winner)))

omit [DecidableEq F] in
theorem result_takenBack (k : κ) : result (takenBack phase s slot row winner) k =
    if k = slot.selfRef then some winner else result s k := by
  rw [result, takenBack, clearFedBouts_row, setRow_row]
  split_ifs with hFed hKey hKey
  · rfl
  · rw [result]
    cases s.row k <;> rfl
  · rfl
  · rfl

omit [DecidableEq F] in
theorem takenBack_side (hJoined : Joined phase) {slot' : PhaseSlot κ}
    (hSlot' : slot' ∈ phase.slots) (side : Side) :
    (takenBack phase s slot row winner).side slot'.selfRef side =
      if feeds slot.selfRef (slot'.source side) then none else s.side slot'.selfRef side := by
  rw [takenBack, clearFedBouts_side, clearFedSides_side hJoined.wired.nodup hSlot']
  rfl

/-- A bout does not feed its own sides. -/
theorem Correction.own_side (h : Correction phase entrant handed s slot row winner)
    (hJoined : Joined phase) (side : Side) :
    (takenBack phase s slot row winner).side slot.selfRef side = s.side slot.selfRef side := by
  rw [takenBack_side hJoined h.slot_mem, if_neg]
  intro hFed
  refine h.unfought.not_mem h.row_eq h.completed ?_
  exact List.mem_map_of_mem (mem_downstreamSlots.mpr ⟨h.slot_mem, side, hFed⟩)

theorem Correction.row_takenBack (h : Correction phase entrant handed s slot row winner) :
    (takenBack phase s slot row winner).row slot.selfRef = some (completedRow row winner) :=
  takenBack_row h.row_eq h.completed h.unfought

theorem Correction.endsBracket (h : Correction phase entrant handed s slot row winner)
    (hJoined : Joined phase) :
    phase.grandFinalEndsBracket slot ((takenBack phase s slot row winner).side slot.selfRef .a)
        winner = true ↔
      phase.isGrandFinalWithReset slot = true ∧ winner.isSome = true ∧
        winner = s.side slot.selfRef .a := by
  rw [h.own_side hJoined, BracketPhase.grandFinalEndsBracket, Bool.and_eq_true, Bool.and_eq_true,
    decide_eq_true_eq, and_assoc]

theorem Correction.asks_iff (h : Correction phase entrant handed s slot row winner)
    (hJoined : Joined phase) :
    asksForGrandFinalReset phase slot (takenBack phase s slot row winner) = true ↔
      phase.isGrandFinalWithReset slot = true ∧
        (winner = none ∨ AsksForReset phase s slot winner) := by
  have hEnds := h.endsBracket hJoined
  rw [asksForGrandFinalReset, h.row_takenBack, AsksForReset, Bool.and_eq_true,
    Bool.not_eq_true', Bool.eq_false_iff, ne_eq]
  refine and_congr_right fun hFinal => (not_congr hEnds).trans ?_
  cases winner <;> simp [hFinal]

theorem Correction.changed_eq (h : Correction phase entrant handed s slot row winner)
    (hJoined : Joined phase) {eventOver : Bool}
    (hAsks : eventOver = true → ¬AsksForReset phase s slot winner) :
    changed phase eventOver s slot row winner =
      onMatchCompleted phase slot (takenBack phase s slot row winner) := by
  rw [changed, onResultChanged]
  split
  · rename_i hOver
    obtain ⟨hOver, hReset⟩ := Bool.and_eq_true_iff.mp hOver
    obtain rfl := ((h.asks_iff hJoined).mp hReset).2.resolve_right (hAsks hOver)
    -- a result that names nobody is not sent on
    rw [onMatchCompleted, h.row_takenBack]
    rfl
  · rfl

theorem Correction.changed_over (h : Correction phase entrant handed s slot row winner)
    (hJoined : Joined phase) (hAsks : AsksForReset phase s slot winner) :
    changed phase true s slot row winner = takenBack phase s slot row winner :=
  if_pos (Bool.and_eq_true_iff.mpr ⟨rfl, (h.asks_iff hJoined).mpr ⟨hAsks.1, .inr hAsks⟩⟩)

theorem Correction.settled (h : Correction phase entrant handed s slot row winner)
    (hJoined : Joined phase) :
    Settled phase entrant (slot.selfRef :: handed.filter (· ≠ slot.selfRef))
      (onMatchCompleted phase slot (takenBack phase s slot row winner)) := by
  have hTaken := (h.reached.settled hJoined.wired).takenBack hJoined.wired h.slot_mem h.bout
    h.row_eq h.completed h.unfought h.mayWin
  exact hTaken.hand hJoined.wired h.slot_mem h.bout h.row_takenBack rfl

theorem Drawn.as_first (hDrawn : Drawn phase)
    (h : Correction phase entrant handed s slot row winner) {eventOver : Bool}
    (hAsks : eventOver = true → ¬AsksForReset phase s slot winner)
    (hReached : Reached phase entrant handed' t)
    (hInstead : CompletedInstead phase handed s slot winner handed' t)
    {slot' : PhaseSlot κ} (hSlot' : slot' ∈ phase.slots) (side : Side) :
    (changed phase eventOver s slot row winner).side slot'.selfRef side =
      t.side slot'.selfRef side := by
  obtain ⟨rank, hRanked⟩ := hDrawn.ranked
  rw [h.changed_eq hDrawn.joined hAsks]
  refine (hReached.settled hDrawn.joined.wired).side_unique (h.settled hDrawn.joined) hRanked
    hDrawn.joined (fun k => ?_) (fun other hOther hBout => ?_) hSlot' side
  · rw [hInstead.told, List.mem_cons, List.mem_filter, decide_eq_true_eq]
    tauto
  · rw [result_congr onMatchCompleted_keeps, result_takenBack,
      hInstead.results other hOther hBout]

/-! ## The reset is taken back -/

omit [DecidableEq F] [DecidableEq κ] in
/-- A live row is played or waits for its first second. -/
theorem unplayed_iff (row : BoutRow F) :
    (row.status = .scheduled && !row.started) = !row.hasStarted := by
  have hLive := row.live
  rw [BoutRow.hasStarted, hasBeenFought]
  cases row.started with
  | true => simp
  | false =>
    cases hStatus : row.status with
    | voided => exact absurd hStatus hLive
    | _ => decide

omit [DecidableEq F] in
theorem deleteUnplayedSlotMatch_row (k k' : κ) : (deleteUnplayedSlotMatch k s).row k' =
    if k' = k then (s.row k').filter BoutRow.hasStarted else s.row k' := by
  rw [deleteUnplayedSlotMatch]
  cases hRow : s.row k with
  | none =>
    split_ifs with hKey
    · rw [hKey, hRow]
      rfl
    · rfl
  | some row =>
    simp only [unplayed_iff]
    cases hStarted : row.hasStarted with
    | true =>
      rw [Bool.not_true, if_neg Bool.false_ne_true]
      split_ifs with hKey
      · rw [hKey, hRow, Option.filter_some, if_pos hStarted]
      · rfl
    | false =>
      rw [if_pos (by rfl), setRow_row]
      split_ifs with hKey
      · rw [hKey, hRow, Option.filter_some, if_neg (Bool.eq_false_iff.mp hStarted)]
      · rfl

omit [DecidableEq F] in
theorem foldl_deleteUnplayedSlotMatch_row (keys : List κ) (k : κ) :
    (keys.foldl (fun t k => deleteUnplayedSlotMatch k t) s).row k =
      if k ∈ keys then (s.row k).filter BoutRow.hasStarted else s.row k := by
  induction keys generalizing s with
  | nil => rfl
  | cons first keys ih =>
    rw [List.foldl_cons, ih, deleteUnplayedSlotMatch_row]
    by_cases hKey : k = first
    · simp [hKey]
    · simp [hKey]

omit [DecidableEq F] in
theorem retractGrandFinalReset_row {self : κ}
    (hFed : k ∈ (phase.downstreamSlots self).map PhaseSlot.selfRef) :
    (retractGrandFinalReset phase self s).row k = (s.row k).filter BoutRow.hasStarted := by
  have hPass := foldl_deleteUnplayedSlotMatch_row (s := clearFedSides phase self s)
    ((phase.downstreamSlots self).map PhaseSlot.selfRef) k
  rw [List.foldl_map, clearFedSides_row, if_pos hFed] at hPass
  exact hPass

theorem Correction.ends_eq (h : Correction phase entrant handed s slot row winner)
    (hJoined : Joined phase) (hFinal : phase.isGrandFinalWithReset slot = true)
    (hSome : winner.isSome = true) (hWon : winner = s.side slot.selfRef .a) (eventOver : Bool) :
    changed phase eventOver s slot row winner =
      retractGrandFinalReset phase slot.selfRef (takenBack phase s slot row winner) := by
  rw [h.changed_eq hJoined fun _ hAsks => hAsks.2.2 hWon, onMatchCompleted,
    h.row_takenBack]
  obtain ⟨w, rfl⟩ := Option.isSome_iff_exists.mp hSome
  have hEnds := (h.endsBracket hJoined).mpr ⟨hFinal, hSome, hWon⟩
  simp only [completedRow, hJoined.wired.autoAdvance, hEnds, if_true]
  rfl

theorem Drawn.retracted (hDrawn : Drawn phase)
    (h : Correction phase entrant handed s slot row winner)
    (hFinal : phase.isGrandFinalWithReset slot = true) (hSome : winner.isSome = true)
    (hWon : winner = s.side slot.selfRef .a) (eventOver : Bool) {reset : PhaseSlot κ}
    (hMem : reset ∈ phase.slots) (hReset : phase.isReset reset = true) :
    (∀ side, (changed phase eventOver s slot row winner).side reset.selfRef side = none) ∧
      (changed phase eventOver s slot row winner).row reset.selfRef = none := by
  obtain ⟨final, hMemFinal, hIsFinal, -, hA, hB⟩ := hDrawn.joined.reset reset hMem hReset
  have hRef : final.selfRef = slot.selfRef :=
    hDrawn.final_unique final hMemFinal slot h.slot_mem hIsFinal hFinal
  have hFed : ∀ side, feeds slot.selfRef (reset.source side) = true := by
    intro side
    cases side with
    | a => simp [PhaseSlot.source, feeds, hA, hRef]
    | b => simp [PhaseSlot.source, feeds, hB, hRef]
  have hDown : reset ∈ phase.downstreamSlots slot.selfRef :=
    mem_downstreamSlots.mpr ⟨hMem, .a, hFed .a⟩
  rw [h.ends_eq hDrawn.joined hFinal hSome hWon]
  constructor
  · intro side
    rw [retractGrandFinalReset_side, clearFedSides_side hDrawn.joined.wired.nodup hMem,
      if_pos (hFed side)]
  · have hKey := List.mem_map_of_mem (f := PhaseSlot.selfRef) hDown
    have hRowNe : reset.selfRef ≠ slot.selfRef := fun hEq =>
      h.unfought.not_mem h.row_eq h.completed (hEq ▸ hKey)
    rw [retractGrandFinalReset_row hKey, takenBack, clearFedBouts_row, if_pos hKey, setRow_row,
      if_neg hRowNe]
    cases hRow : s.row reset.selfRef with
    | none => rfl
    | some r =>
      have hOpen : r.unpaired.hasStarted = false := h.unfought reset hDown r hRow
      rw [Option.map_some, Option.filter_some, if_neg (Bool.eq_false_iff.mp hOpen)]

theorem Drawn.law (hDrawn : Drawn phase) (entrant : ℕ → F) : ResultChangeLaw phase entrant where
  as_first h _ hAsks _ _ hReached hInstead _ hSlot' side :=
    hDrawn.as_first h hAsks hReached hInstead hSlot' side
  left_empty h hAsks slot' hSlot' side := by
    rw [h.changed_over hDrawn.joined hAsks, takenBack_side hDrawn.joined hSlot']
  retracted h hFinal hSome hWon eventOver _ hMem hReset :=
    hDrawn.retracted h hFinal hSome hWon eventOver hMem hReset

end Law

/-! ## The phases of the two generators -/

theorem singleElimPhase_drawn {b : SingleElimBracket} {fighterCount : ℕ} {size : Option ℕ}
    (h : singleElimBracket fighterCount size = .ok b) : Drawn (singleElimPhase b) where
  joined := singleElimPhase_joined h
  ranked := by
    have hOrdered : Ordered b.slots := by
      obtain ⟨-, -, k, -, ⟨-, -, hSlots⟩ | ⟨-, m, -, -, hSlots⟩⟩ := singleElimBracket_ok h
      · rw [hSlots]
        exact ordered_singleElimSlots
      · rw [hSlots]
        exact ordered_singleElimSlots
    refine ⟨SlotRef.round, ?_⟩
    rw [BracketPhase.nodes, singleElimPhase, List.map_map]
    exact hOrdered.ranked
  final_unique _ _ _ _ hFinal := by cases hFinal

theorem doubleElimPhase_drawn {b : DoubleElimBracket} {fighterCount : ℕ}
    {options : DoubleElimOptions} (h : doubleElimBracket fighterCount options = .ok b) :
    Drawn (doubleElimPhase b) where
  joined := DoubleElim.doubleElimPhase_joined h
  ranked := by
    obtain ⟨shape, surplus, depth, rfl, hSized⟩ := DoubleElim.exists_sized h
    refine ⟨DoubleElim.rank shape.wbRounds shape.lbRounds, ?_⟩
    have hRanked := hSized.ladder.ranked fighterCount surplus shape.grandFinalReset
    rw [← hSized.nodes, DoubleElimBracket.nodes] at hRanked
    rw [BracketPhase.nodes, doubleElimPhase, List.map_map]
    exact hRanked
  final_unique slot hSlot slot' hSlot' hFinal hFinal' := by
    obtain ⟨shape, surplus, depth, rfl, -⟩ := DoubleElim.exists_sized h
    have hGf : ∀ slot ∈ (doubleElimPhase (DoubleElim.ofShape shape)).slots,
        (doubleElimPhase (DoubleElim.ofShape shape)).isGrandFinalWithReset slot = true →
          slot.selfRef = .gf := by
      intro slot hSlot hFinal
      obtain ⟨s, -, rfl⟩ := List.mem_map.mp hSlot
      exact DoubleElim.selfRef_gf (DoubleElim.isGrandFinalWithReset_iff.mp hFinal).2
    rw [hGf slot hSlot hFinal, hGf slot' hSlot' hFinal']

theorem generated_resultChangeLaw {F : Type v} [DecidableEq F] (fighterCount : ℕ)
    (entrant : ℕ → F) :
    (∀ size b, singleElimBracket fighterCount size = .ok b →
      ResultChangeLaw (singleElimPhase b) entrant) ∧
    ∀ options b, doubleElimBracket fighterCount options = .ok b →
      ResultChangeLaw (doubleElimPhase b) entrant := by
  constructor
  · intro size b h
    exact (singleElimPhase_drawn h).law entrant
  · intro options b h
    exact (doubleElimPhase_drawn h).law entrant

/-! ## Two fighters and a grand final -/

/-- A bracket of two with a reset: their first bout, the grand final, the reset. -/
def bracketOfTwo : DoubleElimBracket :=
  DoubleElim.ofShape
    { bracketSize := 2, fighterCount := 2, playInMatchCount := 0, hasPlayInRound := false,
      byeSeedCount := 0, wbRounds := 1, lbRounds := 0, secondChanceTarget := .gold,
      bronzeMatch := false, repechageEntrySize := 2, repechageEntryRound := 1,
      grandFinalReset := true }

theorem doubleElimBracket_two :
    doubleElimBracket 2 { grandFinalReset := some true } = .ok bracketOfTwo := rfl

def phaseOfTwo : BracketPhase MatchRef := doubleElimPhase bracketOfTwo

def firstBout : PhaseSlot MatchRef := ⟨.wb 1 1, 1, .seed 1, .seed 2⟩

def grandFinal : PhaseSlot MatchRef :=
  ⟨.gf, 2, .winnerOf (.wb 1 1), .loserOf (.wb 1 1)⟩

def secondFinal : PhaseSlot MatchRef := ⟨.gfReset, 3, .loserOf .gf, .winnerOf .gf⟩

theorem slots_phaseOfTwo : phaseOfTwo.slots = [firstBout, grandFinal, secondFinal] := rfl

/-- The row of a bout between the two. -/
def boutRow (winner : Option ℕ) : BoutRow ℕ := completedRow (scheduledRow (some 1) (some 2)) winner

/-- The first fighter won the first bout, and the bracket was told. -/
def afterFirstBout : BracketState MatchRef ℕ :=
  onMatchCompleted phaseOfTwo firstBout
    ((populated phaseOfTwo id).setRow (.wb 1 1) (some (boutRow (some 1))))

/-- The grand final was won, and the bracket was told. -/
def afterGrandFinal (winner : ℕ) : BracketState MatchRef ℕ :=
  onMatchCompleted phaseOfTwo grandFinal
    (afterFirstBout.setRow .gf (some (boutRow (some winner))))

theorem afterFirstBout_reached : Reached phaseOfTwo id [.wb 1 1] afterFirstBout := by
  have hMem : firstBout ∈ phaseOfTwo.slots := by decide
  have hPlayed : Reached phaseOfTwo id []
      ((populated phaseOfTwo id).setRow (.wb 1 1) (some (boutRow (some 1)))) :=
    .complete .populated hMem rfl rfl nofun ⟨rfl, rfl, .inr (.inl rfl)⟩
  exact hPlayed.told hMem rfl rfl rfl

theorem afterGrandFinal_reached {winner : ℕ} (h : winner = 1 ∨ winner = 2) :
    Reached phaseOfTwo id [.gf, .wb 1 1] (afterGrandFinal winner) := by
  have hMem : grandFinal ∈ phaseOfTwo.slots := by decide
  have hMay : MayWin afterFirstBout grandFinal (some winner) :=
    ⟨rfl, rfl, .inr (h.imp (congrArg some) (congrArg some))⟩
  have hPlayed : Reached phaseOfTwo id [.wb 1 1]
      (afterFirstBout.setRow .gf (some (boutRow (some winner)))) :=
    .complete afterFirstBout_reached hMem rfl rfl nofun hMay
  exact hPlayed.told hMem rfl rfl rfl

/-- The grand final, won by the first fighter, is put right. -/
theorem correction_grandFinal : Correction phaseOfTwo id [.gf, .wb 1 1] (afterGrandFinal 1)
    grandFinal (boutRow (some 1)) (some 2) where
  reached := afterGrandFinal_reached (.inl rfl)
  slot_mem := by decide
  bout := rfl
  row_eq := rfl
  completed := rfl
  unfought := by
    intro ds hDown row hRow
    have hSecond : phaseOfTwo.downstreamSlots grandFinal.selfRef = [secondFinal] := rfl
    rw [hSecond, List.mem_singleton] at hDown
    subst hDown
    cases hRow
  mayWin := ⟨rfl, rfl, .inr (.inr rfl)⟩

theorem completedInstead_grandFinal : CompletedInstead phaseOfTwo [.gf, .wb 1 1]
    (afterGrandFinal 1) grandFinal (some 2) [.gf, .wb 1 1] (afterGrandFinal 2) where
  told k := by
    have hRef : grandFinal.selfRef = .gf := rfl
    simp [hRef]
  results := by decide

/-- Thirteen fighters, eight of them at once; and a grand final between two, put right. -/
theorem generated_resultChangeLaw_two :
    (∃ b, singleElimBracket 13 (some 16) = .ok b ∧ ResultChangeLaw (singleElimPhase b) id) ∧
    doubleElimBracket 2 { grandFinalReset := some true } = .ok bracketOfTwo ∧
      ∀ slot ∈ phaseOfTwo.slots, ∀ side,
        (changed phaseOfTwo false (afterGrandFinal 1) grandFinal (boutRow (some 1))
          (some 2)).side slot.selfRef side = (afterGrandFinal 2).side slot.selfRef side := by
  refine ⟨⟨_, rfl, (generated_resultChangeLaw 13 id).1 (some 16) _ rfl⟩,
    doubleElimBracket_two, ?_⟩
  have hLaw := (generated_resultChangeLaw 2 id).2 { grandFinalReset := some true } bracketOfTwo
    doubleElimBracket_two
  exact hLaw.as_first correction_grandFinal false nofun (afterGrandFinal_reached (.inr rfl))
    completedInstead_grandFinal

/-- On an event that is over the grand final goes to the other fighter, and no second one is
filled, as it was where the other had won at once. -/
theorem resultChange_not_as_first : ¬∀ fighterCount options b,
    doubleElimBracket fighterCount options = .ok b → ∀ (entrant : ℕ → ℕ) handed s slot row winner,
      Correction (doubleElimPhase b) entrant handed s slot row winner →
        ∀ eventOver handed' t, Reached (doubleElimPhase b) entrant handed' t →
          CompletedInstead (doubleElimPhase b) handed s slot winner handed' t →
            ∀ slot' ∈ (doubleElimPhase b).slots, ∀ side,
              (changed (doubleElimPhase b) eventOver s slot row winner).side slot'.selfRef side =
                t.side slot'.selfRef side := by
  intro h
  have hSame := h 2 _ bracketOfTwo doubleElimBracket_two id _ _ grandFinal _ _
    correction_grandFinal true _ _ (afterGrandFinal_reached (.inr rfl))
    completedInstead_grandFinal secondFinal (by decide) .a
  cases hSame

end MyClash.Bracket.Advance
