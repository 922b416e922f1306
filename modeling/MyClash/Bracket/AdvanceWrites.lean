import MyClash.Bracket.Advance

/-!
# What advancement writes

For a phase whose references are distinct: the sides after each operation, slot by slot, and the
rows of completed bouts, which no operation touches.
-/

namespace MyClash.Bracket.Advance

open Knockout

universe u v

variable {κ : Type u} {F : Type v} [DecidableEq κ] {phase : BracketPhase κ}
variable {s t : BracketState κ F} {slot : PhaseSlot κ} {slots : List (PhaseSlot κ)}
variable {self k : κ} {side : Side} {winner : F} {loser : Option F}

/-! ## The sides -/

@[simp] theorem writeSlotSide_side (f : Option F) (k' : κ) (side' : Side) :
    (s.writeSlotSide k side f).side k' side' =
      if k' = k ∧ side' = side then f else s.side k' side' := by
  rw [BracketState.writeSlotSide]
  by_cases hKey : k' = k
  · subst hKey
    by_cases hSide : side' = side
    · simp [hSide]
    · simp [hSide]
  · simp [hKey]

@[simp] theorem setRow_side (row : Option (BoutRow F)) : (s.setRow k row).side = s.side := rfl

@[simp] theorem setRow_row (row : Option (BoutRow F)) (k' : κ) :
    (s.setRow k row).row k' = if k' = k then row else s.row k' :=
  Function.update_apply ..

@[simp] theorem syncMatchToSlot_side (a b : Option F) :
    (syncMatchToSlot slot a b s).side = s.side := by
  rw [syncMatchToSlot]
  split
  · rfl
  · split
    · split <;> rfl
    · split <;> rfl

@[simp] theorem clearSlot_side (slot : PhaseSlot κ) (k : κ) (side : Side) :
    (clearSlot self slot s).side k side =
      if k = slot.selfRef then
        if feeds self (slot.source side) then none else s.side k side
      else s.side k side := by
  rw [clearSlot]
  by_cases hKey : k = slot.selfRef
  · simp [hKey]
  · simp [hKey]

/-- A pass over slots of distinct references writes each slot once. -/
theorem foldl_side (step : BracketState κ F → PhaseSlot κ → BracketState κ F)
    (value : PhaseSlot κ → Side → Option F → Option F)
    (hStep : ∀ t ds k side, (step t ds).side k side =
      if k = ds.selfRef then value ds side (t.side k side) else t.side k side)
    (hNodup : (slots.map PhaseSlot.selfRef).Nodup) (s : BracketState κ F) :
    (∀ slot ∈ slots, ∀ side, (slots.foldl step s).side slot.selfRef side =
        value slot side (s.side slot.selfRef side)) ∧
      ∀ k ∉ slots.map PhaseSlot.selfRef, ∀ side,
        (slots.foldl step s).side k side = s.side k side := by
  induction slots generalizing s with
  | nil => exact ⟨nofun, fun _ _ _ => rfl⟩
  | cons ds slots ih =>
    obtain ⟨hFresh, hNodup⟩ := List.nodup_cons.mp hNodup
    obtain ⟨hIn, hOut⟩ := ih hNodup (step s ds)
    constructor
    · intro slot hSlot side
      rcases List.mem_cons.mp hSlot with rfl | hSlot
      · rw [List.foldl_cons, hOut _ hFresh, hStep, if_pos rfl]
      · have hNe : slot.selfRef ≠ ds.selfRef := fun hEq =>
          hFresh (hEq ▸ List.mem_map_of_mem hSlot)
        rw [List.foldl_cons, hIn slot hSlot, hStep, if_neg hNe]
    · intro k hk side
      rw [List.map_cons, List.mem_cons, not_or] at hk
      rw [List.foldl_cons, hOut k hk.2, hStep, if_neg hk.1]

omit [DecidableEq κ] in
theorem foldl_side_eq {step : BracketState κ F → PhaseSlot κ → BracketState κ F}
    (hStep : ∀ t ds, (step t ds).side = t.side) (s : BracketState κ F) :
    (slots.foldl step s).side = s.side := by
  induction slots generalizing s with
  | nil => rfl
  | cons ds slots ih => rw [List.foldl_cons, ih, hStep]

theorem mem_downstreamSlots : slot ∈ phase.downstreamSlots self ↔
    slot ∈ phase.slots ∧ ∃ side, feeds self (slot.source side) = true := by
  rw [BracketPhase.downstreamSlots, List.mem_filter, Bool.or_eq_true]
  refine and_congr_right fun _ => ⟨?_, ?_⟩
  · rintro (h | h)
    · exact ⟨.a, h⟩
    · exact ⟨.b, h⟩
  · rintro ⟨side, h⟩
    cases side with
    | a => exact Or.inl h
    | b => exact Or.inr h

theorem nodup_downstreamSlots (hNodup : (phase.slots.map PhaseSlot.selfRef).Nodup) :
    ((phase.downstreamSlots self).map PhaseSlot.selfRef).Nodup :=
  hNodup.sublist (List.filter_sublist.map _)

omit [DecidableEq κ] in
/-- A slot with the reference of a slot of the phase is that slot. -/
theorem eq_of_selfRef (hNodup : (phase.slots.map PhaseSlot.selfRef).Nodup)
    {slot slot' : PhaseSlot κ} (hSlot : slot ∈ phase.slots) (hSlot' : slot' ∈ phase.slots)
    (h : slot.selfRef = slot'.selfRef) : slot = slot' :=
  List.inj_on_of_nodup_map hNodup hSlot hSlot' h

theorem downstream_of_selfRef (hNodup : (phase.slots.map PhaseSlot.selfRef).Nodup)
    (hSlot : slot ∈ phase.slots)
    (h : slot.selfRef ∈ (phase.downstreamSlots self).map PhaseSlot.selfRef) :
    slot ∈ phase.downstreamSlots self := by
  obtain ⟨ds, hds, hEq⟩ := List.mem_map.mp h
  exact eq_of_selfRef hNodup (mem_downstreamSlots.mp hds).1 hSlot hEq ▸ hds

theorem resolveSide_of_not_feeds {source : Feed κ} (h : feeds self source = false)
    (current : Option F) : resolveSide self winner loser source current = current := by
  simp only [feeds, Bool.or_eq_false_iff, decide_eq_false_iff_not] at h
  cases current with
  | some f => rfl
  | none => exact (if_neg h.1).trans (if_neg h.2)

theorem resolveSide_eq_or (source : Feed κ) (current : Option F) :
    resolveSide self winner loser source current =
      current.or (resolveSide self winner loser source none) := by
  cases current <;> rfl

theorem advanceFromSlot_side (hNodup : (phase.slots.map PhaseSlot.selfRef).Nodup)
    (hSlot : slot ∈ phase.slots) :
    (advanceFromSlot phase self winner loser s).side slot.selfRef side =
      resolveSide self winner loser (slot.source side) (s.side slot.selfRef side) := by
  have hDistinct : ((phase.downstreamSlots self).map PhaseSlot.selfRef).Nodup :=
    nodup_downstreamSlots hNodup
  have hPass := foldl_side
    (fun t ds =>
      let a := resolveSide self winner loser ds.sourceA (s.side ds.selfRef .a)
      let b := resolveSide self winner loser ds.sourceB (s.side ds.selfRef .b)
      syncMatchToSlot ds a b
        ((t.writeSlotSide ds.selfRef .a a).writeSlotSide ds.selfRef .b b))
    (fun ds side _ => resolveSide self winner loser (ds.source side) (s.side ds.selfRef side))
    (fun t ds k side => by
      by_cases hKey : k = ds.selfRef
      · cases side <;> simp [hKey, PhaseSlot.source]
      · simp [hKey])
    hDistinct s
  by_cases hFed : slot ∈ phase.downstreamSlots self
  · exact hPass.1 slot hFed side
  · have hNot : feeds self (slot.source side) = false := by
      rw [mem_downstreamSlots, not_and, not_exists] at hFed
      exact Bool.eq_false_iff.mpr (hFed hSlot side)
    rw [resolveSide_of_not_feeds hNot]
    exact hPass.2 _ (fun hMem => hFed (downstream_of_selfRef hNodup hSlot hMem)) side

theorem clearFedSides_side (hNodup : (phase.slots.map PhaseSlot.selfRef).Nodup)
    (hSlot : slot ∈ phase.slots) :
    (clearFedSides phase self s).side slot.selfRef side =
      if feeds self (slot.source side) then none else s.side slot.selfRef side := by
  have hDistinct : ((phase.downstreamSlots self).map PhaseSlot.selfRef).Nodup :=
    nodup_downstreamSlots hNodup
  have hPass := foldl_side (fun t ds => clearSlot self ds t)
    (fun ds side current => if feeds self (ds.source side) then none else current)
    (fun t ds k side => clearSlot_side ds k side) hDistinct s
  by_cases hFed : slot ∈ phase.downstreamSlots self
  · exact hPass.1 slot hFed side
  · have hNot : feeds self (slot.source side) = false := by
      rw [mem_downstreamSlots, not_and, not_exists] at hFed
      exact Bool.eq_false_iff.mpr (hFed hSlot side)
    rw [hNot, if_neg Bool.false_ne_true]
    exact hPass.2 _ (fun hMem => hFed (downstream_of_selfRef hNodup hSlot hMem)) side

theorem retractGrandFinalReset_side :
    (retractGrandFinalReset phase self s).side = (clearFedSides phase self s).side :=
  foldl_side_eq (fun t ds => by
    rw [deleteUnplayedSlotMatch]
    split
    · split <;> rfl
    · rfl) _

def BoutRow.unpaired (row : BoutRow F) : BoutRow F := { row with red := none, blue := none }

theorem clearDependentPairing_row (k k' : κ) : (clearDependentPairing k s).row k' =
    if k' = k then (s.row k').map BoutRow.unpaired else s.row k' := by
  rw [clearDependentPairing]
  split
  · rename_i row hRow
    rw [setRow_row]
    split_ifs with hKey
    · rw [hKey, hRow]
      rfl
    · rfl
  · rename_i hNone
    split_ifs with hKey
    · rw [hKey, hNone]
      rfl
    · rfl

theorem foldl_clearDependentPairing_row (keys : List κ) (k : κ) :
    (keys.foldl (fun t k => clearDependentPairing k t) s).row k =
      if k ∈ keys then (s.row k).map BoutRow.unpaired else s.row k := by
  induction keys generalizing s with
  | nil => rfl
  | cons first keys ih =>
    rw [List.foldl_cons, ih, clearDependentPairing_row]
    by_cases hKey : k = first
    · cases s.row k <;> simp [hKey, BoutRow.unpaired]
    · simp [hKey]

theorem clearFedSides_row : (clearFedSides phase self s).row = s.row := by
  rw [clearFedSides]
  induction phase.downstreamSlots self generalizing s with
  | nil => rfl
  | cons ds slots ih => exact ih

theorem clearFedBouts_row (k : κ) : (clearFedBouts phase self s).row k =
    if k ∈ (phase.downstreamSlots self).map PhaseSlot.selfRef then
      (s.row k).map BoutRow.unpaired else s.row k := by
  have hPass := foldl_clearDependentPairing_row (s := clearFedSides phase self s)
    ((phase.downstreamSlots self).map PhaseSlot.selfRef) k
  rw [List.foldl_map, clearFedSides_row] at hPass
  exact hPass

theorem foldl_clearDependentPairing_side (slots : List (PhaseSlot κ)) :
    (slots.foldl (fun t ds => clearDependentPairing ds.selfRef t) s).side = s.side :=
  foldl_side_eq (fun t ds => by
    rw [clearDependentPairing]
    split <;> rfl) _

theorem clearFedBouts_side :
    (clearFedBouts phase self s).side = (clearFedSides phase self s).side :=
  foldl_clearDependentPairing_side _

/-! ## The rows -/

/-- The rows of completed bouts are the same in both. -/
def Keeps (s t : BracketState κ F) : Prop :=
  ∀ k row, row.status = .completed → (t.row k = some row ↔ s.row k = some row)

omit [DecidableEq κ] in
theorem Keeps.of_row_eq (h : t.row = s.row) : Keeps s t := fun _ _ _ => by rw [h]

omit [DecidableEq κ] in
theorem Keeps.trans {u : BracketState κ F} (h : Keeps s t) (h' : Keeps t u) : Keeps s u :=
  fun k row hDone => (h' k row hDone).trans (h k row hDone)

omit [DecidableEq κ] in
theorem Keeps.foldl {step : BracketState κ F → PhaseSlot κ → BracketState κ F}
    (hStep : ∀ t, ∀ ds ∈ slots, Keeps t (step t ds)) (s : BracketState κ F) :
    Keeps s (slots.foldl step s) := by
  induction slots generalizing s with
  | nil => exact .of_row_eq rfl
  | cons ds slots ih =>
    exact (hStep s ds List.mem_cons_self).trans
      (ih (fun t ds hds => hStep t ds (List.mem_cons_of_mem _ hds)) _)

/-- A row that is not completed may be written, to one that is not. -/
theorem Keeps.setRow {row : Option (BoutRow F)}
    (hBefore : ∀ r ∈ s.row k, r.status ≠ .completed) (hAfter : ∀ r ∈ row, r.status ≠ .completed) :
    Keeps s (s.setRow k row) := by
  intro k' r hDone
  by_cases hKey : k' = k
  · subst hKey
    rw [setRow_row, if_pos rfl]
    exact ⟨fun h => absurd hDone (hAfter r h), fun h => absurd hDone (hBefore r h)⟩
  · rw [setRow_row, if_neg hKey]

theorem hasStarted_of_completed {row : BoutRow F} (h : row.status = .completed) :
    row.hasStarted = true := by
  rw [BoutRow.hasStarted, hasBeenFought, h]
  simp [FOUGHT_STATUSES]

theorem syncMatchToSlot_keeps (a b : Option F) : Keeps s (syncMatchToSlot slot a b s) := by
  rw [syncMatchToSlot]
  split
  · exact .of_row_eq rfl
  split
  · rename_i row hRow
    split
    · exact .of_row_eq rfl
    · rename_i hNew
      have hOpen : row.status ≠ .completed := fun hDone => hNew (hasStarted_of_completed hDone)
      refine .setRow (fun r hr => ?_) (fun r hr => ?_)
      · rw [hRow] at hr
        exact Option.some.inj hr ▸ hOpen
      · exact Option.some.inj hr ▸ hOpen
  · rename_i hNone
    split
    · refine .setRow (fun r hr => ?_) (fun r hr => ?_)
      · rw [hNone] at hr
        cases hr
      · exact Option.some.inj hr ▸ nofun
    · exact .of_row_eq rfl

theorem advanceFromSlot_keeps : Keeps s (advanceFromSlot phase self winner loser s) := by
  rw [advanceFromSlot]
  refine .foldl (fun t ds _ => ?_) s
  exact Keeps.trans (.of_row_eq rfl) (syncMatchToSlot_keeps _ _)

theorem retractGrandFinalReset_keeps : Keeps s (retractGrandFinalReset phase self s) := by
  refine Keeps.trans (.of_row_eq clearFedSides_row) (.foldl (fun t ds _ => ?_) _)
  rw [deleteUnplayedSlotMatch]
  split
  · rename_i row hRow
    split
    · rename_i hUnplayed
      refine .setRow (fun r hr => ?_) nofun
      rw [hRow] at hr
      obtain rfl := Option.some.inj hr
      rw [Bool.and_eq_true, decide_eq_true_eq] at hUnplayed
      rw [hUnplayed.1]
      nofun
    · exact .of_row_eq rfl
  · exact .of_row_eq rfl

theorem onMatchCompleted_keeps [DecidableEq F] : Keeps s (onMatchCompleted phase slot s) := by
  rw [onMatchCompleted]
  split
  · exact .of_row_eq rfl
  split
  · exact .of_row_eq rfl
  split
  · exact .of_row_eq rfl
  split
  · exact retractGrandFinalReset_keeps
  · exact advanceFromSlot_keeps

end MyClash.Bracket.Advance
