import MyClash.Bracket.Uncomplete
import MyClash.Bracket.ResultChange

/-!
# An un-completion cut short and called again

A second call finds the later bouts that still look fought, and clears what these had sent on. A
bout put back before the cut is not among them: what it had sent on stays where the first call had
not cleared it.
-/

namespace MyClash.Bracket.Advance

open CutShort

universe u v

variable {κ : Type u} {F : Type v} [DecidableEq κ]
variable {phase : BracketPhase κ} {root slot : PhaseSlot κ} {s t : BracketState κ F}
variable {writes : List (UncompleteWrite κ)} {k self : κ} {side : Side}

/-! ## What writes come to, in any order -/

def BoutRow.after (reverted unpaired : Bool) (row : BoutRow F) : BoutRow F :=
  if unpaired then (if reverted then row.unplayed else row).unpaired
  else if reverted then row.unplayed else row

theorem after_after (reverted unpaired reverted' unpaired' : Bool) (row : BoutRow F) :
    (row.after reverted unpaired).after reverted' unpaired' =
      row.after (reverted || reverted') (unpaired || unpaired') := by
  cases reverted <;> cases unpaired <;> cases reverted' <;> cases unpaired' <;> rfl

theorem hasStarted_after (reverted unpaired : Bool) (row : BoutRow F) :
    (row.after reverted unpaired).hasStarted = (!reverted && row.hasStarted) := by
  cases reverted <;> cases unpaired <;> rfl

theorem run_row (write : UncompleteWrite κ) (s : BracketState κ F) (k : κ) :
    (write.run s).row k = (s.row k).map (BoutRow.after
      (decide (.revertMatchToUnplayed k = write)) (decide (.clearDependentPairing k = write))) := by
  cases write with
  | elsewhere => exact Option.map_id'.symm
  | clearFedSides self slot => exact Option.map_id'.symm
  | revertMatchToUnplayed k' =>
    rw [UncompleteWrite.run, setRow_row]
    by_cases hKey : k = k'
    · subst hKey
      simp only [if_true, decide_true, reduceCtorEq, decide_false]
      rfl
    · simp only [UncompleteWrite.revertMatchToUnplayed.injEq, hKey, decide_false,
        reduceCtorEq]
      exact Option.map_id'.symm
  | clearDependentPairing k' =>
    rw [UncompleteWrite.run, clearDependentPairing_row]
    by_cases hKey : k = k'
    · subst hKey
      simp only [if_true, decide_true, reduceCtorEq, decide_false]
      rfl
    · simp only [UncompleteWrite.clearDependentPairing.injEq, hKey, decide_false,
        reduceCtorEq]
      exact Option.map_id'.symm

theorem runAll_row (writes : List (UncompleteWrite κ)) (s : BracketState κ F) (k : κ) :
    (runAll UncompleteWrite.run writes s).row k = (s.row k).map
      (BoutRow.after (decide (.revertMatchToUnplayed k ∈ writes))
        (decide (.clearDependentPairing k ∈ writes))) := by
  induction writes generalizing s with
  | nil => exact Option.map_id'.symm
  | cons write writes ih =>
    rw [runAll_cons, ih, run_row, Option.map_map]
    congr 1
    funext row
    rw [Function.comp_apply, after_after]
    simp only [List.mem_cons, Bool.decide_or]

/-- One of the writes clears the side. -/
def Clears (writes : List (UncompleteWrite κ)) (k : κ) (side : Side) : Prop :=
  ∃ self slot, .clearFedSides self slot ∈ writes ∧ slot.selfRef = k ∧
    feeds self (slot.source side) = true

theorem run_side (write : UncompleteWrite κ) (s : BracketState κ F) (k : κ) (side : Side) :
    (Clears [write] k side ∧ (write.run s).side k side = none) ∨
      (¬Clears [write] k side ∧ (write.run s).side k side = s.side k side) := by
  cases write with
  | elsewhere => exact .inr ⟨by simp [Clears], rfl⟩
  | revertMatchToUnplayed k' => exact .inr ⟨by simp [Clears], rfl⟩
  | clearDependentPairing k' =>
    refine .inr ⟨by simp [Clears], ?_⟩
    rw [UncompleteWrite.run, Advance.clearDependentPairing]
    split <;> rfl
  | clearFedSides self slot =>
    rw [UncompleteWrite.run, clearSlot_side]
    by_cases hKey : k = slot.selfRef
    · cases hFed : feeds self (slot.source side) with
      | true =>
        exact .inl ⟨⟨self, slot, List.mem_singleton.mpr rfl, hKey.symm, hFed⟩, by simp [hKey]⟩
      | false =>
        refine .inr ⟨?_, by simp [hKey]⟩
        rintro ⟨self', slot', hMem, -, hFed'⟩
        obtain ⟨rfl, rfl⟩ := UncompleteWrite.clearFedSides.inj (List.mem_singleton.mp hMem)
        exact Bool.noConfusion (hFed.symm.trans hFed')
    · refine .inr ⟨?_, if_neg hKey⟩
      rintro ⟨self', slot', hMem, hKey', -⟩
      obtain ⟨rfl, rfl⟩ := UncompleteWrite.clearFedSides.inj (List.mem_singleton.mp hMem)
      exact hKey hKey'.symm

theorem clears_cons {write : UncompleteWrite κ} :
    Clears (write :: writes) k side ↔ Clears [write] k side ∨ Clears writes k side := by
  simp only [Clears, List.mem_cons, List.not_mem_nil, or_false, or_and_right, exists_or]

theorem runAll_side_of_not_clears (h : ¬Clears writes k side) :
    (runAll UncompleteWrite.run writes s).side k side = s.side k side := by
  induction writes generalizing s with
  | nil => rfl
  | cons write writes ih =>
    rw [clears_cons, not_or] at h
    rw [runAll_cons, ih h.2]
    exact ((run_side write s k side).resolve_left fun hClears => h.1 hClears.1).2

theorem runAll_side_none (h : s.side k side = none) :
    (runAll UncompleteWrite.run writes s).side k side = none := by
  induction writes generalizing s with
  | nil => exact h
  | cons write writes ih =>
    refine ih ?_
    rcases run_side write s k side with ⟨-, hNone⟩ | ⟨-, hSame⟩
    · exact hNone
    · exact hSame.trans h

theorem runAll_side_of_clears (h : Clears writes k side) :
    (runAll UncompleteWrite.run writes s).side k side = none := by
  induction writes generalizing s with
  | nil =>
    obtain ⟨self, slot, hMem, -⟩ := h
    cases hMem
  | cons write writes ih =>
    rw [runAll_cons]
    rcases clears_cons.mp h with hFirst | hRest
    · exact runAll_side_none ((run_side write s k side).resolve_right fun hOther =>
        hOther.1 hFirst).2
    · exact ih hRest

omit [DecidableEq κ] in
theorem state_ext (hSide : ∀ k side, s.side k side = t.side k side)
    (hRow : ∀ k, s.row k = t.row k) : s = t := by
  cases s
  cases t
  congr
  · funext k side
    exact hSide k side
  · funext k
    exact hRow k

/-! ## The walk does not come back -/

structure Walk.Apart (k : κ) (walk : Walk κ) : Prop where
  visited : k ∈ walk.visited
  found : ∀ slot ∈ walk.found, slot.selfRef ≠ k

omit [DecidableEq κ] in
theorem Walk.Apart.foldl {α : Type v} {step : Walk κ → α → Walk κ}
    (hStep : ∀ walk x, walk.Apart k → (step walk x).Apart k) {walk : Walk κ} (h : walk.Apart k)
    (xs : List α) : (xs.foldl step walk).Apart k := by
  induction xs generalizing walk with
  | nil => exact h
  | cons x xs ih => exact ih (hStep walk x h)

theorem Walk.Apart.visit {walk : Walk κ} (h : walk.Apart k) (self : κ) (slot : PhaseSlot κ) :
    (walk.visit self slot).Apart k := by
  rw [Walk.visit]
  split_ifs with hVisited
  · exact h
  · exact h
  · refine ⟨List.mem_cons_of_mem _ h.visited, fun other hOther => ?_⟩
    rcases List.mem_append.mp hOther with hOther | hOther
    · exact h.found other hOther
    · obtain rfl := List.mem_singleton.mp hOther
      exact fun hEq => hVisited (hEq ▸ h.visited)

theorem Walk.Apart.hop {walk : Walk κ} (h : walk.Apart k) : (walk.hop phase).Apart k := by
  have hStart : ({ walk with frontier := [] } : Walk κ).Apart k := ⟨h.visited, h.found⟩
  refine Walk.Apart.foldl (fun walk from' hWalk => ?_) hStart _
  exact Walk.Apart.foldl (fun walk slot hWalk => hWalk.visit from'.selfRef slot) hWalk _

theorem Walk.Apart.run {hops : ℕ} {walk : Walk κ} (h : walk.Apart k)
    {found : List (PhaseSlot κ)} (hRun : Walk.run phase hops walk = some found) :
    ∀ slot ∈ found, slot.selfRef ≠ k := by
  induction hops generalizing walk with
  | zero =>
    match walk, hRun with
    | ⟨_, _, []⟩, hRun =>
      cases hRun
      exact h.found
  | succ hops ih =>
    match walk, hRun with
    | ⟨_, _, []⟩, hRun =>
      cases hRun
      exact h.found
    | ⟨_, _, _ :: _⟩, hRun => exact ih h.hop hRun

theorem ne_of_mem_dependentClosure {dependents : List (PhaseSlot κ)}
    (h : dependentClosure phase root = some dependents) :
    ∀ slot ∈ dependents, slot.selfRef ≠ root.selfRef := by
  obtain ⟨found, hRun, rfl⟩ := Option.map_eq_some_iff.mp h
  intro slot hSlot
  have hStart : (⟨[root.selfRef], [], [root]⟩ : Walk κ).Apart root.selfRef :=
    ⟨List.mem_singleton.mpr rfl, nofun⟩
  exact hStart.run hRun slot ((List.mem_insertionSort _).mp hSlot)

/-! ## The writes of a call -/

section Call

variable {dependents : List (PhaseSlot κ)}

theorem writes_onMatchUncompleted (h : dependentClosure phase root = some dependents)
    (s : BracketState κ F) : (onMatchUncompleted phase root s).writes =
      revertFought (dependents.filter s.hasBeenFought) ++
        clearAllFed phase root (dependents.filter s.hasBeenFought) dependents s ++
          [.elsewhere] := by
  rw [onMatchUncompleted, h]
  rfl

theorem revert_mem_iff (h : dependentClosure phase root = some dependents) :
    .revertMatchToUnplayed k ∈ (onMatchUncompleted phase root s).writes ↔
      ∃ bout ∈ dependents, s.hasBeenFought bout = true ∧ bout.selfRef = k := by
  rw [writes_onMatchUncompleted h]
  simp only [revertFought, clearAllFed, clearDownstreamOf, List.mem_append, List.mem_flatMap,
    List.mem_map, List.mem_cons, List.mem_filter, List.not_mem_nil, reduceCtorEq, or_false,
    false_or, and_false, exists_false, UncompleteWrite.revertMatchToUnplayed.injEq, and_assoc,
    eq_comm (a := k)]
  split <;> simp

theorem pairing_mem_iff (h : dependentClosure phase root = some dependents) :
    .clearDependentPairing k ∈ (onMatchUncompleted phase root s).writes ↔
      ∃ bout ∈ dependents, (s.row bout.selfRef).isSome = true ∧ bout.selfRef = k := by
  rw [writes_onMatchUncompleted h]
  simp only [revertFought, clearAllFed, clearDownstreamOf, List.mem_append, List.mem_flatMap,
    List.mem_map, List.mem_cons, List.mem_filter, List.not_mem_nil, reduceCtorEq, or_false,
    false_or, and_false, exists_false, UncompleteWrite.clearDependentPairing.injEq, and_assoc]
  split <;> simp

theorem clear_mem_iff (h : dependentClosure phase root = some dependents) :
    .clearFedSides self slot ∈ (onMatchUncompleted phase root s).writes ↔
      slot ∈ phase.downstreamSlots self ∧ (self = root.selfRef ∨
        ∃ bout ∈ dependents, s.hasBeenFought bout = true ∧ bout.selfRef = self) := by
  rw [writes_onMatchUncompleted h]
  simp only [revertFought, clearAllFed, clearDownstreamOf, List.mem_append, List.mem_flatMap,
    List.mem_map, List.mem_cons, List.mem_filter, List.not_mem_nil, reduceCtorEq, or_false,
    false_or, and_false, exists_false, UncompleteWrite.clearFedSides.injEq, and_assoc]
  have hNotHere : .clearFedSides self slot ∉
      if dependents.filter s.hasBeenFought = [] then [] else [UncompleteWrite.elsewhere] := by
    split <;> simp
  constructor
  · rintro (hHere | ⟨other, hOther, rfl, rfl⟩ | ⟨bout, hBout, hFought, other, hOther, rfl, rfl⟩)
    · exact absurd hHere hNotHere
    · exact ⟨hOther, .inl rfl⟩
    · exact ⟨hOther, .inr ⟨bout, hBout, hFought, rfl⟩⟩
  · rintro ⟨hSlot, rfl | ⟨bout, hBout, hFought, rfl⟩⟩
    · exact .inr (.inl ⟨slot, hSlot, rfl, rfl⟩)
    · exact .inr (.inr ⟨bout, hBout, hFought, slot, hSlot, rfl, rfl⟩)

/-- After some of a call's writes: what they put back looks fought no more. -/
theorem hasBeenFought_runAll (writes : List (UncompleteWrite κ)) (bout : PhaseSlot κ) :
    (runAll UncompleteWrite.run writes s).hasBeenFought bout = true ↔
      s.hasBeenFought bout = true ∧ .revertMatchToUnplayed bout.selfRef ∉ writes := by
  rw [BracketState.hasBeenFought, BracketState.hasBeenFought, runAll_row]
  cases s.row bout.selfRef with
  | none => simp
  | some row =>
    simp only [Option.map_some, Option.any_some, hasStarted_after, Bool.and_eq_true,
      Bool.not_eq_true', decide_eq_false_iff_not]
    exact and_comm

theorem isSome_row_runAll (writes : List (UncompleteWrite κ)) (k : κ) :
    ((runAll UncompleteWrite.run writes s).row k).isSome = (s.row k).isSome := by
  rw [runAll_row, Option.isSome_map]

end Call

/-! ## Cut short and called again -/

/-- What the bouts put back before the cut had sent on was cleared before it, or was nothing. -/
def NothingLeft (phase : BracketPhase κ) (s : BracketState κ F)
    (before : List (UncompleteWrite κ)) : Prop :=
  ∀ self, .revertMatchToUnplayed self ∈ before → ∀ slot ∈ phase.downstreamSlots self,
    .clearFedSides self slot ∉ before → ∀ side, feeds self (slot.source side) = true →
      s.side slot.selfRef side = none

structure UncompleteLaw (phase : BracketPhase κ) (F : Type v) : Prop where
  again_iff : ∀ root ∈ phase.slots, ∀ (s : BracketState κ F) before,
    before <+: (onMatchUncompleted phase root s).writes →
      (uncompletedAgain phase root s before = uncompleted phase root s ↔
        NothingLeft phase s before)
  taken_back : ∀ root ∈ phase.slots, ∀ s : BracketState κ F,
    (onMatchUncompleted phase root s).refusal = none → ∀ self, (self = root.selfRef ∨
      .revertMatchToUnplayed self ∈ (onMatchUncompleted phase root s).writes) →
        ∀ slot ∈ phase.slots, ∀ side, feeds self (slot.source side) = true →
          (uncompleted phase root s).side slot.selfRef side = none

section Law

variable {dependents : List (PhaseSlot κ)} {before : List (UncompleteWrite κ)}

/-- Both calls' writes, one after the other. -/
def bothWrites (phase : BracketPhase κ) (root : PhaseSlot κ) (s : BracketState κ F)
    (before : List (UncompleteWrite κ)) : List (UncompleteWrite κ) :=
  before ++ (onMatchUncompleted phase root (runAll UncompleteWrite.run before s)).writes

theorem uncompletedAgain_eq (s : BracketState κ F) (before : List (UncompleteWrite κ)) :
    uncompletedAgain phase root s before =
      runAll UncompleteWrite.run (bothWrites phase root s before) s := by
  rw [bothWrites, runAll_append]
  rfl

theorem revert_both_iff (h : dependentClosure phase root = some dependents)
    (hPrefix : before <+: (onMatchUncompleted phase root s).writes) :
    .revertMatchToUnplayed k ∈ bothWrites phase root s before ↔
      .revertMatchToUnplayed k ∈ (onMatchUncompleted phase root s).writes := by
  rw [bothWrites, List.mem_append, revert_mem_iff h (s := runAll UncompleteWrite.run before s)]
  constructor
  · rintro (hBefore | ⟨bout, hBout, hFought, hRef⟩)
    · exact hPrefix.subset hBefore
    · exact (revert_mem_iff h).mpr
        ⟨bout, hBout, ((hasBeenFought_runAll _ bout).mp hFought).1, hRef⟩
  · intro hMem
    by_cases hBefore : .revertMatchToUnplayed k ∈ before
    · exact .inl hBefore
    · obtain ⟨bout, hBout, hFought, rfl⟩ := (revert_mem_iff h).mp hMem
      exact .inr ⟨bout, hBout, (hasBeenFought_runAll _ bout).mpr ⟨hFought, hBefore⟩, rfl⟩

theorem pairing_both_iff (h : dependentClosure phase root = some dependents)
    (hPrefix : before <+: (onMatchUncompleted phase root s).writes) :
    .clearDependentPairing k ∈ bothWrites phase root s before ↔
      .clearDependentPairing k ∈ (onMatchUncompleted phase root s).writes := by
  have hAgain : .clearDependentPairing k ∈
      (onMatchUncompleted phase root (runAll UncompleteWrite.run before s)).writes ↔
        .clearDependentPairing k ∈ (onMatchUncompleted phase root s).writes := by
    rw [pairing_mem_iff h, pairing_mem_iff h]
    refine exists_congr fun bout => and_congr_right fun _ => and_congr_left fun _ => ?_
    rw [isSome_row_runAll]
  rw [bothWrites, List.mem_append, hAgain]
  exact or_iff_right_of_imp fun hBefore => hPrefix.subset hBefore

theorem clear_both_iff (h : dependentClosure phase root = some dependents)
    (hPrefix : before <+: (onMatchUncompleted phase root s).writes) :
    .clearFedSides self slot ∈ bothWrites phase root s before ↔
      .clearFedSides self slot ∈ (onMatchUncompleted phase root s).writes ∧
        (.revertMatchToUnplayed self ∈ before → .clearFedSides self slot ∈ before) := by
  rw [bothWrites, List.mem_append, clear_mem_iff h (s := runAll UncompleteWrite.run before s)]
  constructor
  · rintro (hBefore | ⟨hSlot, rfl | ⟨bout, hBout, hFought, rfl⟩⟩)
    · exact ⟨hPrefix.subset hBefore, fun _ => hBefore⟩
    · refine ⟨(clear_mem_iff h).mpr ⟨hSlot, .inl rfl⟩, fun hReverted => ?_⟩
      -- the walk does not come back to the bout it starts from
      obtain ⟨bout, hBout, -, hRef⟩ := (revert_mem_iff h).mp (hPrefix.subset hReverted)
      exact absurd hRef (ne_of_mem_dependentClosure h bout hBout)
    · obtain ⟨hFought, hKept⟩ := (hasBeenFought_runAll _ bout).mp hFought
      exact ⟨(clear_mem_iff h).mpr ⟨hSlot, .inr ⟨bout, hBout, hFought, rfl⟩⟩,
        fun hReverted => absurd hReverted hKept⟩
  · rintro ⟨hMem, hCleared⟩
    by_cases hReverted : .revertMatchToUnplayed self ∈ before
    · exact .inl (hCleared hReverted)
    · obtain ⟨hSlot, rfl | ⟨bout, hBout, hFought, rfl⟩⟩ := (clear_mem_iff h).mp hMem
      · exact .inr ⟨hSlot, .inl rfl⟩
      · exact .inr ⟨hSlot, .inr ⟨bout, hBout,
          (hasBeenFought_runAll _ bout).mpr ⟨hFought, hReverted⟩, rfl⟩⟩

theorem uncompletedAgain_row (h : dependentClosure phase root = some dependents)
    (hPrefix : before <+: (onMatchUncompleted phase root s).writes) (k : κ) :
    (uncompletedAgain phase root s before).row k = (uncompleted phase root s).row k := by
  rw [uncompletedAgain_eq, uncompleted, Sent.done, runAll_row, runAll_row]
  simp only [revert_both_iff h hPrefix, pairing_both_iff h hPrefix]

theorem again_iff_of_closure (hNodup : (phase.slots.map PhaseSlot.selfRef).Nodup)
    (h : dependentClosure phase root = some dependents)
    (hPrefix : before <+: (onMatchUncompleted phase root s).writes) :
    uncompletedAgain phase root s before = uncompleted phase root s ↔
      NothingLeft phase s before := by
  constructor
  · intro hSame self hReverted slot hSlot hNot side hFed
    have hFought := (revert_mem_iff h).mp (hPrefix.subset hReverted)
    have hWhole : (uncompleted phase root s).side slot.selfRef side = none :=
      runAll_side_of_clears ⟨self, slot, (clear_mem_iff h).mpr ⟨hSlot, .inr hFought⟩, rfl, hFed⟩
    have hKept : ¬Clears (bothWrites phase root s before) slot.selfRef side := by
      rintro ⟨self', slot', hMem, hRef, hFed'⟩
      obtain ⟨hMem, hCleared⟩ := (clear_both_iff h hPrefix).mp hMem
      have hSlot' := ((clear_mem_iff h).mp hMem).1
      obtain rfl := eq_of_selfRef hNodup (mem_downstreamSlots.mp hSlot').1
        (mem_downstreamSlots.mp hSlot).1 hRef
      obtain rfl := eq_of_feeds hFed' hFed
      exact hNot (hCleared hReverted)
    rw [← runAll_side_of_not_clears hKept, ← uncompletedAgain_eq, hSame]
    exact hWhole
  · intro hNothing
    refine state_ext (fun k side => ?_) (uncompletedAgain_row h hPrefix)
    rw [uncompletedAgain_eq, uncompleted, Sent.done]
    by_cases hBoth : Clears (bothWrites phase root s before) k side
    · have hWhole : Clears (onMatchUncompleted phase root s).writes k side := by
        obtain ⟨self, slot, hMem, hRef, hFed⟩ := hBoth
        exact ⟨self, slot, ((clear_both_iff h hPrefix).mp hMem).1, hRef, hFed⟩
      rw [runAll_side_of_clears hBoth, runAll_side_of_clears hWhole]
    · rw [runAll_side_of_not_clears hBoth]
      by_cases hWhole : Clears (onMatchUncompleted phase root s).writes k side
      · rw [runAll_side_of_clears hWhole]
        obtain ⟨self, slot, hMem, rfl, hFed⟩ := hWhole
        have hLost : ¬(.revertMatchToUnplayed self ∈ before →
            .clearFedSides self slot ∈ before) := fun hCleared =>
          hBoth ⟨self, slot, (clear_both_iff h hPrefix).mpr ⟨hMem, hCleared⟩, rfl, hFed⟩
        obtain ⟨hReverted, hNot⟩ := Classical.not_imp.mp hLost
        exact hNothing self hReverted slot ((clear_mem_iff h).mp hMem).1 hNot side hFed
      · rw [runAll_side_of_not_clears hWhole]

theorem again_iff (hNodup : (phase.slots.map PhaseSlot.selfRef).Nodup)
    (hPrefix : before <+: (onMatchUncompleted phase root s).writes) :
    uncompletedAgain phase root s before = uncompleted phase root s ↔
      NothingLeft phase s before := by
  cases hClosure : dependentClosure phase root with
  | none =>
    have hNone : ∀ s : BracketState κ F, onMatchUncompleted phase root s =
        .refuse .walkExceeded := by
      intro s
      rw [onMatchUncompleted, hClosure]
    have hStays : ∀ s : BracketState κ F, uncompleted phase root s = s := by
      intro s
      rw [uncompleted, hNone]
      rfl
    rw [hNone] at hPrefix
    obtain rfl := List.prefix_nil.mp hPrefix
    rw [uncompletedAgain, hStays, hStays]
    exact iff_of_true rfl nofun
  | some dependents => exact again_iff_of_closure hNodup hClosure hPrefix

theorem uncompleteLaw_of_nodup (hNodup : (phase.slots.map PhaseSlot.selfRef).Nodup) :
    UncompleteLaw phase F where
  again_iff _ _ _ _ hPrefix := again_iff hNodup hPrefix
  taken_back root hRoot s hRefusal self hSelf slot hSlot side hFed := by
    cases hClosure : dependentClosure phase root with
    | none =>
      rw [onMatchUncompleted, hClosure] at hRefusal
      cases hRefusal
    | some dependents =>
      refine runAll_side_of_clears ⟨self, slot, (clear_mem_iff hClosure).mpr ⟨?_, ?_⟩, rfl, hFed⟩
      · exact mem_downstreamSlots.mpr ⟨hSlot, side, hFed⟩
      · exact hSelf.imp_right (revert_mem_iff hClosure).mp

end Law

/-! ## The phases of the two generators -/

theorem generated_uncompleteLaw (F : Type v) (fighterCount : ℕ) :
    (∀ size b, singleElimBracket fighterCount size = .ok b →
      UncompleteLaw (singleElimPhase b) F) ∧
    ∀ options b, doubleElimBracket fighterCount options = .ok b →
      UncompleteLaw (doubleElimPhase b) F := by
  constructor
  · intro size b h
    exact uncompleteLaw_of_nodup (singleElimPhase_joined h).wired.nodup
  · intro options b h
    exact uncompleteLaw_of_nodup (DoubleElim.doubleElimPhase_joined h).wired.nodup

/-- The first bout is taken back after a grand final that asked for a reset: a call cut short
before its first write is made good. -/
theorem generated_uncompleteLaw_two :
    (∃ b, singleElimBracket 13 (some 16) = .ok b ∧ UncompleteLaw (singleElimPhase b) ℕ) ∧
    doubleElimBracket 2 { grandFinalReset := some true } = .ok bracketOfTwo ∧
      uncompletedAgain phaseOfTwo firstBout (afterGrandFinal 2) [] =
        uncompleted phaseOfTwo firstBout (afterGrandFinal 2) := by
  refine ⟨⟨_, rfl, (generated_uncompleteLaw ℕ 13).1 (some 16) _ rfl⟩, doubleElimBracket_two, ?_⟩
  have hLaw := (generated_uncompleteLaw ℕ 2).2 { grandFinalReset := some true } bracketOfTwo
    doubleElimBracket_two
  exact (hLaw.again_iff firstBout (by decide) _ [] List.nil_prefix).mpr nofun

/-- The grand final was put back, then the call was cut short: the reset keeps both fighters. -/
theorem uncompletedAgain_not_whole : ¬∀ fighterCount options b,
    doubleElimBracket fighterCount options = .ok b → ∀ (entrant : ℕ → ℕ) handed s,
      Reached (doubleElimPhase b) entrant handed s → ∀ root ∈ (doubleElimPhase b).slots, ∀ row,
        s.row root.selfRef = some row → row.status = .completed → ∀ before,
          before <+: (onMatchUncompleted (doubleElimPhase b) root s).writes →
            uncompletedAgain (doubleElimPhase b) root s before =
              uncompleted (doubleElimPhase b) root s := by
  intro h
  have hSame := h 2 _ bracketOfTwo doubleElimBracket_two id _ _
    (afterGrandFinal_reached (.inr rfl)) firstBout (by decide) (boutRow (some 1)) rfl rfl _
    (List.take_prefix 4 _)
  have hReset := congrArg (fun s => s.side .gfReset .a) hSame
  cases hReset

end MyClash.Bracket.Advance
