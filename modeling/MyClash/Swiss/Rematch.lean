import MyClash.Swiss.Round
import Mathlib.Data.Nat.Find

/-!
# When a round is forced into a rematch

While the budget lasts, every bracket but the last pairs its largest even initial
segment that can do without a rematch, and floats the others. What the last bracket
is left with decides the round: it meets again exactly when that bracket cannot be
paired without a rematch, whatever the field as a whole would have allowed.
-/

namespace MyClash.Swiss

open StableSort Pairing

universe u

variable {ι : Type u}

/-- Some pairing of these fighters has no rematch. -/
def RematchFree (players : List (SwissPlayer ι)) : Prop := Closable HaveMet players

theorem rematchFree_take_iff [DecidableEq ι] {bracket : List (SwissPlayer ι)}
    (hNodup : (bracket.map (·.registrationId)).Nodup) {size : ℕ} (hSize : size ≤ bracket.length) :
    Closable (fun i j => haveMetLookup bracket i j = true) (List.range size) ↔
      RematchFree (bracket.take size) := by
  -- both are the same pairing, of the entries the indices look up
  let metAt (x y : Option (SwissPlayer ι)) : Prop := ∃ a b, x = some a ∧ y = some b ∧ HaveMet a b
  have hMetAt : ∀ a b, metAt (some a) (some b) ↔ HaveMet a b := by simp [metAt]
  have hLookup : (List.range size).map (fun i => bracket[i]?) = (bracket.take size).map some := by
    refine List.ext_getElem (by simp [hSize]) fun i hi hi' => ?_
    simp only [List.length_map, List.length_range] at hi
    simp [List.getElem?_eq_getElem (hi.trans_le hSize)]
  have hIndex : Closable metAt ((List.range size).map fun i => bracket[i]?) ↔
      Closable (fun i j => haveMetLookup bracket i j = true) (List.range size) := by
    refine closable_map_iff _ fun i hi j hj => ?_
    have hi := List.getElem?_eq_getElem ((List.mem_range.mp hi).trans_le hSize)
    have hj := List.getElem?_eq_getElem ((List.mem_range.mp hj).trans_le hSize)
    rw [hi, hj, hMetAt]
    exact (haveMetLookup_iff hNodup hi hj).symm
  rw [← hIndex, hLookup]
  exact closable_map_iff some fun a _ b _ => hMetAt a b

variable [LinearOrder ι]

open Classical in
/-- Half the size of the largest even initial segment that can do without a rematch. -/
noncomputable def closableHalf (bracket : List (SwissPlayer ι)) : ℕ :=
  Nat.findGreatest (fun half => RematchFree (bracket.take (2 * half))) (bracket.length / 2)

/-- The last bracket when every other one floats as few fighters as it can. -/
noncomputable def lastBracket :
    List (SwissPlayer ι) → List (List (SwissPlayer ι)) → List (SwissPlayer ι)
  | _, [] => []
  | carried, [group] => sortByRank (carried ++ group)
  | carried, group :: next :: groups =>
    let bracket := sortByRank (carried ++ group)
    lastBracket (bracket.drop (2 * closableHalf bracket)) (next :: groups)

/-! ## One bracket under budget -/

theorem closePrefix_left_le (bracket : List (SwissPlayer ι)) (method : SwissPairingMethod)
    (half : ℕ) (budget : SearchBudget) :
    (closePrefix bracket method half budget).budget.left ≤ budget.left := by
  induction half generalizing budget with
  | zero => exact le_rfl
  | succ half ih =>
    have hSearch : (searchMatching (haveMetLookup bracket) method (2 * (half + 1)) budget).2.left ≤
        budget.left := searchMatching_left_le method _ budget
    rw [closePrefix]
    split <;> rename_i budget' hEq <;> rw [hEq] at hSearch
    · exact hSearch
    · exact (ih budget').trans hSearch

theorem closeBracket_left_le (bracket : List (SwissPlayer ι)) (method : SwissPairingMethod)
    (isLast : Bool) (budget : SearchBudget) :
    (closeBracket bracket method isLast budget).budget.left ≤ budget.left := by
  have hSearch : (searchMatching (haveMetLookup bracket) method bracket.length budget).2.left ≤
      budget.left := searchMatching_left_le method _ budget
  rw [closeBracket]
  split
  · split
    · exact le_rfl
    · split <;> rename_i budget' hEq <;> rw [hEq] at hSearch <;> exact hSearch
  · exact closePrefix_left_le _ _ _ _

theorem pairGroups_left_le (method : SwissPairingMethod) (groups : List (List (SwissPlayer ι)))
    (s : PlanState ι) : (pairGroups method groups s).budget.left ≤ s.budget.left := by
  induction groups generalizing s with
  | nil => exact le_rfl
  | cons group groups ih => exact (ih _).trans (closeBracket_left_le _ _ _ _)

section Bracket

variable {bracket : List (SwissPlayer ι)}

theorem searchMatching_isSome_iff (hNodup : (bracket.map (·.registrationId)).Nodup)
    (method : SwissPairingMethod) (budget : SearchBudget) {size : ℕ} (hSize : size ≤ bracket.length)
    (hLeft : 0 < (searchMatching (haveMetLookup bracket) method size budget).2.left) :
    (searchMatching (haveMetLookup bracket) method size budget).1.isSome = true ↔
      RematchFree (bracket.take size) := by
  rw [← rematchFree_take_iff hNodup hSize]
  cases hSearch : (searchMatching (haveMetLookup bracket) method size budget).1 with
  | some pairs =>
    obtain ⟨hPlaces, hFree⟩ := searchMatching_some hSearch
    exact iff_of_true rfl ⟨pairs, hPlaces, fun p hp => by simp [(hFree p hp).1]⟩
  | none =>
    refine iff_of_false (by simp) ?_
    exact searchMatching_none (haveMetLookup_comm bracket) hSearch hLeft

def PairsFree (bracket : List (SwissPlayer ι)) (indexPairs : List IndexPair) : Prop :=
  ∀ p ∈ indexPairs, haveMetLookup bracket p.1 p.2 = false

theorem pairsFree_cons {p : IndexPair} {indexPairs : List IndexPair} :
    PairsFree bracket (p :: indexPairs) ↔
      haveMetLookup bracket p.1 p.2 = false ∧ PairsFree bracket indexPairs :=
  List.forall_mem_cons

theorem toPairings_rematch {indexPairs : List IndexPair}
    (hRange : ∀ i ∈ places indexPairs, i < bracket.length) (paired : ℕ) :
    (∀ p ∈ toPairings bracket paired indexPairs, p.rematch = false) ↔
      PairsFree bracket indexPairs := by
  induction indexPairs generalizing paired with
  | nil => simp [toPairings, PairsFree]
  | cons p indexPairs ih =>
    obtain ⟨x, y⟩ := p
    simp only [places_cons, List.forall_mem_cons] at hRange
    rw [toPairings_cons hRange.1 hRange.2.1, List.forall_mem_cons, ih hRange.2.2,
      pairsFree_cons]
    rfl

/-- Under budget the largest closable even segment is found, and found clean. -/
theorem closePrefix_floated (hNodup : (bracket.map (·.registrationId)).Nodup)
    (method : SwissPairingMethod) (half : ℕ) (hHalf : 2 * half ≤ bracket.length)
    (budget : SearchBudget)
    (hLeft : 0 < (closePrefix bracket method half budget).budget.left)
    (hAbove : ∀ k, half < k → k ≤ bracket.length / 2 → ¬RematchFree (bracket.take (2 * k))) :
    (closePrefix bracket method half budget).floated = bracket.drop (2 * closableHalf bracket) ∧
      PairsFree bracket (closePrefix bracket method half budget).indexPairs := by
  classical
  induction half generalizing budget with
  | zero =>
    have hZero : closableHalf bracket = 0 :=
      Nat.findGreatest_eq_zero_iff.mpr fun k hPos hk => hAbove k hPos hk
    rw [hZero]
    exact ⟨rfl, nofun⟩
  | succ half ih =>
    rw [closePrefix] at hLeft ⊢
    have hIff := searchMatching_isSome_iff hNodup method budget hHalf
    split at hLeft <;> rename_i hSearch <;> rw [hSearch] at hIff
    · have hFree := (hIff hLeft).mp rfl
      have hGreatest : closableHalf bracket = half + 1 :=
        Nat.findGreatest_eq_iff.mpr ⟨by omega, fun _ => hFree, fun k hk hk' => hAbove k hk hk'⟩
      rw [hGreatest]
      exact ⟨rfl, fun p hp => ((searchMatching_some (congrArg Prod.fst hSearch)).2 p hp).1⟩
    · refine ih (by omega) _ hLeft fun k hk hk' hFree => ?_
      rcases Nat.lt_or_eq_of_le (Nat.succ_le_of_lt hk) with hLt | rfl
      · exact hAbove k hLt hk' hFree
      · have hSome := (hIff (hLeft.trans_le (closePrefix_left_le _ _ _ _))).mpr hFree
        cases hSome

/-- The last bracket has no rematch exactly when it can do without one. -/
theorem closeLast_pairsFree_iff (hNodup : (bracket.map (·.registrationId)).Nodup)
    (hEven : Even bracket.length) (method : SwissPairingMethod) (budget : SearchBudget)
    (hLeft : 0 < (closeBracket bracket method true budget).budget.left) :
    PairsFree bracket (closeBracket bracket method true budget).indexPairs ↔
      RematchFree bracket := by
  rw [closeBracket, if_pos rfl] at hLeft ⊢
  split at hLeft
  · rename_i hEmpty
    rw [if_pos hEmpty, List.length_eq_zero_iff.mp hEmpty]
    exact iff_of_true (by rintro _ ⟨⟩) closable_nil
  · rename_i hNonempty
    rw [if_neg hNonempty]
    have hIff := searchMatching_isSome_iff hNodup method budget le_rfl
    rw [List.take_length] at hIff
    split at hLeft <;> rename_i hSearch <;> rw [hSearch] at hIff
    · refine iff_of_true (fun p hp => ?_) ((hIff hLeft).mp rfl)
      exact ((searchMatching_some (congrArg Prod.fst hSearch)).2 p hp).1
    · have hNot : ¬RematchFree bracket := fun h => by
        have hSome := (hIff hLeft).mpr h
        cases hSome
      refine iff_of_false (fun hFree => hNot ?_) hNot
      -- a fallback without a rematch would itself be a pairing of the bracket
      rw [← List.take_length (l := bracket), ← rematchFree_take_iff hNodup le_rfl]
      exact ⟨_, idealPairs_perm hEven method, fun p hp => by simp [hFree p hp]⟩

end Bracket

/-! ## The loop -/

section Loop

variable {rest group : List (SwissPlayer ι)} {groups : List (List (SwissPlayer ι))}
  {s : PlanState ι}

theorem pairGroup_rematch (h : Progress rest (group :: groups) s) (hEven : Even rest.length)
    (method : SwissPairingMethod) :
    (∀ p ∈ (pairGroup method groups.isEmpty group s).pairings, p.rematch = false) ↔
      (∀ p ∈ s.pairings, p.rematch = false) ∧
        PairsFree (nextBracket s group)
          (closeBracket (nextBracket s group) method groups.isEmpty s.budget).indexPairs := by
  obtain ⟨⟨size, hSize, hPlaces, _⟩, _⟩ :=
    closeBracket_law (h.bracket_even hEven) method s.budget
  rw [← toPairings_rematch (fun i hi => (List.mem_range.mp (hPlaces.mem_iff.mp hi)).trans_le hSize)
    s.pairings.length]
  exact List.forall_mem_append

theorem pairGroups_rematch_iff (hEven : Even rest.length)
    (hNodup : (rest.map (·.registrationId)).Nodup) (method : SwissPairingMethod) :
    ∀ {groups : List (List (SwissPlayer ι))} {s : PlanState ι}, Progress rest groups s →
      0 < (pairGroups method groups s).budget.left →
      ((∀ p ∈ (pairGroups method groups s).pairings, p.rematch = false) ↔
        (∀ p ∈ s.pairings, p.rematch = false) ∧ RematchFree (lastBracket s.carried groups))
  | [], _, _, _ => (and_iff_left closable_nil).symm
  | [group], s, h, hLeft => by
    refine (pairGroup_rematch h hEven method).trans (and_congr_right fun _ => ?_)
    exact closeLast_pairsFree_iff (h.bracket_nodup hNodup) (h.bracket_even hEven rfl) method _ hLeft
  | group :: next :: groups, s, h, hLeft => by
    have hStep := h.pairGroup hEven hNodup method
    rw [pairGroups] at hLeft
    have hClosed := closePrefix_floated (h.bracket_nodup hNodup) method _ (Nat.mul_div_le _ _)
      s.budget (hLeft.trans_le (pairGroups_left_le method (next :: groups) _))
      (fun k hk hk' => absurd (hk.trans_le hk') (lt_irrefl _))
    have hRest := pairGroups_rematch_iff hEven hNodup method hStep hLeft
    rw [pairGroups, hRest, pairGroup_rematch h hEven method]
    have hCarried : (pairGroup method (next :: groups).isEmpty group s).carried =
        (nextBracket s group).drop (2 * closableHalf (nextBracket s group)) := hClosed.1
    have hPaired : PairsFree (nextBracket s group)
        (closeBracket (nextBracket s group) method (next :: groups).isEmpty s.budget).indexPairs :=
      hClosed.2
    rw [hCarried, and_iff_left hPaired]
    rfl

end Loop

/-! ## The round -/

/-- The fighters left after the bye. -/
def restAfterBye (players : List (SwissPlayer ι)) : List (SwissPlayer ι) :=
  (takeBye (sortByRank players)).2

theorem planSwissRound_rematch_iff {players : List (SwissPlayer ι)} (opts : SwissOptions)
    (hNodup : (players.map (·.registrationId)).Nodup)
    (hBudget : 0 < (planState players opts).budget.left) :
    (∀ p ∈ (planSwissRound players opts).pairings, p.rematch = false) ↔
      RematchFree (lastBracket [] (groupsOf opts.grouping (restAfterBye players))) := by
  have hSorted := sortByRank_pairwise hNodup
  have hFieldNodup : ((sortByRank players).map (·.registrationId)).Nodup :=
    nodup_map_sortWith _ hNodup
  have hRestNodup : ((restAfterBye players).map (·.registrationId)).Nodup := by
    have hAll := ((takeBye_perm hSorted hFieldNodup).map (·.registrationId)).nodup_iff.mpr hFieldNodup
    rw [List.map_append] at hAll
    exact (List.nodup_append.mp hAll).2.1
  have hState : (∀ p ∈ (planState players opts).pairings, p.rematch = false) ↔
      RematchFree (lastBracket [] (groupsOf opts.grouping (restAfterBye players))) := by
    refine (pairGroups_rematch_iff (takeBye_rest_even hSorted hFieldNodup) hRestNodup
      opts.pairingMethod (progress_start (groupsOf_perm _ _) (singletonWarnings_code _ _) newBudget)
      hBudget).trans ?_
    exact and_iff_right nofun
  rw [← hState, planSwissRound]
  split
  · rename_i hEmpty
    have hNil : players = [] := by simpa [sortByRank] using hEmpty
    have hNone : (planState players opts).pairings = [] := by
      have hLength := planState_length opts hNodup
      have hRest : (takeBye (sortByRank players)).2.length = 0 := by
        rw [hNil]
        rfl
      exact List.length_eq_zero_iff.mp (by omega)
    rw [hNone]
  · rfl

/-- Whether the round keeps the promise that a rematch is a last resort. -/
theorem rematch_only_without_alternative_iff {players : List (SwissPlayer ι)}
    (opts : SwissOptions) (hNodup : (players.map (·.registrationId)).Nodup)
    (hBudget : 0 < (planState players opts).budget.left) :
    (RematchFree (restAfterBye players) →
        ∀ p ∈ (planSwissRound players opts).pairings, p.rematch = false) ↔
      (RematchFree (restAfterBye players) →
        RematchFree (lastBracket [] (groupsOf opts.grouping (restAfterBye players)))) := by
  rw [planSwissRound_rematch_iff opts hNodup hBudget]

/-- Two point groups, of which the lower has already met: the upper one pairs cleanly
and floats nobody, so the lower one is left with its rematch. -/
def metBelow : List (SwissPlayer ℕ) :=
  [⟨1, 3, none, [], false, 1⟩, ⟨2, 3, none, [], false, 2⟩,
    ⟨3, 0, none, [4], false, 3⟩, ⟨4, 0, none, [3], false, 4⟩]

def foldByPoints : SwissOptions := ⟨.fold, .points⟩

theorem rematchFree_metBelow : RematchFree (restAfterBye metBelow) := by
  refine ⟨[(⟨1, 3, none, [], false, 1⟩, ⟨3, 0, none, [4], false, 3⟩),
    (⟨2, 3, none, [], false, 2⟩, ⟨4, 0, none, [3], false, 4⟩)], ?_, ?_⟩
  · decide
  · simp [Free, HaveMet]

theorem rematch_only_without_alternative_metBelow :
    (RematchFree (restAfterBye metBelow) →
        ∀ p ∈ (planSwissRound metBelow foldByPoints).pairings, p.rematch = false) ↔
      (RematchFree (restAfterBye metBelow) →
        RematchFree (lastBracket [] (groupsOf foldByPoints.grouping (restAfterBye metBelow)))) :=
  rematch_only_without_alternative_iff foldByPoints (by decide) (by decide)

theorem rematch_despite_alternative :
    ¬∀ (players : List (SwissPlayer ℕ)) (opts : SwissOptions),
      (players.map (·.registrationId)).Nodup → 0 < (planState players opts).budget.left →
      RematchFree (restAfterBye players) →
        ∀ p ∈ (planSwissRound players opts).pairings, p.rematch = false := by
  intro h
  have hFree := h metBelow foldByPoints (by decide) (by decide) rematchFree_metBelow
  have hMeet : ⟨2, 3, 4, true⟩ ∈ (planSwissRound metBelow foldByPoints).pairings := by decide
  have hFalse := hFree _ hMeet
  cases hFalse

end MyClash.Swiss
