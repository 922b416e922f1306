import MyClash.Swiss.MatchingLaw
import MyClash.Swiss.Round

/-!
# The round of a field that has not fought

With nobody met the search never turns back: it answers the method's own pairs, or it
runs out of budget and the fallback answers the same ones. So the first round reads its
boards off the rank order.
-/

namespace MyClash.Swiss

open StableSort Pairing

universe u

/-! ## The search without rematches -/

/-- Every pair of an answer cost one visit. -/
theorem tryCandidates_some_left {met : ℕ → ℕ → Bool} {a : ℕ} {available candidates : List ℕ}
    {solveRest : List ℕ → SearchBudget → Option (List IndexPair) × SearchBudget}
    (hLe : ∀ l b, (solveRest l b).2.left ≤ b.left)
    (hRest : ∀ l b sub, (solveRest l b).1 = some sub →
      (solveRest l b).2.left + sub.length ≤ b.left)
    {budget : SearchBudget} {pairs : List IndexPair}
    (h : (tryCandidates met a available solveRest candidates budget).1 = some pairs) :
    (tryCandidates met a available solveRest candidates budget).2.left + pairs.length ≤
      budget.left + 1 := by
  induction candidates generalizing budget with
  | nil => cases h
  | cons b candidates ih =>
    rw [tryCandidates] at h ⊢
    split at h
    · rename_i hMet
      rw [if_pos hMet]
      exact ih h
    · rename_i hMet
      rw [if_neg hMet]
      have hSub := hRest (available.filter fun idx => idx != a && idx != b) budget
      have hLess := hLe (available.filter fun idx => idx != a && idx != b) budget
      split at h <;> rename_i hEq <;> rw [hEq] at hSub hLess
      · cases h
        have hCost := hSub _ rfl
        simp only [List.length_cons] at hCost ⊢
        omega
      · exact (ih h).trans (Nat.succ_le_succ hLess)

theorem solve_some_left {met : ℕ → ℕ → Bool} {ideal : ℕ → ℕ} {depth : ℕ} {available : List ℕ}
    {budget : SearchBudget} {pairs : List IndexPair}
    (h : (solve met ideal depth available budget).1 = some pairs) :
    (solve met ideal depth available budget).2.left + pairs.length ≤ budget.left := by
  induction depth generalizing available budget pairs with
  | zero =>
    cases available with
    | nil =>
      cases h
      exact le_rfl
    | cons a tail => cases h
  | succ depth ih =>
    cases available with
    | nil =>
      cases h
      exact le_rfl
    | cons a tail =>
      rw [solve] at h ⊢
      split at h
      · cases h
      · rename_i hPos
        rw [if_neg hPos]
        have hCost := tryCandidates_some_left (solve_left_le depth) (fun _ _ _ hSub => ih hSub) h
        simp only at hCost
        omega

/-- With nobody met the search answers the method's pairs, or the budget is spent. -/
theorem searchMatching_unmet {size : ℕ} (hEven : Even size) (method : SwissPairingMethod)
    (budget : SearchBudget) :
    (searchMatching (fun _ _ => false) method size budget).1 = some (idealPairs size method) ∨
      (searchMatching (fun _ _ => false) method size budget).1 = none ∧
        (searchMatching (fun _ _ => false) method size budget).2.left = 0 := by
  by_cases hBudget : size / 2 ≤ budget.left
  · refine .inl (solve_ideal (idealPath_idealPairs hEven method) (fun _ _ => rfl) ?_ ?_)
    · rw [length_idealPairs]
      exact Nat.div_le_self _ _
    · rwa [length_idealPairs]
  · cases hSearch : (searchMatching (fun _ _ => false) method size budget).1 with
    | none =>
      refine .inr ⟨rfl, Nat.eq_zero_of_not_pos fun hLeft => ?_⟩
      exact searchMatching_none (fun _ _ => rfl) hSearch hLeft
        ⟨_, idealPairs_perm hEven method, fun _ _ => nofun⟩
    | some pairs =>
      have hCost := solve_some_left hSearch
      have hLength := (searchMatching_some hSearch).1.length_eq
      rw [length_places, List.length_range] at hLength
      omega

/-! ## One bracket -/

variable {ι : Type u} [LinearOrder ι]

/-- Nobody has fought or sat out, and nothing tells the fighters apart but their rank. -/
def FreshField (points : ℚ) (score : Option ℚ) (players : List (SwissPlayer ι)) : Prop :=
  ∀ p ∈ players, p.points = points ∧ p.score = score ∧ p.opponentIds = [] ∧ p.hadBye = false

section Bracket

variable {points : ℚ} {score : Option ℚ} {rest : List (SwissPlayer ι)}

theorem FreshField.haveMetLookup (h : FreshField points score rest) :
    haveMetLookup rest = fun _ _ => false := by
  have hEdges : metEdges rest = [] := by
    rw [metEdges, List.flatMap_eq_nil_iff]
    rintro ⟨p, index⟩ hp
    have hMem : p ∈ rest := List.fst_mem_of_mem_zipIdx hp
    rw [(h p hMem).2.2.1, List.filterMap_nil]
  funext i j
  rw [Swiss.haveMetLookup, hEdges]
  rfl

theorem closePrefix_spent (method : SwissPairingMethod) (half : ℕ) {budget : SearchBudget}
    (hSpent : budget.left = 0) :
    closePrefix rest method half budget = ⟨[], rest, budget, []⟩ := by
  induction half with
  | zero => rfl
  | succ half ih =>
    have hSearch : searchMatching (Swiss.haveMetLookup rest) method (2 * (half + 1)) budget =
        (none, budget) := by
      have hRange : List.range (2 * (half + 1)) = 0 :: List.range' 1 (2 * half + 1) := by
        rw [List.range_eq_range', Nat.mul_succ, List.range'_succ]
      rw [searchMatching, hRange]
      exact if_pos hSpent
    rw [closePrefix, hSearch]
    exact ih

theorem FreshField.closeLast (h : FreshField points score rest) (hEven : Even rest.length)
    (method : SwissPairingMethod) (budget : SearchBudget) :
    (closeBracket rest method true budget).indexPairs = idealPairs rest.length method ∧
      (closeBracket rest method true budget).floated = [] := by
  rw [closeBracket, if_pos rfl, h.haveMetLookup]
  split
  · rename_i hEmpty
    rw [hEmpty]
    cases method <;> exact ⟨rfl, rfl⟩
  · have hAnswer := searchMatching_unmet hEven method budget
    split <;> rename_i hSearch <;> rw [hSearch] at hAnswer
    · rcases hAnswer with hIdeal | ⟨hNone, _⟩
      · exact ⟨Option.some.inj hIdeal, rfl⟩
      · cases hNone
    · exact ⟨rfl, rfl⟩

/-- Before the last bracket the whole field pairs, or it floats with the budget spent. -/
theorem FreshField.closePrefix (h : FreshField points score rest) (hEven : Even rest.length)
    (method : SwissPairingMethod) (budget : SearchBudget) :
    ((closeBracket rest method false budget).indexPairs = idealPairs rest.length method ∧
        (closeBracket rest method false budget).floated = []) ∨
      (closeBracket rest method false budget).indexPairs = [] ∧
        (closeBracket rest method false budget).floated = rest ∧
        (closeBracket rest method false budget).budget.left = 0 := by
  obtain ⟨half, hHalf⟩ := hEven
  have hDiv : rest.length / 2 = half := by omega
  rw [closeBracket, if_neg (by rintro ⟨⟩), hDiv]
  cases half with
  | zero =>
    have hNil : rest = [] := List.length_eq_zero_iff.mp hHalf
    have hIdeal : idealPairs rest.length method = [] := by
      rw [hHalf]
      cases method <;> rfl
    exact .inl ⟨hIdeal.symm, hNil⟩
  | succ half =>
    have hSize : 2 * (half + 1) = rest.length := by omega
    have hAnswer := searchMatching_unmet ⟨half + 1, hHalf⟩ method budget
    rw [Swiss.closePrefix, h.haveMetLookup, hSize]
    split <;> rename_i hSearch <;> rw [hSearch] at hAnswer
    · rcases hAnswer with hIdeal | ⟨hNone, _⟩
      · exact .inl ⟨Option.some.inj hIdeal, List.drop_length⟩
      · cases hNone
    · rcases hAnswer with hIdeal | ⟨_, hSpent⟩
      · cases hIdeal
      · rw [closePrefix_spent method half hSpent]
        exact .inr ⟨rfl, rfl, hSpent⟩

end Bracket

/-! ## The groups -/

/-- One group holds everybody, the others nobody. -/
def OneGroup (rest : List (SwissPlayer ι)) (groups : List (List (SwissPlayer ι))) : Prop :=
  ∃ before after, groups = before ++ rest :: after ∧ (∀ g ∈ before, g = []) ∧ ∀ g ∈ after, g = []

section Groups

variable {points : ℚ} {score : Option ℚ} {rest : List (SwissPlayer ι)}

theorem sortByRank_of_sorted
    (hSorted : rest.Pairwise (fun a b => rankOrder a b = .lt)) : sortByRank rest = rest :=
  sortWith_eq_self (hSorted.imp fun h => by rw [h]; rfl)

theorem FreshField.groupByPoints (h : FreshField points score rest) (hNonempty : rest ≠ [])
    (hSorted : rest.Pairwise (fun a b => rankOrder a b = .lt)) : groupByPoints rest = [rest] := by
  have hKeys : Buckets.keys (Buckets.collect (·.points) rest) = [points] := by
    refine List.perm_singleton.mp ((List.perm_ext_iff_of_nodup
      (Buckets.nodup_keys_collect _ _) (List.nodup_singleton _)).mpr fun k => ?_)
    rw [Buckets.mem_keys_collect, List.mem_singleton]
    constructor
    · rintro ⟨p, hp, rfl⟩
      exact (h p hp).1
    · rintro rfl
      obtain ⟨p, hp⟩ := List.exists_mem_of_ne_nil rest hNonempty
      exact ⟨p, hp, (h p hp).1⟩
  have hBucket : Buckets.bucket (Buckets.collect (·.points) rest) points = rest := by
    rw [Buckets.bucket_collect, List.filter_eq_self]
    intro p hp
    simpa using (h p hp).1
  simp only [Swiss.groupByPoints, hKeys]
  have hOne : sortWith (fun a b : ℚ => compare b a) [points] = [points] := rfl
  rw [hOne, List.map_singleton, hBucket, sortByRank_of_sorted hSorted]

theorem FreshField.bandsOf (h : FreshField points score rest)
    (hSorted : rest.Pairwise (fun a b => rankOrder a b = .lt)) (boundaries : List ℚ) :
    OneGroup rest (bandsOf rest boundaries) := by
  let edges := sortWith compare boundaries.dedup
  let band := fun index => rest.filter fun p => decide (bandIndex edges p.score = index)
  have hFull : sortByRank (band (bandIndex edges score)) = rest := by
    have hAll : band (bandIndex edges score) = rest := by
      refine List.filter_eq_self.mpr fun p hp => ?_
      simp [(h p hp).2.1]
    rw [hAll, sortByRank_of_sorted hSorted]
  have hEmpty : ∀ index, index ≠ bandIndex edges score → sortByRank (band index) = [] := by
    intro index hNe
    have hNone : band index = [] := by
      refine List.filter_eq_nil_iff.mpr fun p hp => ?_
      simpa [(h p hp).2.1] using hNe.symm
    rw [hNone]
    rfl
  have hMem : bandIndex edges score ∈ List.range (edges.length + 1) :=
    List.mem_range.mpr (Nat.lt_succ_of_le (bandIndex_le edges score))
  obtain ⟨low, high, hSplit⟩ := List.append_of_mem hMem
  have hNodup := List.nodup_middle.mp (hSplit ▸ List.nodup_range (n := edges.length + 1))
  have hOther : ∀ index ∈ low ++ high, sortByRank (band index) = [] := by
    intro index hIndex
    refine hEmpty index fun hEq => (List.nodup_cons.mp hNodup).1 (hEq ▸ hIndex)
  refine ⟨high.reverse.map fun index => sortByRank (band index),
    low.reverse.map fun index => sortByRank (band index), ?_, ?_, ?_⟩
  · have hBands : Swiss.bandsOf rest boundaries =
        ((List.range (edges.length + 1)).map band).reverse.map sortByRank := rfl
    rw [hBands, hSplit]
    simp [hFull, Function.comp_def]
  · intro g hg
    obtain ⟨index, hIndex, rfl⟩ := List.mem_map.mp hg
    exact hOther index (List.mem_append_right _ (List.mem_reverse.mp hIndex))
  · intro g hg
    obtain ⟨index, hIndex, rfl⟩ := List.mem_map.mp hg
    exact hOther index (List.mem_append_left _ (List.mem_reverse.mp hIndex))

theorem FreshField.oneGroup (h : FreshField points score rest) (hNonempty : rest ≠ [])
    (hSorted : rest.Pairwise (fun a b => rankOrder a b = .lt)) (grouping : SwissGrouping) :
    OneGroup rest (groupsOf grouping rest) := by
  cases grouping with
  | points => exact ⟨[], [], h.groupByPoints hNonempty hSorted, nofun, nofun⟩
  | scoreBands boundaries => exact h.bandsOf hSorted boundaries

theorem closeBracket_nil (method : SwissPairingMethod) (isLast : Bool) (budget : SearchBudget) :
    (closeBracket ([] : List (SwissPlayer ι)) method isLast budget).indexPairs = [] ∧
      (closeBracket ([] : List (SwissPlayer ι)) method isLast budget).floated = [] := by
  cases isLast with
  | true => exact ⟨rfl, rfl⟩
  | false =>
    rw [closeBracket, if_neg (by rintro ⟨⟩), List.length_nil, Nat.zero_div]
    exact ⟨rfl, rfl⟩

theorem pairGroup_nil {s : PlanState ι} (hCarried : s.carried = []) (method : SwissPairingMethod)
    (isLast : Bool) :
    (pairGroup method isLast [] s).pairings = s.pairings ∧
      (pairGroup method isLast [] s).carried = [] := by
  have hBracket : sortByRank (s.carried ++ []) = [] := by
    rw [hCarried]
    rfl
  obtain ⟨hPairs, hFloated⟩ := closeBracket_nil (ι := ι) method isLast s.budget
  simp only [pairGroup, hBracket, hPairs, hFloated]
  exact ⟨List.append_nil _, trivial⟩

theorem pairGroups_nil (method : SwissPairingMethod) {groups : List (List (SwissPlayer ι))}
    (hEmpty : ∀ g ∈ groups, g = []) {s : PlanState ι} (hCarried : s.carried = []) :
    (pairGroups method groups s).pairings = s.pairings := by
  induction groups generalizing s with
  | nil => rfl
  | cons group groups ih =>
    rw [List.forall_mem_cons] at hEmpty
    obtain ⟨hPairings, hNone⟩ := pairGroup_nil hCarried method groups.isEmpty
    rw [pairGroups, hEmpty.1, ih hEmpty.2 hNone, hPairings]

/-- A field that floated with the budget spent is paired by the fallback in the end. -/
theorem FreshField.pairGroups_floated (h : FreshField points score rest) (hEven : Even rest.length)
    (hSorted : rest.Pairwise (fun a b => rankOrder a b = .lt)) (method : SwissPairingMethod)
    {groups : List (List (SwissPlayer ι))} (hEmpty : ∀ g ∈ groups, g = []) (hGroups : groups ≠ [])
    {s : PlanState ι} (hPairings : s.pairings = []) (hCarried : s.carried = rest)
    (hSpent : s.budget.left = 0) :
    (pairGroups method groups s).pairings =
      toPairings rest 0 (idealPairs rest.length method) := by
  induction groups generalizing s with
  | nil => exact absurd rfl hGroups
  | cons group groups ih =>
    rw [List.forall_mem_cons] at hEmpty
    have hBracket : sortByRank s.carried = rest := by
      rw [hCarried, sortByRank_of_sorted hSorted]
    rw [pairGroups, hEmpty.1]
    cases groups with
    | nil =>
      simp only [pairGroups, pairGroup, List.append_nil, hBracket, List.isEmpty_nil, hPairings,
        (h.closeLast hEven method s.budget).1]
      rfl
    | cons next groups =>
      have hClosed : closeBracket rest method false s.budget = ⟨[], rest, s.budget, []⟩ :=
        closePrefix_spent method _ hSpent
      refine ih hEmpty.2 (List.cons_ne_nil _ _) ?_ ?_ ?_
      · simp [pairGroup, hBracket, hClosed, hPairings, toPairings]
      · simp [pairGroup, hBracket, hClosed]
      · simpa [pairGroup, hBracket, hClosed] using hSpent

theorem FreshField.pairGroups (h : FreshField points score rest) (hEven : Even rest.length)
    (hSorted : rest.Pairwise (fun a b => rankOrder a b = .lt)) (method : SwissPairingMethod)
    {groups : List (List (SwissPlayer ι))} (hOne : OneGroup rest groups) {s : PlanState ι}
    (hPairings : s.pairings = []) (hCarried : s.carried = []) :
    (pairGroups method groups s).pairings =
      toPairings rest 0 (idealPairs rest.length method) := by
  obtain ⟨before, after, rfl, hBefore, hAfter⟩ := hOne
  induction before generalizing s with
  | nil =>
    have hBracket : sortByRank (s.carried ++ rest) = rest := by
      rw [hCarried, List.nil_append, sortByRank_of_sorted hSorted]
    rw [List.nil_append, Swiss.pairGroups]
    cases after with
    | nil =>
      simp only [Swiss.pairGroups, pairGroup, hBracket, List.isEmpty_nil, hPairings,
        (h.closeLast hEven method s.budget).1]
      rfl
    | cons next after =>
      rcases h.closePrefix hEven method s.budget with ⟨hPairs, hNone⟩ | ⟨hNone, hAll, hSpent⟩
      · rw [pairGroups_nil method hAfter (by simp [pairGroup, hBracket, hNone])]
        simp [pairGroup, hBracket, hPairs, hPairings]
      · refine h.pairGroups_floated hEven hSorted method hAfter (List.cons_ne_nil _ _) ?_ ?_ ?_
        · simp [pairGroup, hBracket, hNone, hPairings, toPairings]
        · simp [pairGroup, hBracket, hAll]
        · simpa [pairGroup, hBracket] using hSpent
  | cons group before ih =>
    rw [List.forall_mem_cons] at hBefore
    have hLast : (before ++ rest :: after).isEmpty = false := by cases before <;> rfl
    obtain ⟨hSame, hNone⟩ := pairGroup_nil hCarried method false
    rw [List.cons_append, Swiss.pairGroups, hBefore.1, hLast]
    exact ih (hSame.trans hPairings) hNone hBefore.2

end Groups

/-! ## The round -/

/-- The last fighter of an odd field sits out. -/
theorem FreshField.takeBye {points : ℚ} {score : Option ℚ} {field : List (SwissPlayer ι)}
    (h : FreshField points score field) (hNodup : (field.map (·.registrationId)).Nodup) :
    (takeBye field).2 = field.take (2 * (field.length / 2)) := by
  by_cases hEven : Even field.length
  · have hTake : 2 * (field.length / 2) = field.length := by
      rw [Nat.even_iff] at hEven
      omega
    rw [takeBye_even hEven, hTake, List.take_length]
  · have hNonempty : field ≠ [] := by
      rintro rfl
      exact hEven Even.zero
    obtain ⟨before, p, rfl⟩ := (List.eq_nil_or_concat' field).resolve_left hNonempty
    have hBye : p.hadBye = false := (h p (by simp)).2.2.2
    have hFind : ((before ++ [p]).reverse.find? fun q => !q.hadBye) = some p := by
      simp [hBye]
    have hTake : 2 * ((before ++ [p]).length / 2) = before.length := by
      rw [Nat.not_even_iff] at hEven
      rw [List.length_append, List.length_singleton] at hEven ⊢
      omega
    rw [hTake, List.take_left, Swiss.takeBye, if_neg (fun hZero => hEven (Nat.even_iff.mpr hZero)),
      hFind]
    rw [List.map_append] at hNodup
    have hKeep : (before.filter fun q => q.registrationId != p.registrationId) = before := by
      rw [List.filter_eq_self]
      intro q hq
      have hNe := (List.nodup_append.mp hNodup).2.2 _ (List.mem_map_of_mem hq) p.registrationId
        (by simp)
      simpa using hNe
    change (before ++ [p]).filter (fun q => q.registrationId != p.registrationId) = before
    rw [List.filter_append, List.filter_cons_of_neg (by simp), List.filter_nil, List.append_nil,
      hKeep]

/-- The boards of a fresh round, in order, read off the rank order through the pairs. -/
theorem FreshField.boardPlaces {points : ℚ} {score : Option ℚ} {players : List (SwissPlayer ι)}
    (h : FreshField points score players) (hNodup : (players.map (·.registrationId)).Nodup)
    (opts : SwissOptions) :
    boardPlaces (planSwissRound players opts).pairings =
      (places (idealPairs (2 * (players.length / 2)) opts.pairingMethod)).filterMap
        fun i => (sortByRank players)[i]?.map (·.registrationId) := by
  let field := sortByRank players
  let rest := (Swiss.takeBye field).2
  have hFieldNodup : (field.map (·.registrationId)).Nodup := nodup_map_sortWith _ hNodup
  have hLength : field.length = players.length := (sortByRank_perm players).length_eq
  have hField : FreshField points score field := fun p hp =>
    h p ((sortByRank_perm players).mem_iff.mp hp)
  have hRest : rest = field.take (2 * (players.length / 2)) := by
    rw [← hLength]
    exact hField.takeBye hFieldNodup
  have hRestLength : rest.length = 2 * (players.length / 2) := by
    rw [hRest, List.length_take, hLength]
    omega
  have hEven : Even rest.length := ⟨players.length / 2, by omega⟩
  have hFresh : FreshField points score rest := fun p hp =>
    hField p (List.mem_of_mem_take (hRest ▸ hp))
  have hSorted : rest.Pairwise (fun a b => rankOrder a b = .lt) := by
    rw [hRest]
    exact (sortByRank_pairwise hNodup).sublist (List.take_sublist _ _)
  have hState : (planState players opts).pairings =
      toPairings rest 0 (idealPairs rest.length opts.pairingMethod) := by
    by_cases hNil : rest = []
    · have hCount : 2 * (planState players opts).pairings.length = rest.length :=
        planState_length opts hNodup
      rw [hNil, List.length_nil] at hCount ⊢
      rw [List.length_eq_zero_iff.mp (show (planState players opts).pairings.length = 0 by omega)]
      cases opts.pairingMethod <;> rfl
    · exact hFresh.pairGroups hEven hSorted opts.pairingMethod
        (hFresh.oneGroup hNil hSorted opts.grouping) rfl rfl
  have hPlan : (planSwissRound players opts).pairings = (planState players opts).pairings := by
    rw [planSwissRound]
    split
    · rename_i hEmpty
      have hCount : 2 * (planState players opts).pairings.length = rest.length :=
        planState_length opts hNodup
      have hZero : rest.length = 0 := by
        have hNone : field.length = 0 := hEmpty
        omega
      exact (List.length_eq_zero_iff.mp (by omega)).symm
    · rfl
  have hRange : ∀ i ∈ places (idealPairs rest.length opts.pairingMethod), i < rest.length :=
    fun i hi => List.mem_range.mp ((idealPairs_perm hEven _).mem_iff.mp hi)
  rw [hPlan, hState, toPairings_places hRange, ← hRestLength]
  refine List.filterMap_congr fun i hi => ?_
  rw [hRest, List.getElem?_take_of_lt (hRestLength ▸ hRange i hi)]

end MyClash.Swiss
