import MyClash.Swiss.Matching

/-!
# What the pairing search answers

With budget to spare a failed search means that no pairing exists, a found one is a pairing without
a rematch, and where no ideal pair has met it is the ideal one. A couple is asked with its lower
index first, so the law holds of any relation.
-/

namespace MyClash.Swiss

open StableSort Pairing

variable {met met' : ℕ → ℕ → Bool} {ideal : ℕ → ℕ}

/-! ## The search asks each couple with its lower index first -/

/-- A pairing of the indices below `size` whose couples, the lower index first, have not met. -/
def PerfectMatching (met : ℕ → ℕ → Bool) (size : ℕ) (pairs : List IndexPair) : Prop :=
  (places pairs).Perm (List.range size) ∧ ∀ p ∈ pairs, p.1 < p.2 ∧ met p.1 p.2 = false

theorem tryCandidates_congr {a : ℕ} {available candidates : List ℕ}
    {solveRest solveRest' : List ℕ → SearchBudget → Option (List IndexPair) × SearchBudget}
    (hMet : ∀ b ∈ candidates, met a b = met' a b)
    (hRest : ∀ b ∈ candidates, ∀ budget,
      solveRest (available.filter fun idx => idx != a && idx != b) budget =
        solveRest' (available.filter fun idx => idx != a && idx != b) budget)
    (budget : SearchBudget) :
    tryCandidates met a available solveRest candidates budget =
      tryCandidates met' a available solveRest' candidates budget := by
  induction candidates generalizing budget with
  | nil => rfl
  | cons b candidates ih =>
    have ih := ih (fun c hc => hMet c (List.mem_cons_of_mem _ hc))
      fun c hc => hRest c (List.mem_cons_of_mem _ hc)
    rw [tryCandidates, tryCandidates, hMet b List.mem_cons_self, hRest b List.mem_cons_self, ih]
    split
    · rfl
    · split
      · rfl
      · exact ih _

theorem solve_congr (hMet : ∀ i j, i < j → met i j = met' i j) {depth : ℕ} {available : List ℕ}
    (hSorted : available.Pairwise (· < ·)) (budget : SearchBudget) :
    solve met ideal depth available budget = solve met' ideal depth available budget := by
  induction depth generalizing available budget with
  | zero => cases available <;> rfl
  | succ depth ih =>
    cases available with
    | nil => rfl
    | cons a tail =>
      rw [solve, solve]
      split
      · rfl
      · refine tryCandidates_congr (fun b hb => ?_) (fun b hb budget => ?_) _
        · exact hMet a b ((List.pairwise_cons.mp hSorted).1 b (mem_sortWith.mp hb))
        · exact ih (hSorted.sublist List.filter_sublist) budget

/-- The relation of the lower-first couples, read both ways. -/
def lowerFirst (met : ℕ → ℕ → Bool) (i j : ℕ) : Bool := met (min i j) (max i j)

theorem lowerFirst_comm (i j : ℕ) : lowerFirst met i j = lowerFirst met j i := by
  rw [lowerFirst, lowerFirst, min_comm, max_comm]

theorem lowerFirst_of_lt {i j : ℕ} (h : i < j) : lowerFirst met i j = met i j := by
  rw [lowerFirst, min_eq_left h.le, max_eq_right h.le]

theorem searchMatching_lowerFirst (method : SwissPairingMethod) (size : ℕ)
    (budget : SearchBudget) :
    searchMatching met method size budget = searchMatching (lowerFirst met) method size budget :=
  solve_congr (fun _ _ h => (lowerFirst_of_lt h).symm) List.pairwise_lt_range budget

theorem PerfectMatching.closable {size : ℕ} {pairs : List IndexPair}
    (h : PerfectMatching met size pairs) :
    Closable (fun i j => lowerFirst met i j = true) (List.range size) := by
  refine ⟨pairs, h.1, fun p hp => ?_⟩
  dsimp only
  rw [lowerFirst_of_lt (h.2 p hp).1, (h.2 p hp).2]
  exact Bool.false_ne_true

theorem places_lowerFirst_perm (pairs : List IndexPair) :
    (places (pairs.map fun p => (min p.1 p.2, max p.1 p.2))).Perm (places pairs) := by
  induction pairs with
  | nil => exact .nil
  | cons p pairs ih =>
    rw [List.map_cons, places_cons, places_cons]
    rcases le_total p.1 p.2 with hLe | hLe
    · rw [min_eq_left hLe, max_eq_right hLe]
      exact (ih.cons _).cons _
    · rw [min_eq_right hLe, max_eq_left hLe]
      exact (List.Perm.swap _ _ _).trans ((ih.cons _).cons _)

/-- In a symmetric relation the order within a couple is nothing. -/
theorem exists_perfectMatching_iff (hSymm : ∀ i j, met i j = met j i) {size : ℕ} :
    (∃ pairs, PerfectMatching met size pairs) ↔
      Closable (fun i j => met i j = true) (List.range size) := by
  constructor
  · rintro ⟨pairs, hPlaces, hFree⟩
    exact ⟨pairs, hPlaces, fun p hp => by simp [(hFree p hp).2]⟩
  · rintro ⟨pairs, hPlaces, hFree⟩
    refine ⟨pairs.map fun p => (min p.1 p.2, max p.1 p.2),
      (places_lowerFirst_perm pairs).trans hPlaces, fun q hq => ?_⟩
    obtain ⟨p, hp, rfl⟩ := List.mem_map.mp hq
    have hNe : p.1 ≠ p.2 := by
      have hNodup : (places pairs).Nodup := hPlaces.nodup_iff.mpr List.nodup_range
      obtain ⟨before, after, rfl⟩ := List.append_of_mem hp
      rw [places_append, places_cons] at hNodup
      have hCouple := (List.nodup_cons.mp (List.nodup_append.mp hNodup).2.1).1
      exact fun hEq => hCouple (hEq ▸ List.mem_cons_self)
    refine ⟨min_lt_max.mpr hNe, ?_⟩
    have hMet : met p.1 p.2 = false := by simpa using hFree p hp
    dsimp only
    rcases le_total p.1 p.2 with hLe | hLe
    · rw [min_eq_left hLe, max_eq_right hLe, hMet]
    · rw [min_eq_right hLe, max_eq_left hLe, hSymm, hMet]

/-! ## The ideal pairing comes first -/

/-- Each first index left finds its own partner left. -/
inductive IdealPath (ideal : ℕ → ℕ) : List ℕ → List IndexPair → Prop
  | nil : IdealPath ideal [] []
  | cons {a : ℕ} {tail : List ℕ} {pairs : List IndexPair} (hNodup : (a :: tail).Nodup)
      (hPartner : ideal a ∈ tail)
      (hRest : IdealPath ideal
        ((a :: tail).filter fun idx => idx != a && idx != ideal a) pairs) :
      IdealPath ideal (a :: tail) ((a, ideal a) :: pairs)

instance (ideal : ℕ) : Std.TransCmp (candidateOrder ideal) := by
  have h : candidateOrder ideal =
      compareLex (compareOn fun x : ℕ => Int.natAbs (x - ideal)) compare := rfl
  rw [h]
  infer_instance

/-- The partner itself is the nearest candidate. -/
theorem sortWith_candidateOrder {ideal : ℕ} {tail : List ℕ} (h : ideal ∈ tail) :
    ∃ rest, sortWith (candidateOrder ideal) tail = ideal :: rest := by
  have hMem : ideal ∈ sortWith (candidateOrder ideal) tail := mem_sortWith.mpr h
  have hPairwise : (sortWith (candidateOrder ideal) tail).Pairwise
      (fun x y => (candidateOrder ideal x y).isLE) := pairwise_sortWith tail
  cases hSorted : sortWith (candidateOrder ideal) tail with
  | nil =>
    rw [hSorted] at hMem
    cases hMem
  | cons b rest =>
    rw [hSorted] at hMem hPairwise
    rcases List.mem_cons.mp hMem with rfl | hMem
    · exact ⟨rest, rfl⟩
    · have hLE := List.rel_of_pairwise_cons hPairwise hMem
      have hNear : Int.natAbs (b - ideal) ≤ Int.natAbs ((ideal : ℤ) - ideal) := by
        by_contra hFar
        rw [candidateOrder, Nat.compare_eq_gt.mpr (not_le.mp hFar)] at hLE
        cases hLE
      have hEq : b = ideal := by omega
      exact ⟨rest, by rw [hEq]⟩

theorem solve_ideal {met : ℕ → ℕ → Bool} {ideal : ℕ → ℕ} {available : List ℕ}
    {pairs : List IndexPair} (hPath : IdealPath ideal available pairs)
    (hFree : ∀ p ∈ pairs, met p.1 p.2 = false) {depth : ℕ} (hDepth : pairs.length ≤ depth)
    {budget : SearchBudget} (hBudget : pairs.length ≤ budget.left) :
    (solve met ideal depth available budget).1 = some pairs := by
  induction hPath generalizing depth budget with
  | nil =>
    cases depth with
    | zero => rfl
    | succ depth => rfl
  | @cons a tail pairs hNodup hPartner _ ih =>
    rw [List.length_cons] at hDepth hBudget
    cases depth with
    | zero => cases hDepth
    | succ depth =>
      obtain ⟨rest, hSorted⟩ := sortWith_candidateOrder hPartner
      have hLeft : pairs.length ≤ (SearchBudget.mk (budget.left - 1)).left :=
        Nat.le_sub_one_of_lt hBudget
      have hMet : met a (ideal a) = false := hFree (a, ideal a) List.mem_cons_self
      have hRest := ih (fun p hp => hFree p (List.mem_cons_of_mem _ hp))
        (Nat.le_of_succ_le_succ hDepth) hLeft
      rw [solve, if_neg (by omega), hSorted, tryCandidates, hMet, if_neg Bool.false_ne_true]
      rcases hSub : solve met ideal depth
        ((a :: tail).filter fun idx => idx != a && idx != ideal a) ⟨budget.left - 1⟩ with
        ⟨found, budget'⟩
      rw [hSub] at hRest
      cases hRest
      rfl

theorem filter_pair_cons {a b : ℕ} {rest : List ℕ} (hRest : ∀ x ∈ rest, x ≠ a ∧ x ≠ b) :
    ((a :: b :: rest).filter fun idx => idx != a && idx != b) = rest := by
  rw [List.filter_cons_of_neg (by simp), List.filter_cons_of_neg (by simp), List.filter_eq_self]
  intro x hx
  simpa using hRest x hx

theorem idealPath_adjacent (size start half : ℕ) :
    IdealPath (idealPartnerIndex size .adjacent) (List.range' (2 * start) (2 * half))
      ((List.range' start half).map fun i => (2 * i, 2 * i + 1)) := by
  induction half generalizing start with
  | zero => exact .nil
  | succ half ih =>
    have hIdeal : idealPartnerIndex size .adjacent (2 * start) = 2 * start + 1 := by
      simp [idealPartnerIndex]
    have hRange : List.range' (2 * start) (2 * (half + 1)) =
        2 * start :: (2 * start + 1) :: List.range' (2 * (start + 1)) (2 * half) := by
      rw [Nat.mul_succ, List.range'_succ, List.range'_succ]
      rfl
    have hRest : ∀ x ∈ List.range' (2 * (start + 1)) (2 * half),
        x ≠ 2 * start ∧ x ≠ 2 * start + 1 := by
      intro x hx
      have hBound := List.mem_range'_1.mp hx
      omega
    rw [hRange, List.range'_succ, List.map_cons, ← hIdeal]
    refine .cons ?_ List.mem_cons_self ?_
    · rw [hIdeal, ← hRange]
      exact List.nodup_range'
    · rw [hIdeal, filter_pair_cons hRest]
      exact ih (start + 1)

theorem idealPath_fold (half start count : ℕ) (hCount : start + count = half) :
    IdealPath (idealPartnerIndex (half + half) .fold)
      (List.range' start count ++ List.range' (start + half) count)
      ((List.range' start count).map fun i => (i, i + half)) := by
  induction count generalizing start with
  | zero => exact .nil
  | succ count ih =>
    have hIdeal : idealPartnerIndex (half + half) .fold start = start + half := by
      rw [idealPartnerIndex, if_pos (by omega)]
      omega
    have hNodup : (List.range' start (count + 1) ++
        List.range' (start + half) (count + 1)).Nodup := by
      refine List.Nodup.append List.nodup_range' List.nodup_range' fun x hx hx' => ?_
      have hLow := List.mem_range'_1.mp hx
      have hHigh := List.mem_range'_1.mp hx'
      omega
    have hFilter : ((List.range' start (count + 1) ++
        List.range' (start + half) (count + 1)).filter
          fun idx => idx != start && idx != start + half) =
        List.range' (start + 1) count ++ List.range' (start + 1 + half) count := by
      have hKeep : ∀ first, (∀ x ∈ List.range' first count, x ≠ start ∧ x ≠ start + half) →
          ((List.range' first count).filter fun idx => idx != start && idx != start + half) =
            List.range' first count := by
        intro first hFirst
        rw [List.filter_eq_self]
        intro x hx
        simpa using hFirst x hx
      rw [List.filter_append, List.range'_succ, List.range'_succ,
        List.filter_cons_of_neg (by simp), List.filter_cons_of_neg (by simp), hKeep, hKeep,
        Nat.add_right_comm]
      · intro x hx
        have hBound := List.mem_range'_1.mp hx
        omega
      · intro x hx
        have hBound := List.mem_range'_1.mp hx
        omega
    have hPath := ih (start + 1) (by omega)
    rw [← hFilter] at hPath
    have hCons : List.range' start (count + 1) = start :: List.range' (start + 1) count :=
      List.range'_succ
    rw [hCons, List.cons_append] at hNodup hPath ⊢
    have hPair : (start, start + half) =
        (start, idealPartnerIndex (half + half) .fold start) := by rw [hIdeal]
    rw [List.map_cons, hPair]
    refine .cons hNodup ?_ ?_
    · rw [hIdeal]
      exact List.mem_append_right _ (by simp [List.range'_succ])
    · rw [hIdeal]
      exact hPath

theorem idealPath_idealPairs {size : ℕ} (hEven : Even size) (method : SwissPairingMethod) :
    IdealPath (idealPartnerIndex size method) (List.range size) (idealPairs size method) := by
  obtain ⟨half, rfl⟩ := hEven
  have hHalf : (half + half) / 2 = half := by omega
  cases method with
  | fold =>
    have hPath := idealPath_fold half 0 half (Nat.zero_add half)
    have hRange : List.range' 0 half ++ List.range' (0 + half) half = List.range (half + half) := by
      rw [List.range'_append_1, ← List.range_eq_range']
    rw [idealPairs, hHalf, List.range_eq_range' (n := half)]
    exact hRange ▸ hPath
  | adjacent =>
    have hPath := idealPath_adjacent (half + half) 0 half
    rw [idealPairs, hHalf]
    rwa [Nat.mul_zero, ← List.range_eq_range', ← List.range_eq_range', Nat.two_mul] at hPath

theorem length_idealPairs (size : ℕ) (method : SwissPairingMethod) :
    (idealPairs size method).length = size / 2 := by
  cases method with
  | fold => simp [idealPairs]
  | adjacent => simp [idealPairs]

/-- The search is sound, complete while its budget lasts, and ideal where it can be. -/
theorem searchMatching_law {size : ℕ} (hEven : Even size) (met : ℕ → ℕ → Bool)
    (method : SwissPairingMethod) (budget : SearchBudget) :
    (0 < (searchMatching met method size budget).2.left →
      ((searchMatching met method size budget).1 = none ↔
        ¬∃ pairs, PerfectMatching met size pairs)) ∧
      (∀ pairs, (searchMatching met method size budget).1 = some pairs →
        PerfectMatching met size pairs) ∧
      ((∀ p ∈ idealPairs size method, met p.1 p.2 = false) → size / 2 ≤ budget.left →
        (searchMatching met method size budget).1 = some (idealPairs size method)) := by
  have hSound : ∀ pairs, (searchMatching met method size budget).1 = some pairs →
      PerfectMatching met size pairs := by
    intro pairs h
    obtain ⟨hPlaces, hFree⟩ := searchMatching_some h
    exact ⟨hPlaces, fun p hp => (hFree p hp).symm⟩
  refine ⟨fun hLeft => ⟨fun hNone => ?_, fun hNot => ?_⟩, hSound, fun hFree hBudget => ?_⟩
  · rintro ⟨pairs, hPairs⟩
    rw [searchMatching_lowerFirst] at hNone hLeft
    exact searchMatching_none lowerFirst_comm hNone hLeft hPairs.closable
  · refine Option.eq_none_iff_forall_ne_some.mpr fun pairs hFound => ?_
    exact hNot ⟨pairs, hSound pairs hFound⟩
  · refine solve_ideal (idealPath_idealPairs hEven method) hFree ?_ ?_
    · rw [length_idealPairs]
      omega
    · rwa [length_idealPairs]

theorem searchMatching_law_four :
    (searchMatching (fun _ _ => false) .fold 4 newBudget).1 = some [(0, 2), (1, 3)] :=
  (searchMatching_law (by decide) (fun _ _ => false) .fold newBudget).2.2 (fun _ _ => rfl)
    (by decide)

end MyClash.Swiss
