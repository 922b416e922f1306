import MyClash.Library.Pairing
import MyClash.Library.StableSort
import Mathlib.Algebra.Order.Ring.Rat
import Mathlib.Data.List.Induction
import Mathlib.Order.Compare

/-!
# The pairing search inside one bracket

Fighters are indices into the bracket array. `searchMatching` looks depth first for a
pairing of the first `size` indices without a rematch, under a budget of node visits
shared by the whole round; a `none` means that no such pairing exists or that the
budget ran out.
-/

namespace MyClash.Swiss

open StableSort Pairing

universe u

inductive SwissPairingMethod where
  | fold
  | adjacent
  deriving DecidableEq

/-- Numbers of the source that are only compared or added are rationals here. -/
structure SwissPlayer (ι : Type u) where
  registrationId : ι
  points : ℚ
  score : Option ℚ
  opponentIds : List ι
  hadBye : Bool
  rank : ℚ
  deriving DecidableEq

abbrev IndexPair := ℕ × ℕ

def searchBudget : ℕ := 10000

structure SearchBudget where
  left : ℕ

def newBudget : SearchBudget := ⟨searchBudget⟩

variable {ι : Type u} [DecidableEq ι]

/-- `new Map` over the bracket: of two equal ids the later index stands. -/
def indexById (bracket : List (SwissPlayer ι)) (id : ι) : Option ℕ :=
  bracket.zipIdx.foldl (fun found p => if p.1.registrationId = id then some p.2 else found) none

/-- The edges the lookup adds, one way only; an opponent outside the bracket adds none. -/
def metEdges (bracket : List (SwissPlayer ι)) : List IndexPair :=
  bracket.zipIdx.flatMap fun p =>
    p.1.opponentIds.filterMap fun opponentId => (indexById bracket opponentId).map (p.2, ·)

def haveMetLookup (bracket : List (SwissPlayer ι)) (i j : ℕ) : Bool :=
  decide ((i, j) ∈ metEdges bracket) || decide ((j, i) ∈ metEdges bracket)

/-- Every `size` handed over is even, so `size / 2` is the source's quotient. -/
def idealPartnerIndex (size : ℕ) : SwissPairingMethod → ℕ → ℕ
  | .fold, index => if index < size / 2 then index + size / 2 else index - size / 2
  | .adjacent, index => if index % 2 = 0 then index + 1 else index - 1

def idealPairs (size : ℕ) : SwissPairingMethod → List IndexPair
  | .fold => (List.range (size / 2)).map fun i => (i, i + size / 2)
  | .adjacent => (List.range (size / 2)).map fun i => (2 * i, 2 * i + 1)

def candidateOrder (ideal x y : ℕ) : Ordering :=
  (compare (Int.natAbs (x - ideal)) (Int.natAbs (y - ideal))).then (compare x y)

section Search

variable (met : ℕ → ℕ → Bool) (ideal : ℕ → ℕ)

/-- The loop over the candidates for `a`; `solveRest` searches the fighters left over. -/
def tryCandidates (a : ℕ) (available : List ℕ)
    (solveRest : List ℕ → SearchBudget → Option (List IndexPair) × SearchBudget) :
    List ℕ → SearchBudget → Option (List IndexPair) × SearchBudget
  | [], budget => (none, budget)
  | b :: candidates, budget =>
    if met a b then tryCandidates a available solveRest candidates budget
    else
      match solveRest (available.filter fun idx => idx != a && idx != b) budget with
      | (some sub, budget') => (some ((a, b) :: sub), budget')
      | (none, budget') => tryCandidates a available solveRest candidates budget'

/-- `depth` bounds the recursion: each level removes two of the available fighters. -/
def solve : ℕ → List ℕ → SearchBudget → Option (List IndexPair) × SearchBudget
  | _, [], budget => (some [], budget)
  | 0, _ :: _, budget => (none, budget)
  | depth + 1, a :: tail, budget =>
    if budget.left = 0 then (none, budget)
    else
      tryCandidates met a (a :: tail) (solve depth)
        (sortWith (candidateOrder (ideal a)) tail) ⟨budget.left - 1⟩

end Search

def searchMatching (met : ℕ → ℕ → Bool) (method : SwissPairingMethod) (size : ℕ)
    (budget : SearchBudget) : Option (List IndexPair) × SearchBudget :=
  solve met (idealPartnerIndex size method) size (List.range size) budget

/-! ## The met relation -/

def HaveMet (a b : SwissPlayer ι) : Prop :=
  b.registrationId ∈ a.opponentIds ∨ a.registrationId ∈ b.opponentIds

instance (a b : SwissPlayer ι) : Decidable (HaveMet a b) := inferInstanceAs (Decidable (_ ∨ _))

theorem indexById_append (before : List (SwissPlayer ι)) (p : SwissPlayer ι) (id : ι) :
    indexById (before ++ [p]) id =
      if p.registrationId = id then some before.length else indexById before id := by
  simp [indexById, List.zipIdx_append]

theorem indexById_eq_some {bracket : List (SwissPlayer ι)}
    (hNodup : (bracket.map (·.registrationId)).Nodup) {id : ι} {j : ℕ} :
    indexById bracket id = some j ↔ ∃ p, bracket[j]? = some p ∧ p.registrationId = id := by
  induction bracket using List.reverseRecOn with
  | nil => simp [indexById]
  | append_singleton before p ih =>
    rw [List.map_append, List.map_cons, List.map_nil] at hNodup
    have hBefore := ih (List.nodup_append.mp hNodup).1
    have hFresh : ∀ q ∈ before, q.registrationId ≠ p.registrationId := by
      intro q hq hEq
      exact (List.nodup_append.mp hNodup).2.2 _ (List.mem_map_of_mem hq) _ (by simp) hEq
    rw [indexById_append]
    by_cases hId : p.registrationId = id
    · rw [if_pos hId, Option.some.injEq]
      constructor
      · rintro rfl
        exact ⟨p, by simp, hId⟩
      · rintro ⟨q, hq, hqId⟩
        rcases Nat.lt_trichotomy j before.length with hLt | hEq | hGt
        · rw [List.getElem?_append_left hLt] at hq
          exact absurd (hqId.trans hId.symm) (hFresh q (List.mem_of_getElem? hq))
        · exact hEq.symm
        · rw [List.getElem?_eq_none (by simp; omega)] at hq
          cases hq
    · rw [if_neg hId, hBefore]
      constructor
      · rintro ⟨q, hq, hqId⟩
        refine ⟨q, ?_, hqId⟩
        rw [List.getElem?_append_left (List.getElem?_eq_some_iff.mp hq).1, hq]
      · rintro ⟨q, hq, hqId⟩
        refine ⟨q, ?_, hqId⟩
        by_cases hLt : j < before.length
        · rwa [List.getElem?_append_left hLt] at hq
        · rw [List.getElem?_append_right (by omega)] at hq
          rcases Nat.eq_zero_or_pos (j - before.length) with h0 | hPos
          · rw [h0] at hq
            cases hq
            exact absurd hqId hId
          · rw [List.getElem?_eq_none (by simp; omega)] at hq
            cases hq

theorem mem_metEdges {bracket : List (SwissPlayer ι)}
    (hNodup : (bracket.map (·.registrationId)).Nodup) {i j : ℕ} :
    (i, j) ∈ metEdges bracket ↔
      ∃ a b, bracket[i]? = some a ∧ bracket[j]? = some b ∧ b.registrationId ∈ a.opponentIds := by
  simp only [metEdges, List.mem_flatMap, List.mem_filterMap, Option.map_eq_some_iff,
    indexById_eq_some hNodup, List.mem_zipIdx_iff_getElem?, Prod.exists, Prod.mk.injEq]
  constructor
  · rintro ⟨a, k, ha, id, hid, m, ⟨b, hb, rfl⟩, rfl, rfl⟩
    exact ⟨a, b, ha, hb, hid⟩
  · rintro ⟨a, b, ha, hb, hid⟩
    exact ⟨a, i, ha, b.registrationId, hid, j, ⟨b, hb, rfl⟩, rfl, rfl⟩

theorem haveMetLookup_comm (bracket : List (SwissPlayer ι)) (i j : ℕ) :
    haveMetLookup bracket i j = haveMetLookup bracket j i := Bool.or_comm _ _

theorem haveMetLookup_iff {bracket : List (SwissPlayer ι)}
    (hNodup : (bracket.map (·.registrationId)).Nodup) {i j : ℕ} {a b : SwissPlayer ι}
    (ha : bracket[i]? = some a) (hb : bracket[j]? = some b) :
    haveMetLookup bracket i j = true ↔ HaveMet a b := by
  simp only [haveMetLookup, Bool.or_eq_true, decide_eq_true_eq, mem_metEdges hNodup, ha, hb,
    Option.some.injEq, HaveMet]
  constructor
  · rintro (⟨a, b, rfl, rfl, h⟩ | ⟨b, a, rfl, rfl, h⟩)
    · exact Or.inl h
    · exact Or.inr h
  · rintro (h | h)
    · exact Or.inl ⟨a, b, rfl, rfl, h⟩
    · exact Or.inr ⟨b, a, rfl, rfl, h⟩

/-! ## What the search answers -/

section SearchSpec

variable {met : ℕ → ℕ → Bool} {ideal : ℕ → ℕ}

theorem filter_pair_perm {a b : ℕ} {tail : List ℕ} (hNodup : (a :: tail).Nodup) (hb : b ∈ tail) :
    (a :: b :: (a :: tail).filter fun idx => idx != a && idx != b).Perm (a :: tail) := by
  have hTail := (List.nodup_cons.mp hNodup).2
  have hFilter : ((a :: tail).filter fun idx => idx != a && idx != b) = tail.erase b := by
    rw [hTail.erase_eq_filter, List.filter_cons_of_neg (by simp)]
    refine List.filter_congr fun x hx => ?_
    have hxa : x ≠ a := fun h => (List.nodup_cons.mp hNodup).1 (h ▸ hx)
    simp [hxa]
  rw [hFilter]
  exact (List.perm_cons_erase hb).symm.cons a

theorem tryCandidates_some {a : ℕ} {available candidates : List ℕ}
    {solveRest : List ℕ → SearchBudget → Option (List IndexPair) × SearchBudget}
    {budget : SearchBudget} {pairs : List IndexPair}
    (h : (tryCandidates met a available solveRest candidates budget).1 = some pairs) :
    ∃ b ∈ candidates, met a b = false ∧ ∃ sub budget',
      (solveRest (available.filter fun idx => idx != a && idx != b) budget').1 = some sub ∧
      pairs = (a, b) :: sub := by
  induction candidates generalizing budget with
  | nil => cases h
  | cons b candidates ih =>
    rw [tryCandidates] at h
    by_cases hMet : met a b
    · rw [if_pos hMet] at h
      obtain ⟨c, hc, hRest⟩ := ih h
      exact ⟨c, List.mem_cons_of_mem _ hc, hRest⟩
    · rw [if_neg hMet] at h
      rcases hSub : solveRest (available.filter fun idx => idx != a && idx != b) budget with
        ⟨_ | sub, budget'⟩
      · rw [hSub] at h
        obtain ⟨c, hc, hRest⟩ := ih h
        exact ⟨c, List.mem_cons_of_mem _ hc, hRest⟩
      · rw [hSub] at h
        exact ⟨b, List.mem_cons_self, by simpa using hMet, sub, budget, by rw [hSub],
          (Option.some.inj h).symm⟩

theorem tryCandidates_left_le {a : ℕ} {available candidates : List ℕ}
    {solveRest : List ℕ → SearchBudget → Option (List IndexPair) × SearchBudget}
    (hRest : ∀ l b, (solveRest l b).2.left ≤ b.left) (budget : SearchBudget) :
    (tryCandidates met a available solveRest candidates budget).2.left ≤ budget.left := by
  induction candidates generalizing budget with
  | nil => exact le_rfl
  | cons b candidates ih =>
    rw [tryCandidates]
    split
    · exact ih budget
    · have hSub := hRest (available.filter fun idx => idx != a && idx != b) budget
      rcases hEq : solveRest (available.filter fun idx => idx != a && idx != b) budget with
        ⟨_ | sub, budget'⟩ <;> rw [hEq] at hSub
      · exact (ih budget').trans hSub
      · exact hSub

/-- A failed loop with budget to spare has asked every admissible candidate. -/
theorem tryCandidates_none {a : ℕ} {available candidates : List ℕ}
    {solveRest : List ℕ → SearchBudget → Option (List IndexPair) × SearchBudget}
    (hRest : ∀ l b, (solveRest l b).2.left ≤ b.left) {budget : SearchBudget}
    (h : (tryCandidates met a available solveRest candidates budget).1 = none)
    (hLeft : 0 < (tryCandidates met a available solveRest candidates budget).2.left)
    {b : ℕ} (hb : b ∈ candidates) (hMet : met a b = false) :
    ∃ budget', (solveRest (available.filter fun idx => idx != a && idx != b) budget').1 = none ∧
      0 < (solveRest (available.filter fun idx => idx != a && idx != b) budget').2.left := by
  induction candidates generalizing budget with
  | nil => cases hb
  | cons c candidates ih =>
    rw [tryCandidates] at h hLeft
    by_cases hMetC : met a c
    · rw [if_pos hMetC] at h hLeft
      have hbTail : b ∈ candidates := by
        rcases List.mem_cons.mp hb with rfl | hb
        · rw [hMetC] at hMet
          cases hMet
        · exact hb
      exact ih h hLeft hbTail
    · rw [if_neg hMetC] at h hLeft
      rcases hSub : solveRest (available.filter fun idx => idx != a && idx != c) budget with
        ⟨_ | sub, budget'⟩ <;> rw [hSub] at h hLeft
      · rcases List.mem_cons.mp hb with rfl | hb
        · refine ⟨budget, by rw [hSub], ?_⟩
          rw [hSub]
          exact hLeft.trans_le (tryCandidates_left_le hRest budget')
        · exact ih h hLeft hb
      · cases h

theorem solve_left_le (depth : ℕ) (available : List ℕ) (budget : SearchBudget) :
    (solve met ideal depth available budget).2.left ≤ budget.left := by
  induction depth generalizing available budget with
  | zero => cases available <;> exact le_rfl
  | succ depth ih =>
    cases available with
    | nil => exact le_rfl
    | cons a tail =>
      rw [solve]
      split
      · exact le_rfl
      · exact (tryCandidates_left_le ih _).trans (Nat.sub_le _ _)

/-- A found pairing fills the available fighters, has no rematch, and names the
earlier index first. -/
theorem solve_some {depth : ℕ} {available : List ℕ} {budget : SearchBudget}
    {pairs : List IndexPair} (hSorted : available.Pairwise (· < ·))
    (h : (solve met ideal depth available budget).1 = some pairs) :
    (places pairs).Perm available ∧ ∀ p ∈ pairs, met p.1 p.2 = false ∧ p.1 < p.2 := by
  induction depth generalizing available budget pairs with
  | zero =>
    cases available with
    | nil =>
      cases h
      exact ⟨.nil, by simp⟩
    | cons a tail => cases h
  | succ depth ih =>
    cases available with
    | nil =>
      cases h
      exact ⟨.nil, by simp⟩
    | cons a tail =>
      rw [solve] at h
      split at h
      · cases h
      · obtain ⟨b, hb, hMet, sub, budget', hSub, rfl⟩ := tryCandidates_some h
        have hb : b ∈ tail := mem_sortWith.mp hb
        obtain ⟨hPlaces, hFree⟩ := ih (hSorted.sublist List.filter_sublist) hSub
        refine ⟨((hPlaces.cons b).cons a).trans (filter_pair_perm hSorted.nodup hb), ?_⟩
        intro p hp
        rcases List.mem_cons.mp hp with rfl | hp
        · exact ⟨hMet, (List.pairwise_cons.mp hSorted).1 b hb⟩
        · exact hFree p hp

/-- A failure with budget to spare is a proof that no pairing exists. -/
theorem solve_none {depth : ℕ} {available : List ℕ} {budget : SearchBudget}
    (hSymm : ∀ i j, met i j = met j i) (hNodup : available.Nodup)
    (hDepth : available.length ≤ depth)
    (h : (solve met ideal depth available budget).1 = none)
    (hLeft : 0 < (solve met ideal depth available budget).2.left) :
    ¬Closable (fun i j => met i j = true) available := by
  induction depth generalizing available budget with
  | zero =>
    cases available with
    | nil => cases h
    | cons a tail => simp at hDepth
  | succ depth ih =>
    cases available with
    | nil => cases h
    | cons a tail =>
      intro hClose
      rw [solve] at h hLeft
      split at h
      · rename_i hZero
        rw [if_pos hZero] at hLeft
        exact hLeft.ne' hZero
      · rename_i hPos
        rw [if_neg hPos] at hLeft
        obtain ⟨c, rest, hPerm, hMet, hRest⟩ :=
          hClose.exists_partner (fun i j hij => (hSymm i j) ▸ hij)
        have hc : c ∈ tail := hPerm.mem_iff.mpr List.mem_cons_self
        obtain ⟨budget', hNone, hLeft'⟩ := tryCandidates_none (solve_left_le depth) h hLeft
          (mem_sortWith.mpr hc) (by simpa using hMet)
        have hFilter := filter_pair_perm hNodup hc
        have hRestPerm : rest.Perm ((a :: tail).filter fun idx => idx != a && idx != c) :=
          ((hFilter.trans (hPerm.cons a)).cons_inv.cons_inv).symm
        refine ih (hNodup.filter _) ?_ hNone hLeft' (hRest.perm hRestPerm)
        have hLength := hFilter.length_eq
        simp only [List.length_cons] at hLength hDepth
        omega

theorem searchMatching_left_le (method : SwissPairingMethod) (size : ℕ) (budget : SearchBudget) :
    (searchMatching met method size budget).2.left ≤ budget.left := solve_left_le _ _ _

theorem searchMatching_some {method : SwissPairingMethod} {size : ℕ} {budget : SearchBudget}
    {pairs : List IndexPair} (h : (searchMatching met method size budget).1 = some pairs) :
    (places pairs).Perm (List.range size) ∧ ∀ p ∈ pairs, met p.1 p.2 = false ∧ p.1 < p.2 :=
  solve_some List.pairwise_lt_range h

theorem searchMatching_none {method : SwissPairingMethod} {size : ℕ} {budget : SearchBudget}
    (hSymm : ∀ i j, met i j = met j i)
    (h : (searchMatching met method size budget).1 = none)
    (hLeft : 0 < (searchMatching met method size budget).2.left) :
    ¬Closable (fun i j => met i j = true) (List.range size) :=
  solve_none hSymm List.nodup_range (by simp) h hLeft

end SearchSpec

/-! ## The fallback pairing -/

theorem places_fold_perm (half : ℕ) :
    (places ((List.range half).map fun i => (i, i + half))).Perm (List.range (half + half)) := by
  have hSplit : ∀ l : List ℕ,
      (places (l.map fun i => (i, i + half))).Perm (l ++ l.map (· + half)) := by
    intro l
    induction l with
    | nil => exact .nil
    | cons i l ih =>
      simp only [List.map_cons, places_cons, List.cons_append]
      exact ((ih.cons (i + half)).trans List.perm_middle.symm).cons i
  rw [List.range_add]
  simpa [Nat.add_comm] using hSplit (List.range half)

theorem places_adjacent_eq (half : ℕ) :
    places ((List.range half).map fun i => (2 * i, 2 * i + 1)) = List.range (2 * half) := by
  induction half with
  | zero => rfl
  | succ half ih =>
    rw [List.range_succ, List.map_append, places_append, ih, Nat.mul_succ, List.range_succ,
      List.range_succ]
    simp

theorem idealPairs_perm {size : ℕ} (hEven : Even size) (method : SwissPairingMethod) :
    (places (idealPairs size method)).Perm (List.range size) := by
  obtain ⟨half, rfl⟩ := hEven
  cases method with
  | fold =>
    rw [idealPairs, show (half + half) / 2 = half by omega]
    exact places_fold_perm half
  | adjacent =>
    rw [idealPairs, show (half + half) / 2 = half by omega, places_adjacent_eq, Nat.two_mul]

theorem idealPairs_lt {size : ℕ} {method : SwissPairingMethod} {p : IndexPair}
    (h : p ∈ idealPairs size method) : p.1 < p.2 := by
  cases method with
  | fold =>
    obtain ⟨i, hi, rfl⟩ := List.mem_map.mp h
    have := List.mem_range.mp hi
    simp only
    omega
  | adjacent =>
    obtain ⟨i, hi, rfl⟩ := List.mem_map.mp h
    exact Nat.lt_succ_self _

end MyClash.Swiss
