import Mathlib.Algebra.Group.Nat.Defs
import Mathlib.Data.List.Perm.Basic
import Mathlib.Data.List.Range
import Mathlib.Data.Nat.Log

/-!
# Bracket sizes and the seeding order

Both generators carry their own copy of these three helpers. The order of the seeds is
kept as the list the doubling loop grows; its pairs are the first round.
-/

namespace MyClash.Bracket

def isPowerOf2 (n : ℕ) : Bool := 1 ≤ n && n &&& (n - 1) == 0

def highestPowerOf2BelowFrom (n : ℕ) : ℕ → ℕ → ℕ
  | 0, p => p
  | fuel + 1, p => if p * 2 < n then highestPowerOf2BelowFrom n fuel (p * 2) else p

/-- Highest power of 2 strictly below `n`. -/
def highestPowerOf2Below (n : ℕ) : ℕ := highestPowerOf2BelowFrom n n 1

/-- One doubling: the complement of each seed goes in behind it. -/
def insertComplements (seeds : List ℕ) : List ℕ :=
  let complement := seeds.length * 2 + 1
  seeds.flatMap fun s => [s, complement - s]

def growSeeds (size : ℕ) : ℕ → List ℕ → List ℕ
  | 0, seeds => seeds
  | fuel + 1, seeds =>
    if seeds.length < size then growSeeds size fuel (insertComplements seeds) else seeds

def pairAdjacent : List ℕ → List (ℕ × ℕ)
  | s :: t :: rest => (s, t) :: pairAdjacent rest
  | _ => []

/-- The seeds of round 1, as pairs in the order of the positions. -/
def buildSeedingOrder (size : ℕ) : List (ℕ × ℕ) :=
  if size = 2 then [(1, 2)] else pairAdjacent (growSeeds size size [1])

theorem isPowerOf2_iff {n : ℕ} : isPowerOf2 n = true ↔ ∃ k, n = 2 ^ k := by
  change _ ↔ n.isPowerOfTwo
  rw [← Nat.ne_zero_and_sub_one_eq_zero_iff_isPowerOfTwo, isPowerOf2]
  simp [Nat.one_le_iff_ne_zero]

theorem isPowerOf2_pow (k : ℕ) : isPowerOf2 (2 ^ k) = true := isPowerOf2_iff.mpr ⟨k, rfl⟩

theorem pow_of_isPowerOf2 {n : ℕ} (hTwo : 2 ≤ n) (h : isPowerOf2 n = true) :
    ∃ k, n = 2 ^ (k + 1) := by
  obtain ⟨k, rfl⟩ := isPowerOf2_iff.mp h
  cases k with
  | zero => exact absurd hTwo (by decide)
  | succ k => exact ⟨k, rfl⟩

theorem highestPowerOf2BelowFrom_spec {n : ℕ} (fuel : ℕ) {k : ℕ} (hBelow : 2 ^ k < n)
    (hFuel : n ≤ 2 ^ k + fuel) :
    ∃ j, highestPowerOf2BelowFrom n fuel (2 ^ k) = 2 ^ j ∧ 2 ^ j < n ∧ n ≤ 2 ^ j * 2 := by
  induction fuel generalizing k with
  | zero => omega
  | succ fuel ih =>
    rw [highestPowerOf2BelowFrom]
    by_cases h : 2 ^ k * 2 < n
    · rw [if_pos h, ← Nat.pow_succ]
      have hPos := Nat.two_pow_pos k
      exact ih (by rwa [Nat.pow_succ]) (by rw [Nat.pow_succ]; omega)
    · exact ⟨k, if_neg h, hBelow, Nat.le_of_not_lt h⟩

theorem highestPowerOf2Below_spec {n : ℕ} (h : 2 ≤ n) :
    ∃ j, highestPowerOf2Below n = 2 ^ j ∧ 2 ^ j < n ∧ n ≤ 2 ^ j * 2 :=
  highestPowerOf2BelowFrom_spec n (k := 0) (by omega) (by omega)

/-- The seeds after `k` doublings. -/
def seedsAfter : ℕ → List ℕ
  | 0 => [1]
  | k + 1 => insertComplements (seedsAfter k)

@[simp] theorem length_insertComplements (seeds : List ℕ) :
    (insertComplements seeds).length = seeds.length * 2 := by
  simp [insertComplements, List.length_flatMap]

@[simp] theorem length_seedsAfter (k : ℕ) : (seedsAfter k).length = 2 ^ k := by
  induction k with
  | zero => rfl
  | succ k ih => rw [seedsAfter, length_insertComplements, ih, Nat.pow_succ]

theorem growSeeds_seedsAfter {k j : ℕ} (hLe : j ≤ k) {fuel : ℕ} (hFuel : 2 ^ k ≤ 2 ^ j + fuel) :
    growSeeds (2 ^ k) fuel (seedsAfter j) = seedsAfter k := by
  induction fuel generalizing j with
  | zero =>
    have hEq : j = k := Nat.le_antisymm hLe ((Nat.pow_le_pow_iff_right (by decide)).mp hFuel)
    rw [growSeeds, hEq]
  | succ fuel ih =>
    rw [growSeeds, length_seedsAfter]
    by_cases h : j = k
    · rw [h, if_neg (Nat.lt_irrefl _)]
    · have hLt : 2 ^ j < 2 ^ k := Nat.pow_lt_pow_right (by decide) (by omega)
      have hPos := Nat.two_pow_pos j
      rw [if_pos hLt, ← seedsAfter]
      exact ih (by omega) (by rw [Nat.pow_succ]; omega)

theorem pairAdjacent_flatMap (seeds : List ℕ) (f g : ℕ → ℕ) :
    pairAdjacent (seeds.flatMap fun s => [f s, g s]) = seeds.map fun s => (f s, g s) := by
  induction seeds with
  | nil => rfl
  | cons s seeds ih => simp [pairAdjacent, ih]

/-- Each seed of the upper half meets the one that makes up `size + 1` with it. -/
theorem buildSeedingOrder_pow (k : ℕ) :
    buildSeedingOrder (2 ^ (k + 1)) = (seedsAfter k).map fun s => (s, 2 ^ (k + 1) + 1 - s) := by
  cases k with
  | zero => rfl
  | succ k =>
    have hSize : 2 ^ (k + 1 + 1) ≠ 2 := by
      have hPos := Nat.two_pow_pos k
      rw [Nat.pow_succ, Nat.pow_succ]
      omega
    have hGrown : growSeeds (2 ^ (k + 1 + 1)) (2 ^ (k + 1 + 1)) [1] = seedsAfter (k + 1 + 1) :=
      growSeeds_seedsAfter (Nat.zero_le _) (Nat.le_add_left _ _)
    rw [buildSeedingOrder, if_neg hSize, hGrown, seedsAfter, insertComplements,
      length_seedsAfter, ← Nat.pow_succ]
    exact pairAdjacent_flatMap _ _ _

theorem flatMap_pair_perm {α β : Type} (l : List α) (f g : α → β) :
    (l.flatMap fun a => [f a, g a]).Perm (l.map f ++ l.map g) := by
  induction l with
  | nil => exact .nil
  | cons a l ih =>
    rw [List.flatMap_cons, List.map_cons, List.map_cons, List.cons_append]
    exact .cons _ ((ih.cons _).trans List.perm_middle.symm)

theorem flatMap_adjacent {α : Type} (f : ℕ → α) (n : ℕ) :
    ((List.range' 1 n).flatMap fun pos => [f ((pos - 1) * 2 + 1), f ((pos - 1) * 2 + 2)]) =
      (List.range' 1 (n * 2)).map f := by
  induction n with
  | zero => rfl
  | succ n ih =>
    rw [List.range'_1_concat, List.flatMap_append, ih, Nat.succ_mul, List.range'_1_concat,
      List.range'_1_concat]
    simp [Nat.add_comm]
    congr 1
    omega

/-- Counting down over a block of numbers runs over the same block. -/
theorem map_countdown_perm (f : ℕ → ℕ) (start : ℕ) {n : ℕ}
    (hf : ∀ i, 1 ≤ i → i ≤ n → f i + i = start + n) :
    ((List.range' 1 n).map f).Perm (List.range' start n) := by
  have hReverse : (List.range' 1 n).map f = (List.range' start n).reverse := by
    rw [List.reverse_range', List.range'_eq_map_range, List.map_map]
    refine List.map_congr_left fun i hi => ?_
    have hLt := List.mem_range.mp hi
    have hSum := hf (1 + i) (by omega) (by omega)
    simp only [Function.comp_apply]
    omega
  rw [hReverse]
  exact List.reverse_perm _

theorem seedsAfter_perm (k : ℕ) : (seedsAfter k).Perm (List.range' 1 (2 ^ k)) := by
  induction k with
  | zero => exact .refl _
  | succ k ih =>
    rw [seedsAfter, insertComplements, length_seedsAfter]
    refine (flatMap_pair_perm _ _ _).trans ?_
    rw [List.map_id', Nat.pow_succ, Nat.mul_two, ← List.range'_append_1]
    refine ih.append ((ih.map _).trans ?_)
    exact map_countdown_perm _ _ fun i _ hi => by omega

end MyClash.Bracket
