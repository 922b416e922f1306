import MyClash.Bracket.Seeding

/-!
# Where the seeds stand

The seeding order as the double-elimination slots build it, and the law of both copies: in every
aligned block of positions stands exactly one of the top seeds, so those meet late.
-/

namespace MyClash.Bracket

namespace DoubleElimSlots

/-! ## The copy of the double-elimination slots -/

def insertComplements (seeds : List ℕ) : List ℕ :=
  let complement := seeds.length * 2 + 1
  seeds.flatMap fun s => [s, complement - s]

def growSeeds (size : ℕ) : ℕ → List ℕ → List ℕ
  | 0, seeds => seeds
  | fuel + 1, seeds =>
    if seeds.length < size then growSeeds size fuel (insertComplements seeds) else seeds

def pairAdjacent : List ℕ → List (ℕ × ℕ)
  | s :: t :: rest => (s, t) :: pairAdjacent rest
  | _ => []

def buildSeedingOrder (size : ℕ) : List (ℕ × ℕ) :=
  if size = 2 then [(1, 2)] else pairAdjacent (growSeeds size size [1])

theorem growSeeds_eq (size fuel : ℕ) (seeds : List ℕ) :
    growSeeds size fuel seeds = Bracket.growSeeds size fuel seeds := by
  induction fuel generalizing seeds with
  | zero => rfl
  | succ fuel ih =>
    rw [growSeeds, Bracket.growSeeds, ih]
    rfl

theorem pairAdjacent_eq (seeds : List ℕ) : pairAdjacent seeds = Bracket.pairAdjacent seeds := by
  induction seeds using pairAdjacent.induct with
  | case1 s t rest ih => rw [pairAdjacent, Bracket.pairAdjacent, ih]
  | case2 seeds hShort =>
    rw [pairAdjacent.eq_2 seeds hShort, Bracket.pairAdjacent.eq_2 seeds hShort]

theorem buildSeedingOrder_eq (size : ℕ) :
    buildSeedingOrder size = Bracket.buildSeedingOrder size := by
  rw [buildSeedingOrder, Bracket.buildSeedingOrder, growSeeds_eq, pairAdjacent_eq]

end DoubleElimSlots

/-! ## Blocks of positions -/

/-- The `i`-th aligned block of `size` positions. -/
def block (size i : ℕ) (seeds : List ℕ) : List ℕ := (seeds.drop (i * size)).take size

/-- The seeds in the order of the positions. -/
def positions (pairs : List (ℕ × ℕ)) : List ℕ := pairs.flatMap fun (s, t) => [s, t]

theorem drop_flatMap_pair (seeds : List ℕ) (f g : ℕ → ℕ) (n : ℕ) :
    (seeds.flatMap fun s => [f s, g s]).drop (n * 2) =
      (seeds.drop n).flatMap fun s => [f s, g s] := by
  induction n generalizing seeds with
  | zero => rfl
  | succ n ih =>
    cases seeds with
    | nil => simp
    | cons s seeds => simpa [Nat.succ_mul] using ih seeds

theorem take_flatMap_pair (seeds : List ℕ) (f g : ℕ → ℕ) (n : ℕ) :
    (seeds.flatMap fun s => [f s, g s]).take (n * 2) =
      (seeds.take n).flatMap fun s => [f s, g s] := by
  induction n generalizing seeds with
  | zero => rfl
  | succ n ih =>
    cases seeds with
    | nil => simp
    | cons s seeds => simpa [Nat.succ_mul] using ih seeds

/-- A doubling turns each block into the block of twice its size. -/
theorem block_insertComplements (seeds : List ℕ) (size i : ℕ) :
    block (size * 2) i (insertComplements seeds) =
      (block size i seeds).flatMap fun s => [s, seeds.length * 2 + 1 - s] := by
  rw [block, insertComplements, ← Nat.mul_assoc, drop_flatMap_pair, take_flatMap_pair, block]

theorem positions_buildSeedingOrder (k : ℕ) :
    positions (buildSeedingOrder (2 ^ (k + 1))) = seedsAfter (k + 1) := by
  rw [buildSeedingOrder_pow, positions, seedsAfter, insertComplements, length_seedsAfter,
    List.flatMap_map, ← Nat.pow_succ]

theorem countP_pairs {seeds : List ℕ} {complement top : ℕ}
    (h : ∀ s ∈ seeds, top < complement - s) :
    (seeds.flatMap fun s => [s, complement - s]).countP (· ≤ top) = seeds.countP (· ≤ top) := by
  induction seeds with
  | nil => rfl
  | cons s seeds ih =>
    have hRest := ih fun t ht => h t (List.mem_cons_of_mem _ ht)
    have hFirst := h s List.mem_cons_self
    rw [List.flatMap_cons, List.countP_append, hRest, List.countP_cons]
    simp [List.countP_cons, hFirst.not_ge]
    omega

/-- Each aligned block of a `2 ^ j`-th of the positions holds one of the first `2 ^ j` seeds. -/
theorem countP_block {j k : ℕ} (hLe : j ≤ k) {i : ℕ} (hi : i < 2 ^ j) :
    (block (2 ^ (k - j)) i (seedsAfter k)).countP (· ≤ 2 ^ j) = 1 := by
  induction k, hLe using Nat.le_induction with
  | base =>
    rw [Nat.sub_self, Nat.pow_zero, block, Nat.mul_one]
    have hLength : i < (seedsAfter j).length := by rwa [length_seedsAfter]
    have hOne : ((seedsAfter j).drop i).take 1 = [(seedsAfter j)[i]] := by
      rw [List.drop_eq_getElem_cons hLength]
      rfl
    rw [hOne]
    have hMem : (seedsAfter j)[i] ∈ List.range' 1 (2 ^ j) :=
      (seedsAfter_perm j).subset (List.getElem_mem hLength)
    have hLe : (seedsAfter j)[i] ≤ 2 ^ j := by
      have hBound := (List.mem_range'_1.mp hMem).2
      omega
    simp [hLe]
  | succ k hLe ih =>
    have hSize : 2 ^ (k + 1 - j) = 2 ^ (k - j) * 2 := by
      rw [← Nat.pow_succ]
      congr 1
      omega
    rw [hSize, seedsAfter, block_insertComplements, countP_pairs, ih]
    intro s hs
    have hMem : s ∈ List.range' 1 (2 ^ k) :=
      (seedsAfter_perm k).subset (List.mem_of_mem_drop (List.mem_of_mem_take hs))
    have hBound := List.mem_range'_1.mp hMem
    have hPow : 2 ^ j ≤ 2 ^ k := Nat.pow_le_pow_right (by decide) hLe
    rw [length_seedsAfter]
    omega

theorem eq_of_block {j k i : ℕ} (hLe : j ≤ k) (hi : i < 2 ^ j) {s t : ℕ}
    (hs : s ∈ block (2 ^ (k - j)) i (seedsAfter k)) (ht : t ∈ block (2 ^ (k - j)) i (seedsAfter k))
    (hTop : s ≤ 2 ^ j) (hTop' : t ≤ 2 ^ j) : s = t := by
  have hOne := countP_block hLe hi
  rw [List.countP_eq_length_filter, List.length_eq_one_iff] at hOne
  obtain ⟨only, hOnly⟩ := hOne
  have hMem : ∀ r ∈ block (2 ^ (k - j)) i (seedsAfter k), r ≤ 2 ^ j → r = only := by
    intro r hr hTop
    have hr : r ∈ (block (2 ^ (k - j)) i (seedsAfter k)).filter (· ≤ 2 ^ j) :=
      List.mem_filter.mpr ⟨hr, decide_eq_true hTop⟩
    rw [hOnly] at hr
    exact List.mem_singleton.mp hr
  rw [hMem s hs hTop, hMem t ht hTop']

/-- Every seed stands once, each first-round pair makes up `2 ^ k + 1`, and each aligned block
holds one of the top seeds: two of those never stand in one block. -/
theorem buildSeedingOrder_law {k : ℕ} (hk : 1 ≤ k) :
    (positions (buildSeedingOrder (2 ^ k))).Perm (List.range' 1 (2 ^ k)) ∧
      (∀ pair ∈ buildSeedingOrder (2 ^ k), pair.1 + pair.2 = 2 ^ k + 1) ∧
      (∀ j ≤ k, ∀ i < 2 ^ j,
        (block (2 ^ (k - j)) i (positions (buildSeedingOrder (2 ^ k)))).countP (· ≤ 2 ^ j) = 1 ∧
        ∀ s ∈ block (2 ^ (k - j)) i (positions (buildSeedingOrder (2 ^ k))),
          ∀ t ∈ block (2 ^ (k - j)) i (positions (buildSeedingOrder (2 ^ k))),
            s ≤ 2 ^ j → t ≤ 2 ^ j → s = t) ∧
      DoubleElimSlots.buildSeedingOrder (2 ^ k) = buildSeedingOrder (2 ^ k) := by
  obtain ⟨k, rfl⟩ := Nat.exists_eq_succ_of_ne_zero (Nat.one_le_iff_ne_zero.mp hk)
  rw [Nat.succ_eq_add_one, positions_buildSeedingOrder]
  refine ⟨seedsAfter_perm (k + 1), ?_, fun j hLe i hi => ?_, DoubleElimSlots.buildSeedingOrder_eq _⟩
  · intro pair hPair
    rw [buildSeedingOrder_pow] at hPair
    obtain ⟨s, hs, rfl⟩ := List.mem_map.mp hPair
    have hBound := List.mem_range'_1.mp ((seedsAfter_perm k).subset hs)
    rw [Nat.pow_succ]
    dsimp only
    omega
  · exact ⟨countP_block hLe hi, fun s hs t ht => eq_of_block hLe hi hs ht⟩

theorem buildSeedingOrder_law_eight :
    (positions (buildSeedingOrder (2 ^ 3))).Perm (List.range' 1 (2 ^ 3)) ∧
      (block (2 ^ (3 - 2)) 1 (positions (buildSeedingOrder (2 ^ 3)))).countP (· ≤ 2 ^ 2) = 1 :=
  have hLaw := buildSeedingOrder_law (k := 3) (by decide)
  ⟨hLaw.1, (hLaw.2.2.1 2 (by decide) 1 (by decide)).1⟩

end MyClash.Bracket
