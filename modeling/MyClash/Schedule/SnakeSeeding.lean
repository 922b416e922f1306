import MyClash.Library.Buckets
import MyClash.Swiss.Seeding

/-!
# Snake seeding

The fighters in order of skill, dealt to the pools from left to right and back again. A pool is
met once each way, so the sizes differ by one at most.
-/

namespace MyClash.Schedule.Pools

open StableSort

universe u v

/-- A rating is any number with an order; the seed and the rating may be missing. -/
structure Fighter (ι : Type u) (R : Type v) where
  registrationId : ι
  clubId : Option String
  skillRating : Option R
  seed : Option ℤ

structure PoolAssignment (ι : Type u) where
  poolIndex : ℤ
  registrationId : ι

section Order

variable {ι : Type u} {R : Type v} [LT R] [DecidableLT R]

def compareNumbers (a b : R) : Ordering :=
  if a < b then .lt else if b < a then .gt else .eq

/-- The higher rating first, the unrated last; then the seed, a missing one last. -/
def bySkill (a b : Fighter ι R) : Ordering :=
  (Swiss.noneLast (fun x y => compareNumbers y x) a.skillRating b.skillRating).then
    (Swiss.noneLast compare a.seed b.seed)

def sortBySkill (fighters : List (Fighter ι R)) : List (Fighter ι R) := sortWith bySkill fighters

end Order

/-- The pools dealt so far, and where the next fighter goes. -/
structure Snake (ι : Type u) where
  assignments : List (PoolAssignment ι)
  direction : ℤ
  poolIndex : ℤ

section Deal

variable {ι : Type u} {R : Type v}

def Snake.deal (poolCount : ℤ) (s : Snake ι) (fighter : Fighter ι R) : Snake ι :=
  let assignments := s.assignments ++ [⟨s.poolIndex, fighter.registrationId⟩]
  let poolIndex := s.poolIndex + s.direction
  if poolIndex ≥ poolCount then ⟨assignments, -1, poolCount - 1⟩
  else if poolIndex < 0 then ⟨assignments, 1, 0⟩
  else ⟨assignments, s.direction, poolIndex⟩

def snakeSeed [LT R] [DecidableLT R] (fighters : List (Fighter ι R)) (poolCount : ℤ) :
    Except String (List (PoolAssignment ι)) :=
  if poolCount ≤ 0 then .error "poolCount must be positive"
  else if fighters.length = 0 then .ok []
  else .ok ((sortBySkill fighters).foldl (Snake.deal poolCount) ⟨[], 1, 0⟩).assignments

end Deal

def computePoolSizes (fighterCount poolCount : ℕ) : List ℕ :=
  (List.range poolCount).map fun i =>
    fighterCount / poolCount + if i < fighterCount % poolCount then 1 else 0

/-! ## What a pool holds -/

section Held

variable {ι : Type u}

def poolMembers (assignments : List (PoolAssignment ι)) (i : ℕ) : List ι :=
  (assignments.filter fun a => decide (a.poolIndex = (i : ℤ))).map (·.registrationId)

def poolSizes (assignments : List (PoolAssignment ι)) (poolCount : ℕ) : List ℕ :=
  (List.range poolCount).map fun i => (poolMembers assignments i).length

def poolIndices (assignments : List (PoolAssignment ι)) : List ℤ :=
  assignments.map (·.poolIndex)

def InPools (indices : List ℤ) (poolCount : ℕ) : Prop :=
  ∀ p ∈ indices, 0 ≤ p ∧ p < poolCount

theorem length_poolMembers (assignments : List (PoolAssignment ι)) (i : ℕ) :
    (poolMembers assignments i).length = (poolIndices assignments).count (i : ℤ) := by
  rw [poolMembers, List.length_map, poolIndices, List.count, List.countP_map, List.countP_eq_length_filter]
  rfl

/-- The pools together hold what was dealt. -/
theorem poolMembers_perm {assignments : List (PoolAssignment ι)} {poolCount : ℕ}
    (h : InPools (poolIndices assignments) poolCount) :
    ((List.range poolCount).flatMap (poolMembers assignments)).Perm
      (assignments.map (·.registrationId)) := by
  have hKeys : ((List.range poolCount).map (Nat.cast : ℕ → ℤ)).Nodup :=
    List.nodup_range.map Nat.cast_injective
  have hPerm := (Buckets.flatMap_filter_perm (·.poolIndex) hKeys (l := assignments) (by
    intro a ha
    obtain ⟨hNonneg, hLt⟩ := h _ (List.mem_map_of_mem ha)
    exact List.mem_map.mpr ⟨a.poolIndex.toNat, List.mem_range.mpr (by omega),
      Int.toNat_of_nonneg hNonneg⟩)).map (·.registrationId)
  rw [List.flatMap_map, List.map_flatMap] at hPerm
  exact hPerm

end Held

/-! ## The snake -/

section Snake

variable {ι : Type u} {R : Type v}

/-- After `rounds` full rounds and `rest` fighters of the next, on the way there or back. -/
structure Dealt (poolCount rounds rest : ℕ) (s : Snake ι) : Prop where
  inside : rest < poolCount
  inPools : InPools (poolIndices s.assignments) poolCount
  turn : (s.direction = 1 ∧ s.poolIndex = rest ∧ ∀ i < poolCount,
      (poolIndices s.assignments).count (i : ℤ) = rounds + if i < rest then 1 else 0) ∨
    (s.direction = -1 ∧ s.poolIndex = poolCount - 1 - rest ∧ ∀ i < poolCount,
      (poolIndices s.assignments).count (i : ℤ) =
        rounds + if poolCount - 1 - i < rest then 1 else 0)

theorem count_concat (assignments : List (PoolAssignment ι)) (p : ℤ) (registrationId : ι) (i : ℕ) :
    (poolIndices (assignments ++ [⟨p, registrationId⟩])).count (i : ℤ) =
      (poolIndices assignments).count (i : ℤ) + if p = i then 1 else 0 := by
  rw [poolIndices, List.map_append, List.count_append, List.map_singleton, List.count_singleton]
  simp only [beq_iff_eq, poolIndices]

theorem InPools.concat {assignments : List (PoolAssignment ι)} {poolCount : ℕ}
    (h : InPools (poolIndices assignments) poolCount) {p : ℤ} (hNonneg : 0 ≤ p)
    (hLt : p < poolCount) (registrationId : ι) :
    InPools (poolIndices (assignments ++ [⟨p, registrationId⟩])) poolCount := by
  intro q hq
  rw [poolIndices, List.map_append, List.mem_append] at hq
  rcases hq with hq | hq
  · exact h q hq
  · obtain rfl := List.mem_singleton.mp hq
    exact ⟨hNonneg, hLt⟩

/-- One more fighter: the round goes on, or the snake turns at the end of it. -/
theorem Dealt.deal {poolCount rounds rest : ℕ} {s : Snake ι} (h : Dealt poolCount rounds rest s)
    (fighter : Fighter ι R) :
    (rest + 1 < poolCount ∧ Dealt poolCount rounds (rest + 1) (s.deal poolCount fighter)) ∨
      (rest + 1 = poolCount ∧ Dealt poolCount (rounds + 1) 0 (s.deal poolCount fighter)) := by
  have hInside := h.inside
  rcases h.turn with ⟨hDirection, hAt, hCounts⟩ | ⟨hDirection, hAt, hCounts⟩
  · rw [Snake.deal, hDirection, hAt]
    have hIn := h.inPools.concat (p := rest) (by omega) (by omega) fighter.registrationId
    rcases Nat.lt_or_eq_of_le (Nat.succ_le_of_lt hInside) with hOn | hTurn
    · refine .inl ⟨hOn, ?_⟩
      rw [if_neg (by omega), if_neg (by omega)]
      refine ⟨hOn, hIn, .inl ⟨rfl, rfl, fun i hi => ?_⟩⟩
      rw [count_concat, hCounts i hi]
      split_ifs <;> omega
    · refine .inr ⟨hTurn, ?_⟩
      rw [if_pos (by omega)]
      refine ⟨by omega, hIn, .inr ⟨rfl, by simp, fun i hi => ?_⟩⟩
      rw [count_concat, hCounts i hi]
      split_ifs <;> omega
  · rw [Snake.deal, hDirection, hAt]
    have hIn := h.inPools.concat (p := poolCount - 1 - rest) (by omega) (by omega)
      fighter.registrationId
    rcases Nat.lt_or_eq_of_le (Nat.succ_le_of_lt hInside) with hOn | hTurn
    · refine .inl ⟨hOn, ?_⟩
      rw [if_neg (by omega), if_neg (by omega)]
      refine ⟨hOn, hIn, .inr ⟨rfl, by push_cast; omega, fun i hi => ?_⟩⟩
      rw [count_concat, hCounts i hi]
      split_ifs <;> omega
    · refine .inr ⟨hTurn, ?_⟩
      rw [if_neg (by omega), if_pos (by omega)]
      refine ⟨by omega, hIn, .inl ⟨rfl, rfl, fun i hi => ?_⟩⟩
      rw [count_concat, hCounts i hi]
      split_ifs <;> omega

theorem Dealt.foldl {poolCount : ℕ} (fighters : List (Fighter ι R)) {rounds rest : ℕ} {s : Snake ι}
    (h : Dealt poolCount rounds rest s) :
    ∃ rounds' rest', poolCount * rounds' + rest' = poolCount * rounds + rest + fighters.length ∧
      Dealt poolCount rounds' rest' (fighters.foldl (Snake.deal poolCount) s) := by
  induction fighters generalizing rounds rest s with
  | nil => exact ⟨rounds, rest, rfl, h⟩
  | cons fighter fighters ih =>
    rcases h.deal fighter with ⟨-, hOn⟩ | ⟨hTurn, hOn⟩
    · obtain ⟨rounds', rest', hTotal, hDealt⟩ := ih hOn
      refine ⟨rounds', rest', ?_, hDealt⟩
      rw [hTotal, List.length_cons]
      omega
    · obtain ⟨rounds', rest', hTotal, hDealt⟩ := ih hOn
      refine ⟨rounds', rest', ?_, hDealt⟩
      rw [hTotal, List.length_cons, Nat.mul_succ]
      omega

theorem foldl_deal_registrations (poolCount : ℤ) (fighters : List (Fighter ι R)) (s : Snake ι) :
    (fighters.foldl (Snake.deal poolCount) s).assignments.map (·.registrationId) =
      s.assignments.map (·.registrationId) ++ fighters.map (·.registrationId) := by
  have hDeal : ∀ (s : Snake ι) (fighter : Fighter ι R),
      (s.deal poolCount fighter).assignments = s.assignments ++ [⟨s.poolIndex, fighter.registrationId⟩] := by
    intro s fighter
    rw [Snake.deal]
    split_ifs <;> rfl
  induction fighters generalizing s with
  | nil => rw [List.foldl_nil, List.map_nil, List.append_nil]
  | cons fighter fighters ih =>
    rw [List.foldl_cons, ih, hDeal, List.map_append, List.append_assoc]
    rfl

/-- The counts of a deal, in the order of the pools or from the last pool back. -/
theorem Dealt.sizes {poolCount rounds rest : ℕ} {s : Snake ι} (h : Dealt poolCount rounds rest s)
    {fighterCount : ℕ} (hTotal : poolCount * rounds + rest = fighterCount) :
    (poolSizes s.assignments poolCount).Perm (computePoolSizes fighterCount poolCount) := by
  have hDiv : fighterCount / poolCount = rounds ∧ fighterCount % poolCount = rest :=
    (Nat.div_mod_unique (Nat.zero_lt_of_lt h.inside)).mpr ⟨by rw [← hTotal, Nat.add_comm], h.inside⟩
  rw [computePoolSizes, hDiv.1, hDiv.2, poolSizes]
  rcases h.turn with ⟨-, -, hCounts⟩ | ⟨-, -, hCounts⟩
  · refine .of_eq (List.map_congr_left fun i hi => ?_)
    rw [length_poolMembers, hCounts i (List.mem_range.mp hi)]
  · have hBack : ((List.range poolCount).map fun i => (poolMembers s.assignments i).length) =
        (List.range poolCount).reverse.map fun i => rounds + if i < rest then 1 else 0 := by
      rw [List.range_eq_range', List.reverse_range', List.map_map, ← List.range_eq_range']
      refine List.map_congr_left fun i hi => ?_
      rw [length_poolMembers, hCounts i (List.mem_range.mp hi), Function.comp_apply, Nat.zero_add]
    rw [hBack]
    exact (List.reverse_perm _).map _

end Snake

section Seeded

variable {ι : Type u} {R : Type v}

/-- What the pools of a list of fighters are to be, whoever shares a pool with whom. -/
structure Seeded (fighters : List (Fighter ι R)) (poolCount : ℕ)
    (assignments : List (PoolAssignment ι)) : Prop where
  registrations : (assignments.map (·.registrationId)).Perm (fighters.map (·.registrationId))
  inPools : InPools (poolIndices assignments) poolCount
  sizes : (poolSizes assignments poolCount).Perm (computePoolSizes fighters.length poolCount)

theorem snakeSeed_seeded [LT R] [DecidableLT R] (fighters : List (Fighter ι R)) {poolCount : ℕ}
    (hPos : 0 < poolCount) :
    ∃ initial, snakeSeed fighters poolCount = .ok initial ∧ Seeded fighters poolCount initial := by
  have hStart : Dealt poolCount 0 0 (⟨[], 1, 0⟩ : Snake ι) :=
    ⟨hPos, List.forall_mem_nil _, .inl ⟨rfl, rfl, fun i _ => rfl⟩⟩
  obtain ⟨rounds, rest, hTotal, hDealt⟩ := hStart.foldl (sortBySkill fighters)
  rw [sortBySkill, length_sortWith, Nat.mul_zero, Nat.zero_add] at hTotal
  have hSeeded : Seeded fighters poolCount
      ((sortBySkill fighters).foldl (Snake.deal poolCount) ⟨[], 1, 0⟩).assignments := by
    refine ⟨?_, hDealt.inPools, hDealt.sizes hTotal⟩
    rw [foldl_deal_registrations]
    exact (sortWith_perm fighters).map _
  rw [snakeSeed, if_neg (by omega)]
  by_cases hEmpty : fighters.length = 0
  · obtain rfl := List.eq_nil_of_length_eq_zero hEmpty
    exact ⟨[], if_pos rfl, hSeeded⟩
  · exact ⟨_, if_neg hEmpty, hSeeded⟩

example : ((snakeSeed (R := ℤ) [⟨1, none, some 2, none⟩, ⟨2, none, none, some 1⟩,
    ⟨3, none, some 5, none⟩, ⟨4, none, none, none⟩] 2).toOption.map
      fun initial => initial.map fun a => (a.registrationId, a.poolIndex)) =
    some [(3, 0), (1, 1), (2, 1), (4, 0)] := by decide

theorem snakeSeed_error [LT R] [DecidableLT R] (fighters : List (Fighter ι R)) {poolCount : ℤ}
    (h : poolCount ≤ 0) : snakeSeed fighters poolCount = .error "poolCount must be positive" :=
  if_pos h

end Seeded

end MyClash.Schedule.Pools
