import MyClash.Library.Descent
import MyClash.Schedule.SnakeSeeding

/-!
# Local search over the pools

Two fighters of different pools change places where that lowers the cost. The cost is reckoned in
any kind of number whose `<` is an order.
-/

namespace MyClash.Schedule.Pools

universe u v

structure PoolAssignmentSettings where
  enforceSchoolSeparation : Bool
  enforceSkillBalance : Bool

/-! ## The cost -/

section Cost

variable {ι : Type u} [DecidableEq ι] {R : Type v}

/-- The last fighter of a registration. -/
def fighterOf (fighters : List (Fighter ι R)) (registrationId : ι) : Option (Fighter ι R) :=
  fighters.reverse.find? fun f => f.registrationId = registrationId

def poolsOf (assignments : List (PoolAssignment ι)) (fighters : List (Fighter ι R))
    (poolCount : ℤ) : List (List (Fighter ι R)) :=
  (List.range poolCount.toNat).map fun i => assignments.filterMap fun a =>
    if a.poolIndex = (i : ℤ) then fighterOf fighters a.registrationId else none

/-- The clubs of a pool with their members counted; an empty club id is no club. -/
def clubCounts (pool : List (Fighter ι R)) : List ℕ :=
  let clubs := pool.filterMap fun f => f.clubId.filter (· ≠ "")
  clubs.eraseDups.map fun club => clubs.count club

section Numbers

variable [NatCast R] [Add R] [Sub R] [Mul R] [Div R]

def sumOf (values : List R) : R := values.foldl (· + ·) (0 : ℕ)

/-- Each couple of one club costs 100. -/
def schoolCost (pools : List (List (Fighter ι R))) : R :=
  pools.foldl
    (fun cost pool => (clubCounts pool).foldl
      (fun cost count =>
        if count > 1 then cost + ((count * (count - 1) / 2 * 100 : ℕ) : R) else cost)
      cost)
    (0 : ℕ)

def poolMean (pool : List (Fighter ι R)) : R :=
  let rated := pool.filterMap (·.skillRating)
  if rated.length = 0 then (0 : ℕ) else sumOf rated / (rated.length : R)

def skillVariance (pools : List (List (Fighter ι R))) : R :=
  let poolMeans := pools.map poolMean
  let overallMean := sumOf poolMeans / (poolMeans.length : R)
  sumOf (poolMeans.map fun m => (m - overallMean) * (m - overallMean)) / (poolMeans.length : R)

def computeCost (assignments : List (PoolAssignment ι)) (fighters : List (Fighter ι R))
    (poolCount : ℤ) (settings : PoolAssignmentSettings) : R :=
  let pools := poolsOf assignments fighters poolCount
  let cost : R := if settings.enforceSchoolSeparation then schoolCost pools else (0 : ℕ)
  if settings.enforceSkillBalance then cost + skillVariance pools else cost

end Numbers

end Cost

/-! ## The search -/

section Propose

variable {ι : Type u}

/-- A place in a list, the drawn fraction of its length. -/
def drawIndex (random : UInt32) (length : ℕ) : ℕ × UInt32 :=
  let (random, draw) := Swiss.mulberry32 random
  (draw.toNat * length / 2 ^ 32, random)

def poolAt (current : List (PoolAssignment ι)) (idx : ℕ) : Option ℤ :=
  current[idx]?.map (·.poolIndex)

/-- The second place is drawn again while it is in the pool of the first. -/
def redraw (current : List (PoolAssignment ι)) (idxA : ℕ) : ℕ → ℕ × UInt32 → ℕ × UInt32
  | 0, drawn => drawn
  | attempts + 1, (idxB, random) =>
    if poolAt current idxA = poolAt current idxB then
      redraw current idxA attempts (drawIndex random current.length)
    else (idxB, random)

def swapPools (current : List (PoolAssignment ι)) (idxA idxB : ℕ) (a b : PoolAssignment ι) :
    List (PoolAssignment ι) :=
  (current.set idxA { a with poolIndex := b.poolIndex }).set idxB
    { b with poolIndex := a.poolIndex }

/-- A place that does not exist is drawn from the empty list only, and then both are. -/
def proposeSwap (random : UInt32) (current : List (PoolAssignment ι)) :
    Option (List (PoolAssignment ι)) × UInt32 :=
  let (idxA, random) := drawIndex random current.length
  let (idxB, random) := redraw current idxA 10 (drawIndex random current.length)
  match current[idxA]?, current[idxB]? with
  | some a, some b =>
    if a.poolIndex = b.poolIndex then (none, random)
    else (some (swapPools current idxA idxB a b), random)
  | _, _ => (none, random)

end Propose

section Search

variable {ι : Type u} [DecidableEq ι] {R : Type v} [NatCast R] [Add R] [Sub R] [Mul R] [Div R]
  [LT R] [DecidableLT R]

def localSearch (assignments : List (PoolAssignment ι)) (fighters : List (Fighter ι R))
    (poolCount : ℤ) (settings : PoolAssignmentSettings) (iterations : Option ℕ) (seed : ℤ) :
    List (PoolAssignment ι) :=
  let cost := fun current => computeCost current fighters poolCount settings
  let K := iterations.getD (max 50 (fighters.length * 2))
  (Descent.attempts cost proposeSwap K
    ⟨UInt32.ofInt seed, assignments, cost assignments⟩).current

end Search

/-! ## What a swap keeps -/

section Swap

variable {ι : Type u}

theorem proposeSwap_some {random : UInt32} {current candidate : List (PoolAssignment ι)}
    (h : (proposeSwap random current).1 = some candidate) :
    ∃ idxA idxB a b, current[idxA]? = some a ∧ current[idxB]? = some b ∧
      a.poolIndex ≠ b.poolIndex ∧ candidate = swapPools current idxA idxB a b := by
  rw [proposeSwap] at h
  dsimp only at h
  split at h
  next a b hA hB =>
    split at h
    next => cases h
    next hNe => exact ⟨_, _, a, b, hA, hB, hNe, (Option.some.inj h).symm⟩
  next => cases h

/-- The registrations stand where they stood, and the pools change places. -/
theorem swapPools_kept {current : List (PoolAssignment ι)} {idxA idxB : ℕ}
    {a b : PoolAssignment ι} (hA : current[idxA]? = some a) (hB : current[idxB]? = some b)
    (hNe : a.poolIndex ≠ b.poolIndex) :
    (swapPools current idxA idxB a b).map (·.registrationId) = current.map (·.registrationId) ∧
      (poolIndices (swapPools current idxA idxB a b)).Perm (poolIndices current) := by
  obtain ⟨hLtA, rfl⟩ := List.getElem?_eq_some_iff.mp hA
  obtain ⟨hLtB, rfl⟩ := List.getElem?_eq_some_iff.mp hB
  have hApart : idxA ≠ idxB := by
    rintro rfl
    exact hNe rfl
  constructor
  · have hSet : ∀ (l : List ι) (i : ℕ) (x : ι), l[i]? = some x → l.set i x = l := by
      intro l i x h
      obtain ⟨hLt, rfl⟩ := List.getElem?_eq_some_iff.mp h
      exact List.set_getElem_self hLt
    rw [swapPools, List.map_set, List.map_set]
    rw [hSet _ idxA _ (by rw [List.getElem?_map, hA]; rfl)]
    exact hSet _ idxB _ (by rw [List.getElem?_map, hB]; rfl)
  · have hIndices : poolIndices (swapPools current idxA idxB current[idxA] current[idxB]) =
        ((poolIndices current).set idxA current[idxB].poolIndex).set idxB
          current[idxA].poolIndex := by
      rw [swapPools, poolIndices, List.map_set, List.map_set]
      rfl
    have hLength : (poolIndices current).length = current.length := List.length_map _
    have hPerm := List.set_set_perm (hLength ▸ hLtA) (hLength ▸ hLtB)
    rw [hIndices]
    simpa only [poolIndices, List.getElem_map] using hPerm

theorem Seeded.proposeSwap {R : Type v} {fighters : List (Fighter ι R)} {poolCount : ℕ}
    {random : UInt32} {current candidate : List (PoolAssignment ι)}
    (hProposed : (Pools.proposeSwap random current).1 = some candidate)
    (h : Seeded fighters poolCount current) : Seeded fighters poolCount candidate := by
  obtain ⟨idxA, idxB, a, b, hA, hB, hNe, rfl⟩ := proposeSwap_some hProposed
  obtain ⟨hRegistrations, hIndices⟩ := swapPools_kept hA hB hNe
  refine ⟨hRegistrations ▸ h.registrations, fun p hp => h.inPools p (hIndices.subset hp), ?_⟩
  have hSizes : poolSizes (swapPools current idxA idxB a b) poolCount =
      poolSizes current poolCount := by
    refine List.map_congr_left fun i _ => ?_
    rw [length_poolMembers, length_poolMembers, hIndices.count_eq]
  exact hSizes ▸ h.sizes

end Swap

/-! ## The search keeps the sizes and never costs more -/

theorem computePoolSizes_near {fighterCount poolCount s t : ℕ}
    (hs : s ∈ computePoolSizes fighterCount poolCount)
    (ht : t ∈ computePoolSizes fighterCount poolCount) : s ≤ t + 1 := by
  obtain ⟨i, -, rfl⟩ := List.mem_map.mp hs
  obtain ⟨j, -, rfl⟩ := List.mem_map.mp ht
  split_ifs <;> omega

section Law

variable {ι : Type u} [DecidableEq ι] {R : Type v} [NatCast R] [Add R] [Sub R] [Mul R] [Div R]
  [Preorder R] [DecidableLT R]

theorem localSearch_law (fighters : List (Fighter ι R)) (poolCount : ℤ)
    (settings : PoolAssignmentSettings) (iterations : Option ℕ) (seed : ℤ) :
    (poolCount ≤ 0 ∧ snakeSeed fighters poolCount = .error "poolCount must be positive") ∨
      ∃ initial final, snakeSeed fighters poolCount = .ok initial ∧
        final = localSearch initial fighters poolCount settings iterations seed ∧
        ((List.range poolCount.toNat).flatMap (poolMembers final)).Perm
          (fighters.map (·.registrationId)) ∧
        (poolSizes final poolCount.toNat).Perm
          (computePoolSizes fighters.length poolCount.toNat) ∧
        (∀ s ∈ poolSizes final poolCount.toNat, ∀ t ∈ poolSizes final poolCount.toNat,
          s ≤ t + 1) ∧
        ¬computeCost initial fighters poolCount settings <
          computeCost final fighters poolCount settings := by
  rcases lt_or_ge 0 poolCount with hPos | hNone
  · obtain ⟨k, rfl⟩ := Int.eq_ofNat_of_zero_le hPos.le
    obtain ⟨initial, hSnake, hSeeded⟩ := snakeSeed_seeded fighters (Int.natCast_pos.mp hPos)
    have hFinal : Seeded fighters k (localSearch initial fighters k settings iterations seed) :=
      Descent.attempts_invariant (fun _ _ _ hProposed h => h.proposeSwap hProposed) _ hSeeded
    refine .inr ⟨initial, _, hSnake, rfl, ?_, hFinal.sizes, fun s hs t ht => ?_, ?_⟩
    · exact (poolMembers_perm hFinal.inPools).trans hFinal.registrations
    · exact computePoolSizes_near (hFinal.sizes.subset hs) (hFinal.sizes.subset ht)
    · have hCost := Descent.not_cost_lt_attempts
        (fun current => computeCost current fighters k settings) proposeSwap
      exact hCost _ _ initial
  · exact .inl ⟨hNone, snakeSeed_error fighters hNone⟩

end Law

end MyClash.Schedule.Pools
