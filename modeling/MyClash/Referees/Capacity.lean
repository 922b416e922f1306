import MyClash.Referees.EventCommitments

/-!
# Not enough referees at this time

The warning about the whole slate: between two edges of its units, the referee slots needed
against the referees who are free.
-/

namespace MyClash.Referees

open Schedule (IsoClock)

variable {τ : Type*} [DecidableEq τ]

structure RefereeCommitmentPool (τ : Type*) where
  id : String
  tournamentId : String
  scheduledStart : Option τ
  scheduledEnd : Option τ
  roleSlotCount : ℕ
  fighterPersonIds : List String

structure RefereeForCapacity where
  personId : String
  roles : List String
  availability : RefereeAvailability

structure CapacityWarning (τ : Type*) where
  start : τ
  stop : τ
  liceCount : ℕ
  needed : ℕ
  free : ℕ
  deriving DecidableEq

/-- Both ends of a unit that is scheduled. -/
def RefereeCommitmentPool.ends (pool : RefereeCommitmentPool τ) : Option (τ × τ) :=
  pool.scheduledStart.bind fun start => pool.scheduledEnd.map fun stop => (start, stop)

section Sweep

variable (getTime : τ → ℤ) (pools : List (RefereeCommitmentPool τ))

/-- Every end of a scheduled unit once, in time order. -/
def edges : List τ :=
  ((pools.filterMap (·.ends)).flatMap fun ends => [ends.1, ends.2]).eraseDups.mergeSort
    fun a b => getTime a ≤ getTime b

def activeAt (mid : ℤ) : List (RefereeCommitmentPool τ) :=
  pools.filter fun p => p.ends.any fun ends => getTime ends.1 ≤ mid && getTime ends.2 > mid

variable (referees : List RefereeForCapacity) (dateOf : τ → Option String)

/-- The referees who fight in no unit of the stretch and are available for one of them. -/
def freeFor (active : List (RefereeCommitmentPool τ)) (start stop : τ) : List RefereeForCapacity :=
  referees.filter fun ref =>
    !(active.flatMap (·.fighterPersonIds)).contains ref.personId &&
      active.any fun p => isAvailableFor ref.availability p.tournamentId (dateOf start)
        (some ⟨getTime start, getTime stop⟩)

/-- The warning of the stretch from one edge to the next. -/
def stretchWarning (start stop : τ) : Option (CapacityWarning τ) :=
  let active := activeAt getTime pools (getTime start)
  if active.isEmpty then none
  else
    let needed := (active.map (·.roleSlotCount)).sum
    let free := (freeFor getTime referees dateOf active start stop).length
    if needed > free then some ⟨start, stop, active.length, needed, free⟩ else none

def detectConcurrencyShortage : List (CapacityWarning τ) :=
  ((edges getTime pools).zip (edges getTime pools).tail).filterMap fun (start, stop) =>
    stretchWarning getTime pools referees dateOf start stop

end Sweep

/-- The slate the warning sweeps, from the board's units and their fighters. -/
def slatePools {iso : IsoClock τ} (units : List (AssignmentBoardPool iso))
    (personIdByRegistration : String → Option String)
    (roleSlotCountOf : AssignmentBoardPool iso → ℕ) : List (RefereeCommitmentPool τ) :=
  units.map fun unit =>
    { id := unit.id
      tournamentId := unit.tournamentId
      scheduledStart := unit.scheduledStart
      scheduledEnd := unit.scheduledEnd
      roleSlotCount := roleSlotCountOf unit
      fighterPersonIds := fightersOf unit personIdByRegistration }

/-! ## The stretches of a sweep -/

variable {getTime : τ → ℤ} {pools : List (RefereeCommitmentPool τ)}
variable {referees : List RefereeForCapacity} {dateOf : τ → Option String}

theorem mem_edges {e : τ} :
    e ∈ edges getTime pools ↔
      ∃ p ∈ pools, ∃ ends, p.ends = some ends ∧ (e = ends.1 ∨ e = ends.2) := by
  simp only [edges, List.mem_mergeSort, List.mem_eraseDups, List.mem_flatMap, List.mem_filterMap,
    List.mem_cons, List.not_mem_nil, or_false]
  grind

theorem pairwise_edges : (edges getTime pools).Pairwise fun a b => getTime a ≤ getTime b := by
  refine (List.pairwise_mergeSort ?_ ?_ _).imp of_decide_eq_true
  · intro a b c hab hbc
    exact decide_eq_true ((of_decide_eq_true hab).trans (of_decide_eq_true hbc))
  · intro a b
    simpa using le_total (getTime a) (getTime b)

omit [DecidableEq τ] in
/-- In a list in order, nothing lies strictly between two neighbours. -/
theorem neighbour_le {l : List τ} (hSorted : l.Pairwise fun a b => getTime a ≤ getTime b)
    {start stop e : τ} (hNext : (start, stop) ∈ l.zip l.tail) (hMem : e ∈ l)
    (hLater : getTime start < getTime e) : getTime stop ≤ getTime e := by
  induction l with
  | nil => cases hMem
  | cons a l ih =>
    cases l with
    | nil => cases hNext
    | cons b l =>
      rw [List.tail_cons, List.zip_cons_cons, List.mem_cons] at hNext
      rw [List.pairwise_cons] at hSorted
      rcases List.mem_cons.mp hMem with rfl | hMem
      · -- The first is not later than any start.
        have hStart : getTime e ≤ getTime start := by
          rcases hNext with hNext | hNext
          · rw [(Prod.mk.inj hNext).1]
          · exact hSorted.1 start (List.of_mem_zip hNext).1
        exact absurd hLater (not_lt.mpr hStart)
      · rcases hNext with hNext | hNext
        · obtain ⟨-, rfl⟩ := Prod.mk.inj hNext
          rcases List.mem_cons.mp hMem with rfl | hMem
          · exact le_rfl
          · exact (List.pairwise_cons.mp hSorted.2).1 e hMem
        · exact ih hSorted.2 hNext hMem

theorem stretch_of_mem {w : CapacityWarning τ}
    (h : w ∈ detectConcurrencyShortage getTime pools referees dateOf) :
    ∃ start stop, (start, stop) ∈ (edges getTime pools).zip (edges getTime pools).tail ∧
      stretchWarning getTime pools referees dateOf start stop = some w := by
  obtain ⟨⟨start, stop⟩, hNext, hWarning⟩ := List.mem_filterMap.mp h
  exact ⟨start, stop, hNext, hWarning⟩

omit [DecidableEq τ] in
theorem stretchWarning_eq_none {start stop : τ}
    (h : ((activeAt getTime pools (getTime start)).map (·.roleSlotCount)).sum ≤
      (freeFor getTime referees dateOf (activeAt getTime pools (getTime start)) start
        stop).length) :
    stretchWarning getTime pools referees dateOf start stop = none := by
  rw [stretchWarning]
  by_cases hEmpty : (activeAt getTime pools (getTime start)).isEmpty = true
  · exact if_pos hEmpty
  · exact (if_neg hEmpty).trans (if_neg (not_lt.mpr h))

end MyClash.Referees
