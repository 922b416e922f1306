import MyClash.Library.StableSort
import MyClash.Referees.Checker
import Mathlib.Algebra.Order.Ring.Rat

/-!
# Assigning referees

The engine walks the slots of the units in order. It leaves a slot a human filled, and puts each
candidate for an open one to the checker, with the proposals of the run so far as duties.
-/

namespace MyClash.Referees

open StableSort

structure SlotDefinition where
  index : ℤ
  displayName : Option String
  allowedSkillIds : List String

def LEGACY_DEFAULT_SLOTS : List SlotDefinition :=
  [⟨1, none, ["arbitre_declarant"]⟩, ⟨2, none, ["arbitre_assesseur"]⟩,
    ⟨3, none, ["arbitre_table"]⟩]

structure Qualification where
  role : String
  rating : Option ℚ

structure RefereeCandidate where
  personId : String
  personName : String
  qualifications : List Qualification

/-- One board unit to staff: a Pool, a Swiss round on one piste, or a bracket bout. -/
structure PoolSlot where
  poolId : String
  poolName : String
  target : UnitTarget
  label : String
  slotDefinitions : Option (List SlotDefinition)
  isFinals : Bool

structure AssignmentSettings where
  ratingBasedOrdering : Bool
  workloadBalance : Bool

structure EngineRules where
  commitmentsByPerson : String → Option (List RefereeCommitment)
  availabilityOf : String → RefereeAvailability
  switches : RefereeSwitches

structure RefereeAssignment where
  poolId : String
  poolName : String
  slotIndex : ℤ
  role : String
  personId : String
  personName : String
  isFinals : Bool

inductive EmptySlotReason where
  | noQualifiedUsers
  | allQualifiedAlreadySeated
  | refused (code : RefereeReasonCode)

structure MissingAssignment where
  poolId : String
  poolName : String
  slotIndex : ℤ
  role : Option String
  rejectionReasons : List EmptySlotReason
  isFinals : Bool

structure AssignmentResult where
  assignments : List RefereeAssignment
  missing : List MissingAssignment

structure PriorAssignment where
  poolId : String
  role : String
  personId : String

/-! ## The run so far -/

/-- A `Map` of the source read with a default is the function of its keys. -/
structure RunState where
  proposals : String → List RefereeCommitment
  seated : String → List String
  workload : String → ℕ

def RunState.empty : RunState := ⟨fun _ => [], fun _ => [], fun _ => 0⟩

def seatKey (personId role : String) : String := personId ++ "|" ++ role

def seat (state : RunState) (poolId personId role : String) : RunState :=
  { state with
    seated := Function.update state.seated poolId (seatKey personId role :: state.seated poolId)
    workload := Function.update state.workload personId (state.workload personId + 1) }

def proposedDuty (pool : PoolSlot) (assignment : RefereeAssignment) : RefereeCommitment :=
  .referee
    { personId := assignment.personId
      window := pool.target.window
      label := pool.label
      unitId := pool.target.unitId
      poolId := pool.target.poolId
      matchId := none
      role := assignment.role
      matchIds := pool.target.matchIds
      slot := pool.target.slot
      day := pool.target.day }

/-- A proposal is a duty from now on: the next candidate is judged against it. -/
def propose (state : RunState) (pool : PoolSlot) (assignment : RefereeAssignment) : RunState :=
  let seatedState := seat state pool.poolId assignment.personId assignment.role
  { seatedState with
    proposals := Function.update seatedState.proposals assignment.personId
      (seatedState.proposals assignment.personId ++ [proposedDuty pool assignment]) }

/-! ## One slot -/

/-- The first of the best rated among the qualifications the slot allows. -/
def bestMatchingQual (candidate : RefereeCandidate) (slot : SlotDefinition) :
    Option Qualification :=
  (candidate.qualifications.filter (slot.allowedSkillIds.contains ·.role)).foldl
    (fun best q =>
      match best with
      | none => some q
      | some b => if q.rating.getD (-1) > b.rating.getD (-1) then some q else some b) none

def fightsIn (commitments : List RefereeCommitment) (target : UnitTarget) : Bool :=
  commitments.any fun c =>
    match c with
    | .fightPool p => some p.groupId = target.groupId
    | _ => false

structure Contender where
  candidate : RefereeCandidate
  matchedQual : Qualification

section Slot

variable (settings : AssignmentSettings) (rules : EngineRules)

def EngineRules.commitmentsOf (personId : String) : List RefereeCommitment :=
  (rules.commitmentsByPerson personId).getD []

def refusals (personId role : String) (pool : PoolSlot) (state : RunState) :
    List RefereeReasonCode :=
  if fightsIn (rules.commitmentsOf personId) pool.target then [.ownPool]
  else
    let verdict := checkReferee personId { pool.target with role := role }
      (rules.commitmentsOf personId ++ state.proposals personId)
      (rules.availabilityOf personId) rules.switches
    if verdict.level = .fine then [] else verdict.reasons.map (·.code)

def Contender.refusals (pool : PoolSlot) (state : RunState) (c : Contender) :
    List RefereeReasonCode :=
  Referees.refusals rules c.candidate.personId c.matchedQual.role pool state

def Contender.score (state : RunState) (c : Contender) : ℚ :=
  (if settings.ratingBasedOrdering then -(c.matchedQual.rating.getD 0) * 10 else 0) +
    if settings.workloadBalance then (state.workload c.candidate.personId : ℚ) * 5 else 0

def qualifiedFor (candidates : List RefereeCandidate) (slot : SlotDefinition) : List Contender :=
  candidates.filterMap fun candidate => (bestMatchingQual candidate slot).map (⟨candidate, ·⟩)

def Contender.assigned (pool : PoolSlot) (slot : SlotDefinition) (c : Contender) :
    RefereeAssignment where
  poolId := pool.poolId
  poolName := pool.poolName
  slotIndex := slot.index
  role := c.matchedQual.role
  personId := c.candidate.personId
  personName := c.candidate.personName
  isFinals := pool.isFinals

/-- The lower score is the better one. -/
def assignSlot (candidates : List RefereeCandidate) (pool : PoolSlot) (slot : SlotDefinition)
    (state : RunState) : Except (List EmptySlotReason) RefereeAssignment :=
  let qualified := qualifiedFor candidates slot
  if qualified.isEmpty then .error [.noQualifiedUsers]
  else
    let free := qualified.filter fun c =>
      !(state.seated pool.poolId).contains (seatKey c.candidate.personId c.matchedQual.role)
    if free.isEmpty then .error [.allQualifiedAlreadySeated]
    else
      let fine := free.filter fun c => (c.refusals rules pool state).isEmpty
      let refused := free.flatMap (·.refusals rules pool state)
      let byScore (a b : Contender) := compare (a.score settings state) (b.score settings state)
      match sortWith byScore fine with
      | [] => .error ((REFEREE_REASON_CODES.filter refused.contains).map .refused)
      | best :: _ => .ok (best.assigned pool slot)

/-! ## The run -/

/-- `remaining`: the roles of each unit's priors that no slot has consumed yet. -/
structure Progress where
  assignments : List RefereeAssignment
  missing : List MissingAssignment
  state : RunState
  remaining : String → List String

def missingAssignment (pool : PoolSlot) (slot : SlotDefinition) (reasons : List EmptySlotReason) :
    MissingAssignment where
  poolId := pool.poolId
  poolName := pool.poolName
  slotIndex := slot.index
  role := slot.allowedSkillIds.head?
  rejectionReasons := reasons
  isFinals := pool.isFinals

/-- A slot a human filled is left as it is, neither proposed nor missing. -/
def visitSlot (candidates : List RefereeCandidate) (pool : PoolSlot) (p : Progress)
    (slot : SlotDefinition) : Progress :=
  let priorRoles := p.remaining pool.poolId
  match priorRoles.findIdx? slot.allowedSkillIds.contains with
  | some idx =>
    { p with remaining := Function.update p.remaining pool.poolId (priorRoles.eraseIdx idx) }
  | none =>
    match assignSlot settings rules candidates pool slot p.state with
    | .ok assigned =>
      { p with
        assignments := p.assignments ++ [assigned]
        state := propose p.state pool assigned }
    | .error reasons => { p with missing := p.missing ++ [missingAssignment pool slot reasons] }

def PoolSlot.slots (pool : PoolSlot) : List SlotDefinition :=
  pool.slotDefinitions.getD LEGACY_DEFAULT_SLOTS

def visitPool (candidates : List RefereeCandidate) (p : Progress) (pool : PoolSlot) : Progress :=
  pool.slots.foldl (visitSlot settings rules candidates pool) p

def startOf (priors : List PriorAssignment) : Progress where
  assignments := []
  missing := []
  state :=
    priors.foldl (fun state prior => seat state prior.poolId prior.personId prior.role) .empty
  remaining := fun poolId => (priors.filter (·.poolId = poolId)).map (·.role)

def runOf (pools : List PoolSlot) (candidates : List RefereeCandidate)
    (priors : List PriorAssignment) : Progress :=
  pools.foldl (visitPool settings rules candidates) (startOf priors)

def assignReferees (pools : List PoolSlot) (candidates : List RefereeCandidate)
    (priors : List PriorAssignment) : AssignmentResult where
  assignments := (runOf settings rules pools candidates priors).assignments
  missing := (runOf settings rules pools candidates priors).missing

end Slot

end MyClash.Referees
