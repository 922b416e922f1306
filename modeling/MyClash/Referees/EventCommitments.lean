import MyClash.Schedule.MatchWindow

/-!
# What everyone does in an Event

The units of the referee board: the commitments their bouts make, the target a unit is to whoever
would referee it, and the slate the capacity warning sweeps.
-/

namespace MyClash.Referees

open Schedule (IsoClock hullMs matchWindowMs)

variable {τ : Type*}

structure BoardUnitMatch (τ : Type*) where
  id : String
  scheduledAt : Option τ
  durationMinutes : ℕ+
  redRegistrationId : Option String
  blueRegistrationId : Option String

inductive UnitKind where
  | pool
  | swiss
  | bracket
  | finals
  deriving DecidableEq

/-- A unit as a loader builds it, without its two ends. -/
structure DraftBoardUnit (τ : Type*) where
  id : String
  name : String
  tournamentId : String
  tournamentName : String
  /-- A unit without a kind is a Pool. -/
  kind : Option UnitKind
  swissRoundId : Option String
  /-- The people of its roster. -/
  members : List String
  bouts : List (BoardUnitMatch τ)

/-- One bout's planned window, or none when it has no time. -/
def boutWindowMs (iso : IsoClock τ) (bout : BoardUnitMatch τ) : Option TimeWindowMs :=
  bout.scheduledAt.map fun time => matchWindowMs (iso.getTime time) bout.durationMinutes

/-- The hull of a unit's placed bouts, or none when none is placed. -/
def unitWindowMs (iso : IsoClock τ) (bouts : List (BoardUnitMatch τ)) : Option TimeWindowMs :=
  hullMs (bouts.filterMap (boutWindowMs iso))

/-- A unit starts and ends with the hull of its bouts. -/
structure AssignmentBoardPool (iso : IsoClock τ) extends DraftBoardUnit τ where
  scheduledStart : Option τ
  scheduledEnd : Option τ
  start_eq : scheduledStart = (unitWindowMs iso bouts).map (iso.toISOString ·.startMs)
  end_eq : scheduledEnd = (unitWindowMs iso bouts).map (iso.toISOString ·.endMs)

def finishBoardUnits (iso : IsoClock τ) (units : List (DraftBoardUnit τ)) :
    List (AssignmentBoardPool iso) :=
  units.map fun unit => ⟨unit, _, _, rfl, rfl⟩

/-- Where a unit sits in the Event's days: its date on the Event's clock, and its day slot. -/
structure BoardClock where
  dateAt : ℤ → String
  slotOf : String → Option ℤ

def BoardClock.dayOf (clock : BoardClock) (iso : IsoClock τ) (time : τ) : Option String :=
  some (clock.dateAt (iso.getTime time))

section Units

variable {iso : IsoClock τ} (unit : AssignmentBoardPool iso)
variable (personIdByRegistration : String → Option String)

def unitLabel : String :=
  if unit.tournamentName ≠ "" then unit.tournamentName ++ " · " ++ unit.name else unit.name

/-- The group whose fighters make a unit "their own": the Pool, or the Swiss round. -/
def groupIdOf : Option String :=
  match unit.kind.getD .pool with
  | .pool => some unit.id
  | .swiss => (unit.swissRoundId.filter (· ≠ "")).map ("swiss:" ++ ·)
  | .bracket | .finals => none

def poolIdOf : Option String := if unit.kind.getD .pool = .pool then some unit.id else none

/-- The people of a bout's two corners. -/
def cornersOf (bout : BoardUnitMatch τ) : List String :=
  [bout.redRegistrationId, bout.blueRegistrationId].filterMap fun reg =>
    ((reg.filter (· ≠ "")).bind personIdByRegistration).filter (· ≠ "")

/-- Everyone who fights in a unit: its roster and its bouts' two fighters. -/
def fightersOf : List String :=
  (unit.members.filter (· ≠ "") ++
    unit.bouts.flatMap (cornersOf personIdByRegistration)).eraseDups

variable (units : List (AssignmentBoardPool iso))

def fightCommitments : List RefereeCommitment :=
  units.flatMap fun unit =>
    unit.bouts.flatMap fun bout =>
      (cornersOf personIdByRegistration bout).map fun personId =>
        .fight ⟨personId, boutWindowMs iso bout, unitLabel unit, bout.id, groupIdOf unit⟩

/-- One commitment per person per group, over the hull of every unit of the group. -/
def groupCommitments : List RefereeCommitment :=
  (units.filterMap groupIdOf).eraseDups.flatMap fun groupId =>
    let group := units.filter (groupIdOf · = some groupId)
    let window := unitWindowMs iso (group.flatMap (·.bouts))
    (group.flatMap (fightersOf · personIdByRegistration)).eraseDups.map fun personId =>
      .fightPool ⟨personId, window, (group.head?.map unitLabel).getD "", groupId⟩

/-- A unit as the picker and Assign would fill it, in one role. -/
def unitTarget (role : String) (clock : BoardClock) : RefereeTarget where
  scope := if unit.kind.getD .pool = .pool then .pool else .bout
  unitId := unit.id
  poolId := poolIdOf unit
  groupId := groupIdOf unit
  matchIds := unit.bouts.map (·.id)
  window := unitWindowMs iso unit.bouts
  tournamentId := unit.tournamentId
  day := unit.scheduledStart.bind (clock.dayOf iso)
  slot := clock.slotOf unit.id
  role := role

end Units

end MyClash.Referees
