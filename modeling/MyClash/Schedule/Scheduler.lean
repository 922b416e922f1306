import MyClash.Library.ListSchedule
import MyClash.Schedule.Branches
import Mathlib.Algebra.Order.Ring.Rat
import Mathlib.Data.Rat.Floor

/-!
# Placing bouts on lices

`scheduleMatches` groups the bouts into units, gives each unit a lice in turn and lays its bouts
there one after the other. Times are milliseconds.
-/

namespace MyClash.Schedule

open StableSort Buckets ListSchedule

universe u v w

/-- How many bouts of a queue run before its one rest break. -/
def boutsBeforeRest (queueLength : ℕ) : ℕ := queueLength / 2

/-- A side nobody is known for yet has no registration. -/
structure SchedulerMatch (ι : Type u) (φ : Type v) where
  id : ι
  redRegistrationId : Option φ
  blueRegistrationId : Option φ
  estimatedDurationMinutes : ℚ
  poolId : Option String
  poolSortOrder : Option ℤ
  matchNumberLabel : Option String
  bracketRound : Option ℕ
  bracketPosition : Option ℕ
  wbRounds : Option ℕ
  lbRounds : Option ℕ

structure SchedulerLice (κ : Type w) where
  id : κ
  name : String
  sortOrder : Option ℤ

inductive PoolAffinity where
  | strict
  | off
  | bracketBranch

structure SchedulerOptions (κ : Type w) where
  midRestMinutes : ℚ
  startTime : Option ℚ
  transitionMinutes : ℚ
  poolAffinity : Option PoolAffinity
  liceBusyUntil : κ → Option ℚ

structure ScheduledMatch (ι : Type u) (κ : Type w) where
  matchId : ι
  liceId : κ
  liceName : String
  scheduledAt : ℚ
  estimatedEndAt : ℚ

structure ScheduleResult (ι : Type u) (κ : Type w) where
  scheduledMatches : List (ScheduledMatch ι κ)
  liceLoad : List (κ × ℕ)
  imbalancePercent : ℤ
  unscheduled : List ι

/-- What the scheduler reads from where it runs: the clock and the collation of texts. -/
structure Host where
  now : ℚ
  localeCompare : String → String → Ordering

/-- A number that may be missing: a missing one counts as infinite. -/
def infinityLast {α : Type*} [Ord α] [Inhabited α] (a b : Option α) : Ordering :=
  (compare a.isNone b.isNone).then (compare (a.getD default) (b.getD default))

structure SchedulerUnit (ι : Type u) (φ : Type v) where
  poolId : Option String
  sortOrder : Option ℤ
  bouts : List (SchedulerMatch ι φ)

section Units

variable {ι : Type u} {φ : Type v}

/-- An empty pool id is no pool. -/
def SchedulerMatch.pool (m : SchedulerMatch ι φ) : Option String := m.poolId.filter (· ≠ "")

def poolUnit (pool : String × List (SchedulerMatch ι φ)) : SchedulerUnit ι φ where
  poolId := some pool.1
  sortOrder :=
    some (((pool.2.find? fun m => m.poolSortOrder.isSome).bind (·.poolSortOrder)).getD 0)
  bouts := pool.2

def singleUnit (sortOrder : Option ℤ) (m : SchedulerMatch ι φ) : SchedulerUnit ι φ :=
  ⟨none, sortOrder, [m]⟩

def unitOrder (host : Host) (a b : SchedulerUnit ι φ) : Ordering :=
  (infinityLast a.sortOrder b.sortOrder).then
    (host.localeCompare (a.poolId.getD "") (b.poolId.getD ""))

def strictUnits (host : Host) (bouts : List (SchedulerMatch ι φ)) : List (SchedulerUnit ι φ) :=
  let unpooled := (bouts.filter fun m => m.pool.isNone).map (singleUnit none)
  let byPool := collect (fun m => m.pool.getD "") (bouts.filter fun m => m.pool.isSome)
  sortWith (unitOrder host) (unpooled ++ byPool.map poolUnit)

def SchedulerMatch.slot (m : SchedulerMatch ι φ) : Option (BracketSlotInput ι) :=
  match m.bracketRound, m.bracketPosition with
  | some round, some position => some ⟨m.id, round, position⟩
  | _, _ => none

/-- The round split of the first bout that carries one. -/
def bracketShape (bouts : List (SchedulerMatch ι φ)) : GroupBracketBranchesOptions :=
  match bouts.find? fun m => m.wbRounds.isSome ∧ m.lbRounds.isSome with
  | some shaped => ⟨shaped.wbRounds, shaped.lbRounds⟩
  | none => ⟨none, none⟩

/-- What converges goes on the last anchor's lice, after that anchor. -/
def appendTail (built : List (SchedulerUnit ι φ)) (tail : List (SchedulerMatch ι φ)) :
    List (SchedulerUnit ι φ) :=
  match built.getLast? with
  | some last => built.dropLast ++ [{ last with bouts := last.bouts ++ tail }]
  | none => [⟨none, some 0, tail⟩]

def toUnit [DecidableEq ι] (bouts : List (SchedulerMatch ι φ)) (ids : List ι) :
    List (SchedulerMatch ι φ) :=
  ids.filterMap fun id => bouts.reverse.find? fun m => m.id = id

def branchUnit [DecidableEq ι] (bouts : List (SchedulerMatch ι φ)) (i : ℕ) (u : BranchUnit ι) :
    SchedulerUnit ι φ :=
  ⟨none, some i, toUnit bouts u.matchIds⟩

def builtUnits [DecidableEq ι] (bouts : List (SchedulerMatch ι φ)) (units : List (BranchUnit ι)) :
    List (SchedulerUnit ι φ) :=
  let built := (anchorUnits units).mapIdx (branchUnit bouts)
  match units.find? fun u => u.kind = .converge with
  | some u => appendTail built (toUnit bouts u.matchIds)
  | none => built

/-- The units of the branches; a bout without a slot goes last. -/
def branchUnits [DecidableEq ι] (bouts : List (SchedulerMatch ι φ)) (liceCount : ℕ) :
    List (SchedulerUnit ι φ) :=
  builtUnits bouts
      (groupBracketBranches (bouts.filterMap (·.slot)) liceCount (bracketShape bouts)).units ++
    (bouts.filter fun m => m.slot.isNone).map (singleUnit none)

def unitsOf [DecidableEq ι] (host : Host) (affinity : PoolAffinity)
    (bouts : List (SchedulerMatch ι φ)) (liceCount : ℕ) : List (SchedulerUnit ι φ) :=
  match affinity with
  | .strict => strictUnits host bouts
  | .bracketBranch => branchUnits bouts liceCount
  | .off => bouts.map (singleUnit (some 0))

/-- The integer a label ends in; a bout without one sinks to the end. -/
def matchNumericOrder (m : SchedulerMatch ι φ) : Option ℕ :=
  let digits := ((m.matchNumberLabel.getD "").toList.reverse.takeWhile Char.isDigit).reverse
  if digits = [] then none else some (Nat.ofDigitChars 10 digits 0)

def labelOrder (a b : SchedulerMatch ι φ) : Ordering :=
  infinityLast (matchNumericOrder a) (matchNumericOrder b)

def orderedMatches (affinity : PoolAffinity) (unit : SchedulerUnit ι φ) :
    List (SchedulerMatch ι φ) :=
  match affinity with
  | .bracketBranch => unit.bouts
  | _ => sortWith labelOrder unit.bouts

/-- Only a pool breaks, and only in the middle of its own queue. -/
def restAfter (unit : SchedulerUnit ι φ) : ℕ :=
  if unit.poolId.isSome then boutsBeforeRest unit.bouts.length else 0

end Units

/-! ## Laying the units -/

section Lay

variable {ι : Type u} {φ : Type v} {κ : Type w}

def ms (minutes : ℚ) : ℚ := minutes * 60000

def SchedulerMatch.duration (m : SchedulerMatch ι φ) : ℚ := ms m.estimatedDurationMinutes

def startTimeOf (host : Host) (options : SchedulerOptions κ) : ℚ :=
  options.startTime.getD host.now

/-- When a lice is first free: what stands on it holds it back. -/
def liceFree (host : Host) (options : SchedulerOptions κ) (id : κ) : ℚ :=
  match options.liceBusyUntil id with
  | some busy => max (startTimeOf host options) busy
  | none => startTimeOf host options

structure Board (ι : Type u) (φ : Type v) (κ : Type w) where
  liceNextFree : κ → ℚ
  fighterNextFree : Option φ → ℚ
  scheduledMatches : List (ScheduledMatch ι κ)

/-- The cursor of one lice while a unit is laid there. -/
structure Laying (ι : Type u) (φ : Type v) (κ : Type w) where
  cursor : ℚ
  placedInUnit : ℕ
  fighterNextFree : Option φ → ℚ
  scheduledMatches : List (ScheduledMatch ι κ)

variable [DecidableEq φ] [DecidableEq κ]

def placeMatch (options : SchedulerOptions κ) (lice : SchedulerLice κ) (restAfter : ℕ)
    (s : Laying ι φ κ) (m : SchedulerMatch ι φ) : Laying ι φ κ :=
  let redFree := s.fighterNextFree m.redRegistrationId
  let blueFree := s.fighterNextFree m.blueRegistrationId
  let start := max (max s.cursor redFree) blueFree
  let finish := start + m.duration
  let placedInUnit := s.placedInUnit + 1
  let cursor := finish + ms options.transitionMinutes
  { cursor := if placedInUnit = restAfter then cursor + ms options.midRestMinutes else cursor
    placedInUnit
    fighterNextFree := Function.update (Function.update s.fighterNextFree m.redRegistrationId finish)
      m.blueRegistrationId finish
    scheduledMatches := s.scheduledMatches ++ [⟨m.id, lice.id, lice.name, start, finish⟩] }

def layUnit (options : SchedulerOptions κ) (affinity : PoolAffinity) (board : Board ι φ κ)
    (entry : SchedulerLice κ × SchedulerUnit ι φ) : Board ι φ κ :=
  let lice := entry.1
  let laid := (orderedMatches affinity entry.2).foldl
    (placeMatch options lice (restAfter entry.2))
    ⟨board.liceNextFree lice.id, 0, board.fighterNextFree, board.scheduledMatches⟩
  { liceNextFree := Function.update board.liceNextFree lice.id laid.cursor
    fighterNextFree := laid.fighterNextFree
    scheduledMatches := laid.scheduledMatches }

def liceByIndex (lices : List (SchedulerLice κ)) : List (SchedulerLice κ) :=
  sortWith (compareOn fun l => l.sortOrder.getD 0) lices

/-- Each unit with its lice: the lices in turn, from the first again after the last. -/
def assignLices (lices : List (SchedulerLice κ)) (units : List (SchedulerUnit ι φ)) :
    List (SchedulerLice κ × SchedulerUnit ι φ) :=
  units.zipIdx.filterMap fun (unit, unitIdx) =>
    ((liceByIndex lices)[unitIdx % lices.length]?).map fun lice => (lice, unit)

def liceLoadOf (lices : List (SchedulerLice κ)) (scheduledMatches : List (ScheduledMatch ι κ)) :
    List (κ × ℕ) :=
  (lices.map (·.id)).dedup.map fun id =>
    (id, scheduledMatches.countP fun sm => sm.liceId = id)

/-- Rounded half up, as `Math.round` does. -/
def imbalanceOf (loads : List ℕ) : ℤ :=
  let maxLoad := loads.foldl max 0
  let minLoad := loads.foldl min maxLoad
  if 0 < maxLoad then ⌊((maxLoad - minLoad : ℚ) / maxLoad) * 100 + 1 / 2⌋ else 0

def scheduleMatches [DecidableEq ι] (host : Host) (bouts : List (SchedulerMatch ι φ))
    (lices : List (SchedulerLice κ)) (options : SchedulerOptions κ) :
    Except String (ScheduleResult ι κ) :=
  if lices.length = 0 then .error "At least one Lice is required"
  else if bouts.length = 0 then .ok ⟨[], [], 0, []⟩
  else
    let affinity := options.poolAffinity.getD .strict
    let units := unitsOf host affinity bouts lices.length
    let board := (assignLices lices units).foldl (layUnit options affinity)
      ⟨liceFree host options, fun _ => startTimeOf host options, []⟩
    let liceLoad := liceLoadOf lices board.scheduledMatches
    .ok ⟨board.scheduledMatches, liceLoad, imbalanceOf (liceLoad.map (·.2)), []⟩

end Lay

end MyClash.Schedule
