import MyClash.Library.StableSort

/-!
# Moving the bars of a day and the bouts under them

What a shift of a programme day does, decided before anything is written. Bars are minutes of the
day on the Event's clock; bouts are instants, read on that clock. A shift that would carry one of
them past midnight is refused whole.
-/

namespace MyClash.Programme

open StableSort (sortWith)

/-! ## The Event's clock -/

/-- Timestamps as text, and the Event's zone: what its clock adds to an instant, which changes
with the season, and how its calendar names a day. -/
structure EventClock (τ : Type*) where
  dateParse : τ → Option ℤ
  toISOString : ℤ → τ
  dateParse_toISOString : ∀ ms, dateParse (toISOString ms) = some ms
  offsetMs : ℤ → ℤ
  dayName : ℤ → String
  localeCompare : τ → τ → Ordering

def pad2 (n : ℤ) : String := (if n < 10 then "0" else "") ++ toString n

/-- The time of a minute that may sit outside the day. -/
def clockOfMin (min : ℤ) : String := pad2 (min % 1440 / 60) ++ ":" ++ pad2 (min % 1440 % 60)

namespace EventClock

variable {τ : Type*} (clock : EventClock τ)

/-- What the Event's clock and calendar show at an instant, counted in milliseconds. -/
def wallMs (ms : ℤ) : ℤ := ms + clock.offsetMs ms

def dayAt (ms : ℤ) : String := clock.dayName (clock.wallMs ms / 86400000)

def minAt (ms : ℤ) : ℤ := clock.wallMs ms % 86400000 / 60000

def hhmmAt (ms : ℤ) : String := clockOfMin (clock.minAt ms)

end EventClock

/-! ## Bars and bouts -/

structure CascadeBlock where
  id : String
  startMin : ℤ
  endMin : ℤ

structure MoveDayBlock extends CascadeBlock where
  label : String

structure MoveCandidateMatch (τ : Type*) where
  id : String
  scheduledAt : Option τ
  status : String
  label : Option String
  deriving DecidableEq

structure PlannedMatchShift (τ : Type*) where
  id : String
  scheduledAt : τ

structure BlockMovePlan (τ : Type*) where
  matchShifts : List (PlannedMatchShift τ)
  blockShifts : List CascadeBlock
  refusal : Option String

structure TimeShift (τ : Type*) where
  /-- How the refusal opens. -/
  action : String
  deltaMin : ℤ
  fromMin : ℤ
  blockDateIso : String
  dayBlocks : List MoveDayBlock
  candidates : List (MoveCandidateMatch τ)

/-- Something the shift would push off the end, or the front, of the day. -/
structure Crossing where
  what : String
  start : String
  stop : String

def DAY_FIRST_MIN : ℤ := 0

/-- 23:59. -/
def DAY_LAST_MIN : ℤ := 23 * 60 + 59

def MOVABLE_STATUS : String := "scheduled"

/-! ## The plan -/

section Plan

variable {τ : Type*} (clock : EventClock τ) (input : TimeShift τ)

def refusedPlan (crossing : Crossing) : BlockMovePlan τ where
  matchShifts := []
  blockShifts := []
  refusal :=
    let signed := if input.deltaMin > 0 then "+" ++ toString input.deltaMin
      else toString input.deltaMin
    some (input.action ++ " by " ++ signed ++ " min would carry " ++ crossing.what ++
      " past midnight (" ++ crossing.start ++ " becomes " ++ crossing.stop ++
      "). Nothing was moved.")

def barCrossing (bar : MoveDayBlock) : Option Crossing :=
  let rawStart := bar.startMin + input.deltaMin
  let rawEnd := rawStart + (bar.endMin - bar.startMin)
  let named := "the bar \"" ++ bar.label ++ "\""
  if rawStart < DAY_FIRST_MIN then some ⟨named, clockOfMin bar.startMin, clockOfMin rawStart⟩
  else if rawEnd > DAY_LAST_MIN then some ⟨named, clockOfMin bar.endMin, clockOfMin rawEnd⟩
  else none

/-- The first bar the shift would push outside the day, in clock order. -/
def firstBarPastMidnight : Option Crossing :=
  if input.deltaMin = 0 then none
  else
    ((sortWith (fun a b => compare a.startMin b.startMin) input.dayBlocks).filter
      (¬·.startMin < input.fromMin)).findSome? (barCrossing input)

/-- The instant of a bout that moves: it waits to be fought, and lies on the day after the cut. -/
def movesAt (candidate : MoveCandidateMatch τ) (scheduledAt : τ) : Option ℤ :=
  if candidate.status ≠ MOVABLE_STATUS then none
  else
    match clock.dateParse scheduledAt with
    | none => none
    | some atMs =>
      if clock.dayAt atMs ≠ input.blockDateIso ∨ clock.minAt atMs < input.fromMin then none
      else some atMs

def shiftedMs (atMs : ℤ) : ℤ := atMs + input.deltaMin * 60000

/-- Goes through the bouts with the shifts so far. -/
@[grind =] def shiftLoop (shifts : List (PlannedMatchShift τ)) :
    List (MoveCandidateMatch τ × τ) → List (PlannedMatchShift τ) × Option Crossing
  | [] => (shifts, none)
  | (candidate, scheduledAt) :: rest =>
    match movesAt clock input candidate scheduledAt with
    | none => shiftLoop shifts rest
    | some atMs =>
      if clock.dayAt (shiftedMs input atMs) ≠ input.blockDateIso then
        ([], some
          { what := match candidate.label with
              | some label => if label ≠ "" then "the fight " ++ label else "a fight"
              | none => "a fight"
            start := clock.hhmmAt atMs
            stop := clock.hhmmAt (shiftedMs input atMs) })
      else
        shiftLoop (shifts ++ [⟨candidate.id, clock.toISOString (shiftedMs input atMs)⟩]) rest

/-- The bouts that have a time, in the order of their timestamps. -/
def timedCandidates : List (MoveCandidateMatch τ × τ) :=
  sortWith (fun a b => clock.localeCompare a.2 b.2)
    (input.candidates.filterMap fun candidate => candidate.scheduledAt.map (candidate, ·))

def planMatchShifts : List (PlannedMatchShift τ) × Option Crossing :=
  shiftLoop clock input [] (timedCandidates clock input)

def shiftBlocksFrom (blocks : List CascadeBlock) (fromMin deltaMin dayStartMin : ℤ) :
    List CascadeBlock :=
  if deltaMin = 0 then []
  else
    (blocks.filter (¬·.startMin < fromMin)).map fun b =>
      let start := max dayStartMin (b.startMin + deltaMin)
      ⟨b.id, start, start + (b.endMin - b.startMin)⟩

def planTimeShift : BlockMovePlan τ :=
  match firstBarPastMidnight input with
  | some crossing => refusedPlan input crossing
  | none =>
    match planMatchShifts clock input with
    | (_, some crossing) => refusedPlan input crossing
    | (shifts, none) =>
      ⟨shifts, shiftBlocksFrom (input.dayBlocks.map (·.toCascadeBlock)) input.fromMin
        input.deltaMin 0, none⟩

end Plan

end MyClash.Programme
