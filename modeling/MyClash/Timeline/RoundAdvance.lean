import MyClash.Library.CutShort
import MyClash.Scoring.RoundColumns
import MyClash.Timeline.Doors

/-!
# The advance of a round, write by write

"Start round N+1" of a best-of bout: the row of the press, the clock at zero, the bout in its new
round, its sheet counted. There is no transaction: each write is one, and a second send reads what
the first one left.
-/

namespace MyClash.Timeline

open Clock MatchFormat Scoring CutShort

universe u v w

/-- A best-of bout with its timeline. The status is `statusInPlay` while it is not completed. -/
structure RoundsBout (τ : Type u) (κ : Type v) (ι : Type w) where
  rows : List (EventRow τ κ)
  series : SeriesBout ι
  statusInPlay : MatchStatus
  locked : Bool
  startedAt : Option τ
  endedAt : Option τ
  durationActiveMs : Option ℤ
  durationTotalMs : Option ℤ
  backInPlayAt : Option ℤ
  eventOver : Bool

/-- The writes: a row of the timeline or its removal, and what is written to the bout's row. -/
inductive AdvanceWrite (τ : Type u) (κ : Type v) where
  | row (type : EventType) (time : τ) (clientUuid : Option κ)
  | takeBackRow (sequence : ℕ)
  | paused
  | reopened
  | ended (time : τ) (activeMs : ℤ)
  | opened (round : ℕ)
  | recount (answers : Answers)

/-- Where the bout stands for a round. -/
inductive Waiting where
  | waits
  | opened
  | moved
  | completed
  deriving DecidableEq

section Bout

variable {τ : Type u} {κ : Type v} {ι : Type w}

def RoundsBout.completed (bout : RoundsBout τ κ ι) : Bool := bout.series.row.completed

def RoundsBout.awaiting (bout : RoundsBout τ κ ι) : Bool := bout.series.row.awaitingRoundAdvance

def RoundsBout.status (bout : RoundsBout τ κ ι) : MatchStatus :=
  if bout.completed then .completed else bout.statusInPlay

def waitingFor (bout : RoundsBout τ κ ι) (round : ℕ) : Waiting :=
  if bout.completed then .completed
  else if bout.awaiting && bout.series.currentRound = round - 1 then .waits
  else if bout.series.currentRound ≥ round then .opened
  else .moved

/-- No hit and no card that is not voided. -/
def nothingOnTheSheet (bout : SeriesBout ι) (round : ℕ) : Bool :=
  (inRound bout.exchanges round).isEmpty && (inRound bout.penalties round).isEmpty

variable (iso : IsoTime τ)

def RoundsBout.clock (bout : RoundsBout τ κ ι) : ServerClock τ := getClockState iso bout.rows

variable [DecidableEq ι] (upperTrimmed : String → String) (rules : SeriesRules ι)

def AdvanceWrite.run (write : AdvanceWrite τ κ) (bout : RoundsBout τ κ ι) : RoundsBout τ κ ι :=
  match write with
  | .row type time clientUuid =>
    { bout with
      rows := bout.rows ++ [⟨type, time, nextSequence bout.rows, none, clientUuid⟩] }
  | .takeBackRow sequence =>
    { bout with rows := bout.rows.filter fun row => row.sequence ≠ sequence }
  | .paused => { bout with statusInPlay := .paused }
  | .reopened =>
    { bout with
      series := bout.series.reopen
      statusInPlay := .paused
      endedAt := none
      locked := false
      durationTotalMs := none }
  | .ended time activeMs =>
    { bout with
      endedAt := some time
      durationActiveMs := some activeMs
      durationTotalMs :=
        (bout.startedAt.map fun started => iso.getTime time - iso.getTime started).or
          bout.durationTotalMs }
  | .opened round =>
    { bout with
      series :=
        { bout.series with
          currentRound := round
          row := { bout.series.row with awaitingRoundAdvance := false } } }
  | .recount answers =>
    { bout with series := bout.series.recomputeBestOfRounds upperTrimmed rules answers }

/-- The clock of a series after its count: ended with it, halted between two rounds. -/
def stopSeriesClock (bout : RoundsBout τ κ ι) (justCompleted : Bool) (nowMs : ℤ) :
    List (AdvanceWrite τ κ) :=
  let clock := (bout.clock iso).fold
  let now := iso.toISOString nowMs
  if justCompleted then
    if clock.status = .running ∨ clock.status = .halted then
      [.row (.clock (.press .endBout)) now none, .ended now (closed iso.getTime clock now)]
    else []
  else if bout.awaiting && clock.status = .running then
    [.row (.clock (.press .halt)) now none, .paused]
  else []

/-- The bout's sheet counted again. -/
def recountWrites (answers : Answers) (nowMs : ℤ) (bout : RoundsBout τ κ ι) :
    Sent (AdvanceWrite τ κ) Refusal :=
  let counted := (AdvanceWrite.recount answers).run iso upperTrimmed rules bout
  .write (.recount answers ::
    stopSeriesClock iso counted (counted.completed && !bout.completed) nowMs)

/-- One step of the clock, asked of a bout that still waits. -/
def clockStepWrites (round : ℕ) (atMs : ℤ) (action : ClockAction) (bout : RoundsBout τ κ ι) :
    Sent (AdvanceWrite τ κ) Refusal :=
  if waitingFor bout round ≠ .waits then .nothing
  else if action = .resetClock ∧ (bout.clock iso).levelResolutionSteps > 0 then
    .refuse .resetAfterLevelStep
  else
    let row := .row (.clock (.press action)) (placedInTimeline iso bout.rows atMs) none
    match action with
    | .halt => .write [row, .paused]
    | .reopen => .write [row, .reopened]
    | _ => .write [row]

/-- The clock at zero: a Halt or a Reopen as needed, then a Reset. -/
def resetClockWrites (round : ℕ) (atMs : ℤ) (bout : RoundsBout τ κ ι) :
    Sent (AdvanceWrite τ κ) Refusal :=
  let stop :=
    match (bout.clock iso).fold.status with
    | .running => clockStepWrites iso round atMs .halt bout
    | .ended => clockStepWrites iso round atMs .reopen bout
    | .idle | .halted => .nothing
  stop.andThen (AdvanceWrite.run iso upperTrimmed rules) bout fun bout =>
    if (bout.clock iso).fold.status = .halted then
      clockStepWrites iso round atMs .resetClock bout
    else .nothing

/-- The clock, then the bout in its new round, then its sheet. A bout that waits no more has the row
of its advance taken back. -/
def openRoundWrites (round : ℕ) (sequence : ℕ) (atMs : ℤ) (answers : Answers) (nowMs : ℤ)
    (bout : RoundsBout τ κ ι) : Sent (AdvanceWrite τ κ) Refusal :=
  match waitingFor bout round with
  | .opened => .nothing
  | .moved => ⟨[.takeBackRow sequence], some .roundNotWaiting⟩
  | .completed => ⟨[.takeBackRow sequence], some .boutCompleted⟩
  | .waits =>
    (resetClockWrites iso upperTrimmed rules round atMs bout).andThen
      (AdvanceWrite.run iso upperTrimmed rules) bout fun bout =>
        (Sent.write [.opened round]).andThen (AdvanceWrite.run iso upperTrimmed rules) bout
          (recountWrites iso upperTrimmed rules answers nowMs)

/-- A "Start round N+1" sent late. -/
def advanceLateWrites [DecidableEq κ] (press : LatePress κ) (round : ℕ) (answers : Answers)
    (nowMs : ℤ) (bout : RoundsBout τ κ ι) : Sent (AdvanceWrite τ κ) Refusal :=
  match decide (round < 2), savedRoundPress bout.rows press.clientUuid .roundAdvance with
  | true, _ => .refuse .noPressOpensRound
  | false, .error refusal => .refuse refusal
  | false, .ok saved =>
    let current := bout.series.currentRound
    let waits := bout.awaiting && current = round - 1 && !bout.completed
    let pressedMs := pressedAtServer press nowMs
    if saved.isSome && (!waits || bout.eventOver) then
      if !bout.eventOver && !bout.completed && current = round &&
          nothingOnTheSheet bout.series round then
        recountWrites iso upperTrimmed rules answers nowMs bout
      else .nothing
    else if saved.isNone && bout.eventOver then .refuse .eventResultsFrozen
    else if saved.isNone && current ≥ round then .nothing
    else
      match firstRefusal
        [(saved.isNone && bout.completed, .boutCompleted),
          (saved.isNone && tooOld pressedMs nowMs, .pressTooOld),
          (saved.isNone && bout.backInPlayAt.any (pressedMs ≤ ·), .pressedBeforeReopen),
          (scoredBeforeLastReset iso bout.rows pressedMs, .scoredBeforeReset),
          (saved.isNone && !waits, .roundNotWaiting)] with
      | some refusal => .refuse refusal
      | none =>
        let time := placedInTimeline iso bout.rows pressedMs
        let row := if saved.isSome then [] else [.row .roundAdvance time (some press.clientUuid)]
        (Sent.write row).andThen (AdvanceWrite.run iso upperTrimmed rules) bout
          (openRoundWrites iso upperTrimmed rules round (saved.getD (nextSequence bout.rows))
            (iso.getTime time) answers nowMs)

end Bout

end MyClash.Timeline
