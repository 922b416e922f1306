import MyClash.MatchStatus
import MyClash.Scoring.Series
import MyClash.Timeline.Rows

/-!
# The doors of a late press

What the server does with a clock press, a round press or a step of a level bout that a tablet
kept in its queue: it answers what it holds or what is already so, refuses, or writes its rows.
-/

namespace MyClash.Timeline

open Clock StableSort MatchFormat Scoring

universe u v

/-- What the doors read of the rules a bout is fought under: its phase's time limit and chain. -/
structure BoutRules where
  bestOf : ℕ
  limitSeconds : Option ℕ
  levelAtTime : List LevelStep

def pendingLevelStep (rules : BoutRules) (stepsTaken : ℕ) : Option LevelStep :=
  rules.levelAtTime[stepsTaken]?

def BoutRules.limitMs (rules : BoutRules) : Option ℤ :=
  rules.limitSeconds.map fun seconds : ℕ => (seconds : ℤ) * 1000

def timeIsFinished (rules : BoutRules) (elapsedMs : ℤ) : Bool :=
  match rules.limitMs with
  | none => true
  | some limit => elapsedMs ≥ limit

structure ServerBout (τ : Type u) (ι : Type v) where
  rows : List (EventRow τ ι)
  status : MatchStatus
  locked : Bool
  currentRound : Option ℕ
  awaitingRoundAdvance : Bool
  closedRounds : List ClosedRound
  redScore : ℚ
  blueScore : ℚ
  backInPlayAt : Option ℤ
  eventOver : Bool
  deriving DecidableEq

/-- What the hits and cards of one round count to: its score, whether they end a single fight, and
whether the round ends by itself. -/
structure Sheet where
  redScore : ℚ
  blueScore : ℚ
  endsBout : Bool
  roundEnds : Option (Option Color × Option ClosingReason)
  isEmpty : Bool

/-- The sheet of each round. No clock press, round press or level step changes one, and an empty
one ends nothing. -/
structure Sheets where
  ofRound : ℕ → Sheet
  isEmpty : Bool
  ofRound_empty : isEmpty = true → ∀ round, (ofRound round).isEmpty = true
  endsBout_of_empty : ∀ round, (ofRound round).isEmpty = true → (ofRound round).endsBout = false
  roundEnds_of_empty : ∀ round, (ofRound round).isEmpty = true → (ofRound round).roundEnds = none

/-- The tablet's two times are its own; only their difference is read. -/
structure LatePress (ι : Type v) where
  clientUuid : ι
  pressedMs : ℤ
  sentMs : ℤ

def pressedAtServer {ι : Type v} (press : LatePress ι) (nowMs : ℤ) : ℤ :=
  nowMs - max 0 (press.sentMs - press.pressedMs)

inductive Refusal where
  | eventResultsFrozen
  | boutCompleted
  | pressTooOld
  | scoredBeforeReset
  | pressedBeforeReopen
  | matchLocked
  | pressOutOfOrder
  | roundAwaitsAdvance
  | resetAfterLevelStep
  | endRefused
  | anotherPress
  | noPressOpensRound
  | roundNotWaiting
  | roundNotOpen
  | notBestOf
  | roundAlreadyEnded
  | boutNotLevel
  | levelStepNotPending
  deriving DecidableEq

/-- The first rule broken, in the order the door asks them. -/
def firstRefusal (rules : List (Bool × Refusal)) : Option Refusal :=
  (rules.find? (·.1)).map (·.2)

def OLDEST_PRESS_MS : ℤ := 24 * 60 * 60 * 1000

section Bout

variable {τ : Type u} {ι : Type v}

def ServerBout.round (bout : ServerBout τ ι) : ℕ := bout.currentRound.getD 1

def ServerBout.completed (bout : ServerBout τ ι) : Bool := bout.status = .completed

def ServerBout.write (bout : ServerBout τ ι) (type : EventType) (time : τ)
    (adjustmentMs : Option ℤ) (clientUuid : Option ι) : ServerBout τ ι :=
  { bout with
    rows := bout.rows ++ [⟨type, time, nextSequence bout.rows, adjustmentMs, clientUuid⟩] }

variable (iso : IsoTime τ)

def ServerBout.clock (bout : ServerBout τ ι) : ServerClock τ := getClockState iso bout.rows

/-- The time the clock had run at `time`, the interval that still runs included. -/
def elapsedAt (clock : ClockFold τ) (time : τ) : ℤ :=
  match clock.status, clock.runningFrom with
  | .running, some since => clock.activeMs + max 0 (iso.getTime time - iso.getTime since)
  | _, _ => clock.activeMs

def lastResetAt (rows : List (EventRow τ ι)) : Option τ :=
  ((sortWith (fun a b : EventRow τ ι => compare a.sequence b.sequence)
    (rows.filter (·.type = .clock .resetMatch))).getLast?).map (·.occurredAt)

def scoredBeforeLastReset (rows : List (EventRow τ ι)) (ms : ℤ) : Bool :=
  (lastResetAt rows).any fun resetAt => ms ≤ iso.getTime resetAt

def tooOld (pressedMs nowMs : ℤ) : Bool := nowMs - pressedMs > OLDEST_PRESS_MS

def beforeBackInPlay (bout : ServerBout τ ι) (pressedMs : ℤ) : Bool :=
  bout.backInPlayAt.any fun mark => pressedMs ≤ mark

/-! ## What the server writes by itself -/

def statusAfter (status : MatchStatus) : ClockAction → MatchStatus
  | .start | .resume => .running
  | .halt | .reopen => .paused
  | .endBout => .completed
  | .resetClock => status

/-- Write one clock row, and what it does to the bout. -/
def record (bout : ServerBout τ ι) (action : ClockAction) (time : τ) (clientUuid : Option ι) :
    ServerBout τ ι :=
  { bout.write (.clock (.press action)) time none clientUuid with
    status := statusAfter bout.status action }

/-- The server's own Halt, End, Reopen or Reset of the clock, at the time of what caused it or
now. -/
def clockAction (bout : ServerBout τ ι) (action : ClockAction) (causedMs : Option ℤ)
    (nowMs : ℤ) : Except Refusal (ServerBout τ ι) :=
  let clock := bout.clock iso
  match firstRefusal
    [(bout.completed && action ≠ .endBout, .boutCompleted),
      (!(CLOCK_ACTIONS_FROM clock.fold.status).contains action, .pressOutOfOrder),
      ((action = .start || action = .resume) && bout.awaitingRoundAdvance, .roundAwaitsAdvance),
      (action = .resetClock && clock.levelResolutionSteps > 0, .resetAfterLevelStep)] with
  | some refusal => .error refusal
  | none =>
    let time :=
      match causedMs with
      | some ms => placedInTimeline iso bout.rows ms
      | none => iso.toISOString nowMs
    .ok (record bout action time none)

def bestEffort (bout : ServerBout τ ι) (step : Except Refusal (ServerBout τ ι)) :
    ServerBout τ ι :=
  match step with
  | .ok written => written
  | .error _ => bout

def haltClockBestEffort (bout : ServerBout τ ι) (causedMs : Option ℤ) (nowMs : ℤ) :
    ServerBout τ ι :=
  if (bout.clock iso).fold.status = .running then
    bestEffort bout (clockAction iso bout .halt causedMs nowMs)
  else bout

def endClockBestEffort (bout : ServerBout τ ι) (causedMs : Option ℤ) (nowMs : ℤ) :
    ServerBout τ ι :=
  if (bout.clock iso).fold.status = .running || (bout.clock iso).fold.status = .halted then
    bestEffort bout (clockAction iso bout .endBout causedMs nowMs)
  else bout

variable (rules : BoutRules) (sheets : Sheets)

/-- One more closed round: the series is done, or the bout waits for its next round. -/
def buildRoundClosure (bout : ServerBout τ ι) (closing : ClosedRound) : ServerBout τ ι :=
  let closed := bout.closedRounds ++ [closing]
  if (seriesResult closed rules.bestOf).isOver then
    { bout with closedRounds := closed, awaitingRoundAdvance := false, status := .completed }
  else { bout with closedRounds := closed, awaitingRoundAdvance := true }

/-- Close the open round and stop the clock: an End for the series it ends, else a Halt. -/
def closeRound (bout : ServerBout τ ι) (closing : ClosedRound) (causedMs : Option ℤ)
    (nowMs : ℤ) : ServerBout τ ι :=
  let closed := buildRoundClosure rules bout closing
  if closed.awaitingRoundAdvance then haltClockBestEffort iso closed causedMs nowMs
  else if bout.completed then closed
  else endClockBestEffort iso closed causedMs nowMs

/-- The open round is closed, and the series and the bout are not over. -/
def betweenRounds (bout : ServerBout τ ι) : Bool :=
  bout.closedRounds.any (·.round = bout.round) &&
    !(seriesResult bout.closedRounds rules.bestOf).isOver && !bout.completed

/-- Count the open round's sheet again. -/
def recomputeBestOfRounds (bout : ServerBout τ ι) (causedMs : Option ℤ) (nowMs : ℤ) :
    ServerBout τ ι :=
  let sheet := sheets.ofRound bout.round
  let counted := { bout with redScore := sheet.redScore, blueScore := sheet.blueScore }
  match bout.closedRounds.any (·.round = bout.round), sheet.roundEnds with
  | false, some (winnerColor, endReason) =>
    closeRound iso rules counted
      ⟨bout.round, sheet.redScore, sheet.blueScore, winnerColor, endReason⟩ causedMs nowMs
  | _, _ =>
    let judged := { counted with awaitingRoundAdvance := betweenRounds rules bout }
    if betweenRounds rules bout then haltClockBestEffort iso judged causedMs nowMs else judged

def recomputeMatchScore (bout : ServerBout τ ι) (causedMs : Option ℤ) (nowMs : ℤ) :
    ServerBout τ ι :=
  if rules.bestOf > 1 then recomputeBestOfRounds iso rules sheets bout causedMs nowMs
  else
    let sheet := sheets.ofRound bout.round
    let counted := { bout with redScore := sheet.redScore, blueScore := sheet.blueScore }
    if sheet.endsBout && !bout.completed then
      endClockBestEffort iso { counted with status := .completed } causedMs nowMs
    else counted

/-- Is nobody ahead on the board? Asked of a bout that is not completed: it has no winner. -/
def isLevelBout (bout : ServerBout τ ι) : Bool :=
  (leadingColor bout.redScore bout.blueScore).isNone

/-! ## A clock press -/

section Press

variable (mayPassLock : Bool)

def pressIsSaved [DecidableEq ι] (rows : List (EventRow τ ι)) (clientUuid : ι) : Bool :=
  rows.any (·.clientUuid = some clientUuid)

/-- Does an End leave a single fight undecided? -/
def endRefused (bout : ServerBout τ ι) (elapsedMs : ℤ) : Bool :=
  rules.bestOf ≤ 1 && !bout.completed && isLevelBout bout &&
    (!timeIsFinished rules elapsedMs ||
      pendingLevelStep rules (bout.clock iso).levelResolutionSteps ≠ some .draw)

/-- A saved press that still speaks for its bout: the bout's write it missed is finished. No clock
row is written. -/
def finishSavedPress [DecidableEq ι] (bout : ServerBout τ ι) (action : ClockPress)
    (press : LatePress ι) : ServerBout τ ι :=
  match lastTimelineRow iso bout.rows with
  | none => bout
  | some last =>
    let speaks := last.clientUuid = some press.clientUuid ∧ bout.status ≠ .voided ∧
      bout.eventOver = false ∧ ∀ mark ∈ bout.backInPlayAt, mark < iso.getTime last.occurredAt
    let refused := action = .endBout ∧
      endRefused iso rules bout (elapsedAt iso (bout.clock iso).fold last.occurredAt)
    if ¬speaks ∨ bout.completed ∨ refused then bout
    else { bout with status := statusAfter bout.status action.action }

def placeLatePress (bout : ServerBout τ ι) (action : ClockPress) (pressedMs nowMs : ℤ) :
    Option Refusal :=
  let status := (bout.clock iso).fold.status
  firstRefusal
    [(bout.completed && action ≠ .endBout, .boutCompleted),
      (tooOld pressedMs nowMs, .pressTooOld),
      (scoredBeforeLastReset iso bout.rows pressedMs, .scoredBeforeReset),
      (beforeBackInPlay bout pressedMs, .pressedBeforeReopen),
      (bout.locked && !mayPassLock, .matchLocked),
      (!(CLOCK_ACTIONS_FROM status).contains action.action, .pressOutOfOrder),
      ((action = .start || action = .resume) && bout.awaitingRoundAdvance, .roundAwaitsAdvance)]

/-- An End on a single fight whose board reads level asks the sheet first. -/
def sheetEnds (bout : ServerBout τ ι) : Bool :=
  !bout.completed && isLevelBout bout && rules.bestOf ≤ 1 && (sheets.ofRound bout.round).endsBout

def takePress [DecidableEq ι] (bout : ServerBout τ ι) (action : ClockPress) (press : LatePress ι)
    (nowMs : ℤ) : Except Refusal (ServerBout τ ι) :=
  if pressIsSaved bout.rows press.clientUuid then
    .ok (finishSavedPress iso rules bout action press)
  else if bout.eventOver then .error .eventResultsFrozen
  else if pressAlreadyTrue action (bout.clock iso).fold.status then .ok bout
  else
    let pressedMs := pressedAtServer press nowMs
    match placeLatePress iso mayPassLock bout action pressedMs nowMs with
    | some refusal => .error refusal
    | none =>
      let time := placedInTimeline iso bout.rows pressedMs
      if action = .endBout ∧ sheetEnds rules sheets bout then
        .ok (recomputeMatchScore iso rules sheets bout (some (iso.getTime time)) nowMs)
      else if action = .endBout ∧
          endRefused iso rules bout (elapsedAt iso (bout.clock iso).fold time) then
        .error .endRefused
      else .ok (record bout action.action time (some press.clientUuid))

/-- A bout in play at 0 - 0 with nothing on its sheet has its score counted at its Start. -/
def countAtStart (bout : ServerBout τ ι) (nowMs : ℤ) : ServerBout τ ι :=
  if (bout.status = .running ∨ bout.status = .paused) ∧ bout.redScore = 0 ∧ bout.blueScore = 0 ∧
      bout.eventOver = false ∧ sheets.isEmpty = true then
    recomputeMatchScore iso rules sheets bout none nowMs
  else bout

def latePress [DecidableEq ι] (bout : ServerBout τ ι) (action : ClockPress) (press : LatePress ι)
    (nowMs : ℤ) : Except Refusal (ServerBout τ ι) := do
  let taken ← takePress iso rules sheets mayPassLock bout action press nowMs
  .ok (if action = .start then countAtStart iso rules sheets taken nowMs else taken)

end Press

/-! ## The two round presses -/

section Round

variable [DecidableEq ι]

/-- The row the server holds for this press; an id of another kind of press is a bad request. -/
def savedRoundPress (rows : List (EventRow τ ι)) (clientUuid : ι) (type : EventType) :
    Except Refusal (Option ℕ) :=
  match rows.find? (·.clientUuid = some clientUuid) with
  | none => .ok none
  | some row => if row.type = type then .ok (some row.sequence) else .error .anotherPress

/-- What the rules of a late "End round" say before its round is judged. -/
inductive RoundEndAnswer where
  | done
  | refused (refusal : Refusal)
  | close (isSaved : Bool)
  deriving DecidableEq

def placeLateRoundEnd (bout : ServerBout τ ι) (round : ℕ) (saved : Option ℕ)
    (pressedMs nowMs : ℤ) : RoundEndAnswer :=
  let snapshot := bout.closedRounds.any (·.round = round)
  let isOpen := bout.round = round && !snapshot && !bout.completed
  match saved with
  | some sequence =>
    if !isOpen || bout.eventOver || nextSequence bout.rows ≠ sequence + 1 then .done
    else .close true
  | none =>
    if bout.eventOver then .refused .eventResultsFrozen
    else if snapshot then .done
    else
      match firstRefusal
        [(bout.completed, .boutCompleted),
          (tooOld pressedMs nowMs, .pressTooOld),
          (scoredBeforeLastReset iso bout.rows pressedMs, .scoredBeforeReset),
          (beforeBackInPlay bout pressedMs, .pressedBeforeReopen),
          (!isOpen, .roundNotOpen)] with
      | some refusal => .refused refusal
      | none => .close false

/-- The round an "End round" closes, on time, for whoever leads. -/
def roundEndedOnTime (bout : ServerBout τ ι) : ClosedRound :=
  let sheet := sheets.ofRound bout.round
  ⟨bout.round, sheet.redScore, sheet.blueScore, leadingColor sheet.redScore sheet.blueScore,
    some .timeLimit⟩

def endRound (bout : ServerBout τ ι) (press : LatePress ι) (round : ℕ) (nowMs : ℤ) :
    Except Refusal (ServerBout τ ι) :=
  let pressedMs := pressedAtServer press nowMs
  match (savedRoundPress bout.rows press.clientUuid .roundEnd).map fun saved =>
    placeLateRoundEnd iso bout round saved pressedMs nowMs with
  | .error refusal => .error refusal
  | .ok .done => .ok bout
  | .ok (.refused refusal) => .error refusal
  | .ok (.close isSaved) =>
    let time := placedInTimeline iso bout.rows pressedMs
    let closing := roundEndedOnTime sheets bout
    let clock := bout.clock iso
    let level := closing.winnerColor.isNone
    match firstRefusal
      [(rules.bestOf ≤ 1, .notBestOf),
        (bout.completed || bout.awaitingRoundAdvance ||
          bout.closedRounds.any (·.round = bout.round), .roundAlreadyEnded),
        (level && !timeIsFinished rules (elapsedAt iso clock.fold time), .endRefused),
        (level && pendingLevelStep rules clock.levelResolutionSteps ≠ some .draw,
          .endRefused)] with
    | some refusal => .error refusal
    | none =>
      let written :=
        if isSaved then bout else bout.write .roundEnd time none (some press.clientUuid)
      let written :=
        { written with redScore := closing.redScore, blueScore := closing.blueScore }
      .ok (closeRound iso rules written closing (some (iso.getTime time)) nowMs)

/-- Put the clock to zero for the new round: a Halt or a Reopen as needed, then a Reset. -/
def resetClock (bout : ServerBout τ ι) (time : τ) (nowMs : ℤ) :
    Except Refusal (ServerBout τ ι) := do
  let caused := some (iso.getTime time)
  let stopped ←
    match (bout.clock iso).fold.status with
    | .running => clockAction iso bout .halt caused nowMs
    | .ended => clockAction iso bout .reopen caused nowMs
    | _ => .ok bout
  if (stopped.clock iso).fold.status = .halted then
    clockAction iso stopped .resetClock caused nowMs
  else .ok stopped

/-- The clock at zero, then the bout in its new round, then its sheet read again. -/
def openRound (bout : ServerBout τ ι) (round : ℕ) (time : τ) (nowMs : ℤ) :
    Except Refusal (ServerBout τ ι) := do
  let reset ← resetClock iso bout time nowMs
  .ok (recomputeMatchScore iso rules sheets
    { reset with currentRound := some round, awaitingRoundAdvance := false } none nowMs)

def advanceLate (bout : ServerBout τ ι) (press : LatePress ι) (round : ℕ)
    (nowMs : ℤ) : Except Refusal (ServerBout τ ι) :=
  match decide (round < 2), savedRoundPress bout.rows press.clientUuid .roundAdvance with
  | true, _ => .error .noPressOpensRound
  | false, .error refusal => .error refusal
  | false, .ok saved =>
    let waits := bout.awaitingRoundAdvance && bout.round = round - 1 && !bout.completed
    let pressedMs := pressedAtServer press nowMs
    if saved.isSome && (!waits || bout.eventOver) then
      if !bout.eventOver && !bout.completed && bout.round = round &&
          (sheets.ofRound round).isEmpty then
        .ok (recomputeMatchScore iso rules sheets bout none nowMs)
      else .ok bout
    else if saved.isNone && bout.eventOver then .error .eventResultsFrozen
    else if saved.isNone && bout.round ≥ round then .ok bout
    else
      match firstRefusal
        [(saved.isNone && bout.completed, .boutCompleted),
          (saved.isNone && tooOld pressedMs nowMs, .pressTooOld),
          (saved.isNone && beforeBackInPlay bout pressedMs, .pressedBeforeReopen),
          (scoredBeforeLastReset iso bout.rows pressedMs, .scoredBeforeReset),
          (saved.isNone && !waits, .roundNotWaiting)] with
      | some refusal => .error refusal
      | none =>
        let time := placedInTimeline iso bout.rows pressedMs
        let written :=
          if saved.isSome then bout
          else bout.write .roundAdvance time none (some press.clientUuid)
        openRound iso rules sheets written round time nowMs

end Round

/-! ## A step of a level bout -/

section Level

variable [DecidableEq ι] (mayPassLock : Bool)

/-- The correction of the clock a step carries: none for sudden death, and none of nothing. -/
def timeGiven (step : LevelStep) (elapsedMs : ℤ) : Option ℤ :=
  match step with
  | .extraTime seconds =>
    let adjustmentMs := extraTimeAdjustmentMs seconds elapsedMs rules.limitMs
    if adjustmentMs = 0 then none else some adjustmentMs
  | _ => none

/-- Judge the step and write it: the Halt of a clock that runs, the bout's status, the step. -/
def writeStep (bout : ServerBout τ ι) (press : LatePress ι) (time : τ) :
    Except Refusal (ServerBout τ ι) :=
  let clock := bout.clock iso
  let elapsedMs := elapsedAt iso clock.fold time
  match firstRefusal
    [(bout.awaitingRoundAdvance, .roundAlreadyEnded),
      (!isLevelBout bout, .boutNotLevel),
      (!timeIsFinished rules elapsedMs, .endRefused)],
    pendingLevelStep rules clock.levelResolutionSteps with
  | some refusal, _ => .error refusal
  | none, none | none, some .draw => .error .levelStepNotPending
  | none, some step =>
    let halted :=
      if clock.fold.status = .running then bout.write (.clock (.press .halt)) time none none
      else bout
    let paused : ServerBout τ ι :=
      { halted with status := if bout.status = .running then .paused else bout.status }
    .ok (paused.write (.clock .levelResolution) time (timeGiven rules step elapsedMs)
      (some press.clientUuid))

def stepLate (bout : ServerBout τ ι) (press : LatePress ι) (round step : ℕ) (nowMs : ℤ) :
    Except Refusal (ServerBout τ ι) :=
  match savedRoundPress bout.rows press.clientUuid (.clock .levelResolution) with
  | .error refusal => .error refusal
  | .ok (some _) => .ok bout
  | .ok none =>
    let pressedMs := pressedAtServer press nowMs
    match firstRefusal
      [(bout.eventOver, .eventResultsFrozen),
        (bout.completed, .boutCompleted),
        (tooOld pressedMs nowMs, .pressTooOld),
        (scoredBeforeLastReset iso bout.rows pressedMs, .scoredBeforeReset),
        (beforeBackInPlay bout pressedMs, .pressedBeforeReopen),
        (bout.locked && !mayPassLock, .matchLocked),
        (bout.round ≠ round, .roundNotOpen)] with
    | some refusal => .error refusal
    | none =>
      let steps := (bout.clock iso).levelResolutionSteps
      if steps > step then .ok bout
      else if steps < step then .error .levelStepNotPending
      else writeStep iso rules bout press (placedInTimeline iso bout.rows pressedMs)

end Level

end Bout

end MyClash.Timeline
