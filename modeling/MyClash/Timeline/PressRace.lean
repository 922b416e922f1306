import MyClash.Timeline.SavedPress
import Mathlib.Logic.Function.Basic

/-!
# Late presses that race

Several tablets send presses of one bout. A send reads the next sequence first, then the bout, the
clock, the last reset and the last row, one read after the other, and writes its row at the
sequence it read; another send may do any of this in between.
-/

namespace MyClash.Timeline.PressRace

open Clock MatchFormat Scoring CutShort SavedPress

universe u v w x y

structure Send (κ : Type v) (ρ : Type x) where
  action : ClockPress
  press : QueuedPress κ ρ
  mayPassLock : Bool

inductive Answer where
  | saved
  | alreadyTrue
  | taken
  | sheetEnded
  | refused (refusal : Refusal)
  | collided

/-- What a send has read when it writes its row, and how an End decides. -/
structure Judged (τ : Type u) (κ : Type v) (ι : Type w) (ρ : Type x) where
  bout : PressedBout τ κ ι ρ
  clock : ServerClock τ
  time : τ
  result : Option (Option ι)

/-- Where a send stands, with what it has read. -/
inductive Phase (τ : Type u) (κ : Type v) (ι : Type w) (ρ : Type x) where
  | asksSaved (attempt : ℕ)
  | finishesSaved
  | readsSequence (attempt : ℕ)
  | readsBout (attempt sequence : ℕ)
  | readsClock (attempt sequence : ℕ) (bout : PressedBout τ κ ι ρ)
  | readsReset (attempt sequence : ℕ) (bout : PressedBout τ κ ι ρ) (clock : ServerClock τ)
  | readsLastRow (attempt sequence : ℕ) (bout : PressedBout τ κ ι ρ) (clock : ServerClock τ)
      (pressedMs : ℤ)
  | insertsRow (attempt sequence : ℕ) (judged : Judged τ κ ι ρ)
  | writesBout (sequence : ℕ) (judged : Judged τ κ ι ρ)
  | readsLoss (sequence : ℕ) (readStatus : MatchStatus)
  | takesBackRow (sequence : ℕ) (refusal : Refusal)
  | answered (answer : Answer)

section Step

variable {τ : Type u} {κ : Type v} {ι : Type w} {ρ : Type x}

/-- The sequence a send holds whose row is not written yet. -/
def Phase.sequence? : Phase τ κ ι ρ → Option ℕ
  | .readsBout _ sequence | .readsClock _ sequence _ | .readsReset _ sequence _ _
  | .readsLastRow _ sequence _ _ _ | .insertsRow _ sequence _ => some sequence
  | _ => none

/-- Three tries, and every rule is asked again. -/
def againOnCollision (attempt : ℕ) : Phase τ κ ι ρ :=
  if attempt = 3 then .answered .collided else .asksSaved (attempt + 1)

/-- The statuses an End's write accepts: running and paused are one. -/
def statusFamily : MatchStatus → List MatchStatus
  | .running | .paused => [.running, .paused]
  | status => [status]

variable [DecidableEq κ] [DecidableEq ρ] [DecidableEq ι] (iso : IsoTime τ) (rules : BoutRules)

/-- A row is refused whose sequence or whose press is there already. -/
def insertRow (bout : PressedBout τ κ ι ρ) (sequence : ℕ) (action : ClockAction) (time : τ)
    (clientUuid : κ) : Option (PressedBout τ κ ι ρ) :=
  if bout.rows.any (·.sequence = sequence) || pressIsSaved bout.rows clientUuid then none
  else
    some { bout with
      rows := bout.rows ++ [⟨.clock (.press action), time, sequence, none, some clientUuid⟩] }

/-- The rules of a late press, on the bout and the clock that were read and on the resets of now. -/
def placeLatePress (send : Send κ ρ) (rows : List (EventRow τ κ)) (read : PressedBout τ κ ι ρ)
    (clock : ServerClock τ) (pressedMs nowMs : ℤ) : Option Refusal :=
  firstRefusal
    [(read.completed && send.action ≠ .endBout, .boutCompleted),
      (tooOld pressedMs nowMs, .pressTooOld),
      (scoredBeforeLastReset iso rows pressedMs, .scoredBeforeReset),
      (beforeBackInPlay read.toServerBout pressedMs, .pressedBeforeReopen),
      (read.locked && !send.mayPassLock, .matchLocked),
      (!(CLOCK_ACTIONS_FROM clock.fold.status).contains send.action.action, .pressOutOfOrder),
      ((send.action = .start || send.action = .resume) && read.awaitingRoundAdvance,
        .roundAwaitsAdvance)]

/-- What won the bout over an End. -/
def endLostTo (status readStatus : MatchStatus) : Option Refusal :=
  if status = .completed then none
  else if status = readStatus then some .pressedBeforeReopen
  else if status = .scheduled then some .scoredBeforeReset
  else some .pressedBeforeReopen

/-- One step of a send: a read, or a write. `sheetEnds` is what the sheet answers an End. -/
@[grind =] def Send.step (send : Send κ ρ) (nowMs : ℤ) (sheetEnds : Bool) (bout : PressedBout τ κ ι ρ) :
    Phase τ κ ι ρ → Option (PressedBout τ κ ι ρ × Phase τ κ ι ρ)
  | .asksSaved attempt =>
    if pressIsSaved bout.rows send.press.clientUuid then some (bout, .finishesSaved)
    else some (bout, .readsSequence attempt)
  | .finishesSaved =>
    let finishing := SavedPress.finishSavedPress iso rules bout send.action send.press
    some (finishing.done PressWrite.run bout, .answered .saved)
  | .readsSequence attempt => some (bout, .readsBout attempt (nextSequence bout.rows))
  | .readsBout attempt sequence =>
    if bout.eventOver then some (bout, .answered (.refused .eventResultsFrozen))
    else some (bout, .readsClock attempt sequence bout)
  | .readsClock attempt sequence read =>
    let clock := bout.clock iso
    if pressAlreadyTrue send.action clock.fold.status then some (bout, .answered .alreadyTrue)
    else some (bout, .readsReset attempt sequence read clock)
  | .readsReset attempt sequence read clock =>
    let pressedMs := pressedAtServer send.press.toLatePress nowMs
    match placeLatePress iso send bout.rows read clock pressedMs nowMs with
    | some refusal => some (bout, .answered (.refused refusal))
    | none => some (bout, .readsLastRow attempt sequence read clock pressedMs)
  | .readsLastRow attempt sequence read clock pressedMs =>
    let time := placedInTimeline iso bout.rows pressedMs
    if send.action ≠ .endBout then
      some (bout, .insertsRow attempt sequence ⟨read, clock, time, none⟩)
    else if sheetEnds then some (bout, .answered .sheetEnded)
    else
      match timeLimitResult rules read clock.levelResolutionSteps
        (elapsedAt iso clock.fold time) with
      | .error refusal => some (bout, .answered (.refused refusal))
      | .ok result => some (bout, .insertsRow attempt sequence ⟨read, clock, time, result⟩)
  | .insertsRow attempt sequence judged =>
    match insertRow bout sequence send.action.action judged.time send.press.clientUuid with
    | none => some (bout, againOnCollision attempt)
    | some written => some (written, .writesBout sequence judged)
  | .writesBout sequence judged =>
    if send.action ≠ .endBout then
      if bout.completed then some (bout, .takesBackRow sequence .boutCompleted)
      else
        some ((putInPlay judged.bout send.action send.press judged.time).run bout,
          .answered .taken)
    else if (statusFamily judged.bout.status).contains bout.status &&
        bout.backInPlayAt = judged.bout.backInPlayAt then
      some ((completeOnEnd iso judged.bout judged.clock.fold judged.result judged.time).run bout,
        .answered .taken)
    else some (bout, .readsLoss sequence judged.bout.status)
  | .readsLoss sequence readStatus =>
    match endLostTo bout.status readStatus with
    | none => some (bout, .answered .taken)
    | some refusal => some (bout, .takesBackRow sequence refusal)
  | .takesBackRow sequence refusal =>
    some ({ bout with rows := bout.rows.filter fun row => row.sequence ≠ sequence },
      .answered (.refused refusal))
  | .answered _ => none

/-- The bout and every send of it. -/
structure World (υ : Type y) (τ : Type u) (κ : Type v) (ι : Type w) (ρ : Type x) where
  bout : PressedBout τ κ ι ρ
  phase : υ → Phase τ κ ι ρ

/-- A send takes its next step: which, when, and what the sheet answers it. -/
structure Tick (υ : Type y) where
  send : υ
  nowMs : ℤ
  sheetEnds : Bool

variable {υ : Type y} [DecidableEq υ] (sends : υ → Send κ ρ)

def World.tick (world : World υ τ κ ι ρ) (tick : Tick υ) : Option (World υ τ κ ι ρ) :=
  ((sends tick.send).step iso rules tick.nowMs tick.sheetEnds world.bout
    (world.phase tick.send)).map fun (bout, phase) =>
      ⟨bout, Function.update world.phase tick.send phase⟩

/-- No send has been made yet. -/
def World.start (bout : PressedBout τ κ ι ρ) : World υ τ κ ι ρ := ⟨bout, fun _ => .asksSaved 1⟩

end Step

end MyClash.Timeline.PressRace
