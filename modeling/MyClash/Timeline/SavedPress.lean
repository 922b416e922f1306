import MyClash.Library.CutShort
import MyClash.Timeline.Doors

/-!
# A saved press, write by write

A late Start, Halt, Resume or End: the row of the press first, the bout after it. A send of a press
whose row is saved finishes the bout's write, where the press is still the last word on its bout.
-/

namespace MyClash.Timeline.SavedPress

open Clock MatchFormat Scoring CutShort

universe u v w x

/-- The bout's own row, with what a press writes to it and what its End is judged on. -/
structure PressedBout (τ : Type u) (κ : Type v) (ι : Type w) (ρ : Type x)
    extends ServerBout τ κ where
  startedAt : Option τ
  endedAt : Option τ
  durationActiveMs : Option ℤ
  durationTotalMs : Option ℤ
  winnerRegistrationId : Option ι
  endReason : Option String
  redRegistrationId : Option ι
  blueRegistrationId : Option ι
  matchRulesId : ρ
  earlierRulesIds : List ρ
  deriving DecidableEq

/-- A press with the copy of the rules its pad showed, and whether it was made with no network. -/
structure QueuedPress (κ : Type v) (ρ : Type x) extends LatePress κ where
  startedUnder : Option ρ
  pressedWithoutNetwork : Bool

/-- `result` is the winner an End names, on time. -/
inductive PressWrite (τ : Type u) (κ : Type v) (ι : Type w) (ρ : Type x) where
  | row (action : ClockAction) (time : τ) (clientUuid : κ)
  | inPlay (status : MatchStatus) (startedAt : Option τ) (matchRulesId : Option ρ)
  | completed (time : τ) (activeMs : ℤ) (totalMs : Option ℤ) (result : Option (Option ι))

section Bout

variable {τ : Type u} {κ : Type v} {ι : Type w} {ρ : Type x}

/-- A bout is put in play only while it is not completed. -/
def PressWrite.run (write : PressWrite τ κ ι ρ) (bout : PressedBout τ κ ι ρ) :
    PressedBout τ κ ι ρ :=
  match write with
  | .row action time clientUuid =>
    { bout with
      toServerBout := bout.toServerBout.write (.clock (.press action)) time none clientUuid }
  | .inPlay status startedAt matchRulesId =>
    if bout.completed then bout
    else
      { bout with
        status := status
        startedAt := startedAt.or bout.startedAt
        matchRulesId := matchRulesId.getD bout.matchRulesId }
  | .completed time activeMs totalMs result =>
    { bout with
      status := .completed
      endedAt := some time
      durationActiveMs := some activeMs
      durationTotalMs := totalMs.or bout.durationTotalMs
      winnerRegistrationId := result.getD bout.winnerRegistrationId
      endReason := if result.isSome then some "time_limit" else bout.endReason }

/-- The copy a Start puts its bout on: one the bout held, pressed with no network. -/
def startCopyOf [DecidableEq ρ] (bout : PressedBout τ κ ι ρ) (press : QueuedPress κ ρ) : Option ρ :=
  match press.startedUnder with
  | none => none
  | some rulesId =>
    if !press.pressedWithoutNetwork then none
    else if rulesId ≠ bout.matchRulesId ∧ !bout.earlierRulesIds.contains rulesId then none
    else some rulesId

section End

variable [DecidableEq ι] (rules : BoutRules)

/-- The side ahead: the winner on the row, else the leader on the board. -/
def leader (bout : PressedBout τ κ ι ρ) : Option Color :=
  winnerColorFrom ⟨bout.winnerRegistrationId, bout.redRegistrationId, bout.blueRegistrationId,
    some bout.redScore, some bout.blueScore, none⟩

/-- What ending the clock does: nothing more, a winner named, or a refusal. -/
def timeLimitResult (bout : PressedBout τ κ ι ρ) (levelStepsTaken : ℕ) (elapsedMs : ℤ) :
    Except Refusal (Option (Option ι)) :=
  if rules.bestOf > 1 then .ok none
  else if bout.completed then .ok none
  else
    match leader bout with
    | some .red => .ok (some bout.redRegistrationId)
    | some .blue => .ok (some bout.blueRegistrationId)
    | none =>
      if !timeIsFinished rules elapsedMs then .error .endRefused
      else if pendingLevelStep rules levelStepsTaken = some .draw then .ok none
      else .error .endRefused

end End

variable (iso : IsoTime τ)

def finalActiveMs (clock : ClockFold τ) (time : τ) : ℤ :=
  match clock.status, clock.runningFrom with
  | .running, some since => clock.activeMs + (iso.getTime time - iso.getTime since)
  | _, _ => clock.activeMs

/-- The bout completed at `time`, with its two durations and its result. -/
def completeOnEnd (bout : PressedBout τ κ ι ρ) (clock : ClockFold τ) (result : Option (Option ι))
    (time : τ) : PressWrite τ κ ι ρ :=
  .completed time (finalActiveMs iso clock time)
    (bout.startedAt.map fun started => iso.getTime time - iso.getTime started) result

variable [DecidableEq κ] [DecidableEq ρ] [DecidableEq ι] (rules : BoutRules)

/-- What a press that is not an End writes to its bout. -/
def putInPlay (bout : PressedBout τ κ ι ρ) (action : ClockPress) (press : QueuedPress κ ρ)
    (time : τ) : PressWrite τ κ ι ρ :=
  match action with
  | .start => .inPlay .running (some time) (startCopyOf bout press)
  | .resume => .inPlay .running none none
  | .halt | .endBout => .inPlay .paused none none

/-- A press sent again: the write of the bout that was lost, of a press that still speaks for it. -/
def finishSavedPress (bout : PressedBout τ κ ι ρ) (action : ClockPress) (press : QueuedPress κ ρ) :
    Sent (PressWrite τ κ ι ρ) Refusal :=
  match lastTimelineRow iso bout.rows with
  | none => .nothing
  | some last =>
    let speaks := bout.status ≠ .voided ∧ bout.eventOver = false ∧
      ∀ mark ∈ bout.backInPlayAt, mark < iso.getTime last.occurredAt
    let time := last.occurredAt
    let clock := bout.clock iso
    if last.clientUuid ≠ some press.clientUuid then .nothing
    else if ¬speaks then .nothing
    else if action = .endBout then
      if bout.completed then .nothing
      else
        match timeLimitResult rules bout clock.levelResolutionSteps
          (elapsedAt iso clock.fold time) with
        | .error _ => .nothing
        | .ok result => .write [completeOnEnd iso bout clock.fold result time]
    else if bout.status = statusAfter bout.status action.action then .nothing
    else .write [putInPlay bout action press time]

/-- The row of a press, and what it writes to the bout. An End that the sheet answers (`sheetEnds`)
writes no row of its own. -/
def record (sheetEnds : Bool) (bout : PressedBout τ κ ι ρ) (action : ClockPress)
    (press : QueuedPress κ ρ) (time : τ) : Sent (PressWrite τ κ ι ρ) Refusal :=
  let clock := bout.clock iso
  if action ≠ .endBout then
    .write [.row action.action time press.clientUuid, putInPlay bout action press time]
  else if sheetEnds then .nothing
  else
    match timeLimitResult rules bout clock.levelResolutionSteps (elapsedAt iso clock.fold time) with
    | .error refusal => .refuse refusal
    | .ok result =>
      .write [.row .endBout time press.clientUuid, completeOnEnd iso bout clock.fold result time]

/-- A Start, Halt, Resume or End sent late. -/
def takePress (mayPassLock sheetEnds : Bool) (bout : PressedBout τ κ ι ρ) (action : ClockPress)
    (press : QueuedPress κ ρ) (nowMs : ℤ) : Sent (PressWrite τ κ ι ρ) Refusal :=
  let pressedMs := pressedAtServer press.toLatePress nowMs
  if pressIsSaved bout.rows press.clientUuid then finishSavedPress iso rules bout action press
  else if bout.eventOver then .refuse .eventResultsFrozen
  else if pressAlreadyTrue action (bout.clock iso).fold.status then .nothing
  else
    match placeLatePress iso mayPassLock bout.toServerBout action pressedMs nowMs with
    | some refusal => .refuse refusal
    | none =>
      record iso rules sheetEnds bout action press (placedInTimeline iso bout.rows pressedMs)

end Bout

end MyClash.Timeline.SavedPress
