import MyClash.Offline.Store
import MyClash.Timeline.Doors

/-!
# The clock on the pad

The server's last answer, with the presses the tablet still holds folded over it.
-/

namespace MyClash.Pad

open Clock Timeline MatchFormat
open Offline (RoundPress)

universe u v

inductive LevelKind where
  | extraTime
  | suddenDeath

/-- The step's place in the round's chain, what it is, and the limit the tablet knew at the tap. -/
structure LevelPress where
  step : ℕ
  kind : LevelKind
  seconds : Option ℕ
  limitMs : Option ℤ

/-- `round` is the round an advance opens, an end ends, or a step was tapped in. -/
inductive Tap where
  | clock (action : ClockPress)
  | round (action : RoundPress) (round : ℕ)
  | level (level : LevelPress) (round : ℕ)

/-- A row of the tablet's queue that moves the clock. -/
structure PressRow (τ : Type u) (ι : Type v) where
  clientUuid : ι
  occurredAt : τ
  tap : Tap

/-- A clock as the pad holds it. An older server answers with no count of the level steps. -/
structure ClockState (τ : Type u) where
  fold : ClockFold τ
  levelResolutionSteps : Option ℕ
  deriving DecidableEq

variable {τ : Type u} {ι : Type v}

/-- The clock as the server answers it. -/
def answerOf (clock : ServerClock τ) : ClockState τ :=
  ⟨clock.fold, some clock.levelResolutionSteps⟩

/-- The row of the step a level bout waits for, or none when it waits for none. -/
def levelPressOf (step : Option LevelStep) (stepsTaken : ℕ) (limitSeconds : Option ℕ) :
    Option LevelPress :=
  match step with
  | none | some .draw => none
  | some .suddenDeath => some ⟨stepsTaken, .suddenDeath, none, none⟩
  | some (.extraTime seconds) =>
    some ⟨stepsTaken, .extraTime, some seconds, limitSeconds.map fun s : ℕ => (s : ℤ) * 1000⟩

section Fold

variable (getTime : τ → ℤ)

/-- "Start round N" puts the round's time to zero, halted; "End round" stops the time that runs. -/
def clockAfterRound (clock : ClockFold τ) (action : RoundPress) (time : τ) : ClockFold τ :=
  match action with
  | .endRound => clockAfterPress getTime clock .halt time
  | .advance => { clock with activeMs := 0, runningFrom := none, status := .halted }

/-- A clock that runs is paused at the tap; extra time then gives its seconds. -/
def clockAfterLevel (clock : ClockFold τ) (level : LevelPress) (time : τ) : ClockFold τ :=
  let paused :=
    if clock.status = .running then clockAfterPress getTime clock .halt time else clock
  match level.kind with
  | .suddenDeath => paused
  | .extraTime =>
    let given := extraTimeAdjustmentMs (level.seconds.getD 0) paused.activeMs level.limitMs
    { paused with activeMs := max 0 (paused.activeMs + given) }

/-- One queued press applied to the clock, and to the level steps the round has taken. -/
def afterRow (state : ClockState τ) (row : PressRow τ ι) : ClockState τ :=
  match row.tap with
  | .clock action =>
    { state with fold := clockAfterPress getTime state.fold action row.occurredAt }
  | .level level _ =>
    { fold := clockAfterLevel getTime state.fold level row.occurredAt
      levelResolutionSteps := some (state.levelResolutionSteps.getD level.step + 1) }
  | .round action _ =>
    { fold := clockAfterRound getTime state.fold action row.occurredAt
      levelResolutionSteps :=
        match action with
        | .advance => some 0
        | .endRound => state.levelResolutionSteps }

/-- With no read of the server's clock the fold starts from idle; with no press to fold it is the
server's. `sent`: the presses the server has answered. -/
def padClock [DecidableEq ι] (server : Option (ClockState τ)) (presses : List (PressRow τ ι))
    (sent : List ι) : Option (ClockState τ) :=
  match presses.filter fun press => !sent.contains press.clientUuid with
  | [] => server
  | first :: rest =>
    some ((first :: rest).foldl (afterRow getTime) (server.getD ⟨IDLE_CLOCK, none⟩))

end Fold

/-! ## The server takes the presses -/

/-- A press as it is sent: when, by the tablet's clock, and the server's time then. -/
structure Send (τ : Type u) (ι : Type v) where
  row : PressRow τ ι
  sentMs : ℤ
  nowMs : ℤ

def Send.press (iso : IsoTime τ) (send : Send τ ι) : LatePress ι :=
  ⟨send.row.clientUuid, iso.getTime send.row.occurredAt, send.sentMs⟩

def take [DecidableEq ι] (iso : IsoTime τ) (rules : BoutRules) (sheets : Sheets)
    (mayPassLock : Bool) (bout : ServerBout τ ι) (send : Send τ ι) :
    Except Refusal (ServerBout τ ι) :=
  match send.row.tap with
  | .clock action =>
    latePress iso rules sheets mayPassLock bout action (send.press iso) send.nowMs
  | .round .endRound round => endRound iso rules sheets bout (send.press iso) round send.nowMs
  | .round .advance round => advanceLate iso rules sheets bout (send.press iso) round send.nowMs
  | .level level round =>
    stepLate iso rules mayPassLock bout (send.press iso) round level.step send.nowMs

end MyClash.Pad
