/-!
# The status of a bout
-/

namespace MyClash

inductive MatchStatus where
  | scheduled
  | running
  | paused
  | completed
  | voided
  deriving DecidableEq

theorem MatchStatus.scheduled_ne_voided : scheduled ≠ voided := by decide

/-- The statuses a fought bout can be sitting at. -/
def FOUGHT_STATUSES : List MatchStatus := [.running, .paused, .completed]

/-- `started`: the row has a start time. -/
def hasBeenFought (status : MatchStatus) (started : Bool) : Bool :=
  started || FOUGHT_STATUSES.contains status

end MyClash
