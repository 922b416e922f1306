import Mathlib.Algebra.Order.Ring.Rat

/-!
# The outcome of a bout

Who is ahead on the board, who won a finished bout, and what it was worth to both fighters.
-/

namespace MyClash.MatchFormat

universe u

inductive Color where
  | red
  | blue
  deriving DecidableEq

/-- Which side is ahead, or none when level. -/
def leadingColor (redScore blueScore : ℚ) : Option Color :=
  if redScore > blueScore then some .red
  else if blueScore > redScore then some .blue
  else none

inductive BoutOutcome where
  | win
  | loss
  | draw
  deriving DecidableEq

/-- What `boutOutcomes` and `winnerColorFrom` read of a bout. -/
structure FinishedBout (ι : Type u) where
  winnerRegistrationId : Option ι
  redRegistrationId : Option ι
  blueRegistrationId : Option ι
  redScore : Option ℚ
  blueScore : Option ℚ
  endReason : Option String

variable {ι : Type u} [DecidableEq ι]

def isDoubleLossBout (endReason : Option String) : Bool := endReason == some "max_doubles"

/-- A stored winner decides, never the scores; one that is neither side is nobody. -/
def winnerColorFrom (bout : FinishedBout ι) : Option Color :=
  match bout.winnerRegistrationId with
  | some winner =>
    if some winner = bout.redRegistrationId then some .red
    else if some winner = bout.blueRegistrationId then some .blue
    else none
  | none => leadingColor (bout.redScore.getD 0) (bout.blueScore.getD 0)

def boutOutcomes (bout : FinishedBout ι) : BoutOutcome × BoutOutcome :=
  if isDoubleLossBout bout.endReason then (.loss, .loss)
  else
    match winnerColorFrom bout with
    | some .red => (.win, .loss)
    | some .blue => (.loss, .win)
    | none => (.draw, .draw)

theorem leadingColor_eq_none {redScore blueScore : ℚ} :
    leadingColor redScore blueScore = none ↔ redScore = blueScore := by
  unfold leadingColor
  split_ifs with hRed hBlue
  · simp [hRed.ne']
  · simp [hBlue.ne]
  · simp [le_antisymm (not_lt.mp hRed) (not_lt.mp hBlue)]

theorem leadingColor_red {redScore blueScore : ℚ} (h : blueScore < redScore) :
    leadingColor redScore blueScore = some .red := if_pos h

theorem leadingColor_blue {redScore blueScore : ℚ} (h : redScore < blueScore) :
    leadingColor redScore blueScore = some .blue := by
  rw [leadingColor, if_neg h.not_gt, if_pos h]

end MyClash.MatchFormat
