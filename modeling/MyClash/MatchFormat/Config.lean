import Mathlib.Algebra.Order.Ring.Rat
import Mathlib.Data.Rat.Cast.Defs

/-!
# Match format

A resolved match format and the phase a bout counts against. `upperTrimmed` is
`label.trim().toUpperCase()`.
-/

namespace MyClash.MatchFormat

universe u

inductive ScoringDirection where
  | normal
  | reverseZeroLoses
  deriving DecidableEq

inductive TimerMode where
  | countdown
  | countup

inductive MaxDoubleHitOutcome where
  | doubleLossZeroScores
  | drawZeroScores
  | resultStands
  deriving DecidableEq

inductive LevelStep where
  | draw
  | suddenDeath
  | extraTime (seconds : ℕ)
  deriving DecidableEq

structure ByPhase (α : Type u) where
  pool : α
  swiss : Option α
  bracket : α
  finals : α

inductive PhaseType where
  | pool
  | singleElim
  | doubleElim
  | swiss
  deriving DecidableEq

inductive FormatPhase where
  | pool
  | swiss
  | bracket
  | finals

structure MatchFormatConfig where
  pointCap : ℕ
  scoringDirection : ScoringDirection
  maxDoubleHits : Option ℕ
  maxDoubleHitOutcome : MaxDoubleHitOutcome
  levelAtTime : ByPhase (List LevelStep)

/-- The two fields of a bout its format is read by. -/
structure FormatMatch where
  phaseType : Option PhaseType
  matchNumberLabel : Option String

section Phase

variable (upperTrimmed : String → String)

def MEDAL_MATCH_LABELS : List String :=
  ["F", "FINAL", "GOLD", "GOLD MEDAL MATCH", "3RD", "BRONZE", "BRONZE MEDAL MATCH"]

def isMedalMatchLabel (label : Option String) : Bool :=
  MEDAL_MATCH_LABELS.contains (upperTrimmed (label.getD ""))

def formatPhaseOf (m : FormatMatch) : FormatPhase :=
  if m.phaseType = some .pool then .pool
  else if m.phaseType = some .swiss then .swiss
  else if isMedalMatchLabel upperTrimmed m.matchNumberLabel then .finals
  else .bracket

def forPhase {α : Type u} (byPhase : ByPhase α) (m : FormatMatch) : α :=
  match formatPhaseOf upperTrimmed m with
  | .pool => byPhase.pool
  | .swiss => byPhase.swiss.getD byPhase.pool
  | .bracket => byPhase.bracket
  | .finals => byPhase.finals

/-- May an automatic end leave this phase's bout level? -/
def chainAllowsLevelEnd (config : MatchFormatConfig) (m : FormatMatch) : Bool :=
  (forPhase upperTrimmed config.levelAtTime m).any (· == .draw)

end Phase

/-- The doubles ceiling counts in the group stages only. -/
def getEffectiveMaxDoubles (m : FormatMatch) (config : MatchFormatConfig) : Option ℕ :=
  if m.phaseType = some .pool ∨ m.phaseType = some .swiss then config.maxDoubleHits else none

def maxDoubleHitZeroesScores (config : MatchFormatConfig) : Bool :=
  config.maxDoubleHitOutcome != .resultStands

end MyClash.MatchFormat
