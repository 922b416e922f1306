import MyClash.MatchFormat.Outcome
import Mathlib.Order.Lattice

/-!
# Aggregates of a fighter

What one bout's exchanges add to a fighter, and the win the score formula counts.
-/

namespace MyClash.Standings

universe u

open MatchFormat

inductive ExchangeType where
  | clean
  | afterblow
  | double
  | noExchange
  deriving DecidableEq

structure Exchange where
  type : ExchangeType
  firstStrikerColor : Option Color
  firstStrikeValue : Option ℚ
  afterblowValue : Option ℚ
  voided : Bool

inductive AfterblowMode where
  | full
  | deductive

/-- What the attacker and the defender score of one afterblow. -/
def computeAfterblowDeltas (mode : AfterblowMode) (attackerPts defenderPts : ℚ) : ℚ × ℚ :=
  match mode with
  | .deductive => (max 0 (attackerPts - defenderPts), 0)
  | .full => (attackerPts, defenderPts)

structure FighterAggregates where
  wins : ℕ
  targetPoints : ℚ
  timesHit : ℕ
  doubles : ℕ

def FighterAggregates.zero : FighterAggregates := ⟨0, 0, 0, 0⟩

def FighterAggregates.add (a b : FighterAggregates) : FighterAggregates where
  wins := a.wins + b.wins
  targetPoints := a.targetPoints + b.targetPoints
  timesHit := a.timesHit + b.timesHit
  doubles := a.doubles + b.doubles

def countExchange (mode : AfterblowMode) (myColor : Color) (a : FighterAggregates)
    (ex : Exchange) : FighterAggregates :=
  match ex.type with
  | .clean =>
    if ex.firstStrikerColor = some myColor then
      { a with targetPoints := a.targetPoints + ex.firstStrikeValue.getD 0 }
    else if ex.firstStrikerColor.isSome then { a with timesHit := a.timesHit + 1 }
    else a
  | .afterblow =>
    let deltas :=
      computeAfterblowDeltas mode (ex.firstStrikeValue.getD 0) (ex.afterblowValue.getD 0)
    if ex.firstStrikerColor = some myColor then
      { a with targetPoints := a.targetPoints + deltas.1, timesHit := a.timesHit + 1 }
    else if ex.firstStrikerColor.isSome then { a with targetPoints := a.targetPoints + deltas.2 }
    else a
  | .double => { a with doubles := a.doubles + 1 }
  | .noExchange => a

variable {ι : Type u} [DecidableEq ι]

def computeAggregates (registrationId redRegistrationId : ι) (exchanges : List Exchange)
    (isWinner : Bool) (mode : AfterblowMode) : FighterAggregates :=
  let myColor := if redRegistrationId = registrationId then Color.red else Color.blue
  let active := exchanges.filter fun ex => !ex.voided
  { active.foldl (countExchange mode myColor) .zero with wins := if isWinner then 1 else 0 }

@[simp] theorem computeAggregates_wins (registrationId redRegistrationId : ι)
    (exchanges : List Exchange) (isWinner : Bool) (mode : AfterblowMode) :
    (computeAggregates registrationId redRegistrationId exchanges isWinner mode).wins =
      isWinner.toNat := by
  cases isWinner <;> rfl

@[simp] theorem add_wins (a b : FighterAggregates) : (a.add b).wins = a.wins + b.wins := rfl

end MyClash.Standings
