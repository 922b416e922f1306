import MyClash.Scoring.SingleFight

/-!
# The pool's count and the board's count

A sheet is added up twice: for a fighter's ranking, and for the two sides of the board. Both adds
read the same of every exchange, and both turn with the colours.
-/

namespace MyClash.Scoring

universe u

open MatchFormat Standings

/-! ## One side of the board -/

/-- What the ranking reads of a side. -/
structure Count where
  targetPoints : ℚ
  timesHit : ℕ
  doubles : ℕ

def countOf (a : FighterAggregates) : Count := ⟨a.targetPoints, a.timesHit, a.doubles⟩

theorem eq_of_countOf {a b : FighterAggregates} (hWins : a.wins = b.wins)
    (h : countOf a = countOf b) : a = b := by
  cases a
  cases b
  obtain rfl : _ = _ := hWins
  obtain ⟨rfl, rfl, rfl⟩ := Count.mk.inj h
  rfl

def Tally.side (t : Tally) : Color → Count
  | .red => ⟨t.redTargetPoints, t.redTimesHit, t.doubles⟩
  | .blue => ⟨t.blueTargetPoints, t.blueTimesHit, t.doubles⟩

def MatchScore.side (score : MatchScore) : Color → Count
  | .red => ⟨score.redTargetPoints, score.redTimesHit, score.doubles⟩
  | .blue => ⟨score.blueTargetPoints, score.blueTimesHit, score.doubles⟩

@[simp] theorem computeMatchFormatScore_side (m : FormatMatch) (exchanges : List Exchange)
    (config : MatchFormatConfig) (mode : AfterblowMode) (color : Color) :
    (computeMatchFormatScore m exchanges config mode).side color =
      (tallyOf exchanges mode).side color := by
  rw [computeMatchFormatScore, apply_ite (MatchScore.side · color)]
  cases color
  · exact ite_self _
  · exact ite_self _

/-- One exchange adds the same to a fighter as to his side. -/
theorem countHit_side (mode : AfterblowMode) (color : Color) (t : Tally) (a : FighterAggregates)
    (ex : Exchange) (h : countOf a = t.side color) :
    countOf (countExchange mode color a ex) = (countHit mode t ex).side color := by
  obtain ⟨type, striker, firstStrikeValue, afterblowValue, voided⟩ := ex
  cases type with
  | clean =>
    rcases striker with _ | _ | _
    · exact h
    · cases color <;> simp_all [countOf, countExchange, countHit, Tally.side]
    · cases color <;> simp_all [countOf, countExchange, countHit, Tally.side]
  | afterblow =>
    rcases striker with _ | _ | _
    · exact h
    · cases color <;> simp_all [countOf, countExchange, countHit, Tally.side]
    · cases color <;> simp_all [countOf, countExchange, countHit, Tally.side]
  | double => cases color <;> simp_all [countOf, countExchange, countHit, Tally.side]
  | noExchange => exact h

theorem foldl_countHit_side (mode : AfterblowMode) (color : Color) (exchanges : List Exchange)
    (t : Tally) (a : FighterAggregates) (h : countOf a = t.side color) :
    countOf (exchanges.foldl (countExchange mode color) a) =
      (exchanges.foldl (countHit mode) t).side color := by
  induction exchanges generalizing t a with
  | nil => exact h
  | cons ex exchanges ih => exact ih _ _ (countHit_side mode color t a ex h)

section Sides

variable {ι : Type u} [DecidableEq ι]

/-- The red corner is the registration named so; any other fights in blue. -/
def colorOf (redRegistrationId registrationId : ι) : Color :=
  if redRegistrationId = registrationId then .red else .blue

theorem countOf_computeAggregates (registrationId redRegistrationId : ι)
    (exchanges : List Exchange) (isWinner : Bool) (mode : AfterblowMode) :
    countOf (computeAggregates registrationId redRegistrationId exchanges isWinner mode) =
      (tallyOf exchanges mode).side (colorOf redRegistrationId registrationId) := by
  have hNone : ∀ color, countOf .zero = Tally.zero.side color := by
    intro color
    cases color
    · rfl
    · rfl
  exact foldl_countHit_side mode _ _ Tally.zero .zero (hNone _)

/-- A fighter's aggregates are his side's count and his win. -/
theorem computeAggregates_congr {registrationId registrationId' redRegistrationId : ι}
    {exchanges exchanges' : List Exchange} {isWinner : Bool} {mode : AfterblowMode}
    (h : (tallyOf exchanges mode).side (colorOf redRegistrationId registrationId) =
      (tallyOf exchanges' mode).side (colorOf redRegistrationId registrationId')) :
    computeAggregates registrationId redRegistrationId exchanges isWinner mode =
      computeAggregates registrationId' redRegistrationId exchanges' isWinner mode := by
  rw [← countOf_computeAggregates _ _ _ isWinner, ← countOf_computeAggregates _ _ _ isWinner] at h
  exact eq_of_countOf rfl h

end Sides

/-! ## The colours exchanged -/

def swapColor : Color → Color
  | .red => .blue
  | .blue => .red

def swapColors (ex : Exchange) : Exchange :=
  { ex with firstStrikerColor := ex.firstStrikerColor.map swapColor }

def Tally.swap (t : Tally) : Tally where
  redEarned := t.blueEarned
  blueEarned := t.redEarned
  redTargetPoints := t.blueTargetPoints
  blueTargetPoints := t.redTargetPoints
  redTimesHit := t.blueTimesHit
  blueTimesHit := t.redTimesHit
  doubles := t.doubles

def MatchScore.swap (score : MatchScore) : MatchScore where
  redScore := score.blueScore
  blueScore := score.redScore
  redTargetPoints := score.blueTargetPoints
  blueTargetPoints := score.redTargetPoints
  redTimesHit := score.blueTimesHit
  blueTimesHit := score.redTimesHit
  doubles := score.doubles
  redBelowZero := score.blueBelowZero
  blueBelowZero := score.redBelowZero

theorem Tally.side_swap (t : Tally) (color : Color) : t.swap.side color = t.side (swapColor color) := by
  cases color
  · rfl
  · rfl

theorem countHit_swap (mode : AfterblowMode) (t : Tally) (ex : Exchange) :
    countHit mode t.swap (swapColors ex) = (countHit mode t ex).swap := by
  obtain ⟨type, striker, firstStrikeValue, afterblowValue, voided⟩ := ex
  cases type with
  | clean => rcases striker with _ | _ | _ <;> rfl
  | afterblow => rcases striker with _ | _ | _ <;> rfl
  | double => rfl
  | noExchange => rfl

theorem foldl_countHit_swap (mode : AfterblowMode) (exchanges : List Exchange) (t : Tally) :
    (exchanges.map swapColors).foldl (countHit mode) t.swap =
      (exchanges.foldl (countHit mode) t).swap := by
  induction exchanges generalizing t with
  | nil => rfl
  | cons ex exchanges ih => rw [List.map_cons, List.foldl_cons, countHit_swap, ih, List.foldl_cons]

/-- The voided exchanges stay voided. -/
theorem tallyOf_swap (exchanges : List Exchange) (mode : AfterblowMode) :
    tallyOf (exchanges.map swapColors) mode = (tallyOf exchanges mode).swap := by
  rw [tallyOf, List.filter_map]
  exact foldl_countHit_swap mode (exchanges.filter fun ex => !ex.voided) .zero

theorem applyScoringDirection_swap (config : MatchFormatConfig) (redEarned blueEarned : ℚ) :
    applyScoringDirection config blueEarned redEarned =
      (applyScoringDirection config redEarned blueEarned).swap := by
  rw [applyScoringDirection, applyScoringDirection, apply_ite Prod.swap]
  rfl

theorem belowZero_swap (config : MatchFormatConfig) (redEarned blueEarned : ℚ) :
    belowZero config blueEarned redEarned = (belowZero config redEarned blueEarned).swap := by
  rw [belowZero, belowZero, apply_ite Prod.swap]
  rfl

theorem computeMatchFormatScore_swap (m : FormatMatch) (exchanges : List Exchange)
    (config : MatchFormatConfig) (mode : AfterblowMode) :
    computeMatchFormatScore m (exchanges.map swapColors) config mode =
      (computeMatchFormatScore m exchanges config mode).swap := by
  rw [computeMatchFormatScore, computeMatchFormatScore, tallyOf_swap, apply_ite MatchScore.swap]
  dsimp only [Tally.swap]
  rw [applyScoringDirection_swap, belowZero_swap]
  rfl

/-! ## The two counts agree -/

section Law

variable {ι : Type u} [DecidableEq ι]

/-- The ranking and the board count alike, and both turn with the colours. -/
theorem sheet_law (m : FormatMatch) (exchanges : List Exchange) (config : MatchFormatConfig)
    (mode : AfterblowMode) (redRegistrationId : ι) (isWinner : Bool) :
    (∀ registrationId,
      countOf (computeAggregates registrationId redRegistrationId exchanges isWinner mode) =
        (computeMatchFormatScore m exchanges config mode).side
          (colorOf redRegistrationId registrationId)) ∧
      computeMatchFormatScore m (exchanges.map swapColors) config mode =
        (computeMatchFormatScore m exchanges config mode).swap ∧
      ∀ blueRegistrationId, blueRegistrationId ≠ redRegistrationId →
        computeAggregates redRegistrationId redRegistrationId (exchanges.map swapColors) isWinner
            mode =
          computeAggregates blueRegistrationId redRegistrationId exchanges isWinner mode ∧
        computeAggregates blueRegistrationId redRegistrationId (exchanges.map swapColors) isWinner
            mode =
          computeAggregates redRegistrationId redRegistrationId exchanges isWinner mode := by
  refine ⟨fun registrationId => ?_, computeMatchFormatScore_swap m exchanges config mode,
    fun blueRegistrationId hBlue => ?_⟩
  · rw [computeMatchFormatScore_side, countOf_computeAggregates]
  · have hRed : colorOf redRegistrationId redRegistrationId = .red := if_pos rfl
    have hOther : colorOf redRegistrationId blueRegistrationId = .blue := if_neg hBlue.symm
    constructor
    · refine computeAggregates_congr ?_
      rw [tallyOf_swap, Tally.side_swap, hRed, hOther]
      rfl
    · refine computeAggregates_congr ?_
      rw [tallyOf_swap, Tally.side_swap, hRed, hOther]
      rfl

theorem sheet_law_afterblow :
    computeAggregates 2 1 [⟨.afterblow, some .blue, some 2, some 1, false⟩] false .full =
      computeAggregates 1 1 [⟨.afterblow, some .red, some 2, some 1, false⟩] false .full :=
  ((sheet_law ⟨none, none⟩ [⟨.afterblow, some .red, some 2, some 1, false⟩] suddenDeathPool .full 1
    false).2.2 2 (by decide)).2

end Law

end MyClash.Scoring
