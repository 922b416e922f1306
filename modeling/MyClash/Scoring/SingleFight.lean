import MyClash.MatchFormat.RoundEnd
import MyClash.MatchStatus
import MyClash.Standings.Aggregates

/-!
# A single fight

The score of a sheet of exchanges and cards, the end it decides and the row the recompute writes.
A ceiling that wipes the board is read off its end reason; the cards come after the wipe.
-/

namespace MyClash.Scoring

universe u

open MatchFormat Standings

/-! ## The score of a sheet -/

structure MatchScore where
  redScore : ℚ
  blueScore : ℚ
  redTargetPoints : ℚ
  blueTargetPoints : ℚ
  redTimesHit : ℕ
  blueTimesHit : ℕ
  doubles : ℕ
  redBelowZero : Option ℚ
  blueBelowZero : Option ℚ

def MatchScore.cap (score : MatchScore) : CapScore where
  redScore := score.redScore
  blueScore := score.blueScore
  redBelowZero := score.redBelowZero
  blueBelowZero := score.blueBelowZero
  doubles := score.doubles

/-- What the exchanges counted so far add up to. -/
structure Tally where
  redEarned : ℚ
  blueEarned : ℚ
  redTargetPoints : ℚ
  blueTargetPoints : ℚ
  redTimesHit : ℕ
  blueTimesHit : ℕ
  doubles : ℕ

def Tally.zero : Tally := ⟨0, 0, 0, 0, 0, 0, 0⟩

def countHit (mode : AfterblowMode) (t : Tally) (ex : Exchange) : Tally :=
  match ex.type with
  | .clean =>
    match ex.firstStrikerColor with
    | some .red =>
      { t with
        redEarned := t.redEarned + ex.firstStrikeValue.getD 0
        redTargetPoints := t.redTargetPoints + ex.firstStrikeValue.getD 0
        blueTimesHit := t.blueTimesHit + 1 }
    | some .blue =>
      { t with
        blueEarned := t.blueEarned + ex.firstStrikeValue.getD 0
        blueTargetPoints := t.blueTargetPoints + ex.firstStrikeValue.getD 0
        redTimesHit := t.redTimesHit + 1 }
    | none => t
  | .afterblow =>
    let deltas :=
      computeAfterblowDeltas mode (ex.firstStrikeValue.getD 0) (ex.afterblowValue.getD 0)
    match ex.firstStrikerColor with
    | some .red =>
      { t with
        redEarned := t.redEarned + deltas.1
        redTargetPoints := t.redTargetPoints + deltas.1
        blueEarned := t.blueEarned + deltas.2
        blueTargetPoints := t.blueTargetPoints + deltas.2
        redTimesHit := t.redTimesHit + 1 }
    | some .blue =>
      { t with
        blueEarned := t.blueEarned + deltas.1
        blueTargetPoints := t.blueTargetPoints + deltas.1
        redEarned := t.redEarned + deltas.2
        redTargetPoints := t.redTargetPoints + deltas.2
        blueTimesHit := t.blueTimesHit + 1 }
    | none => t
  | .double => { t with doubles := t.doubles + 1 }
  | .noExchange => t

def tallyOf (exchanges : List Exchange) (mode : AfterblowMode) : Tally :=
  (exchanges.filter fun ex => !ex.voided).foldl (countHit mode) .zero

/-- Reaching the ceiling wipes the board, unless the result stands. -/
def computeMatchFormatScore (m : FormatMatch) (exchanges : List Exchange)
    (config : MatchFormatConfig) (mode : AfterblowMode) : MatchScore :=
  let t := tallyOf exchanges mode
  let wiped : Bool :=
    match getEffectiveMaxDoubles m config with
    | some maxDoubles => t.doubles ≥ maxDoubles && maxDoubleHitZeroesScores config
    | none => false
  if wiped then
    ⟨0, 0, t.redTargetPoints, t.blueTargetPoints, t.redTimesHit, t.blueTimesHit, t.doubles, none,
      none⟩
  else
    let board := applyScoringDirection config t.redEarned t.blueEarned
    let below := belowZero config t.redEarned t.blueEarned
    ⟨board.1, board.2, t.redTargetPoints, t.blueTargetPoints, t.redTimesHit, t.blueTimesHit,
      t.doubles, below.1, below.2⟩

/-! ## The rulesets -/

/-- The built-in federal ruleset, a club's own formula, and the plain point cap. -/
inductive Engine where
  | tfV1
  | formula (hit : ℚ)
  | genericPointsCap (hit : ℚ)

/-- Every hit is worth the configured value, an afterblow no more than a clean one. -/
def remapHit (hit : ℚ) (ex : Exchange) : Exchange :=
  match ex.type with
  | .clean | .afterblow =>
    { ex with type := .clean, firstStrikeValue := some hit, afterblowValue := none }
  | _ => ex

def withoutMaxDoubles (config : MatchFormatConfig) : MatchFormatConfig :=
  { config with maxDoubleHits := none }

def Engine.computeMatchScore (engine : Engine) (m : FormatMatch) (exchanges : List Exchange)
    (mode : AfterblowMode) (config : MatchFormatConfig) : MatchScore :=
  match engine with
  | .tfV1 => computeMatchFormatScore m exchanges config mode
  | .formula hit => computeMatchFormatScore m (exchanges.map (remapHit hit)) config .full
  | .genericPointsCap hit =>
    computeMatchFormatScore m (exchanges.map (remapHit hit)) (withoutMaxDoubles config) .full

/-- A ruleset without a doubles ceiling plays under the format without one. -/
def scoredMatchFormat (config : MatchFormatConfig) : Engine → MatchFormatConfig
  | .genericPointsCap _ => withoutMaxDoubles config
  | _ => config

structure MatchEndDecision where
  isOver : Bool
  reason : Option RoundEndReason

section Decide

variable (upperTrimmed : String → String)

def endOnPointCapOrMaxDoubles (m : FormatMatch) (score : MatchScore) (config : MatchFormatConfig)
    (edition : DecisionEdition) : MatchEndDecision :=
  let outcome := roundOutcome score.cap config edition upperTrimmed m
  ⟨outcome.autoOver, outcome.endReason⟩

def Engine.isMatchOver (engine : Engine) (m : FormatMatch) (score : MatchScore)
    (config : MatchFormatConfig) (edition : DecisionEdition) : MatchEndDecision :=
  match engine with
  | .genericPointsCap _ =>
    if pointCapEndsBout score.cap config edition upperTrimmed m then ⟨true, some .firstToPoints⟩
    else ⟨false, none⟩
  | _ => endOnPointCapOrMaxDoubles upperTrimmed m score config edition

end Decide

/-! ## The cards and the row -/

/-- A bout of two fighters. -/
structure RulesetMatch (ι : Type u) where
  redRegistrationId : ι
  blueRegistrationId : ι
  distinct : redRegistrationId ≠ blueRegistrationId
  status : MatchStatus
  format : FormatMatch

structure PenaltyRow (ι : Type u) where
  scoreDelta : Option ℚ
  registrationId : ι

structure LoadedBout (ι : Type u) where
  fight : RulesetMatch ι
  engine : Engine
  decisionEdition : DecisionEdition
  config : MatchFormatConfig
  afterblowMode : AfterblowMode
  exchanges : List Exchange
  penaltyRows : List (PenaltyRow ι)

structure SingleFightScore (ι : Type u) where
  score : MatchScore
  decision : MatchEndDecision
  winnerRegistrationId : Option ι

/-- What the row of a bout is written with. -/
structure FightUpdates (ι : Type u) where
  redScore : ℚ
  blueScore : ℚ
  completion : Option (Option ι × Option RoundEndReason)

def endReasonText : RoundEndReason → String
  | .firstToPoints => "first_to_points"
  | .maxDoubles => "max_doubles"
  | .maxDoublesDraw => "max_doubles_draw"
  | .maxDoublesResultStands => "max_doubles_result_stands"

def outcomesOf : Option Color → BoutOutcome × BoutOutcome
  | some .red => (.win, .loss)
  | some .blue => (.loss, .win)
  | none => (.draw, .draw)

theorem outcomesOf_inj {c c' : Option Color} : outcomesOf c = outcomesOf c' ↔ c = c' := by
  refine ⟨fun h => ?_, congrArg outcomesOf⟩
  have hFirst := congrArg Prod.fst h
  rcases c with _ | _ | _
  · rcases c' with _ | _ | _
    · rfl
    · cases hFirst
    · cases hFirst
  · rcases c' with _ | _ | _
    · cases hFirst
    · rfl
    · cases hFirst
  · rcases c' with _ | _ | _
    · cases hFirst
    · cases hFirst
    · rfl

section Row

variable {ι : Type u} [DecidableEq ι] (upperTrimmed : String → String)

def addCard (m : RulesetMatch ι) (score : MatchScore) (row : PenaltyRow ι) : MatchScore :=
  let delta := row.scoreDelta.getD 0
  { score with
    redScore := if row.registrationId = m.redRegistrationId then score.redScore + delta
      else score.redScore
    blueScore := if row.registrationId = m.blueRegistrationId then score.blueScore + delta
      else score.blueScore }

def applyPenaltyDeltas (score : MatchScore) (m : RulesetMatch ι) (rows : List (PenaltyRow ι)) :
    MatchScore :=
  rows.foldl (addCard m) score

def RulesetMatch.side (m : RulesetMatch ι) : Color → ι
  | .red => m.redRegistrationId
  | .blue => m.blueRegistrationId

def endWinnerRegistrationId (reason : Option RoundEndReason) (m : RulesetMatch ι)
    (score : MatchScore) (config : MatchFormatConfig) (edition : DecisionEdition) : Option ι :=
  match reason with
  | some .firstToPoints => (pointCapWinnerColor score.cap config edition).map m.side
  | some .maxDoublesResultStands => (leadingColor score.redScore score.blueScore).map m.side
  | _ => none

/-- The decision and the winner are taken on the score with the cards. -/
def scoreSingleFight (bout : LoadedBout ι) : SingleFightScore ι :=
  let score := applyPenaltyDeltas
    (bout.engine.computeMatchScore bout.fight.format bout.exchanges bout.afterblowMode bout.config)
    bout.fight bout.penaltyRows
  let decision :=
    bout.engine.isMatchOver upperTrimmed bout.fight.format score bout.config bout.decisionEdition
  ⟨score, decision, endWinnerRegistrationId decision.reason bout.fight score
    (scoredMatchFormat bout.config bout.engine) bout.decisionEdition⟩

/-- The recompute of a fight of one round: the result is written only as the bout completes. -/
def recomputeFromSheet (bout : LoadedBout ι) : FightUpdates ι :=
  let scored := scoreSingleFight upperTrimmed bout
  { redScore := scored.score.redScore
    blueScore := scored.score.blueScore
    completion :=
      if bout.fight.status ≠ .completed ∧ scored.decision.isOver then
        some (scored.winnerRegistrationId, scored.decision.reason)
      else none }

/-- The written row, as its readers see it. -/
def completedRow (bout : LoadedBout ι) (result : Option ι × Option RoundEndReason) :
    FinishedBout ι where
  winnerRegistrationId := result.1
  redRegistrationId := some bout.fight.redRegistrationId
  blueRegistrationId := some bout.fight.blueRegistrationId
  redScore := some (recomputeFromSheet upperTrimmed bout).redScore
  blueScore := some (recomputeFromSheet upperTrimmed bout).blueScore
  endReason := result.2.map endReasonText

/-- What a bout stopped at the doubles ceiling is worth to both fighters. -/
def ceilingOutcomes (config : MatchFormatConfig) (redScore blueScore : ℚ) :
    BoutOutcome × BoutOutcome :=
  match config.maxDoubleHitOutcome with
  | .doubleLossZeroScores => (.loss, .loss)
  | .drawZeroScores => (.draw, .draw)
  | .resultStands => outcomesOf (leadingColor redScore blueScore)

/-- What the cards of one fighter add up to. -/
def cardTotal (rows : List (PenaltyRow ι)) (registrationId : ι) : ℚ :=
  ((rows.filter fun row => row.registrationId = registrationId).map (·.scoreDelta.getD 0)).sum

/-! ## Reading a row -/

theorem outcomesOf_none : outcomesOf none = (.draw, .draw) := rfl

theorem boutOutcomes_of_not_doubleLoss {bout : FinishedBout ι}
    (h : isDoubleLossBout bout.endReason = false) :
    boutOutcomes bout = outcomesOf (winnerColorFrom bout) := by
  rw [boutOutcomes, h, if_neg Bool.false_ne_true]
  rcases winnerColorFrom bout with _ | _ | _
  · rfl
  · rfl
  · rfl

theorem winnerColorFrom_of_none {bout : FinishedBout ι} (h : bout.winnerRegistrationId = none) :
    winnerColorFrom bout = leadingColor (bout.redScore.getD 0) (bout.blueScore.getD 0) := by
  rw [winnerColorFrom, h]

/-- A stored winner of the bout is read back as its side. -/
theorem winnerColorFrom_of_side {bout : FinishedBout ι} {m : RulesetMatch ι} {color : Color}
    (hRed : bout.redRegistrationId = some m.redRegistrationId)
    (hBlue : bout.blueRegistrationId = some m.blueRegistrationId)
    (hWinner : bout.winnerRegistrationId = some (m.side color)) :
    winnerColorFrom bout = some color := by
  rw [winnerColorFrom, hWinner, hRed, hBlue]
  cases color with
  | red => exact if_pos rfl
  | blue => exact (if_neg fun hEq => m.distinct (Option.some.inj hEq).symm).trans (if_pos rfl)

/-- Where the leader of the board is stored, the row is read as the board. -/
theorem winnerColorFrom_of_leader {bout : FinishedBout ι} {m : RulesetMatch ι}
    (hRed : bout.redRegistrationId = some m.redRegistrationId)
    (hBlue : bout.blueRegistrationId = some m.blueRegistrationId)
    (hWinner : bout.winnerRegistrationId =
      (leadingColor (bout.redScore.getD 0) (bout.blueScore.getD 0)).map m.side) :
    winnerColorFrom bout = leadingColor (bout.redScore.getD 0) (bout.blueScore.getD 0) := by
  cases hLeader : leadingColor (bout.redScore.getD 0) (bout.blueScore.getD 0) with
  | none =>
    rw [hLeader] at hWinner
    rw [winnerColorFrom_of_none hWinner, hLeader]
  | some color =>
    rw [hLeader] at hWinner
    exact winnerColorFrom_of_side hRed hBlue hWinner

/-! ## The ceiling and its cards -/

section Ceiling

variable {upperTrimmed : String → String} {bout : LoadedBout ι}

theorem applyPenaltyDeltas_scores (m : RulesetMatch ι) (rows : List (PenaltyRow ι))
    (score : MatchScore) :
    (applyPenaltyDeltas score m rows).redScore =
        score.redScore + cardTotal rows m.redRegistrationId ∧
      (applyPenaltyDeltas score m rows).blueScore =
        score.blueScore + cardTotal rows m.blueRegistrationId ∧
      (applyPenaltyDeltas score m rows).doubles = score.doubles := by
  induction rows generalizing score with
  | nil => simp [applyPenaltyDeltas, cardTotal]
  | cons row rows ih =>
    obtain ⟨hRed, hBlue, hDoubles⟩ := ih (addCard m score row)
    have hStep : applyPenaltyDeltas score m (row :: rows) =
        applyPenaltyDeltas (addCard m score row) m rows := rfl
    rw [hStep, hRed, hBlue, hDoubles]
    refine ⟨?_, ?_, rfl⟩
    · by_cases hCard : row.registrationId = m.redRegistrationId
      · simp [addCard, cardTotal, hCard, add_assoc]
      · simp [addCard, cardTotal, hCard]
    · by_cases hCard : row.registrationId = m.blueRegistrationId
      · simp [addCard, cardTotal, hCard, add_assoc]
      · simp [addCard, cardTotal, hCard]

/-- At the ceiling the board is wiped, unless the result stands. -/
theorem wiped_of_ceiling {m : FormatMatch} {exchanges : List Exchange} {config : MatchFormatConfig}
    {mode : AfterblowMode} {maxDoubles : ℕ} (hMax : getEffectiveMaxDoubles m config = some maxDoubles)
    (hCeiling : maxDoubles ≤ (computeMatchFormatScore m exchanges config mode).doubles)
    (hWipes : maxDoubleHitZeroesScores config = true) :
    (computeMatchFormatScore m exchanges config mode).redScore = 0 ∧
      (computeMatchFormatScore m exchanges config mode).blueScore = 0 := by
  have hDoubles : (computeMatchFormatScore m exchanges config mode).doubles =
      (tallyOf exchanges mode).doubles := by
    rw [computeMatchFormatScore, apply_ite MatchScore.doubles]
    exact ite_self _
  rw [hDoubles] at hCeiling
  rw [computeMatchFormatScore]
  simp [hMax, hCeiling, hWipes]

theorem atTheCeiling_of_endReason {score : CapScore} {config : MatchFormatConfig}
    {edition : DecisionEdition} {m : FormatMatch}
    (h : (roundOutcome score config edition upperTrimmed m).endReason =
      some (maxDoubleHitEndReason config)) : atTheCeiling score config m = true := by
  have hCap : RoundEndReason.firstToPoints ≠ maxDoubleHitEndReason config := by
    rw [maxDoubleHitEndReason]
    split
    · nofun
    · nofun
    · nofun
  unfold roundOutcome at h
  split_ifs at h with hFirst hCap' hCeiling
  · rw [Bool.and_eq_true, Bool.and_eq_true] at hFirst
    exact hFirst.1.1
  · exact absurd (Option.some.inj h) hCap
  · exact hCeiling

/-- A ruleset with a ceiling decides as a round does; the one without names the cap only. -/
theorem decision_of_ceiling {engine : Engine} {score : MatchScore} {config : MatchFormatConfig}
    {edition : DecisionEdition} {m : FormatMatch}
    (h : (engine.isMatchOver upperTrimmed m score config edition).reason =
      some (maxDoubleHitEndReason (scoredMatchFormat config engine))) :
    scoredMatchFormat config engine = config ∧
      (roundOutcome score.cap config edition upperTrimmed m).endReason =
        some (maxDoubleHitEndReason config) := by
  cases engine with
  | tfV1 => exact ⟨rfl, h⟩
  | formula hit => exact ⟨rfl, h⟩
  | genericPointsCap hit =>
    unfold Engine.isMatchOver at h
    dsimp only at h
    split at h
    · have hReason := Option.some.inj h
      rw [maxDoubleHitEndReason] at hReason
      split at hReason
      · cases hReason
      · cases hReason
      · cases hReason
    · cases h

/-- At the ceiling the board of a wiping outcome is the cards alone. -/
theorem cards_of_ceiling {config : MatchFormatConfig} {engine : Engine} {m : RulesetMatch ι}
    {exchanges : List Exchange} {mode : AfterblowMode} {rows : List (PenaltyRow ι)}
    {edition : DecisionEdition} (hWipes : maxDoubleHitZeroesScores config = true)
    (h : (engine.isMatchOver upperTrimmed m.format (applyPenaltyDeltas
        (engine.computeMatchScore m.format exchanges mode config) m rows) config edition).reason =
      some (maxDoubleHitEndReason (scoredMatchFormat config engine))) :
    (applyPenaltyDeltas (engine.computeMatchScore m.format exchanges mode config) m rows).redScore =
        cardTotal rows m.redRegistrationId ∧
      (applyPenaltyDeltas (engine.computeMatchScore m.format exchanges mode config) m
        rows).blueScore = cardTotal rows m.blueRegistrationId := by
  obtain ⟨hFormat, hReason⟩ := decision_of_ceiling h
  obtain ⟨hRed, hBlue, hDoubles⟩ := applyPenaltyDeltas_scores m rows
    (engine.computeMatchScore m.format exchanges mode config)
  have hCeiling := atTheCeiling_of_endReason hReason
  rw [atTheCeiling] at hCeiling
  split at hCeiling
  · rename_i maxDoubles hMax
    have hLe : maxDoubles ≤ (engine.computeMatchScore m.format exchanges mode config).doubles := by
      rw [← hDoubles]
      exact of_decide_eq_true hCeiling
    have hWiped : (engine.computeMatchScore m.format exchanges mode config).redScore = 0 ∧
        (engine.computeMatchScore m.format exchanges mode config).blueScore = 0 := by
      cases engine with
      | tfV1 => exact wiped_of_ceiling hMax hLe hWipes
      | formula hit => exact wiped_of_ceiling hMax hLe hWipes
      | genericPointsCap hit =>
        rw [← hFormat] at hMax
        unfold getEffectiveMaxDoubles at hMax
        split at hMax
        · cases hMax
        · cases hMax
    rw [hRed, hBlue, hWiped.1, hWiped.2, zero_add, zero_add]
    exact ⟨rfl, rfl⟩
  · cases hCeiling

end Ceiling

/-- A fight stopped at the ceiling reads as its outcome, unless cards part the fighters of a
drawn one. -/
theorem ceilingBout_outcomes_iff (upperTrimmed : String → String) (bout : LoadedBout ι)
    (result : Option ι × Option RoundEndReason)
    (hResult : (recomputeFromSheet upperTrimmed bout).completion = some result)
    (hCeiling : result.2 =
      some (maxDoubleHitEndReason (scoredMatchFormat bout.config bout.engine))) :
    boutOutcomes (completedRow upperTrimmed bout result) =
        ceilingOutcomes bout.config (recomputeFromSheet upperTrimmed bout).redScore
          (recomputeFromSheet upperTrimmed bout).blueScore ↔
      (bout.config.maxDoubleHitOutcome = .drawZeroScores →
        cardTotal bout.penaltyRows bout.fight.redRegistrationId =
          cardTotal bout.penaltyRows bout.fight.blueRegistrationId) := by
  have hWritten : result = ((scoreSingleFight upperTrimmed bout).winnerRegistrationId,
      (scoreSingleFight upperTrimmed bout).decision.reason) := by
    rw [recomputeFromSheet] at hResult
    dsimp only at hResult
    split at hResult
    · exact (Option.some.inj hResult).symm
    · cases hResult
  have hReason : (scoreSingleFight upperTrimmed bout).decision.reason =
      some (maxDoubleHitEndReason (scoredMatchFormat bout.config bout.engine)) := by
    rw [← hCeiling, hWritten]
  have hFormat := (decision_of_ceiling hReason).1
  have hWinner : result.1 = endWinnerRegistrationId (some (maxDoubleHitEndReason bout.config))
      bout.fight (scoreSingleFight upperTrimmed bout).score bout.config bout.decisionEdition := by
    rw [hFormat] at hReason
    rw [hWritten, ← hReason]
    exact congrArg (fun format => endWinnerRegistrationId _ bout.fight _ format _) hFormat
  rw [hFormat, maxDoubleHitEndReason] at hCeiling
  rw [maxDoubleHitEndReason] at hWinner
  rw [ceilingOutcomes]
  cases hOutcome : bout.config.maxDoubleHitOutcome with
  | doubleLossZeroScores =>
    rw [hOutcome] at hCeiling
    have hLoss : isDoubleLossBout (completedRow upperTrimmed bout result).endReason = true := by
      rw [completedRow, hCeiling]
      rfl
    rw [boutOutcomes, if_pos hLoss]
    exact iff_of_true rfl nofun
  | drawZeroScores =>
    rw [hOutcome] at hCeiling hWinner
    have hWipes : maxDoubleHitZeroesScores bout.config = true := by
      rw [maxDoubleHitZeroesScores, hOutcome]
      rfl
    obtain ⟨hRed, hBlue⟩ := cards_of_ceiling hWipes hReason
    have hCards : winnerColorFrom (completedRow upperTrimmed bout result) =
        leadingColor (cardTotal bout.penaltyRows bout.fight.redRegistrationId)
          (cardTotal bout.penaltyRows bout.fight.blueRegistrationId) := by
      rw [winnerColorFrom_of_none hWinner, ← hRed, ← hBlue]
      rfl
    have hNot : isDoubleLossBout (completedRow upperTrimmed bout result).endReason = false := by
      rw [completedRow, hCeiling]
      rfl
    rw [boutOutcomes_of_not_doubleLoss hNot, hCards, ← outcomesOf_none, outcomesOf_inj,
      leadingColor_eq_none]
    exact (imp_iff_right rfl).symm
  | resultStands =>
    rw [hOutcome] at hCeiling hWinner
    have hNot : isDoubleLossBout (completedRow upperTrimmed bout result).endReason = false := by
      rw [completedRow, hCeiling]
      rfl
    have hLeader : winnerColorFrom (completedRow upperTrimmed bout result) =
        leadingColor (recomputeFromSheet upperTrimmed bout).redScore
          (recomputeFromSheet upperTrimmed bout).blueScore :=
      winnerColorFrom_of_leader (m := bout.fight) rfl rfl hWinner
    rw [boutOutcomes_of_not_doubleLoss hNot, hLeader]
    exact iff_of_true rfl nofun

theorem red_ne_blue : (1 : ℕ) ≠ 2 := by decide

/-- A pool bout at its second double, under a ceiling of two that draws the bout. -/
def drawnPool (cards : List (PenaltyRow ℕ)) : LoadedBout ℕ where
  fight := ⟨1, 2, red_ne_blue, .running, ⟨some .pool, none⟩⟩
  engine := .tfV1
  decisionEdition := .edition2026_10
  config := ⟨10, .normal, some 2, .drawZeroScores, ⟨[.draw], none, [.suddenDeath], [.suddenDeath]⟩⟩
  afterblowMode := .full
  exchanges := [⟨.double, none, none, none, false⟩, ⟨.double, none, none, none, false⟩]
  penaltyRows := cards

theorem ceilingBout_outcomes_noCard :
    boutOutcomes (completedRow id (drawnPool []) (none, some .maxDoublesDraw)) = (.draw, .draw) :=
  (ceilingBout_outcomes_iff id (drawnPool []) (none, some .maxDoublesDraw) (by decide +kernel)
    (by decide +kernel)).mpr fun _ => rfl

/-- A yellow card of minus one for red, and the drawn bout reads as a win of blue. -/
theorem ceilingBout_cardParts :
    (recomputeFromSheet id (drawnPool [⟨some (-1), 1⟩])).completion =
        some (none, some .maxDoublesDraw) ∧
      ceilingOutcomes (drawnPool [⟨some (-1), 1⟩]).config (-1) 0 = (.draw, .draw) ∧
      boutOutcomes (completedRow id (drawnPool [⟨some (-1), 1⟩]) (none, some .maxDoublesDraw)) =
        (.loss, .win) := by
  decide +kernel

end Row

end MyClash.Scoring
