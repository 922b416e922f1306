import MyClash.Scoring.Series

/-!
# The columns of a best-of bout

The row of a series and its sheet, under the doors that write the row: a hit, a card, a void or a
restore that counts the sheet again, an End of the round, a Start of the next and a Reopen of the
clock. A door that refuses writes nothing.
-/

namespace MyClash.Scoring

universe u

open MatchFormat Standings

/-! ## The sheet -/

/-- A row of the sheet, stamped with the round that was open when it arrived. -/
structure RoundRow (α : Type u) where
  roundNumber : ℕ
  voided : Bool
  row : α

section Sheet

variable {α : Type u}

def inRound (rows : List (RoundRow α)) (round : ℕ) : List α :=
  (rows.filter fun r => !r.voided && r.roundNumber = round).map (·.row)

def setVoided (rows : List (RoundRow α)) (i : ℕ) (voided : Bool) : List (RoundRow α) :=
  rows.modify i fun r => { r with voided := voided }

end Sheet

/-- A row that counts is one that is not voided. -/
def mapExchange (ex : Exchange) : Exchange := { ex with voided := false }

/-- The bout and its copy of the rules it is fought under. -/
structure SeriesRules (ι : Type u) where
  fight : RulesetMatch ι
  engine : Engine
  decisionEdition : DecisionEdition
  config : MatchFormatConfig
  afterblowMode : AfterblowMode
  bestOf : ℕ
  bestOf_gt : 1 < bestOf

structure SeriesBout (ι : Type u) where
  row : SeriesRow ι
  currentRound : ℕ
  exchanges : List (RoundRow Exchange)
  penalties : List (RoundRow (PenaltyRow ι))

def SeriesBout.fresh (ι : Type u) : SeriesBout ι := ⟨.fresh ι, 1, [], []⟩

structure RoundEvaluation where
  score : MatchScore
  outcome : RoundOutcome

/-- What the bracket and the Event answer a recount. -/
structure Answers where
  /-- The result was read to stay: the Event is over, or a later bout rests on it. -/
  staysFinished : Bool
  /-- The bout may leave `completed`. -/
  uncompletes : Bool

/-! ## A closed round and its sheet -/

inductive RoundCorrection where
  | same
  | score (round : ClosedRound)
  | refuse

def closedAtTheCeiling : Option ClosingReason → Bool
  | some (.auto .firstToPoints) | some .timeLimit | none => false
  | some (.auto _) => true

/-- The score follows the sheet, the winner never moves. -/
def correctedClosedRound (closed : ClosedRound) (ev : RoundEvaluation) : RoundCorrection :=
  let stillThere := ev.outcome.autoOver && ev.outcome.endReason.map .auto = closed.endReason
  let winner :=
    if ev.outcome.autoOver then ev.outcome.winnerColor
    else leadingColor ev.score.redScore ev.score.blueScore
  if closedAtTheCeiling closed.endReason && !stillThere then .refuse
  else if winner ≠ closed.winnerColor then .refuse
  else if ev.score.redScore = closed.redScore ∧ ev.score.blueScore = closed.blueScore then .same
  else .score { closed with redScore := ev.score.redScore, blueScore := ev.score.blueScore }

/-- A round closed by itself that its sheet no longer ends. -/
def roundShouldReopen (closed : ClosedRound) (ev : RoundEvaluation) : Bool :=
  let closedByTheOperator := closed.endReason = some .timeLimit ∨ closed.endReason = none
  !decide closedByTheOperator && !ev.outcome.autoOver

def correctSnapshot (reopens : Bool) (closed : ClosedRound) (ev : RoundEvaluation) : ClosedRound :=
  if reopens then closed
  else
    match correctedClosedRound closed ev with
    | .score round => round
    | .same | .refuse => closed

section Recount

variable {ι : Type u} [DecidableEq ι] (upperTrimmed : String → String) (rules : SeriesRules ι)

def SeriesBout.evaluateRound (bout : SeriesBout ι) (round : ℕ) : RoundEvaluation :=
  let score := applyPenaltyDeltas
    (rules.engine.computeMatchScore rules.fight.format
      ((inRound bout.exchanges round).map mapExchange) rules.afterblowMode rules.config)
    rules.fight (inRound bout.penalties round)
  ⟨score, roundOutcome score.cap (scoredMatchFormat rules.config rules.engine)
    rules.decisionEdition upperTrimmed rules.fight.format⟩

/-- The open round's own; not the round that decided a result that stays. -/
def SeriesBout.reopenableRound (bout : SeriesBout ι) (answers : Answers) : Option ℕ :=
  let clinched := bout.row.rounds.any (·.round = bout.currentRound)
  if !bout.row.completed || !clinched then some bout.currentRound
  else if answers.staysFinished then none
  else some bout.currentRound

/-- Does the closed round go back to the referee? -/
def SeriesBout.reopensRound (bout : SeriesBout ι) (answers : Answers) (closed : ClosedRound) : Bool :=
  some closed.round = bout.reopenableRound answers &&
    roundShouldReopen closed (bout.evaluateRound upperTrimmed rules closed.round)

def SeriesBout.correctedSnapshots (bout : SeriesBout ι) (answers : Answers) : List ClosedRound :=
  bout.row.rounds.map fun closed =>
    correctSnapshot (bout.reopensRound upperTrimmed rules answers closed) closed
      (bout.evaluateRound upperTrimmed rules closed.round)

omit [DecidableEq ι] in
/-- The last closed round back in play, and the series with it. -/
def SeriesBout.popLastClosedRound (bout : SeriesBout ι) : Option (SeriesBout ι) :=
  bout.row.rounds.getLast?.map fun popped =>
    let rounds := bout.row.rounds.dropLast
    { bout with
      currentRound := popped.round
      row :=
        { bout.row with
          rounds := rounds
          redRoundWins := roundWins rounds .red
          blueRoundWins := roundWins rounds .blue
          awaitingRoundAdvance := false
          winnerRegistrationId := none
          endReason := none } }

omit [DecidableEq ι] in
/-- The round whose close ended the series, and no other. -/
def SeriesBout.popClinchingRound (bout : SeriesBout ι) : Option (SeriesBout ι) :=
  if bout.row.awaitingRoundAdvance ||
      bout.row.rounds.getLast?.map (·.round) ≠ some bout.currentRound then none
  else bout.popLastClosedRound

omit [DecidableEq ι] in
def SeriesBout.reopenClosedRound (bout : SeriesBout ι) (answers : Answers) : SeriesBout ι :=
  match bout.popLastClosedRound with
  | some popped =>
    if !bout.row.completed || answers.uncompletes then
      { popped with row := { popped.row with completed := false } }
    else bout
  | none => bout

/-- The sheet counted again: the closed rounds, then the open one. -/
def SeriesBout.recomputeBestOfRounds (bout : SeriesBout ι) (answers : Answers) : SeriesBout ι :=
  let ev := bout.evaluateRound upperTrimmed rules bout.currentRound
  let rounds := bout.correctedSnapshots upperTrimmed rules answers
  let counted : SeriesBout ι :=
    { bout with
      row :=
        { bout.row with
          rounds := rounds
          redScore := ev.score.redScore
          blueScore := ev.score.blueScore } }
  let currentAlreadyClosed := rounds.any (·.round = bout.currentRound)
  if bout.row.rounds.any (bout.reopensRound upperTrimmed rules answers) then
    counted.reopenClosedRound answers
  else if !currentAlreadyClosed && ev.outcome.autoOver then
    { counted with
      row := buildRoundClosure rules.fight rules.bestOf counted.row
        ⟨bout.currentRound, ev.score.redScore, ev.score.blueScore, ev.outcome.winnerColor,
          ev.outcome.endReason.map .auto⟩ }
  else
    { counted with
      row :=
        { counted.row with
          redRoundWins := roundWins rounds .red
          blueRoundWins := roundWins rounds .blue
          awaitingRoundAdvance := currentAlreadyClosed &&
            !(seriesResult rounds rules.bestOf).isOver && !bout.row.completed } }

/-! ## The doors -/

omit [DecidableEq ι] in
/-- The row under the clock's Reopen. -/
def SeriesBout.reopen (bout : SeriesBout ι) : SeriesBout ι :=
  let popped := bout.popClinchingRound.getD bout
  { popped with
    row := { popped.row with completed := false, winnerRegistrationId := none, endReason := none } }

/-- The operator's own close of the open round, for whoever leads. -/
def SeriesBout.endRound (bout : SeriesBout ι) (levelRoundEnds : Bool) : Option (SeriesBout ι) :=
  let score := (bout.evaluateRound upperTrimmed rules bout.currentRound).score
  let winnerColor := leadingColor score.redScore score.blueScore
  if bout.row.completed || bout.row.awaitingRoundAdvance ||
      bout.row.rounds.any (·.round = bout.currentRound) then none
  else if winnerColor.isNone && !levelRoundEnds then none
  else
    some { bout with
      row := buildRoundClosure rules.fight rules.bestOf bout.row
        ⟨bout.currentRound, score.redScore, score.blueScore, winnerColor, some .timeLimit⟩ }

/-- The next round, its clock put to zero first: an ended one by a Reopen. -/
def SeriesBout.advanceRound (bout : SeriesBout ι) (clockEnded : Bool) (answers : Answers) :
    Option (SeriesBout ι) :=
  if !bout.row.awaitingRoundAdvance || bout.row.completed then none
  else
    let stopped := if clockEnded then bout.reopen else bout
    let opened : SeriesBout ι :=
      { stopped with
        currentRound := bout.currentRound + 1
        row := { stopped.row with awaitingRoundAdvance := false } }
    some (opened.recomputeBestOfRounds upperTrimmed rules answers)

/-- `recount` is a hit or an advance the server holds already, sent again. -/
inductive SeriesEvent (ι : Type u) where
  | createExchange (ex : Exchange)
  | createPenalty (row : PenaltyRow ι)
  | voidExchange (i : ℕ)
  | revertVoidExchange (i : ℕ)
  | voidPenalty (i : ℕ)
  | recount
  | endRoundOnTime (levelRoundEnds : Bool)
  | advanceRound (clockEnded : Bool)
  | reopen

def SeriesBout.door (bout : SeriesBout ι) (event : SeriesEvent ι) (answers : Answers) :
    Option (SeriesBout ι) :=
  let count (sheet : SeriesBout ι) := sheet.recomputeBestOfRounds upperTrimmed rules answers
  match event with
  | .createExchange ex =>
    if bout.row.awaitingRoundAdvance then none
    else some (count
      { bout with exchanges := bout.exchanges ++ [⟨bout.currentRound, false, ex⟩] })
  | .createPenalty row =>
    if bout.row.awaitingRoundAdvance then none
    else some (count
      { bout with penalties := bout.penalties ++ [⟨bout.currentRound, false, row⟩] })
  | .voidExchange i => some (count { bout with exchanges := setVoided bout.exchanges i true })
  | .revertVoidExchange i => some (count { bout with exchanges := setVoided bout.exchanges i false })
  | .voidPenalty i => some (count { bout with penalties := setVoided bout.penalties i true })
  | .recount => some (count bout)
  | .endRoundOnTime levelRoundEnds => bout.endRound upperTrimmed rules levelRoundEnds
  | .advanceRound clockEnded => bout.advanceRound upperTrimmed rules clockEnded answers
  | .reopen => if bout.row.completed && !answers.uncompletes then none else some bout.reopen

end Recount

end MyClash.Scoring
