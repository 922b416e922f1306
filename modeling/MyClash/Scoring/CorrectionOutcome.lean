import MyClash.Scoring.SingleFight

/-!
# The correction of a finished bout

`correctionOutcome`: what a new score does to the result of a bout that is already completed. Its
answer is sound where the readers of the row see what the answer means; they fall back on the
scores when no winner is stored.
-/

namespace MyClash.Scoring

universe u

open MatchFormat

inductive CorrectionRefusalCode where
  | correction_later_bout_fought
  | correction_leaves_bout_level
  deriving DecidableEq

inductive CorrectionOutcome (ι : Type u) where
  | unchanged
  | reopen
  | redecide (winnerRegistrationId : Option ι) (endReason : String)
  | refuse (code : CorrectionRefusalCode)
  deriving DecidableEq

/-- The bout as it is stored, of two fighters. -/
structure StoredBout (ι : Type u) where
  status : MatchStatus
  winnerRegistrationId : Option ι
  endReason : Option String
  redRegistrationId : Option ι
  blueRegistrationId : Option ι
  redScore : ℚ
  blueScore : ℚ
  distinct : ∀ r, redRegistrationId = some r → blueRegistrationId ≠ some r

/-- What the ruleset says about the new score. -/
inductive EngineAnswer (ι : Type u) where
  | going
  | ended (reason : String) (winnerRegistrationId : Option ι)

structure CorrectionInput (ι : Type u) where
  bout : StoredBout ι
  redScore : ℚ
  blueScore : ℚ
  engine : EngineAnswer ι
  staysFinished : Bool
  laterBoutFought : Bool
  drawAllowed : Bool

/-- The reasons the engine and the clock write from the board. -/
def DECIDED_ON_THE_BOARD : List String :=
  ["first_to_points", "time_limit", "max_doubles", "max_doubles_draw", "max_doubles_result_stands"]

def EngineAnswer.isOver {ι : Type u} : EngineAnswer ι → Bool
  | .going => false
  | .ended _ _ => true

section Decide

variable {ι : Type u} [DecidableEq ι]

/-- A level bout the clock ended as a draw carries no reason. -/
def storedReason (bout : StoredBout ι) : Option String :=
  match bout.endReason with
  | some reason => some reason
  | none =>
    if bout.winnerRegistrationId = none ∧ bout.redScore = bout.blueScore then some "time_limit"
    else none

def StoredBout.finished (bout : StoredBout ι) : FinishedBout ι where
  winnerRegistrationId := bout.winnerRegistrationId
  redRegistrationId := bout.redRegistrationId
  blueRegistrationId := bout.blueRegistrationId
  redScore := some bout.redScore
  blueScore := some bout.blueScore
  endReason := bout.endReason

namespace CorrectionInput

variable (input : CorrectionInput ι)

def leader : Option Color := leadingColor input.redScore input.blueScore

/-- The engine's own winner, else whoever leads. -/
def winnerRegistrationId : Option ι :=
  match input.engine with
  | .ended _ winner => winner
  | .going =>
    match input.leader with
    | some .red => input.bout.redRegistrationId
    | some .blue => input.bout.blueRegistrationId
    | none => none

def endReason : String :=
  match input.engine with
  | .ended reason _ => reason
  | .going => "time_limit"

/-- The row with the new score and the result stored before. -/
def scored : FinishedBout ι :=
  { input.bout.finished with redScore := some input.redScore, blueScore := some input.blueScore }

/-- The row with the new score and a new result. -/
def redecided (winner : Option ι) (reason : String) : FinishedBout ι :=
  { input.scored with winnerRegistrationId := winner, endReason := some reason }

def decidedOnTheBoard : Bool :=
  DECIDED_ON_THE_BOARD.contains ((storedReason input.bout).getD "")

def before : BoutOutcome × BoutOutcome := boutOutcomes input.bout.finished

def after : BoutOutcome × BoutOutcome :=
  boutOutcomes (input.redecided input.winnerRegistrationId input.endReason)

def correctionOutcome : CorrectionOutcome ι :=
  if input.bout.status ≠ .completed then .unchanged
  else
    let backToTheReferee := !input.staysFinished && !input.engine.isOver
    if !input.decidedOnTheBoard then if backToTheReferee then .reopen else .unchanged
    else
      let changes := decide (input.before ≠ input.after)
      if changes && input.laterBoutFought then .refuse .correction_later_bout_fought
      else if backToTheReferee then .reopen
      else if !changes then .unchanged
      else if !input.engine.isOver && input.leader.isNone && !input.drawAllowed then
        .refuse .correction_leaves_bout_level
      else .redecide input.winnerRegistrationId input.endReason

/-! ## What an answer has to mean -/

/-- The row after the answer. A reopen moves the result columns only once the bout is taken back
out of `completed`; until then the score alone has moved. -/
def applied : CorrectionOutcome ι → FinishedBout ι
  | .unchanged => input.scored
  | .reopen => input.scored
  | .redecide winner reason => input.redecided winner reason
  | .refuse _ => input.bout.finished

/-- The side of a registration. -/
def side (registrationId : ι) : Option Color :=
  if some registrationId = input.bout.redRegistrationId then some .red
  else if some registrationId = input.bout.blueRegistrationId then some .blue
  else none

/-- What the engine's answer is worth to both fighters. -/
def engineOutcomes (reason : String) (winner : Option ι) : BoutOutcome × BoutOutcome :=
  if reason = "max_doubles" then (.loss, .loss) else outcomesOf (winner.bind input.side)

/-- The engine's result, or else the leader's, or a draw where one is allowed. -/
def Names (outcomes : BoutOutcome × BoutOutcome) : Prop :=
  match input.engine with
  | .ended reason winner => outcomes = input.engineOutcomes reason winner
  | .going => outcomes = outcomesOf input.leader ∧ (input.leader = none → input.drawAllowed = true)

structure Sound : Prop where
  later : input.laterBoutFought = true →
    boutOutcomes (input.applied input.correctionOutcome) = input.before ∧
      ∀ winner reason, input.correctionOutcome ≠ .redecide winner reason
  redecided : ∀ winner reason, input.correctionOutcome = .redecide winner reason →
    input.Names (boutOutcomes (input.redecided winner reason))
  unchanged : input.correctionOutcome = .unchanged → boutOutcomes input.scored = input.before

/-- The engine's answer is what the board says where the readers go by the board: it ends the
bout for nobody on a level board, on one whose leader had won before, or before a later bout was
fought; and it names a winner the board names too, where the row names none and that side led. -/
def OnTheBoard : Prop :=
  ∀ reason winner, input.engine = .ended reason winner → reason ≠ "max_doubles" →
    (winner = none → input.leader = none ∨ input.before = outcomesOf input.leader ∨
      input.laterBoutFought = true) ∧
    ∀ registrationId, winner = some registrationId → input.bout.winnerRegistrationId = none →
      input.bout.endReason ≠ some "max_doubles" →
      leadingColor input.bout.redScore input.bout.blueScore = input.side registrationId →
        input.leader = input.side registrationId

/-! ## What the readers see -/

variable {input}

theorem isDoubleLoss_iff {endReason : Option String} :
    isDoubleLossBout endReason = true ↔ endReason = some "max_doubles" := beq_iff_eq

theorem outcomes_of_doubleLoss {bout : FinishedBout ι} (h : bout.endReason = some "max_doubles") :
    boutOutcomes bout = (.loss, .loss) := if_pos (isDoubleLoss_iff.mpr h)

theorem outcomes_of_color {bout : FinishedBout ι} (h : bout.endReason ≠ some "max_doubles") :
    boutOutcomes bout = outcomesOf (winnerColorFrom bout) :=
  boutOutcomes_of_not_doubleLoss (Bool.eq_false_of_not_eq_true (mt isDoubleLoss_iff.mp h))

theorem outcomesOf_ne_doubleLoss (color : Option Color) : outcomesOf color ≠ (.loss, .loss) := by
  rcases color with _ | _ | _ <;> nofun

/-- A row that names a winner, or a double loss, is read the same at every score. -/
theorem scored_outcomes (h : input.bout.winnerRegistrationId ≠ none ∨
    input.bout.endReason = some "max_doubles") : boutOutcomes input.scored = input.before := by
  by_cases hLoss : input.bout.endReason = some "max_doubles"
  · have hScored : input.scored.endReason = some "max_doubles" := hLoss
    exact (outcomes_of_doubleLoss hScored).trans (outcomes_of_doubleLoss hLoss).symm
  · have hWinner := h.resolve_right hLoss
    have hScored : input.scored.endReason ≠ some "max_doubles" := hLoss
    have hBout : input.bout.finished.endReason ≠ some "max_doubles" := hLoss
    rw [before, outcomes_of_color hScored, outcomes_of_color hBout, outcomesOf_inj]
    obtain ⟨winner, hSome⟩ := Option.ne_none_iff_exists'.mp hWinner
    simp only [winnerColorFrom, scored, StoredBout.finished, hSome]

/-- A row with no winner is read as its board. -/
theorem outcomes_of_board (hWinner : input.bout.winnerRegistrationId = none)
    (hLoss : input.bout.endReason ≠ some "max_doubles") :
    boutOutcomes input.scored = outcomesOf input.leader ∧
      input.before = outcomesOf (leadingColor input.bout.redScore input.bout.blueScore) := by
  have hScored : input.scored.endReason ≠ some "max_doubles" := hLoss
  have hBout : input.bout.finished.endReason ≠ some "max_doubles" := hLoss
  rw [before, outcomes_of_color hScored, outcomes_of_color hBout, winnerColorFrom_of_none hWinner,
    winnerColorFrom_of_none hWinner]
  exact ⟨rfl, rfl⟩

theorem redecided_of_doubleLoss {winner : Option ι} :
    boutOutcomes (input.redecided winner "max_doubles") = (.loss, .loss) :=
  outcomes_of_doubleLoss rfl

theorem redecided_none {reason : String} (hLoss : reason ≠ "max_doubles") :
    boutOutcomes (input.redecided none reason) = outcomesOf input.leader := by
  have hReason : (input.redecided none reason).endReason ≠ some "max_doubles" :=
    fun h => hLoss (Option.some.inj h)
  rw [outcomes_of_color hReason, winnerColorFrom_of_none rfl]
  rfl

theorem redecided_some {reason : String} (hLoss : reason ≠ "max_doubles") (winner : ι) :
    boutOutcomes (input.redecided (some winner) reason) = outcomesOf (input.side winner) := by
  have hReason : (input.redecided (some winner) reason).endReason ≠ some "max_doubles" :=
    fun h => hLoss (Option.some.inj h)
  rw [outcomes_of_color hReason]
  rfl

/-- With the engine still going the row names the leader, also where a side has no fighter. -/
theorem after_of_going (h : input.engine = .going) :
    input.after = outcomesOf input.leader := by
  have hReason : input.endReason = "time_limit" := by rw [endReason, h]
  rw [after, hReason]
  cases hWinner : input.winnerRegistrationId with
  | none => exact redecided_none (by decide)
  | some winner =>
    rw [redecided_some (by decide), outcomesOf_inj]
    rw [winnerRegistrationId, h] at hWinner
    dsimp only at hWinner
    rcases hLeader : input.leader with _ | _ | _
    · rw [hLeader] at hWinner
      cases hWinner
    · rw [hLeader] at hWinner
      exact if_pos hWinner.symm
    · rw [hLeader] at hWinner
      have hRed : some winner ≠ input.bout.redRegistrationId := fun hRed =>
        input.bout.distinct winner hRed.symm hWinner
      exact (if_neg hRed).trans (if_pos hWinner.symm)

theorem after_of_ended {reason : String} {winner : Option ι} (h : input.engine = .ended reason winner) :
    input.after = boutOutcomes (input.redecided winner reason) := by
  rw [after, winnerRegistrationId, endReason, h]

/-! ## The answer -/

section Answer

variable (hCompleted : input.bout.status = .completed) (hBoard : input.decidedOnTheBoard = true)

include hCompleted hBoard

theorem answer_of_same (h : input.before = input.after) : input.correctionOutcome =
    if !input.staysFinished && !input.engine.isOver then .reopen else .unchanged := by
  rw [correctionOutcome, if_neg (not_not.mpr hCompleted), hBoard]
  simp [h]

theorem answer_of_later (h : input.before ≠ input.after) (hLater : input.laterBoutFought = true) :
    input.correctionOutcome = .refuse .correction_later_bout_fought := by
  rw [correctionOutcome, if_neg (not_not.mpr hCompleted), hBoard]
  simp [h, hLater]

theorem answer_of_changes (h : input.before ≠ input.after)
    (hLater : input.laterBoutFought = false) : input.correctionOutcome =
      if !input.staysFinished && !input.engine.isOver then .reopen
      else if !input.engine.isOver && input.leader.isNone && !input.drawAllowed then
        .refuse .correction_leaves_bout_level
      else .redecide input.winnerRegistrationId input.endReason := by
  rw [correctionOutcome, if_neg (not_not.mpr hCompleted), hBoard]
  simp [h, hLater]

end Answer

theorem sound_of_scored (hAnswer : input.correctionOutcome = .unchanged ∨
    input.correctionOutcome = .reopen) (hRead : boutOutcomes input.scored = input.before) :
    input.Sound where
  later _ := by
    rcases hAnswer with hAnswer | hAnswer
    · rw [hAnswer]
      exact ⟨hRead, nofun⟩
    · rw [hAnswer]
      exact ⟨hRead, nofun⟩
  redecided winner reason h := by
    rcases hAnswer with hAnswer | hAnswer
    · rw [hAnswer] at h
      cases h
    · rw [hAnswer] at h
      cases h
  unchanged _ := hRead

theorem sound_of_refuse {code : CorrectionRefusalCode}
    (hAnswer : input.correctionOutcome = .refuse code) : input.Sound where
  later _ := by
    rw [hAnswer]
    exact ⟨rfl, nofun⟩
  redecided winner reason h := by
    rw [hAnswer] at h
    cases h
  unchanged h := by
    rw [hAnswer] at h
    cases h

theorem sound_of_reopen (hAnswer : input.correctionOutcome = .reopen)
    (hLater : input.laterBoutFought = false) : input.Sound where
  later h := by
    rw [hLater] at h
    cases h
  redecided winner reason h := by
    rw [hAnswer] at h
    cases h
  unchanged h := by
    rw [hAnswer] at h
    cases h

theorem sound_of_redecide
    (hAnswer : input.correctionOutcome = .redecide input.winnerRegistrationId input.endReason)
    (hLater : input.laterBoutFought = false) : input.Sound ↔ input.Names input.after := by
  refine ⟨fun h => h.redecided _ _ hAnswer, fun hNames => ⟨fun h => ?_, fun w r h => ?_, fun h => ?_⟩⟩
  · rw [hLater] at h
    cases h
  · rw [hAnswer] at h
    cases h
    exact hNames
  · rw [hAnswer] at h
    cases h

section Answer

variable (hCompleted : input.bout.status = .completed) (hBoard : input.decidedOnTheBoard = true)

include hCompleted hBoard

/-- While the engine has not ended the bout, the row is read as its leader in every answer. -/
theorem sound_of_going (h : input.engine = .going) : input.Sound := by
  have hAfter := after_of_going h
  have hGoing : input.engine.isOver = false := by rw [h]; rfl
  by_cases hSame : input.before = input.after
  · have hRead : boutOutcomes input.scored = input.before := by
      by_cases hStored : input.bout.winnerRegistrationId ≠ none ∨
          input.bout.endReason = some "max_doubles"
      · exact scored_outcomes hStored
      · obtain ⟨hWinner, hLoss⟩ := not_or.mp hStored
        rw [(outcomes_of_board (not_not.mp hWinner) hLoss).1, hSame, hAfter]
    refine sound_of_scored ?_ hRead
    rw [answer_of_same hCompleted hBoard hSame]
    split
    · exact Or.inr rfl
    · exact Or.inl rfl
  · cases hLater : input.laterBoutFought with
    | true => exact sound_of_refuse (answer_of_later hCompleted hBoard hSame hLater)
    | false =>
      have hAnswer := answer_of_changes hCompleted hBoard hSame hLater
      rw [hGoing] at hAnswer
      split_ifs at hAnswer with hBack hLevel
      · exact sound_of_reopen hAnswer hLater
      · exact sound_of_refuse hAnswer
      · rw [sound_of_redecide hAnswer hLater, Names, h]
        refine ⟨hAfter, fun hNone => ?_⟩
        by_contra hDraw
        exact hLevel (by simp [hNone, hDraw])

theorem sound_iff_of_over {reason : String} {winner : Option ι}
    (h : input.engine = .ended reason winner) : input.Sound ↔
      (input.before = input.after → boutOutcomes input.scored = input.before) ∧
        (input.before ≠ input.after → input.laterBoutFought = false →
          input.after = input.engineOutcomes reason winner) := by
  have hOver : input.engine.isOver = true := by rw [h]; rfl
  by_cases hSame : input.before = input.after
  · have hAnswer := answer_of_same hCompleted hBoard hSame
    rw [hOver, Bool.not_true, Bool.and_false, if_neg Bool.false_ne_true] at hAnswer
    constructor
    · exact fun hSound => ⟨fun _ => hSound.unchanged hAnswer, fun hNe => absurd hSame hNe⟩
    · exact fun hRead => sound_of_scored (Or.inl hAnswer) (hRead.1 hSame)
  · cases hLater : input.laterBoutFought with
    | true =>
      refine iff_of_true (sound_of_refuse (answer_of_later hCompleted hBoard hSame hLater)) ?_
      exact ⟨fun hEq => absurd hEq hSame, fun _ => nofun⟩
    | false =>
      have hAnswer := answer_of_changes hCompleted hBoard hSame hLater
      rw [hOver] at hAnswer
      simp only [Bool.not_true, Bool.and_false, Bool.false_and, Bool.false_eq_true, if_false]
        at hAnswer
      rw [sound_of_redecide hAnswer hLater, Names, h]
      exact ⟨fun hNames => ⟨fun hEq => absurd hEq hSame, fun _ _ => hNames⟩,
        fun hBoth => hBoth.2 hSame rfl⟩

/-- What the readers make of a result the engine gives, against what it means. -/
theorem sound_iff_of_reason {reason : String} {winner : Option ι}
    (h : input.engine = .ended reason winner) (hLoss : reason ≠ "max_doubles") : input.Sound ↔
      (winner = none → input.leader = none ∨ input.before = outcomesOf input.leader ∨
        input.laterBoutFought = true) ∧
      ∀ registrationId, winner = some registrationId → input.bout.winnerRegistrationId = none →
        input.bout.endReason ≠ some "max_doubles" →
        leadingColor input.bout.redScore input.bout.blueScore = input.side registrationId →
          input.leader = input.side registrationId := by
  rw [sound_iff_of_over hCompleted hBoard h, after_of_ended h, engineOutcomes, if_neg hLoss]
  cases winner with
  | none =>
    rw [redecided_none hLoss]
    constructor
    · rintro ⟨-, hChanges⟩
      refine ⟨fun _ => ?_, nofun⟩
      by_cases hSame : input.before = outcomesOf input.leader
      · exact Or.inr (Or.inl hSame)
      · cases hLater : input.laterBoutFought with
        | true => exact Or.inr (Or.inr rfl)
        | false => exact Or.inl (outcomesOf_inj.mp (hChanges hSame hLater))
    · rintro ⟨hBoardless, -⟩
      refine ⟨fun hSame => ?_, fun hChanges hLater => ?_⟩
      · by_cases hStored : input.bout.winnerRegistrationId ≠ none ∨
            input.bout.endReason = some "max_doubles"
        · exact scored_outcomes hStored
        · obtain ⟨hWinner, hReason⟩ := not_or.mp hStored
          rw [(outcomes_of_board (not_not.mp hWinner) hReason).1, hSame]
      · rcases hBoardless rfl with hLevel | hSame | hFought
        · exact outcomesOf_inj.mpr hLevel
        · exact absurd hSame hChanges
        · rw [hLater] at hFought
          cases hFought
  | some registrationId =>
    rw [redecided_some hLoss]
    constructor
    · rintro ⟨hRead, -⟩
      refine ⟨nofun, fun r hr hWinner hReason hLed => ?_⟩
      cases hr
      obtain ⟨hScored, hBefore⟩ := outcomes_of_board hWinner hReason
      have hSame : input.before = outcomesOf (input.side registrationId) := by rw [hBefore, hLed]
      have hEq := hRead hSame
      rw [hScored, hSame] at hEq
      exact outcomesOf_inj.mp hEq
    · rintro ⟨-, hNamed⟩
      refine ⟨fun hSame => ?_, fun _ _ => rfl⟩
      by_cases hStored : input.bout.winnerRegistrationId ≠ none ∨
          input.bout.endReason = some "max_doubles"
      · exact scored_outcomes hStored
      · obtain ⟨hWinner, hReason⟩ := not_or.mp hStored
        obtain ⟨hScored, hBefore⟩ := outcomes_of_board (not_not.mp hWinner) hReason
        rw [hBefore, outcomesOf_inj] at hSame
        rw [hScored, hBefore, hNamed registrationId rfl (not_not.mp hWinner) hReason hSame, hSame]

/-- A double loss is read off its reason, whatever the board and the winner. -/
theorem sound_of_doubleLoss {winner : Option ι} (h : input.engine = .ended "max_doubles" winner) :
    input.Sound := by
  rw [sound_iff_of_over hCompleted hBoard h, after_of_ended h, redecided_of_doubleLoss,
    engineOutcomes, if_pos rfl]
  refine ⟨fun hSame => ?_, fun _ _ => rfl⟩
  by_cases hStored : input.bout.winnerRegistrationId ≠ none ∨
      input.bout.endReason = some "max_doubles"
  · exact scored_outcomes hStored
  · obtain ⟨hWinner, hReason⟩ := not_or.mp hStored
    rw [(outcomes_of_board (not_not.mp hWinner) hReason).2] at hSame
    exact absurd hSame (outcomesOf_ne_doubleLoss _)

end Answer

/-- The correction of a bout decided on the board is sound exactly when the engine's answer is on
the board; a result written for another reason is never decided again. -/
theorem correctionOutcome_sound_iff (hCompleted : input.bout.status = .completed) :
    (input.decidedOnTheBoard = true → (input.Sound ↔ input.OnTheBoard)) ∧
      (input.decidedOnTheBoard = false →
        ∀ winner reason, input.correctionOutcome ≠ .redecide winner reason) := by
  refine ⟨fun hBoard => ?_, fun hBoard winner reason => ?_⟩
  · cases hEngine : input.engine with
    | going =>
      refine iff_of_true (sound_of_going hCompleted hBoard hEngine) fun reason winner h => ?_
      rw [hEngine] at h
      cases h
    | ended reason winner =>
      by_cases hLoss : reason = "max_doubles"
      · rw [hLoss] at hEngine
        refine iff_of_true (sound_of_doubleLoss hCompleted hBoard hEngine) fun r w h hr => ?_
        rw [hEngine] at h
        cases h
        exact absurd rfl hr
      · rw [sound_iff_of_reason hCompleted hBoard hEngine hLoss]
        refine ⟨fun h r w hEq _ => ?_, fun h => h reason winner hEngine hLoss⟩
        rw [hEngine] at hEq
        cases hEq
        exact h
  · rw [correctionOutcome, if_neg (not_not.mpr hCompleted), hBoard]
    simp only [Bool.not_false, if_true]
    split
    · nofun
    · nofun

end CorrectionInput

/-! ## Three corrections -/

/-- A bout of fighters 1 and 2, completed, and blue's until the correction. -/
def blueToTheCap : StoredBout ℕ :=
  ⟨.completed, some 2, some "first_to_points", some 1, some 2, 2, 5, by decide⟩

/-- An edited hit brings red to the cap. -/
def redToTheCap : CorrectionInput ℕ :=
  ⟨blueToTheCap, 5, 4, .ended "first_to_points" (some 1), true, false, false⟩

theorem correctionOutcome_sound_redToTheCap : redToTheCap.Sound := by
  have hCompleted : redToTheCap.bout.status = .completed := rfl
  refine ((CorrectionInput.correctionOutcome_sound_iff hCompleted).1 (by decide)).mpr ?_
  rintro reason winner ⟨⟩ -
  exact ⟨nofun, fun _ _ hNone => by cases hNone⟩

/-- An edited hit is the last double of a pool bout that is then drawn at 0-0; blue keeps a card
of one point. -/
def drawnWithACard : CorrectionInput ℕ :=
  ⟨blueToTheCap, 0, -1, .ended "max_doubles_draw" none, true, false, false⟩

/-- A bout the clock ended with no winner on its row, red ahead; it counts down, and both sides
are now out of points, red less far below zero. -/
def bothOutOfPoints : CorrectionInput ℕ :=
  ⟨⟨.completed, none, some "time_limit", some 1, some 2, 3, 2, by decide⟩, 0, 0,
    .ended "first_to_points" (some 1), true, true, false⟩

/-- Decided again as a draw, and read as a win of red; left unchanged, and read as a draw where it
was a win of red. -/
theorem correctionOutcome_unsound :
    (drawnWithACard.decidedOnTheBoard = true ∧
      drawnWithACard.correctionOutcome = .redecide none "max_doubles_draw" ∧
      drawnWithACard.engineOutcomes "max_doubles_draw" none = (.draw, .draw) ∧
      boutOutcomes (drawnWithACard.redecided none "max_doubles_draw") = (.win, .loss)) ∧
    (bothOutOfPoints.decidedOnTheBoard = true ∧ bothOutOfPoints.correctionOutcome = .unchanged ∧
      bothOutOfPoints.before = (.win, .loss) ∧
      boutOutcomes bothOutOfPoints.scored = (.draw, .draw)) ∧
    ¬ drawnWithACard.Sound ∧ ¬ bothOutOfPoints.Sound := by
  have hDrawn : drawnWithACard.correctionOutcome = .redecide none "max_doubles_draw" := by
    decide +kernel
  have hUnchanged : bothOutOfPoints.correctionOutcome = .unchanged := by decide +kernel
  refine ⟨⟨by decide, hDrawn, by decide, by decide +kernel⟩,
    ⟨by decide, hUnchanged, by decide +kernel, by decide +kernel⟩, fun h => ?_, fun h => ?_⟩
  · have hNames : boutOutcomes (drawnWithACard.redecided none "max_doubles_draw") =
        drawnWithACard.engineOutcomes "max_doubles_draw" none := h.redecided _ _ hDrawn
    revert hNames
    decide +kernel
  · have hRead := h.unchanged hUnchanged
    revert hRead
    decide +kernel

end Decide

end MyClash.Scoring
