import MyClash.Scoring.SingleFight
import Mathlib.Data.List.Induction

/-!
# A best-of series

A series closes round after round until a side has won enough of them or the rounds are spent. Its
row names the winner of the series beside the score of the last round.
-/

namespace MyClash.Scoring

universe u

open MatchFormat

/-- Why a round closed: by itself, or on time by the operator. -/
inductive ClosingReason where
  | auto (reason : RoundEndReason)
  | timeLimit
  deriving DecidableEq

def closingReasonText : ClosingReason → String
  | .auto reason => endReasonText reason
  | .timeLimit => "time_limit"

structure ClosedRound where
  round : ℕ
  redScore : ℚ
  blueScore : ℚ
  winnerColor : Option Color
  endReason : Option ClosingReason
  deriving DecidableEq

def ClosedRound.reasonText (r : ClosedRound) : Option String := r.endReason.map closingReasonText

structure SeriesResult where
  isOver : Bool
  winnerColor : Option Color
  roundsSpent : Bool

def roundWinTarget (bestOf : ℕ) : ℕ := (max 1 bestOf + 1) / 2

def roundWins (closedRounds : List ClosedRound) (color : Color) : ℕ :=
  closedRounds.countP fun r => r.winnerColor = some color

def clinched (closedRounds : List ClosedRound) (bestOf : ℕ) : Bool :=
  roundWins closedRounds .red ≥ roundWinTarget bestOf ||
    roundWins closedRounds .blue ≥ roundWinTarget bestOf

def seriesResult (closedRounds : List ClosedRound) (bestOf : ℕ) : SeriesResult :=
  let spent := !clinched closedRounds bestOf && closedRounds.length ≥ max 1 bestOf
  { isOver := clinched closedRounds bestOf || spent
    winnerColor := leadingColor (roundWins closedRounds .red) (roundWins closedRounds .blue)
    roundsSpent := spent }

def everyDoubleLoss (closed : List ClosedRound) : Bool :=
  closed.all fun r => isDoubleLossBout r.reasonText

/-- A spent series is a double loss only where every round was one. -/
def seriesEndReason (closed : List ClosedRound) (roundsSpent : Bool) (last : Option String) :
    Option String :=
  if !roundsSpent then last
  else if everyDoubleLoss closed then some "max_doubles"
  else some "rounds_spent"

/-- The row of a series, as far as its result goes. -/
structure SeriesRow (ι : Type u) where
  rounds : List ClosedRound
  redScore : ℚ
  blueScore : ℚ
  redRoundWins : ℕ
  blueRoundWins : ℕ
  awaitingRoundAdvance : Bool
  completed : Bool
  winnerRegistrationId : Option ι
  endReason : Option String

def SeriesRow.fresh (ι : Type u) : SeriesRow ι := ⟨[], 0, 0, 0, 0, false, false, none, none⟩

section Close

variable {ι : Type u}

/-- One more closed round: the series is over, or it waits for the next round. -/
def buildRoundClosure (m : RulesetMatch ι) (bestOf : ℕ) (row : SeriesRow ι) (closing : ClosedRound) :
    SeriesRow ι :=
  let closed := row.rounds ++ [closing]
  let series := seriesResult closed bestOf
  let updates : SeriesRow ι :=
    { row with
      rounds := closed
      redScore := closing.redScore
      blueScore := closing.blueScore
      redRoundWins := roundWins closed .red
      blueRoundWins := roundWins closed .blue
      awaitingRoundAdvance := !series.isOver }
  if series.isOver && !row.completed then
    { updates with
      completed := true
      winnerRegistrationId := series.winnerColor.map m.side
      endReason := seriesEndReason closed series.roundsSpent closing.reasonText }
  else updates

end Close

/-- The series' own result. -/
def seriesOutcomes (closed : List ClosedRound) (bestOf : ℕ) : BoutOutcome × BoutOutcome :=
  if everyDoubleLoss closed then (.loss, .loss)
  else outcomesOf (seriesResult closed bestOf).winnerColor

/-! ## How a round closes -/

section Round

variable (config : MatchFormatConfig) (edition : DecisionEdition) (upperTrimmed : String → String)
variable (format : FormatMatch)

/-- An open round ends by itself on its score, or on time for whoever leads. -/
inductive RoundEnds where
  | auto (score : CapScore)
      (isOver : (roundOutcome score config edition upperTrimmed format).autoOver)
  | onTime (redScore blueScore : ℚ)

variable {config edition upperTrimmed format}

def RoundEnds.closed (ends : RoundEnds config edition upperTrimmed format) (round : ℕ) :
    ClosedRound :=
  match ends with
  | .auto score _ =>
    let outcome := roundOutcome score config edition upperTrimmed format
    ⟨round, score.redScore, score.blueScore, outcome.winnerColor, outcome.endReason.map .auto⟩
  | .onTime redScore blueScore =>
    ⟨round, redScore, blueScore, leadingColor redScore blueScore, some .timeLimit⟩

variable {ι : Type u}

/-- A completed series closes no further round. -/
def closeRound (m : RulesetMatch ι) (bestOf : ℕ) (row : SeriesRow ι)
    (ends : RoundEnds config edition upperTrimmed format) : SeriesRow ι :=
  if row.completed then row
  else buildRoundClosure m bestOf row (ends.closed (row.rounds.length + 1))

def playSeries (m : RulesetMatch ι) (bestOf : ℕ)
    (rounds : List (RoundEnds config edition upperTrimmed format)) : SeriesRow ι :=
  rounds.foldl (closeRound m bestOf) (.fresh ι)

def SeriesRow.bout (row : SeriesRow ι) (m : RulesetMatch ι) : FinishedBout ι where
  winnerRegistrationId := row.winnerRegistrationId
  redRegistrationId := some m.redRegistrationId
  blueRegistrationId := some m.blueRegistrationId
  redScore := some row.redScore
  blueScore := some row.blueScore
  endReason := row.endReason

def closedRounds (rounds : List (RoundEnds config edition upperTrimmed format)) :
    List ClosedRound :=
  rounds.zipIdx.map fun (ends, i) => ends.closed (i + 1)

theorem closedRounds_concat (rounds : List (RoundEnds config edition upperTrimmed format))
    (last : RoundEnds config edition upperTrimmed format) :
    closedRounds (rounds ++ [last]) = closedRounds rounds ++ [last.closed (rounds.length + 1)] := by
  rw [closedRounds, closedRounds, List.zipIdx_append, List.map_append]
  simp

theorem playSeries_concat (m : RulesetMatch ι) (bestOf : ℕ)
    (rounds : List (RoundEnds config edition upperTrimmed format))
    (last : RoundEnds config edition upperTrimmed format) :
    playSeries m bestOf (rounds ++ [last]) = closeRound m bestOf (playSeries m bestOf rounds) last :=
  List.foldl_append

theorem roundOutcome_winner_of_maxDoubles {score : CapScore}
    (h : (roundOutcome score config edition upperTrimmed format).endReason = some .maxDoubles) :
    (roundOutcome score config edition upperTrimmed format).winnerColor = none := by
  have hCeiling : (ceiling score config).endReason = some .maxDoubles →
      (ceiling score config).winnerColor = none := by
    intro hReason
    have hReason : maxDoubleHitEndReason config = .maxDoubles := Option.some.inj hReason
    have hOutcome : config.maxDoubleHitOutcome = .doubleLossZeroScores := by
      rw [maxDoubleHitEndReason] at hReason
      split at hReason
      · cases hReason
      · cases hReason
      · assumption
    rw [ceiling, maxDoubleHitZeroesScores, hOutcome]
    rfl
  unfold roundOutcome at h ⊢
  split_ifs at h ⊢ with hFirst hCap hLast
  · exact hCeiling h
  · cases h
  · exact hCeiling h

/-- A round that is a double loss has nobody winning it. -/
theorem winner_of_doubleLoss (ends : RoundEnds config edition upperTrimmed format) (round : ℕ)
    (h : isDoubleLossBout (ends.closed round).reasonText = true) :
    (ends.closed round).winnerColor = none := by
  cases ends with
  | onTime redScore blueScore => cases h
  | auto score isOver =>
    refine roundOutcome_winner_of_maxDoubles ?_
    simp only [ClosedRound.reasonText, RoundEnds.closed] at h
    rcases hReason : (roundOutcome score config edition upperTrimmed format).endReason with
      _ | reason
    · rw [hReason] at h
      cases h
    · rw [hReason] at h
      cases reason with
      | maxDoubles => rfl
      | firstToPoints => cases h
      | maxDoublesDraw => cases h
      | maxDoublesResultStands => cases h

end Round

/-! ## What a completed series says -/

section Series

variable {closed : List ClosedRound} {last : ClosedRound} {bestOf : ℕ}

theorem roundWins_concat (closed : List ClosedRound) (last : ClosedRound) (color : Color) :
    roundWins (closed ++ [last]) color =
      roundWins closed color + if last.winnerColor = some color then 1 else 0 := by
  rw [roundWins, roundWins, List.countP_append, List.countP_singleton]
  simp

theorem one_le_roundWinTarget (bestOf : ℕ) : 1 ≤ roundWinTarget bestOf := by
  rw [roundWinTarget]
  omega

theorem leadingColor_natCast {redWins blueWins : ℕ} :
    leadingColor redWins blueWins =
      if blueWins < redWins then some .red else if redWins < blueWins then some .blue else none := by
  simp only [leadingColor, gt_iff_lt, Nat.cast_lt]

/-- Whoever wins the round that clinches a series wins the series. -/
theorem winner_of_clinched (hOpen : clinched closed bestOf = false)
    (hClinched : clinched (closed ++ [last]) bestOf = true) :
    last.winnerColor ≠ none ∧
      (seriesResult (closed ++ [last]) bestOf).winnerColor = last.winnerColor := by
  simp only [clinched, Bool.or_eq_false_iff, decide_eq_false_iff_not, ge_iff_le, not_le] at hOpen
  simp only [clinched, Bool.or_eq_true, decide_eq_true_eq, ge_iff_le, roundWins_concat] at hClinched
  simp only [seriesResult, leadingColor_natCast, roundWins_concat]
  rcases hWinner : last.winnerColor with _ | _ | _
  · rw [hWinner] at hClinched
    simp only [reduceCtorEq, if_false] at hClinched
    omega
  · rw [hWinner] at hClinched
    simp only [Option.some.injEq, reduceCtorEq, if_false, if_true] at hClinched ⊢
    refine ⟨nofun, if_pos ?_⟩
    omega
  · rw [hWinner] at hClinched
    simp only [Option.some.injEq, reduceCtorEq, if_false, if_true] at hClinched ⊢
    refine ⟨nofun, ?_⟩
    rw [if_neg (by omega), if_pos (by omega)]

/-- Double losses alone leave both sides without a round. -/
theorem roundWins_of_everyDoubleLoss
    (hLaw : ∀ r ∈ closed, isDoubleLossBout r.reasonText = true → r.winnerColor = none)
    (h : everyDoubleLoss closed = true) (color : Color) : roundWins closed color = 0 := by
  refine List.countP_eq_zero.mpr fun r hr => ?_
  rw [hLaw r hr (List.all_eq_true.mp h r hr)]
  exact fun hContra => absurd (of_decide_eq_true hContra) nofun

theorem winnerColor_of_everyDoubleLoss
    (hLaw : ∀ r ∈ closed, isDoubleLossBout r.reasonText = true → r.winnerColor = none)
    (h : everyDoubleLoss closed = true) (bestOf : ℕ) :
    (seriesResult closed bestOf).winnerColor = none := by
  simp only [seriesResult, roundWins_of_everyDoubleLoss hLaw h]
  rfl

/-- Level on round wins means that nobody clinched it. -/
theorem clinched_of_winnerColor (hOpen : clinched closed bestOf = false)
    (hNone : (seriesResult (closed ++ [last]) bestOf).winnerColor = none) :
    clinched (closed ++ [last]) bestOf = false := by
  rw [Bool.eq_false_iff]
  intro hClinched
  obtain ⟨hWinner, hEq⟩ := winner_of_clinched hOpen hClinched
  exact hWinner (hEq.symm.trans hNone)

end Series

/-! ## When a series is over -/

section Over

variable {bestOf : ℕ} {closed : List ClosedRound} {color : Color}

theorem roundWinTarget_eq (hOdd : bestOf % 2 = 1) : roundWinTarget bestOf = (bestOf + 1) / 2 := by
  rw [roundWinTarget, max_eq_right (by omega)]

theorem roundWins_add_le (closed : List ClosedRound) :
    roundWins closed .red + roundWins closed .blue ≤ closed.length := by
  induction closed using List.reverseRecOn with
  | nil => exact le_rfl
  | append_singleton closed last ih =>
    rw [roundWins_concat, roundWins_concat, List.length_append, List.length_singleton]
    rcases last.winnerColor with _ | _ | _ <;> simp <;> omega

theorem roundWins_add_of_won (h : ∀ r ∈ closed, r.winnerColor ≠ none) :
    roundWins closed .red + roundWins closed .blue = closed.length := by
  induction closed using List.reverseRecOn with
  | nil => rfl
  | append_singleton closed last ih =>
    have hLast := h last (List.mem_append_right _ List.mem_cons_self)
    have hRest := ih fun r hr => h r (List.mem_append_left _ hr)
    rw [roundWins_concat, roundWins_concat, List.length_append, List.length_singleton]
    rcases hWinner : last.winnerColor with _ | _ | _
    · exact (hLast hWinner).elim
    · simp
      omega
    · simp
      omega

theorem clinched_iff (hOdd : bestOf % 2 = 1) :
    clinched closed bestOf = true ↔ ∃ color, (bestOf + 1) / 2 ≤ roundWins closed color := by
  rw [clinched, Bool.or_eq_true, decide_eq_true_eq, decide_eq_true_eq, roundWinTarget_eq hOdd]
  constructor
  · rintro (hRed | hBlue)
    · exact ⟨.red, hRed⟩
    · exact ⟨.blue, hBlue⟩
  · rintro ⟨_ | _, hWins⟩
    · exact .inl hWins
    · exact .inr hWins

/-- Within its rounds, whoever has won enough of them is ahead. -/
theorem winnerColor_of_target (hOdd : bestOf % 2 = 1) (hLength : closed.length ≤ bestOf)
    (h : (bestOf + 1) / 2 ≤ roundWins closed color) :
    (seriesResult closed bestOf).winnerColor = some color := by
  have hSum := roundWins_add_le closed
  simp only [seriesResult, leadingColor_natCast]
  cases color with
  | red => exact if_pos (by omega)
  | blue => rw [if_neg (by omega), if_pos (by omega)]

theorem isOver_of_length (h : bestOf ≤ closed.length) (hOdd : bestOf % 2 = 1) :
    (seriesResult closed bestOf).isOver = true := by
  have hSpent : max 1 bestOf ≤ closed.length := by omega
  rw [seriesResult]
  cases clinched closed bestOf with
  | true => rfl
  | false => simpa using hSpent

theorem isOver_iff_of_won (hOdd : bestOf % 2 = 1) (h : ∀ r ∈ closed, r.winnerColor ≠ none) :
    (seriesResult closed bestOf).isOver = true ↔
      ∃ color, (bestOf + 1) / 2 ≤ roundWins closed color := by
  have hSum := roundWins_add_of_won h
  rw [← clinched_iff hOdd, seriesResult]
  cases hClinched : clinched closed bestOf with
  | true => simp
  | false =>
    -- with a winner each round, spent rounds would have been clinched
    have hOpen : ∀ color, ¬(bestOf + 1) / 2 ≤ roundWins closed color := by
      intro color hWins
      have hTrue := (clinched_iff hOdd).mpr ⟨color, hWins⟩
      rw [hClinched] at hTrue
      cases hTrue
    have hRed := hOpen .red
    have hBlue := hOpen .blue
    simp
    omega

theorem roundWins_append_le (closed further : List ClosedRound) (color : Color) :
    roundWins closed color ≤ roundWins (closed ++ further) color := by
  rw [roundWins, roundWins, List.countP_append]
  exact Nat.le_add_right _ _

/-- A best-of series ends by its last round. Within its rounds at most one side clinches it, and
the rounds that could still be played leave it the winner. -/
theorem seriesResult_law (hOdd : bestOf % 2 = 1) (closed : List ClosedRound) :
    (bestOf ≤ closed.length → (seriesResult closed bestOf).isOver = true) ∧
      ((∀ r ∈ closed, r.winnerColor ≠ none) → ((seriesResult closed bestOf).isOver = true ↔
        ∃ color, (bestOf + 1) / 2 ≤ roundWins closed color)) ∧
      (closed.length ≤ bestOf →
        ¬((bestOf + 1) / 2 ≤ roundWins closed .red ∧ (bestOf + 1) / 2 ≤ roundWins closed .blue) ∧
        ∀ color, (bestOf + 1) / 2 ≤ roundWins closed color →
          (seriesResult closed bestOf).winnerColor = some color ∧
          ∀ further, (closed ++ further).length ≤ bestOf →
            (seriesResult (closed ++ further) bestOf).winnerColor = some color) := by
  refine ⟨fun h => isOver_of_length h hOdd, isOver_iff_of_won hOdd, fun hLength => ⟨?_, ?_⟩⟩
  · rintro ⟨hRed, hBlue⟩
    have hSum := roundWins_add_le closed
    omega
  · intro color hWins
    refine ⟨winnerColor_of_target hOdd hLength hWins, fun further hFurther => ?_⟩
    exact winnerColor_of_target hOdd hFurther (hWins.trans (roundWins_append_le closed further color))

def roundWonBy (round : ℕ) (color : Color) : ClosedRound := ⟨round, 0, 0, some color, none⟩

theorem seriesResult_law_bestOfThree :
    ((seriesResult [roundWonBy 1 .red, roundWonBy 2 .red] 3).winnerColor = some .red ∧
      ∀ further, ([roundWonBy 1 .red, roundWonBy 2 .red] ++ further).length ≤ 3 →
        (seriesResult ([roundWonBy 1 .red, roundWonBy 2 .red] ++ further) 3).winnerColor =
          some .red) :=
  ((seriesResult_law (by decide) [roundWonBy 1 .red, roundWonBy 2 .red]).2.2 (by decide)).2 .red
    (by decide)

/-- A round more than the series has: both sides have clinched a best of one. -/
theorem both_clinch_beyond_bestOf :
    ¬∀ (bestOf : ℕ) (closed : List ClosedRound), bestOf % 2 = 1 →
      ¬((bestOf + 1) / 2 ≤ roundWins closed .red ∧
        (bestOf + 1) / 2 ≤ roundWins closed .blue) := by
  intro h
  exact h 1 [roundWonBy 1 .red, roundWonBy 2 .blue] (by decide) (by decide)

end Over

section Play

variable {config : MatchFormatConfig} {edition : DecisionEdition} {upperTrimmed : String → String}
variable {format : FormatMatch} {ι : Type u} {m : RulesetMatch ι} {bestOf : ℕ}
variable {rounds : List (RoundEnds config edition upperTrimmed format)}
variable {last : RoundEnds config edition upperTrimmed format}

theorem closedRounds_lawful (rounds : List (RoundEnds config edition upperTrimmed format)) :
    ∀ r ∈ closedRounds rounds, isDoubleLossBout r.reasonText = true → r.winnerColor = none := by
  intro r hr h
  obtain ⟨⟨ends, i⟩, -, rfl⟩ := List.mem_map.mp hr
  exact winner_of_doubleLoss ends (i + 1) h

theorem completed_buildRoundClosure (m : RulesetMatch ι) (bestOf : ℕ) {row : SeriesRow ι}
    (hOpen : row.completed = false) (closing : ClosedRound) :
    (buildRoundClosure m bestOf row closing).completed =
        (seriesResult (row.rounds ++ [closing]) bestOf).isOver ∧
      (buildRoundClosure m bestOf row closing).rounds = row.rounds ++ [closing] := by
  rw [buildRoundClosure, hOpen]
  dsimp only
  rw [Bool.not_false, Bool.and_true]
  split
  · rename_i hOver
    exact ⟨hOver.symm, rfl⟩
  · rename_i hOver
    exact ⟨(Bool.eq_false_iff.mpr hOver).symm, rfl⟩

/-- While the series runs every round handed to it is closed, and it is not over. -/
theorem playSeries_open (h : (playSeries m bestOf rounds).completed = false) :
    (playSeries m bestOf rounds).rounds = closedRounds rounds ∧
      clinched (closedRounds rounds) bestOf = false := by
  induction rounds using List.reverseRecOn with
  | nil =>
    refine ⟨rfl, ?_⟩
    have hTarget := one_le_roundWinTarget bestOf
    simp [clinched, closedRounds, roundWins]
    omega
  | append_singleton rounds last ih =>
    rw [playSeries_concat, closeRound] at h ⊢
    rw [closedRounds_concat]
    cases hOpen : (playSeries m bestOf rounds).completed with
    | true =>
      rw [hOpen, if_pos rfl, hOpen] at h
      cases h
    | false =>
      obtain ⟨hRounds, -⟩ := ih hOpen
      have hLength : (playSeries m bestOf rounds).rounds.length = rounds.length := by
        rw [hRounds, closedRounds, List.length_map, List.length_zipIdx]
      rw [hOpen, if_neg Bool.false_ne_true] at h
      rw [if_neg Bool.false_ne_true]
      obtain ⟨hOver, hClosed⟩ :=
        completed_buildRoundClosure m bestOf hOpen
          (last.closed ((playSeries m bestOf rounds).rounds.length + 1))
      rw [hOver] at h
      rw [hClosed]
      rw [hLength, hRounds] at h ⊢
      refine ⟨rfl, ?_⟩
      exact (Bool.or_eq_false_iff.mp h).1

/-- The row of the round that ends the series. -/
theorem playSeries_done (hOpen : (playSeries m bestOf rounds).completed = false)
    (hDone : (playSeries m bestOf (rounds ++ [last])).completed = true) :
    let closing := last.closed (rounds.length + 1)
    let closed := closedRounds rounds ++ [closing]
    (seriesResult closed bestOf).isOver = true ∧
      (playSeries m bestOf (rounds ++ [last])).bout m =
        ⟨(seriesResult closed bestOf).winnerColor.map m.side, some m.redRegistrationId,
          some m.blueRegistrationId, some closing.redScore, some closing.blueScore,
          seriesEndReason closed (seriesResult closed bestOf).roundsSpent closing.reasonText⟩ := by
  intro closing closed
  obtain ⟨hRounds, -⟩ := playSeries_open hOpen
  have hLength : (playSeries m bestOf rounds).rounds.length = rounds.length := by
    rw [hRounds, closedRounds, List.length_map, List.length_zipIdx]
  rw [playSeries_concat, closeRound, hOpen, if_neg Bool.false_ne_true, hLength] at hDone ⊢
  have hOver := hDone
  rw [(completed_buildRoundClosure m bestOf hOpen closing).1, hRounds] at hOver
  refine ⟨hOver, ?_⟩
  rw [buildRoundClosure, hRounds, hOpen, hOver]
  rfl

/-- The row of a completed series reads as the series, unless a series level on round wins ends
on a round that is not. -/
theorem series_outcomes_iff (hOpen : (playSeries m bestOf rounds).completed = false)
    (hDone : (playSeries m bestOf (rounds ++ [last])).completed = true) [DecidableEq ι] :
    boutOutcomes ((playSeries m bestOf (rounds ++ [last])).bout m) =
        seriesOutcomes (closedRounds (rounds ++ [last])) bestOf ↔
      (seriesResult (closedRounds (rounds ++ [last])) bestOf).winnerColor ≠ none ∨
        everyDoubleLoss (closedRounds (rounds ++ [last])) = true ∨
        (last.closed (rounds.length + 1)).redScore =
          (last.closed (rounds.length + 1)).blueScore := by
  have hLaw := closedRounds_lawful (rounds ++ [last])
  have hStill := (playSeries_open hOpen).2
  obtain ⟨hOver, hBout⟩ := playSeries_done hOpen hDone
  rw [hBout]
  rw [closedRounds_concat] at hLaw ⊢
  generalize last.closed (rounds.length + 1) = closing at hLaw hOver ⊢
  generalize closedRounds rounds = closed at hLaw hStill hOver ⊢
  have hSpent : clinched (closed ++ [closing]) bestOf = false →
      (seriesResult (closed ++ [closing]) bestOf).roundsSpent = true := by
    intro hNot
    rw [seriesResult, hNot] at hOver
    rw [seriesResult, hNot]
    exact hOver
  by_cases hEvery : everyDoubleLoss (closed ++ [closing]) = true
  · have hNone := winnerColor_of_everyDoubleLoss hLaw hEvery bestOf
    rw [hSpent (clinched_of_winnerColor hStill hNone), seriesEndReason, seriesOutcomes, hEvery]
    exact iff_of_true rfl (Or.inr (Or.inl rfl))
  · rw [seriesOutcomes, if_neg hEvery]
    cases hWinner : (seriesResult (closed ++ [closing]) bestOf).winnerColor with
    | some color =>
      refine iff_of_true ?_ (Or.inl nofun)
      rw [boutOutcomes_of_not_doubleLoss, winnerColorFrom_of_side rfl rfl rfl]
      cases hClinched : clinched (closed ++ [closing]) bestOf with
      | false =>
        rw [hSpent hClinched, seriesEndReason, if_neg nofun, if_neg hEvery]
        rfl
      | true =>
        have hNotSpent : (seriesResult (closed ++ [closing]) bestOf).roundsSpent = false := by
          rw [seriesResult, hClinched]
          rfl
        rw [hNotSpent, seriesEndReason, if_pos Bool.not_false, Bool.eq_false_iff]
        intro hLoss
        exact (winner_of_clinched hStill hClinched).1
          (hLaw closing (List.mem_append_right _ (List.mem_singleton.mpr rfl)) hLoss)
    | none =>
      have hReason : isDoubleLossBout (seriesEndReason (closed ++ [closing])
          (seriesResult (closed ++ [closing]) bestOf).roundsSpent closing.reasonText) = false := by
        rw [hSpent (clinched_of_winnerColor hStill hWinner), seriesEndReason, if_neg nofun,
          if_neg hEvery]
        rfl
      rw [boutOutcomes_of_not_doubleLoss hReason, winnerColorFrom_of_none rfl, outcomesOf_inj,
        Option.getD_some, Option.getD_some, leadingColor_eq_none]
      exact ⟨fun hLevel => Or.inr (Or.inr hLevel), fun h =>
        (h.resolve_left (not_not.mpr rfl)).resolve_left hEvery⟩

end Play

section Examples

/-- A pool of two rounds out of three, whose chain allows a drawn round. -/
def seriesPool : MatchFormatConfig :=
  ⟨10, .normal, none, .doubleLossZeroScores, ⟨[.draw], none, [.suddenDeath], [.suddenDeath]⟩⟩

def poolPair : RulesetMatch ℕ := ⟨1, 2, red_ne_blue, .running, ⟨some .pool, none⟩⟩

abbrev PoolRound : Type := RoundEnds seriesPool .edition2026_10 id poolPair.format

def wonByRed : PoolRound := .onTime 5 3

def levelRound : PoolRound := .onTime 4 4

def wonByBlue : PoolRound := .onTime 2 5

theorem series_outcomes_clinched :
    boutOutcomes ((playSeries poolPair 3 ([levelRound, wonByRed] ++ [wonByRed])).bout poolPair) =
      seriesOutcomes (closedRounds ([levelRound, wonByRed] ++ [wonByRed])) 3 :=
  (series_outcomes_iff (by decide +kernel) (by decide +kernel)).mpr (Or.inl (by decide +kernel))

/-- One round each and a drawn one between: the series is level, and its row a win of blue. -/
theorem series_levelOnRounds :
    (playSeries poolPair 3 ([wonByRed, levelRound] ++ [wonByBlue])).completed = true ∧
      seriesOutcomes (closedRounds ([wonByRed, levelRound] ++ [wonByBlue])) 3 = (.draw, .draw) ∧
      boutOutcomes ((playSeries poolPair 3 ([wonByRed, levelRound] ++ [wonByBlue])).bout
        poolPair) = (.loss, .win) := by
  decide +kernel

end Examples

end MyClash.Scoring
