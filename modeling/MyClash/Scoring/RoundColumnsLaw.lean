import MyClash.Library.Run
import MyClash.Scoring.RoundColumns
import Mathlib.Data.List.Range

/-!
# The law of the round columns

Every door leaves the five columns of a series in step: the open round is after the closed ones, or
the last closed round is the current one.
-/

namespace MyClash.Scoring

universe u v

open MatchFormat Standings Runs

/-! ## The series of some closed rounds -/

section Series

variable {closed corrected : List ClosedRound} {bestOf : ℕ}

/-- What a correction of the closed rounds leaves as it was. -/
def SameResults (corrected closed : List ClosedRound) : Prop :=
  corrected.map (fun r => (r.round, r.winnerColor)) = closed.map fun r => (r.round, r.winnerColor)

theorem SameResults.rounds (h : SameResults corrected closed) :
    corrected.map (·.round) = closed.map (·.round) := by
  have hFst := congrArg (List.map Prod.fst) h
  rw [List.map_map, List.map_map] at hFst
  exact hFst

theorem SameResults.length (h : SameResults corrected closed) :
    corrected.length = closed.length := by
  simpa only [List.length_map] using congrArg List.length h

theorem SameResults.roundWins (h : SameResults corrected closed) (color : Color) :
    roundWins corrected color = roundWins closed color := by
  have hCount : ∀ l : List ClosedRound, Scoring.roundWins l color =
      (l.map fun r => (r.round, r.winnerColor)).countP fun p => p.2 = some color := by
    intro l
    rw [List.countP_map]
    rfl
  rw [hCount, hCount, h]

theorem SameResults.isOver (h : SameResults corrected closed) (bestOf : ℕ) :
    (seriesResult corrected bestOf).isOver = (seriesResult closed bestOf).isOver := by
  simp only [seriesResult, clinched, h.roundWins, h.length]

theorem SameResults.dropLast (h : SameResults corrected closed) :
    SameResults corrected.dropLast closed.dropLast := by
  rw [SameResults, List.map_dropLast, List.map_dropLast, h]

theorem isOver_nil (bestOf : ℕ) : (seriesResult [] bestOf).isOver = false := by
  have hTarget := one_le_roundWinTarget bestOf
  have hWins : ∀ color, decide (roundWins [] color ≥ roundWinTarget bestOf) = false := by
    intro color
    rw [roundWins, List.countP_nil]
    exact decide_eq_false (by omega)
  rw [seriesResult, clinched, hWins, hWins]
  simp

/-- A series that is not over has rounds left. -/
theorem length_lt_of_not_over (hBestOf : 1 < bestOf)
    (h : (seriesResult closed bestOf).isOver = false) : closed.length < bestOf := by
  simp only [seriesResult, Bool.or_eq_false_iff, Bool.and_eq_false_iff, Bool.not_eq_false',
    decide_eq_false_iff_not, ge_iff_le, not_le] at h
  obtain ⟨hClinched, hSpent⟩ := h
  rw [hClinched] at hSpent
  have hLength := hSpent.resolve_left Bool.false_ne_true
  omega

end Series

/-! ## The columns in step -/

/-- Where the current round is: after the closed rounds, or the last of them. -/
inductive Position (bestOf : ℕ) {ι : Type u} (bout : SeriesBout ι) : Prop
  | onBoard (current : bout.currentRound = bout.row.rounds.length + 1)
      (notOver : (seriesResult bout.row.rounds bestOf).isOver = false)
      (notAwaiting : bout.row.awaitingRoundAdvance = false) (inPlay : bout.row.completed = false)
  | closed (current : bout.currentRound = bout.row.rounds.length) (pos : 0 < bout.row.rounds.length)
      (before : (seriesResult bout.row.rounds.dropLast bestOf).isOver = false)
      (awaiting : bout.row.awaitingRoundAdvance = !(seriesResult bout.row.rounds bestOf).isOver)
      (completed : bout.row.completed = (seriesResult bout.row.rounds bestOf).isOver)

structure InStep (bestOf : ℕ) {ι : Type u} (bout : SeriesBout ι) : Prop where
  numbered : bout.row.rounds.map (·.round) = List.range' 1 bout.row.rounds.length
  redWins : bout.row.redRoundWins = roundWins bout.row.rounds .red
  blueWins : bout.row.blueRoundWins = roundWins bout.row.rounds .blue
  position : Position bestOf bout

/-- The columns of a best-of bout after every step. -/
structure SeriesColumns (bestOf : ℕ) {ι : Type u} (bout : SeriesBout ι) : Prop where
  numbered : bout.row.rounds.map (·.round) = List.range' 1 bout.row.rounds.length
  bounded : bout.row.rounds.length ≤ bestOf
  current : bout.currentRound = bout.row.rounds.length ∨
    bout.currentRound = bout.row.rounds.length + 1
  redWins : bout.row.redRoundWins = bout.row.rounds.countP (·.winnerColor = some .red)
  blueWins : bout.row.blueRoundWins = bout.row.rounds.countP (·.winnerColor = some .blue)
  awaiting : bout.row.awaitingRoundAdvance = true ↔
    (∃ r ∈ bout.row.rounds, r.round = bout.currentRound) ∧
      (seriesResult bout.row.rounds bestOf).isOver = false ∧ bout.row.completed = false
  completed : bout.row.completed = true → (seriesResult bout.row.rounds bestOf).isOver = true

section Columns

variable {ι : Type u} {bestOf : ℕ} {bout : SeriesBout ι}

theorem mem_rounds_iff (hNumbered : bout.row.rounds.map (·.round) =
      List.range' 1 bout.row.rounds.length) (round : ℕ) :
    bout.row.rounds.any (·.round = round) = true ↔ 1 ≤ round ∧ round ≤ bout.row.rounds.length := by
  have hMem : bout.row.rounds.any (·.round = round) = true ↔
      round ∈ bout.row.rounds.map (·.round) := by
    simp only [List.any_eq_true, decide_eq_true_eq, List.mem_map]
  rw [hMem, hNumbered, List.mem_range'_1]
  omega

theorem fresh_inStep (bestOf : ℕ) : InStep bestOf (SeriesBout.fresh ι) where
  numbered := rfl
  redWins := rfl
  blueWins := rfl
  position := .onBoard rfl (isOver_nil bestOf) rfl rfl

theorem InStep.columns (h : InStep bestOf bout) (hBestOf : 1 < bestOf) :
    SeriesColumns bestOf bout where
  numbered := h.numbered
  bounded := by
    cases h.position with
    | onBoard _ notOver _ _ => exact (length_lt_of_not_over hBestOf notOver).le
    | closed _ pos before _ _ =>
      have hBefore := length_lt_of_not_over hBestOf before
      rw [List.length_dropLast] at hBefore
      omega
  current := by
    cases h.position with
    | onBoard current _ _ _ => exact Or.inr current
    | closed current _ _ _ _ => exact Or.inl current
  redWins := h.redWins
  blueWins := h.blueWins
  awaiting := by
    have hAny := mem_rounds_iff h.numbered bout.currentRound
    simp only [List.any_eq_true, decide_eq_true_eq] at hAny
    rw [hAny]
    cases h.position with
    | onBoard current _ notAwaiting _ =>
      rw [notAwaiting, current]
      exact iff_of_false Bool.false_ne_true fun hContra => by omega
    | closed current pos _ awaiting completed =>
      rw [awaiting, completed, current, Bool.not_eq_true']
      exact ⟨fun hOver => ⟨⟨pos, le_refl _⟩, hOver, hOver⟩, fun hAll => hAll.2.1⟩
  completed := by
    intro hCompleted
    cases h.position with
    | onBoard _ _ _ inPlay => exact absurd (inPlay.symm.trans hCompleted) Bool.false_ne_true
    | closed _ _ _ _ completed => exact completed.symm.trans hCompleted

/-! ## One more round, one round less -/

/-- A close of the open round. -/
theorem InStep.close {row : SeriesRow ι} {m : RulesetMatch ι} {closing : ClosedRound}
    (h : InStep bestOf bout)
    (hOpen : bout.currentRound = bout.row.rounds.length + 1) (hPlay : row.completed = false)
    (hOver : (seriesResult bout.row.rounds bestOf).isOver = false)
    (hRows : SameResults row.rounds bout.row.rounds) (hRound : closing.round = bout.currentRound) :
    InStep bestOf { bout with row := buildRoundClosure m bestOf row closing } := by
  have hRounds : (buildRoundClosure m bestOf row closing).rounds = row.rounds ++ [closing] :=
    (completed_buildRoundClosure m bestOf hPlay closing).2
  have hLength : (row.rounds ++ [closing]).length = bout.row.rounds.length + 1 := by
    rw [List.length_append, hRows.length, List.length_singleton]
  have hTallies : (buildRoundClosure m bestOf row closing).redRoundWins =
      roundWins (row.rounds ++ [closing]) .red ∧
        (buildRoundClosure m bestOf row closing).blueRoundWins =
          roundWins (row.rounds ++ [closing]) .blue ∧
        (buildRoundClosure m bestOf row closing).awaitingRoundAdvance =
          !(seriesResult (row.rounds ++ [closing]) bestOf).isOver := by
    rw [buildRoundClosure]
    dsimp only
    split <;> exact ⟨rfl, rfl, rfl⟩
  constructor
  · dsimp only
    rw [hRounds, hLength, List.map_append, hRows.rounds, h.numbered, List.range'_concat,
      List.map_singleton, hRound, hOpen, Nat.add_comm 1, Nat.one_mul]
  · dsimp only
    rw [hRounds, hTallies.1]
  · dsimp only
    rw [hRounds, hTallies.2.1]
  · refine .closed ?_ ?_ ?_ ?_ ?_
    · dsimp only
      rw [hRounds, hLength, hOpen]
    · dsimp only
      rw [hRounds, hLength]
      exact Nat.succ_pos _
    · dsimp only
      rw [hRounds, List.dropLast_concat, hRows.isOver, hOver]
    · dsimp only
      rw [hRounds, hTallies.2.2]
    · dsimp only
      rw [hRounds, (completed_buildRoundClosure m bestOf hPlay closing).1]

/-- The last closed round goes back on the board. -/
theorem InStep.pop {popped : SeriesBout ι} (h : InStep bestOf bout)
    (hPop : bout.popLastClosedRound = some popped)
    (hBefore : (seriesResult bout.row.rounds.dropLast bestOf).isOver = false) :
    InStep bestOf { popped with row := { popped.row with completed := false } } := by
  obtain ⟨last, hLast, rfl⟩ := Option.map_eq_some_iff.mp hPop
  obtain ⟨rounds, hRounds⟩ := List.getLast?_eq_some_iff.mp hLast
  have hNumbered := h.numbered
  rw [hRounds, List.map_append, List.length_append, List.length_singleton, List.range'_concat,
    List.map_singleton] at hNumbered
  obtain ⟨hInit, hEnd⟩ := List.append_inj' hNumbered rfl
  have hEnd : last.round = 1 + 1 * rounds.length := List.singleton_inj.mp hEnd
  have hDrop : bout.row.rounds.dropLast = rounds := by rw [hRounds, List.dropLast_concat]
  refine ⟨?_, rfl, rfl, .onBoard ?_ hBefore rfl rfl⟩
  · dsimp only
    rw [hDrop]
    exact hInit
  · dsimp only
    rw [hDrop, hEnd]
    omega

/-- Whatever leaves the row and the current round leaves them in step. -/
theorem InStep.of_eq {bout' : SeriesBout ι} (h : InStep bestOf bout) (hRow : bout'.row = bout.row)
    (hCurrent : bout'.currentRound = bout.currentRound) : InStep bestOf bout' := by
  obtain ⟨numbered, redWins, blueWins, position⟩ := h
  refine ⟨hRow ▸ numbered, hRow ▸ redWins, hRow ▸ blueWins, ?_⟩
  cases position with
  | onBoard current notOver notAwaiting inPlay =>
    rw [← hRow] at current notOver notAwaiting inPlay
    exact .onBoard (hCurrent.trans current) notOver notAwaiting inPlay
  | closed current pos before awaiting completed =>
    rw [← hRow] at current pos before awaiting completed
    exact .closed (hCurrent.trans current) pos before awaiting completed

theorem not_any_of_onBoard (hNumbered : bout.row.rounds.map (·.round) =
      List.range' 1 bout.row.rounds.length)
    (hCurrent : bout.currentRound = bout.row.rounds.length + 1) :
    bout.row.rounds.any (·.round = bout.currentRound) = false := by
  rw [Bool.eq_false_iff, Ne, mem_rounds_iff hNumbered, hCurrent]
  omega

theorem any_of_closed (hNumbered : bout.row.rounds.map (·.round) =
      List.range' 1 bout.row.rounds.length)
    (hCurrent : bout.currentRound = bout.row.rounds.length) (hPos : 0 < bout.row.rounds.length) :
    bout.row.rounds.any (·.round = bout.currentRound) = true := by
  rw [mem_rounds_iff hNumbered, hCurrent]
  omega

/-- The row with its closed rounds corrected and the open round's score. -/
def SeriesBout.counted (bout : SeriesBout ι) (rounds : List ClosedRound) (redScore blueScore : ℚ) :
    SeriesBout ι :=
  { bout with
    row := { bout.row with rounds := rounds, redScore := redScore, blueScore := blueScore } }

theorem InStep.counted {rounds : List ClosedRound} (h : InStep bestOf bout)
    (hSame : SameResults rounds bout.row.rounds) (redScore blueScore : ℚ) :
    InStep bestOf (bout.counted rounds redScore blueScore) where
  numbered := by
    rw [SeriesBout.counted, hSame.rounds, hSame.length, h.numbered]
  redWins := h.redWins.trans (hSame.roundWins .red).symm
  blueWins := h.blueWins.trans (hSame.roundWins .blue).symm
  position := by
    cases h.position with
    | onBoard current notOver notAwaiting inPlay =>
      exact .onBoard (current.trans (congrArg (· + 1) hSame.length.symm))
        ((hSame.isOver bestOf).trans notOver) notAwaiting inPlay
    | closed current pos before awaiting completed =>
      exact .closed (current.trans hSame.length.symm) (hSame.length.symm ▸ pos)
        ((hSame.dropLast.isOver bestOf).trans before)
        (awaiting.trans (congrArg not (hSame.isOver bestOf).symm))
        (completed.trans (hSame.isOver bestOf).symm)

theorem InStep.reopenClosedRound (h : InStep bestOf bout)
    (hBefore : (seriesResult bout.row.rounds.dropLast bestOf).isOver = false) (answers : Answers) :
    InStep bestOf (bout.reopenClosedRound answers) := by
  rw [SeriesBout.reopenClosedRound]
  split
  · rename_i popped hPop
    split
    · exact h.pop hPop hBefore
    · exact h
  · exact h

/-- The tallies and the wait, judged again over the same results. -/
theorem InStep.judged (h : InStep bestOf bout) :
    InStep bestOf
      { bout with
        row :=
          { bout.row with
            redRoundWins := roundWins bout.row.rounds .red
            blueRoundWins := roundWins bout.row.rounds .blue
            awaitingRoundAdvance := bout.row.rounds.any (·.round = bout.currentRound) &&
              !(seriesResult bout.row.rounds bestOf).isOver && !bout.row.completed } } where
  numbered := h.numbered
  redWins := rfl
  blueWins := rfl
  position := by
    cases h.position with
    | onBoard current notOver _ inPlay =>
      refine .onBoard current notOver ?_ inPlay
      dsimp only
      rw [not_any_of_onBoard h.numbered current]
      rfl
    | closed current pos before _ completed =>
      refine .closed current pos before ?_ completed
      dsimp only
      rw [any_of_closed h.numbered current pos, completed, Bool.true_and, Bool.and_self]

theorem getLast?_rounds (hNumbered : bout.row.rounds.map (·.round) =
      List.range' 1 bout.row.rounds.length) :
    bout.row.rounds.getLast?.map (·.round) =
      if bout.row.rounds.length = 0 then none else some bout.row.rounds.length := by
  rw [← List.getLast?_map, hNumbered, List.getLast?_range']
  split
  · rfl
  · rw [Nat.add_sub_cancel_left]

/-- A Reopen pops the last round of a series that is over, and no other. -/
theorem popClinchingRound_eq (h : InStep bestOf bout) :
    bout.popClinchingRound =
      if (seriesResult bout.row.rounds bestOf).isOver then bout.popLastClosedRound else none := by
  have hLast := getLast?_rounds h.numbered
  rw [SeriesBout.popClinchingRound, hLast]
  cases h.position with
  | onBoard current notOver notAwaiting inPlay =>
    rw [notOver, if_neg Bool.false_ne_true, current]
    refine if_pos ?_
    split <;> simp
  | closed current pos before awaiting completed =>
    rw [awaiting, if_neg pos.ne', current]
    cases (seriesResult bout.row.rounds bestOf).isOver <;> simp

/-- The Reopen of the clock: of a series that a round ended, or of a clock alone. -/
theorem InStep.reopen (h : InStep bestOf bout) : InStep bestOf bout.reopen := by
  have hPop := popClinchingRound_eq h
  cases hOver : (seriesResult bout.row.rounds bestOf).isOver with
  | false =>
    rw [hOver, if_neg Bool.false_ne_true] at hPop
    rw [SeriesBout.reopen, hPop]
    refine ⟨h.numbered, h.redWins, h.blueWins, ?_⟩
    cases h.position with
    | onBoard current notOver notAwaiting _ => exact .onBoard current notOver notAwaiting rfl
    | closed current pos before awaiting _ => exact .closed current pos before awaiting hOver.symm
  | true =>
    rw [hOver, if_pos rfl] at hPop
    cases h.position with
    | onBoard _ notOver _ _ => exact absurd (notOver.symm.trans hOver) Bool.false_ne_true
    | closed _ pos before _ _ =>
      obtain ⟨last, hLast⟩ : ∃ last, bout.row.rounds.getLast? = some last :=
        Option.ne_none_iff_exists'.mp (List.getLast?_eq_none_iff.not.mpr
          (List.ne_nil_of_length_pos pos))
      have hPopped : bout.popLastClosedRound = some _ := congrArg (Option.map _) hLast
      have hStep := h.pop hPopped before
      rw [SeriesBout.reopen, hPop, hPopped]
      exact hStep

end Columns

/-! ## The doors -/

section Doors

variable {ι : Type u} [DecidableEq ι] {upperTrimmed : String → String} {rules : SeriesRules ι}
  {bout bout' : SeriesBout ι} {answers : Answers}

theorem correctSnapshot_same (reopens : Bool) (closed : ClosedRound) (ev : RoundEvaluation) :
    (correctSnapshot reopens closed ev).round = closed.round ∧
      (correctSnapshot reopens closed ev).winnerColor = closed.winnerColor := by
  rw [correctSnapshot]
  split
  · exact ⟨rfl, rfl⟩
  · rw [correctedClosedRound]
    split
    · rename_i hScore
      split_ifs at hScore
      · obtain rfl := RoundCorrection.score.inj hScore
        exact ⟨rfl, rfl⟩
      · obtain rfl := RoundCorrection.score.inj hScore
        exact ⟨rfl, rfl⟩
    · exact ⟨rfl, rfl⟩
    · exact ⟨rfl, rfl⟩

theorem correctedSnapshots_same (bout : SeriesBout ι) (answers : Answers) :
    SameResults (bout.correctedSnapshots upperTrimmed rules answers) bout.row.rounds := by
  rw [SameResults, SeriesBout.correctedSnapshots, List.map_map]
  refine List.map_congr_left fun closed _ => ?_
  obtain ⟨hRound, hWinner⟩ := correctSnapshot_same
    (bout.reopensRound upperTrimmed rules answers closed) closed
    (bout.evaluateRound upperTrimmed rules closed.round)
  exact Prod.ext hRound hWinner

/-- Only the current round goes back to the referee. -/
theorem round_of_reopensRound {closed : ClosedRound}
    (h : bout.reopensRound upperTrimmed rules answers closed = true) :
    closed.round = bout.currentRound := by
  rw [SeriesBout.reopensRound, Bool.and_eq_true, decide_eq_true_eq, SeriesBout.reopenableRound] at h
  have hRound := h.1
  split_ifs at hRound
  · exact Option.some.inj hRound
  · exact Option.some.inj hRound

theorem InStep.recompute (h : InStep rules.bestOf bout) (answers : Answers) :
    InStep rules.bestOf (bout.recomputeBestOfRounds upperTrimmed rules answers) := by
  have hSame : SameResults (bout.correctedSnapshots upperTrimmed rules answers) bout.row.rounds :=
    correctedSnapshots_same bout answers
  have hCounted := h.counted hSame
    (bout.evaluateRound upperTrimmed rules bout.currentRound).score.redScore
    (bout.evaluateRound upperTrimmed rules bout.currentRound).score.blueScore
  rw [SeriesBout.recomputeBestOfRounds]
  split_ifs with hReopens hClose
  · obtain ⟨closed, hMem, hClosed⟩ := List.any_eq_true.mp hReopens
    have hRound := round_of_reopensRound hClosed
    have hAny : bout.row.rounds.any (·.round = bout.currentRound) = true :=
      List.any_eq_true.mpr ⟨closed, hMem, decide_eq_true hRound⟩
    cases h.position with
    | onBoard current _ _ _ =>
      rw [not_any_of_onBoard h.numbered current] at hAny
      cases hAny
    | closed _ _ before _ _ =>
      exact hCounted.reopenClosedRound ((hSame.dropLast.isOver _).trans before) answers
  · rw [Bool.and_eq_true, Bool.not_eq_true'] at hClose
    cases hCounted.position with
    | onBoard current notOver _ inPlay =>
      exact hCounted.close current inPlay notOver rfl rfl
    | closed current pos _ _ _ =>
      have hAny := any_of_closed hCounted.numbered current pos
      exact absurd (hClose.1.symm.trans hAny) Bool.false_ne_true
  · exact hCounted.judged

theorem InStep.endRound {levelRoundEnds : Bool} (h : InStep rules.bestOf bout)
    (hEnd : bout.endRound upperTrimmed rules levelRoundEnds = some bout') :
    InStep rules.bestOf bout' := by
  rw [SeriesBout.endRound] at hEnd
  split_ifs at hEnd with hRefused hLevel
  obtain rfl := Option.some.inj hEnd
  simp only [Bool.or_eq_true, not_or, Bool.not_eq_true] at hRefused
  obtain ⟨⟨hPlay, -⟩, hOpen⟩ := hRefused
  cases h.position with
  | onBoard current notOver _ _ => exact h.close current hPlay notOver rfl rfl
  | closed current pos _ _ _ =>
    rw [any_of_closed h.numbered current pos] at hOpen
    cases hOpen

omit [DecidableEq ι] in
/-- The round before is closed and the series goes on: the next one is on the board. -/
theorem InStep.advance {bestOf : ℕ} (h : InStep bestOf bout)
    (hAwaits : bout.row.awaitingRoundAdvance = true) :
    InStep bestOf
      { bout with
        currentRound := bout.currentRound + 1
        row := { bout.row with awaitingRoundAdvance := false } } := by
  refine ⟨h.numbered, h.redWins, h.blueWins, ?_⟩
  cases h.position with
  | onBoard _ _ notAwaiting _ =>
    exact absurd (notAwaiting.symm.trans hAwaits) Bool.false_ne_true
  | closed current _ _ awaiting completed =>
    have hNotOver := (Bool.not_eq_true' _).mp (awaiting.symm.trans hAwaits)
    exact .onBoard (congrArg (· + 1) current) hNotOver rfl (completed.trans hNotOver)

omit [DecidableEq ι] in
/-- A Reopen between two rounds moves the clock alone. -/
theorem reopen_of_awaiting (hAwaits : bout.row.awaitingRoundAdvance = true) :
    bout.reopen =
      { bout with
        row :=
          { bout.row with completed := false, winnerRegistrationId := none, endReason := none } } := by
  rw [SeriesBout.reopen, SeriesBout.popClinchingRound, hAwaits]
  rfl

/-- The bout whose next round a "Start round" counts. -/
theorem advanceRound_spec {clockEnded : Bool} (h : InStep rules.bestOf bout)
    (hAdvance : bout.advanceRound upperTrimmed rules clockEnded answers = some bout') :
    ∃ opened, InStep rules.bestOf opened ∧ opened.currentRound = bout.currentRound + 1 ∧
      opened.exchanges = bout.exchanges ∧ opened.penalties = bout.penalties ∧
        bout' = opened.recomputeBestOfRounds upperTrimmed rules answers := by
  rw [SeriesBout.advanceRound] at hAdvance
  by_cases hRefused : (!bout.row.awaitingRoundAdvance || bout.row.completed) = true
  · rw [if_pos hRefused] at hAdvance
    cases hAdvance
  · rw [if_neg hRefused] at hAdvance
    simp only [Bool.or_eq_true, not_or, Bool.not_eq_true, Bool.not_eq_false'] at hRefused
    obtain rfl := Option.some.inj hAdvance
    cases clockEnded with
    | false => exact ⟨_, h.advance hRefused.1, rfl, rfl, rfl, rfl⟩
    | true =>
      have hReopened := h.reopen
      rw [if_pos rfl]
      rw [reopen_of_awaiting hRefused.1] at hReopened ⊢
      exact ⟨_, hReopened.advance hRefused.1, rfl, rfl, rfl, rfl⟩

theorem InStep.advanceRound {clockEnded : Bool} (h : InStep rules.bestOf bout)
    (hAdvance : bout.advanceRound upperTrimmed rules clockEnded answers = some bout') :
    InStep rules.bestOf bout' := by
  obtain ⟨opened, hOpened, -, -, -, rfl⟩ := advanceRound_spec h hAdvance
  exact hOpened.recompute answers

/-- The bout with a sheet whose rows keep their rounds, new ones in the current round. -/
structure SheetOf (bout sheet : SeriesBout ι) : Prop where
  row : sheet.row = bout.row
  currentRound : sheet.currentRound = bout.currentRound
  exchanges : ∀ r ∈ sheet.exchanges, r.roundNumber = bout.currentRound ∨
    r.roundNumber ∈ bout.exchanges.map (·.roundNumber)
  penalties : ∀ r ∈ sheet.penalties, r.roundNumber = bout.currentRound ∨
    r.roundNumber ∈ bout.penalties.map (·.roundNumber)

theorem roundNumbers_setVoided {α : Type v} (rows : List (RoundRow α)) (i : ℕ) (voided : Bool) :
    (setVoided rows i voided).map (·.roundNumber) = rows.map (·.roundNumber) := by
  refine List.ext_getElem (by simp only [setVoided, List.length_map, List.length_modify])
    fun j _ _ => ?_
  simp only [setVoided, List.getElem_map, List.getElem_modify]
  split
  · rfl
  · rfl

omit [DecidableEq ι] in
theorem mem_roundNumbers {α : Type v} {rows rows' : List (RoundRow α)} (current : ℕ)
    (h : rows'.map (·.roundNumber) = rows.map (·.roundNumber)) :
    ∀ r ∈ rows', r.roundNumber = current ∨ r.roundNumber ∈ rows.map (·.roundNumber) :=
  fun _ hr => Or.inr (h ▸ List.mem_map_of_mem hr)

omit [DecidableEq ι] in
theorem mem_roundNumbers_concat {α : Type v} (rows : List (RoundRow α)) (current : ℕ)
    (voided : Bool) (row : α) :
    ∀ r ∈ rows ++ [⟨current, voided, row⟩], r.roundNumber = current ∨
      r.roundNumber ∈ rows.map (·.roundNumber) := by
  intro r hr
  rcases List.mem_append.mp hr with hr | hr
  · exact Or.inr (List.mem_map_of_mem hr)
  · exact Or.inl (by rw [List.mem_singleton.mp hr])

/-- What a door does: it counts a sheet, ends a round, opens the next or reopens. -/
inductive DoorCase (upperTrimmed : String → String) (rules : SeriesRules ι) (bout : SeriesBout ι)
    (answers : Answers) (bout' : SeriesBout ι) : Prop
  | counted (sheet : SeriesBout ι) (isSheet : SheetOf bout sheet)
      (eq : bout' = sheet.recomputeBestOfRounds upperTrimmed rules answers)
  | ended (levelRoundEnds : Bool)
      (eq : bout.endRound upperTrimmed rules levelRoundEnds = some bout')
  | advanced (clockEnded : Bool)
      (eq : bout.advanceRound upperTrimmed rules clockEnded answers = some bout')
  | reopened (eq : bout' = bout.reopen)

theorem door_cases {event : SeriesEvent ι}
    (hDoor : bout.door upperTrimmed rules event answers = some bout') :
    DoorCase upperTrimmed rules bout answers bout' := by
  cases event with
  | createExchange ex =>
    simp only [SeriesBout.door] at hDoor
    split_ifs at hDoor
    exact .counted { bout with exchanges := bout.exchanges ++ [⟨bout.currentRound, false, ex⟩] }
      ⟨rfl, rfl, mem_roundNumbers_concat _ _ _ _, mem_roundNumbers _ rfl⟩
      (Option.some.inj hDoor).symm
  | createPenalty row =>
    simp only [SeriesBout.door] at hDoor
    split_ifs at hDoor
    exact .counted { bout with penalties := bout.penalties ++ [⟨bout.currentRound, false, row⟩] }
      ⟨rfl, rfl, mem_roundNumbers _ rfl, mem_roundNumbers_concat _ _ _ _⟩
      (Option.some.inj hDoor).symm
  | voidExchange i =>
    exact .counted { bout with exchanges := setVoided bout.exchanges i true }
      ⟨rfl, rfl, mem_roundNumbers _ (roundNumbers_setVoided _ i true), mem_roundNumbers _ rfl⟩
      (Option.some.inj hDoor).symm
  | revertVoidExchange i =>
    exact .counted { bout with exchanges := setVoided bout.exchanges i false }
      ⟨rfl, rfl, mem_roundNumbers _ (roundNumbers_setVoided _ i false), mem_roundNumbers _ rfl⟩
      (Option.some.inj hDoor).symm
  | voidPenalty i =>
    exact .counted { bout with penalties := setVoided bout.penalties i true }
      ⟨rfl, rfl, mem_roundNumbers _ rfl, mem_roundNumbers _ (roundNumbers_setVoided _ i true)⟩
      (Option.some.inj hDoor).symm
  | recount =>
    exact .counted bout ⟨rfl, rfl, mem_roundNumbers _ rfl, mem_roundNumbers _ rfl⟩
      (Option.some.inj hDoor).symm
  | endRoundOnTime levelRoundEnds => exact .ended levelRoundEnds hDoor
  | advanceRound clockEnded => exact .advanced clockEnded hDoor
  | reopen =>
    simp only [SeriesBout.door] at hDoor
    split_ifs at hDoor
    exact .reopened (Option.some.inj hDoor).symm

/-- Every door leaves the columns in step. -/
theorem InStep.door {event : SeriesEvent ι} (h : InStep rules.bestOf bout)
    (hDoor : bout.door upperTrimmed rules event answers = some bout') :
    InStep rules.bestOf bout' := by
  cases door_cases hDoor with
  | counted sheet isSheet eq =>
    rw [eq]
    exact (h.of_eq isSheet.row isSheet.currentRound).recompute answers
  | ended levelRoundEnds eq => exact h.endRound eq
  | advanced clockEnded eq => exact h.advanceRound eq
  | reopened eq =>
    rw [eq]
    exact h.reopen

/-- One door, with what the bracket and the Event answered it. -/
def seriesStep (upperTrimmed : String → String) (rules : SeriesRules ι) (bout : SeriesBout ι)
    (event : SeriesEvent ι × Answers) (bout' : SeriesBout ι) : Prop :=
  bout.door upperTrimmed rules event.1 event.2 = some bout'

variable {moves : List (Move (SeriesBout ι) (SeriesEvent ι × Answers))}

end Doors

/-! ## A bout of three rounds -/

theorem three_rounds : 1 < 3 := by decide

/-- A best of three to three points, its clean hits as they are. -/
def bestOfThree : SeriesRules ℕ where
  fight := ⟨1, 2, red_ne_blue, .running, ⟨some .pool, none⟩⟩
  engine := .tfV1
  decisionEdition := .edition2026_10
  config := { suddenDeathPool with pointCap := 3, maxDoubleHits := none }
  afterblowMode := .full
  bestOf := 3
  bestOf_gt := three_rounds

def redHit (value : ℚ) : SeriesEvent ℕ := .createExchange ⟨.clean, some .red, some value, none, false⟩

/-- Red takes both rounds, the hit that won the second is taken off and a smaller one put on, blue
loses the round on time; the bout is reopened. -/
def reopenedSeries : List (SeriesEvent ℕ × Answers) :=
  [redHit 3, .advanceRound false, redHit 3, .voidExchange 1, redHit 1, .endRoundOnTime false,
    .reopen].map (·, ⟨false, true⟩)

end MyClash.Scoring
