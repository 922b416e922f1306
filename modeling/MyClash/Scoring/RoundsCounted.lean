import MyClash.Scoring.RoundColumnsLaw

/-!
# A sheet that is counted

Every door leaves the row of a best-of bout as its sheet reads: counted once more, a bout in play on
a round that nothing ends stays as it is.
-/

namespace MyClash.Scoring

universe u v

open MatchFormat Standings Runs

section Counted

variable {ι : Type u} [DecidableEq ι] {upperTrimmed : String → String} {rules : SeriesRules ι}
  {bout bout' : SeriesBout ι} {answers : Answers}

/-- A snapshot that a count leaves as it is. -/
def Fixed (closed : ClosedRound) (ev : RoundEvaluation) : Prop :=
  correctSnapshot false closed ev = closed

theorem fixed_of_score {closed : ClosedRound} {ev : RoundEvaluation}
    (hRed : closed.redScore = ev.score.redScore) (hBlue : closed.blueScore = ev.score.blueScore) :
    Fixed closed ev := by
  rw [Fixed, correctSnapshot, if_neg Bool.false_ne_true, correctedClosedRound]
  split
  · rename_i round hScore
    split_ifs at hScore with hCeiling hOver hWinner hSame hWinner hSame
    · exact absurd ⟨hRed.symm, hBlue.symm⟩ hSame
    · exact absurd ⟨hRed.symm, hBlue.symm⟩ hSame
  · rfl
  · rfl

theorem fixed_correctSnapshot (closed : ClosedRound) (ev : RoundEvaluation) :
    Fixed (correctSnapshot false closed ev) ev := by
  by_cases h : correctSnapshot false closed ev = closed
  · rw [h]
    exact h
  · refine fixed_of_score ?_ ?_ <;>
    · rw [correctSnapshot, if_neg Bool.false_ne_true, correctedClosedRound] at h ⊢
      split_ifs at h ⊢ <;> first | rfl | exact absurd rfl h

/-- The row reads as its sheet does, the round that a refused un-completion kept apart. -/
structure Counted (upperTrimmed : String → String) (rules : SeriesRules ι) (bout : SeriesBout ι) :
    Prop where
  redScore : bout.row.redScore =
    (bout.evaluateRound upperTrimmed rules bout.currentRound).score.redScore
  blueScore : bout.row.blueScore =
    (bout.evaluateRound upperTrimmed rules bout.currentRound).score.blueScore
  fixed : ∀ closed ∈ bout.row.rounds,
    (bout.row.completed = true → closed.round ≠ bout.currentRound) →
      Fixed closed (bout.evaluateRound upperTrimmed rules closed.round)
  settled : bout.row.completed = false → ∀ closed ∈ bout.row.rounds,
    closed.round = bout.currentRound →
      roundShouldReopen closed (bout.evaluateRound upperTrimmed rules closed.round) = false

/-- The row with its closed rounds corrected and the open round's score. -/
def SeriesBout.afterCount (upperTrimmed : String → String) (rules : SeriesRules ι)
    (bout : SeriesBout ι) (answers : Answers) : SeriesBout ι :=
  bout.counted (bout.correctedSnapshots upperTrimmed rules answers)
    (bout.evaluateRound upperTrimmed rules bout.currentRound).score.redScore
    (bout.evaluateRound upperTrimmed rules bout.currentRound).score.blueScore

/-- What a count does to the row. -/
inductive RecountCase (upperTrimmed : String → String) (rules : SeriesRules ι)
    (bout : SeriesBout ι) (answers : Answers) : SeriesBout ι → Prop
  | held (completed : bout.row.completed = true) :
      RecountCase upperTrimmed rules bout answers (bout.afterCount upperTrimmed rules answers)
  | popped {popped : SeriesBout ι}
      (pop : (bout.afterCount upperTrimmed rules answers).popLastClosedRound = some popped)
      (current : bout.currentRound = bout.row.rounds.length) :
      RecountCase upperTrimmed rules bout answers
        { popped with row := { popped.row with completed := false } }
  | closed (isOpen : bout.row.rounds.any (·.round = bout.currentRound) = false)
      (autoOver :
        (bout.evaluateRound upperTrimmed rules bout.currentRound).outcome.autoOver = true) :
      RecountCase upperTrimmed rules bout answers
        { bout with
          row := buildRoundClosure rules.fight rules.bestOf
            (bout.afterCount upperTrimmed rules answers).row
            ⟨bout.currentRound,
              (bout.evaluateRound upperTrimmed rules bout.currentRound).score.redScore,
              (bout.evaluateRound upperTrimmed rules bout.currentRound).score.blueScore,
              (bout.evaluateRound upperTrimmed rules bout.currentRound).outcome.winnerColor,
              (bout.evaluateRound upperTrimmed rules bout.currentRound).outcome.endReason.map
                .auto⟩ }
  | judged (stays : ∀ closed ∈ bout.row.rounds,
        bout.reopensRound upperTrimmed rules answers closed = false) :
      RecountCase upperTrimmed rules bout answers
        { bout with
          row :=
            { (bout.afterCount upperTrimmed rules answers).row with
              redRoundWins := roundWins (bout.afterCount upperTrimmed rules answers).row.rounds .red
              blueRoundWins :=
                roundWins (bout.afterCount upperTrimmed rules answers).row.rounds .blue
              awaitingRoundAdvance :=
                (bout.afterCount upperTrimmed rules answers).row.rounds.any
                  (·.round = bout.currentRound) &&
                !(seriesResult (bout.afterCount upperTrimmed rules answers).row.rounds
                  rules.bestOf).isOver && !bout.row.completed } }

theorem any_of_sameResults {rounds closed : List ClosedRound} (h : SameResults rounds closed)
    (round : ℕ) : rounds.any (·.round = round) = closed.any (·.round = round) := by
  have hMap : ∀ l : List ClosedRound,
      l.any (·.round = round) = (l.map (·.round)).any (· = round) := by
    intro l
    rw [List.any_map]
    rfl
  rw [hMap, hMap, h.rounds]

theorem recompute_cases (h : InStep rules.bestOf bout) (answers : Answers) :
    RecountCase upperTrimmed rules bout answers
      (bout.recomputeBestOfRounds upperTrimmed rules answers) := by
  have hSame : SameResults (bout.correctedSnapshots upperTrimmed rules answers) bout.row.rounds :=
    correctedSnapshots_same bout answers
  have hAny := any_of_sameResults hSame bout.currentRound
  rw [SeriesBout.recomputeBestOfRounds]
  split_ifs with hReopens hClose
  · obtain ⟨closed, hMem, hClosed⟩ := List.any_eq_true.mp hReopens
    rw [SeriesBout.reopenClosedRound]
    split
    · rename_i popped hPop
      split
      · have hCurrent : bout.currentRound = bout.row.rounds.length := by
          cases h.position with
          | closed current _ _ _ _ => exact current
          | onBoard current _ _ _ =>
            have hNone := not_any_of_onBoard h.numbered current
            rw [List.any_eq_false] at hNone
            exact absurd (decide_eq_true (round_of_reopensRound hClosed)) (hNone closed hMem)
        exact .popped hPop hCurrent
      · rename_i hRefused
        rw [Bool.or_eq_true, not_or, Bool.not_eq_true, Bool.not_eq_false'] at hRefused
        exact .held hRefused.1
    · rename_i hNone
      have hEmpty := List.getLast?_eq_none_iff.mp (Option.map_eq_none_iff.mp hNone)
      have hLength := hSame.length
      rw [show bout.correctedSnapshots upperTrimmed rules answers = [] from hEmpty] at hLength
      rw [List.length_eq_zero_iff.mp hLength.symm] at hMem
      exact absurd hMem List.not_mem_nil
  · rw [Bool.and_eq_true, Bool.not_eq_true', hAny] at hClose
    exact .closed hClose.1 hClose.2
  · refine .judged fun closed hMem => ?_
    rw [Bool.not_eq_true, List.any_eq_false] at hReopens
    exact Bool.eq_false_iff.mpr (hReopens closed hMem)

/-! ## The sheet and the round -/

theorem evaluateRound_of_sheet {sheet : SeriesBout ι} (hExchanges : sheet.exchanges = bout.exchanges)
    (hPenalties : sheet.penalties = bout.penalties) (round : ℕ) :
    sheet.evaluateRound upperTrimmed rules round = bout.evaluateRound upperTrimmed rules round := by
  rw [SeriesBout.evaluateRound, SeriesBout.evaluateRound, hExchanges, hPenalties]

omit [DecidableEq ι] in
/-- What is popped is the last round; the rounds before it are earlier ones. -/
theorem pop_spec {bestOf : ℕ} {popped : SeriesBout ι} (h : InStep bestOf bout)
    (hPop : bout.popLastClosedRound = some popped) :
    popped.currentRound = bout.row.rounds.length ∧
      (∀ r ∈ popped.row.rounds, r ∈ bout.row.rounds ∧ r.round < bout.row.rounds.length) ∧
      popped.exchanges = bout.exchanges ∧ popped.penalties = bout.penalties ∧
      popped.row.redScore = bout.row.redScore ∧ popped.row.blueScore = bout.row.blueScore := by
  obtain ⟨last, hLast, rfl⟩ := Option.map_eq_some_iff.mp hPop
  obtain ⟨rounds, hRounds⟩ := List.getLast?_eq_some_iff.mp hLast
  have hNumbered := h.numbered
  rw [hRounds, List.map_append, List.length_append, List.length_singleton, List.range'_concat,
    List.map_singleton] at hNumbered
  obtain ⟨hInit, hEnd⟩ := List.append_inj' hNumbered rfl
  have hEnd : last.round = 1 + 1 * rounds.length := List.singleton_inj.mp hEnd
  have hDrop : bout.row.rounds.dropLast = rounds := by rw [hRounds, List.dropLast_concat]
  refine ⟨?_, fun r hr => ?_, rfl, rfl, rfl, rfl⟩
  · dsimp only
    rw [hEnd, hRounds, List.length_append, List.length_singleton]
    omega
  · dsimp only at hr
    rw [hDrop] at hr
    rw [hRounds]
    refine ⟨List.mem_append_left _ hr, ?_⟩
    have hMem : r.round ∈ rounds.map (·.round) := List.mem_map_of_mem hr
    rw [hInit, List.mem_range'_1] at hMem
    rw [List.length_append, List.length_singleton]
    omega

theorem inStep_afterCount (h : InStep rules.bestOf bout) (answers : Answers) :
    InStep rules.bestOf (bout.afterCount upperTrimmed rules answers) :=
  h.counted (correctedSnapshots_same bout answers) _ _

theorem length_afterCount (bout : SeriesBout ι) (answers : Answers) :
    (bout.afterCount upperTrimmed rules answers).row.rounds.length = bout.row.rounds.length :=
  List.length_map _

/-- A count leaves the sheet and the current round. -/
theorem recompute_keeps (h : InStep rules.bestOf bout) (answers : Answers) :
    (bout.recomputeBestOfRounds upperTrimmed rules answers).exchanges = bout.exchanges ∧
      (bout.recomputeBestOfRounds upperTrimmed rules answers).penalties = bout.penalties ∧
      (bout.recomputeBestOfRounds upperTrimmed rules answers).currentRound = bout.currentRound := by
  have hCases : RecountCase upperTrimmed rules bout answers
      (bout.recomputeBestOfRounds upperTrimmed rules answers) := recompute_cases h answers
  generalize bout.recomputeBestOfRounds upperTrimmed rules answers = counted at hCases
  cases hCases with
  | held _ => exact ⟨rfl, rfl, rfl⟩
  | popped pop current =>
    obtain ⟨hCurrent, -, hExchanges, hPenalties, -, -⟩ := pop_spec (inStep_afterCount h answers) pop
    refine ⟨hExchanges, hPenalties, ?_⟩
    dsimp only
    rw [hCurrent, length_afterCount, current]
  | closed _ _ => exact ⟨rfl, rfl, rfl⟩
  | judged _ => exact ⟨rfl, rfl, rfl⟩

/-! ## What a count leaves is counted -/

theorem endReason_correctSnapshot (reopens : Bool) (closed : ClosedRound) (ev : RoundEvaluation) :
    (correctSnapshot reopens closed ev).endReason = closed.endReason := by
  rw [correctSnapshot]
  split
  · rfl
  · rw [correctedClosedRound]
    split
    · rename_i hScore
      split_ifs at hScore
      · obtain rfl := RoundCorrection.score.inj hScore
        rfl
      · obtain rfl := RoundCorrection.score.inj hScore
        rfl
    · rfl
    · rfl

/-- A snapshot that does not go back to the referee is corrected. -/
theorem fixed_of_mem_snapshots {closed : ClosedRound}
    (hMem : closed ∈ bout.correctedSnapshots upperTrimmed rules answers)
    (hStays : ∀ c ∈ bout.row.rounds, c.round = closed.round →
      bout.reopensRound upperTrimmed rules answers c = false) :
    Fixed closed (bout.evaluateRound upperTrimmed rules closed.round) := by
  obtain ⟨c, hc, rfl⟩ := List.mem_map.mp hMem
  have hRound := (correctSnapshot_same (bout.reopensRound upperTrimmed rules answers c) c
    (bout.evaluateRound upperTrimmed rules c.round)).1
  have hStay := hStays c hc hRound.symm
  rw [hStay] at hRound ⊢
  rw [hRound]
  exact fixed_correctSnapshot c _

theorem not_reopens_of_ne {closed : ClosedRound} (h : closed.round ≠ bout.currentRound) :
    bout.reopensRound upperTrimmed rules answers closed = false :=
  Bool.eq_false_iff.mpr fun hReopens => h (round_of_reopensRound hReopens)

theorem Counted.of_sheet (bout : SeriesBout ι) {sheet : SeriesBout ι}
    (hExchanges : sheet.exchanges = bout.exchanges)
    (hPenalties : sheet.penalties = bout.penalties)
    (redScore : sheet.row.redScore =
      (bout.evaluateRound upperTrimmed rules sheet.currentRound).score.redScore)
    (blueScore : sheet.row.blueScore =
      (bout.evaluateRound upperTrimmed rules sheet.currentRound).score.blueScore)
    (fixed : ∀ closed ∈ sheet.row.rounds,
      (sheet.row.completed = true → closed.round ≠ sheet.currentRound) →
        Fixed closed (bout.evaluateRound upperTrimmed rules closed.round))
    (settled : sheet.row.completed = false → ∀ closed ∈ sheet.row.rounds,
      closed.round = sheet.currentRound →
        roundShouldReopen closed (bout.evaluateRound upperTrimmed rules closed.round) = false) :
    Counted upperTrimmed rules sheet := by
  have hEvaluate : ∀ round, sheet.evaluateRound upperTrimmed rules round =
      bout.evaluateRound upperTrimmed rules round := evaluateRound_of_sheet hExchanges hPenalties
  refine ⟨?_, ?_, ?_, ?_⟩
  · rw [hEvaluate, redScore]
  · rw [hEvaluate, blueScore]
  · intro closed hMem hNot
    rw [hEvaluate]
    exact fixed closed hMem hNot
  · intro hPlay closed hMem hCurrent
    rw [hEvaluate]
    exact settled hPlay closed hMem hCurrent

omit [DecidableEq ι] in
theorem closure_spec {m : RulesetMatch ι} {bestOf : ℕ} (row : SeriesRow ι) (closing : ClosedRound) :
    (buildRoundClosure m bestOf row closing).redScore = closing.redScore ∧
      (buildRoundClosure m bestOf row closing).blueScore = closing.blueScore ∧
        (buildRoundClosure m bestOf row closing).rounds = row.rounds ++ [closing] := by
  rw [buildRoundClosure]
  dsimp only
  split <;> exact ⟨rfl, rfl, rfl⟩

theorem counted_recompute (h : InStep rules.bestOf bout) (answers : Answers) :
    Counted upperTrimmed rules (bout.recomputeBestOfRounds upperTrimmed rules answers) := by
  have hCases : RecountCase upperTrimmed rules bout answers
      (bout.recomputeBestOfRounds upperTrimmed rules answers) := recompute_cases h answers
  generalize bout.recomputeBestOfRounds upperTrimmed rules answers = counted at hCases
  cases hCases with
  | held completed =>
    refine Counted.of_sheet bout rfl rfl rfl rfl (fun closed hMem hNot => ?_) fun hPlay => ?_
    · have hMem : closed ∈ bout.correctedSnapshots upperTrimmed rules answers := hMem
      refine fixed_of_mem_snapshots hMem fun c _ hRound => not_reopens_of_ne ?_
      rw [hRound]
      exact hNot completed
    · exact absurd (hPlay.symm.trans completed) Bool.false_ne_true
  | popped pop current =>
    obtain ⟨hCurrent, hRounds, hExchanges, hPenalties, hRed, hBlue⟩ :=
      pop_spec (inStep_afterCount h answers) pop
    rw [length_afterCount, ← current] at hCurrent hRounds
    refine Counted.of_sheet bout hExchanges hPenalties ?_ ?_ (fun closed hMem _ => ?_)
      fun _ closed hMem hRound => ?_
    · dsimp only
      rw [hCurrent, hRed]
      rfl
    · dsimp only
      rw [hCurrent, hBlue]
      rfl
    · obtain ⟨hSnapshot, hLt⟩ := hRounds closed hMem
      have hSnapshot : closed ∈ bout.correctedSnapshots upperTrimmed rules answers := hSnapshot
      refine fixed_of_mem_snapshots hSnapshot fun c _ hRound => not_reopens_of_ne ?_
      rw [hRound]
      exact hLt.ne
    · dsimp only at hRound
      rw [hCurrent] at hRound
      exact absurd hRound (hRounds closed hMem).2.ne
  | closed isOpen autoOver =>
    rw [List.any_eq_false] at isOpen
    have hNot : ∀ c ∈ bout.row.rounds, c.round ≠ bout.currentRound := fun c hc hRound =>
      isOpen c hc (decide_eq_true hRound)
    refine Counted.of_sheet bout rfl rfl (closure_spec _ _).1 (closure_spec _ _).2.1 (fun closed hMem _ => ?_)
      fun _ closed hMem hRound => ?_
    · dsimp only at hMem
      rw [(closure_spec _ _).2.2] at hMem
      rcases List.mem_append.mp hMem with hMem | hMem
      · have hMem : closed ∈ bout.correctedSnapshots upperTrimmed rules answers := hMem
        exact fixed_of_mem_snapshots hMem fun c hc _ => not_reopens_of_ne (hNot c hc)
      · rw [List.mem_singleton.mp hMem]
        exact fixed_of_score rfl rfl
    · dsimp only at hMem
      rw [(closure_spec _ _).2.2] at hMem
      rcases List.mem_append.mp hMem with hMem | hMem
      · obtain ⟨c, hc, rfl⟩ := List.mem_map.mp hMem
        rw [(correctSnapshot_same _ _ _).1] at hRound
        exact absurd hRound (hNot c hc)
      · rw [List.mem_singleton.mp hMem, roundShouldReopen, autoOver, Bool.not_true, Bool.and_false]
  | judged stays =>
    refine Counted.of_sheet bout rfl rfl rfl rfl (fun closed hMem _ => ?_)
      fun hPlay closed hMem hRound => ?_
    · have hMem : closed ∈ bout.correctedSnapshots upperTrimmed rules answers := hMem
      exact fixed_of_mem_snapshots hMem fun c hc _ => stays c hc
    · obtain ⟨c, hc, rfl⟩ := List.mem_map.mp hMem
      rw [(correctSnapshot_same _ _ _).1] at hRound ⊢
      have hStays := stays c hc
      have hPlay : bout.row.completed = false := hPlay
      have hReopenable : bout.reopenableRound answers = some bout.currentRound := by
        rw [SeriesBout.reopenableRound, hPlay]
        rfl
      rw [SeriesBout.reopensRound, hReopenable, hRound] at hStays
      rw [hRound]
      simpa [roundShouldReopen, endReason_correctSnapshot] using hStays

/-! ## Every door leaves a counted row -/

omit [DecidableEq ι] in
/-- A Reopen pops the round that ended a completed series; between rounds it moves the clock alone. -/
theorem reopen_cases {bestOf : ℕ} (h : InStep bestOf bout) :
    (bout.row.completed = false ∧ bout.reopen = { bout with
        row :=
          { bout.row with completed := false, winnerRegistrationId := none, endReason := none } }) ∨
      ∃ popped, bout.popLastClosedRound = some popped ∧
        bout.currentRound = bout.row.rounds.length ∧
          bout.reopen = { popped with row := { popped.row with completed := false } } := by
  have hPop := popClinchingRound_eq h
  cases hOver : (seriesResult bout.row.rounds bestOf).isOver with
  | false =>
    rw [hOver, if_neg Bool.false_ne_true] at hPop
    refine Or.inl ⟨?_, by rw [SeriesBout.reopen, hPop]; rfl⟩
    cases h.position with
    | onBoard _ _ _ inPlay => exact inPlay
    | closed _ _ _ _ completed => exact completed.trans hOver
  | true =>
    rw [hOver, if_pos rfl] at hPop
    cases h.position with
    | onBoard _ notOver _ _ => exact absurd (notOver.symm.trans hOver) Bool.false_ne_true
    | closed current pos _ _ _ =>
      obtain ⟨last, hLast⟩ : ∃ last, bout.row.rounds.getLast? = some last :=
        Option.ne_none_iff_exists'.mp (List.getLast?_eq_none_iff.not.mpr
          (List.ne_nil_of_length_pos pos))
      have hPopped : bout.popLastClosedRound = some _ := congrArg (Option.map _) hLast
      exact Or.inr ⟨_, hPopped, current, by rw [SeriesBout.reopen, hPop, hPopped]; rfl⟩

theorem Counted.reopen (h : InStep rules.bestOf bout) (hCounted : Counted upperTrimmed rules bout) :
    Counted upperTrimmed rules bout.reopen := by
  rcases reopen_cases h with ⟨hPlay, hEq⟩ | ⟨popped, hPop, hCurrent, hEq⟩
  · rw [hEq]
    refine Counted.of_sheet bout rfl rfl hCounted.redScore hCounted.blueScore
      (fun closed hMem _ => ?_) fun _ => hCounted.settled hPlay
    exact hCounted.fixed closed hMem fun hCompleted =>
      absurd (hPlay.symm.trans hCompleted) Bool.false_ne_true
  · rw [hEq]
    obtain ⟨hRound, hRounds, hExchanges, hPenalties, hRed, hBlue⟩ := pop_spec h hPop
    rw [← hCurrent] at hRound hRounds
    refine Counted.of_sheet bout hExchanges hPenalties ?_ ?_ (fun closed hMem _ => ?_)
      fun _ closed hMem hClosed => ?_
    · dsimp only
      rw [hRound, hRed, hCounted.redScore]
    · dsimp only
      rw [hRound, hBlue, hCounted.blueScore]
    · obtain ⟨hMem, hLt⟩ := hRounds closed hMem
      exact hCounted.fixed closed hMem fun _ => hLt.ne
    · dsimp only at hClosed
      rw [hRound] at hClosed
      exact absurd hClosed (hRounds closed hMem).2.ne

theorem Counted.endRound {levelRoundEnds : Bool} (hCounted : Counted upperTrimmed rules bout)
    (hEnd : bout.endRound upperTrimmed rules levelRoundEnds = some bout') :
    Counted upperTrimmed rules bout' := by
  rw [SeriesBout.endRound] at hEnd
  split_ifs at hEnd with hRefused hLevel
  obtain rfl := Option.some.inj hEnd
  simp only [Bool.or_eq_true, not_or, Bool.not_eq_true] at hRefused
  obtain ⟨⟨hPlay, -⟩, hOpen⟩ := hRefused
  rw [List.any_eq_false] at hOpen
  refine Counted.of_sheet bout rfl rfl (closure_spec _ _).1 (closure_spec _ _).2.1 (fun closed hMem _ => ?_)
    fun _ closed hMem hRound => ?_
  · dsimp only at hMem
    rw [(closure_spec _ _).2.2] at hMem
    rcases List.mem_append.mp hMem with hMem | hMem
    · exact hCounted.fixed closed hMem fun hCompleted =>
        absurd (hPlay.symm.trans hCompleted) Bool.false_ne_true
    · rw [List.mem_singleton.mp hMem]
      exact fixed_of_score rfl rfl
  · dsimp only at hMem
    rw [(closure_spec _ _).2.2] at hMem
    rcases List.mem_append.mp hMem with hMem | hMem
    · exact absurd (decide_eq_true hRound) (hOpen closed hMem)
    · rw [List.mem_singleton.mp hMem]
      rfl

omit [DecidableEq ι] in
theorem currentRound_reopen {bestOf : ℕ} (h : InStep bestOf bout) :
    bout.reopen.currentRound = bout.currentRound := by
  rcases reopen_cases h with ⟨-, hEq⟩ | ⟨popped, hPop, hCurrent, hEq⟩
  · rw [hEq]
  · rw [hEq]
    exact (pop_spec h hPop).1.trans hCurrent.symm

/-- Every door leaves a counted row, and takes no round back. -/
theorem Counted.door {event : SeriesEvent ι} (h : InStep rules.bestOf bout)
    (hCounted : Counted upperTrimmed rules bout)
    (hDoor : bout.door upperTrimmed rules event answers = some bout') :
    Counted upperTrimmed rules bout' ∧ bout.currentRound ≤ bout'.currentRound := by
  cases door_cases hDoor with
  | counted sheet isSheet eq =>
    have hSheet := h.of_eq isSheet.row isSheet.currentRound
    rw [eq, (recompute_keeps hSheet answers).2.2]
    exact ⟨counted_recompute hSheet answers, isSheet.currentRound.ge⟩
  | ended levelRoundEnds eq =>
    refine ⟨hCounted.endRound eq, ?_⟩
    simp only [SeriesBout.endRound] at eq
    split_ifs at eq
    exact (congrArg SeriesBout.currentRound (Option.some.inj eq)).le
  | advanced clockEnded eq =>
    obtain ⟨opened, hOpened, hCurrent, -, -, rfl⟩ := advanceRound_spec h eq
    rw [(recompute_keeps hOpened answers).2.2, hCurrent]
    exact ⟨counted_recompute hOpened answers, Nat.le_succ _⟩
  | reopened eq =>
    rw [eq, currentRound_reopen h]
    exact ⟨hCounted.reopen h, le_refl _⟩

/-- Counted once more, a row in play that its sheet does not end stays as it is. -/
theorem recompute_of_counted (h : InStep rules.bestOf bout)
    (hCounted : Counted upperTrimmed rules bout) (hPlay : bout.row.completed = false)
    (hOpen : (bout.evaluateRound upperTrimmed rules bout.currentRound).outcome.autoOver = false)
    (answers : Answers) : bout.recomputeBestOfRounds upperTrimmed rules answers = bout := by
  have hReopens : ∀ closed ∈ bout.row.rounds,
      bout.reopensRound upperTrimmed rules answers closed = false := by
    intro closed hMem
    by_cases hRound : closed.round = bout.currentRound
    · rw [SeriesBout.reopensRound, hCounted.settled hPlay closed hMem hRound, Bool.and_false]
    · exact not_reopens_of_ne hRound
  have hSnapshots : bout.correctedSnapshots upperTrimmed rules answers = bout.row.rounds := by
    rw [SeriesBout.correctedSnapshots]
    conv_rhs => rw [← List.map_id bout.row.rounds]
    refine List.map_congr_left fun closed hMem => ?_
    rw [hReopens closed hMem]
    exact hCounted.fixed closed hMem fun hCompleted =>
      absurd (hPlay.symm.trans hCompleted) Bool.false_ne_true
  have hAny : bout.row.rounds.any (bout.reopensRound upperTrimmed rules answers) = false :=
    List.any_eq_false.mpr fun closed hMem => Bool.eq_false_iff.mp (hReopens closed hMem)
  have hAwaiting : (bout.row.rounds.any (·.round = bout.currentRound) &&
      !(seriesResult bout.row.rounds rules.bestOf).isOver && !bout.row.completed) =
        bout.row.awaitingRoundAdvance := by
    cases h.position with
    | onBoard current _ notAwaiting _ =>
      rw [not_any_of_onBoard h.numbered current, notAwaiting]
      rfl
    | closed current pos _ awaiting completed =>
      rw [any_of_closed h.numbered current pos, awaiting, completed, Bool.true_and, Bool.and_self]
  rw [SeriesBout.recomputeBestOfRounds]
  simp only [hAny, hOpen, hSnapshots, Bool.and_false, Bool.false_eq_true, if_false, hAwaiting,
    ← h.redWins, ← h.blueWins, ← hCounted.redScore, ← hCounted.blueScore]

/-! ## The rounds not opened yet -/

omit [DecidableEq ι] in
/-- Every row of the sheet is stamped with a round that was opened. -/
structure Stamped (bout : SeriesBout ι) : Prop where
  exchanges : ∀ r ∈ bout.exchanges, r.roundNumber ≤ bout.currentRound
  penalties : ∀ r ∈ bout.penalties, r.roundNumber ≤ bout.currentRound

theorem Stamped.recompute (h : InStep rules.bestOf bout) (hStamped : Stamped bout)
    (answers : Answers) :
    Stamped (bout.recomputeBestOfRounds upperTrimmed rules answers) := by
  obtain ⟨hExchanges, hPenalties, hCurrent⟩ := recompute_keeps h answers
  constructor
  · rw [hExchanges, hCurrent]
    exact hStamped.exchanges
  · rw [hPenalties, hCurrent]
    exact hStamped.penalties

omit [DecidableEq ι] in
theorem Stamped.reopen {bestOf : ℕ} (h : InStep bestOf bout) (hStamped : Stamped bout) :
    Stamped bout.reopen := by
  have hSheet : bout.reopen.exchanges = bout.exchanges ∧ bout.reopen.penalties = bout.penalties := by
    rcases reopen_cases h with ⟨-, hEq⟩ | ⟨popped, hPop, -, hEq⟩
    · rw [hEq]
      exact ⟨rfl, rfl⟩
    · rw [hEq]
      obtain ⟨-, -, hExchanges, hPenalties, -, -⟩ := pop_spec h hPop
      exact ⟨hExchanges, hPenalties⟩
  constructor
  · rw [hSheet.1, currentRound_reopen h]
    exact hStamped.exchanges
  · rw [hSheet.2, currentRound_reopen h]
    exact hStamped.penalties

theorem roundNumber_le {α : Type v} {rows rows' : List (RoundRow α)} {current : ℕ}
    (h : ∀ r ∈ rows, r.roundNumber ≤ current)
    (hFrom : ∀ r ∈ rows', r.roundNumber = current ∨ r.roundNumber ∈ rows.map (·.roundNumber)) :
    ∀ r ∈ rows', r.roundNumber ≤ current := by
  intro r hr
  rcases hFrom r hr with hEq | hMem
  · exact hEq.le
  · obtain ⟨r', hr', hEq⟩ := List.mem_map.mp hMem
    exact hEq ▸ h r' hr'

/-- No door stamps a row with a round before it is opened. -/
theorem Stamped.door {event : SeriesEvent ι} (h : InStep rules.bestOf bout)
    (hStamped : Stamped bout)
    (hDoor : bout.door upperTrimmed rules event answers = some bout') : Stamped bout' := by
  cases door_cases hDoor with
  | counted sheet isSheet eq =>
    have hSheet : Stamped sheet := by
      constructor
      · rw [isSheet.currentRound]
        exact roundNumber_le hStamped.exchanges isSheet.exchanges
      · rw [isSheet.currentRound]
        exact roundNumber_le hStamped.penalties isSheet.penalties
    rw [eq]
    exact hSheet.recompute (h.of_eq isSheet.row isSheet.currentRound) answers
  | ended levelRoundEnds eq =>
    simp only [SeriesBout.endRound] at eq
    split_ifs at eq
    obtain rfl := Option.some.inj eq
    exact ⟨hStamped.exchanges, hStamped.penalties⟩
  | advanced clockEnded eq =>
    obtain ⟨opened, hOpened, hCurrent, hExchanges, hPenalties, rfl⟩ := advanceRound_spec h eq
    have hStampedOpened : Stamped opened := by
      constructor
      · intro r hr
        rw [hExchanges] at hr
        exact (hStamped.exchanges r hr).trans (hCurrent.ge.trans' (Nat.le_succ _))
      · intro r hr
        rw [hPenalties] at hr
        exact (hStamped.penalties r hr).trans (hCurrent.ge.trans' (Nat.le_succ _))
    exact hStampedOpened.recompute hOpened answers
  | reopened eq =>
    rw [eq]
    exact hStamped.reopen h

/-! ## A round that has just been opened -/

/-- What the schema of a format promises of its bounds. -/
structure SoundFormat (config : MatchFormatConfig) : Prop where
  pointCap : 0 < config.pointCap
  maxDoubleHits : ∀ bound ∈ config.maxDoubleHits, 0 < bound

theorem computeMatchScore_nil (config : MatchFormatConfig) (hSound : SoundFormat config)
    (m : FormatMatch) (mode : AfterblowMode) :
    computeMatchFormatScore m [] config mode =
      ⟨(applyScoringDirection config 0 0).1, (applyScoringDirection config 0 0).2, 0, 0, 0, 0, 0,
        (belowZero config 0 0).1, (belowZero config 0 0).2⟩ := by
  have hTally : tallyOf [] mode = .zero := rfl
  rw [computeMatchFormatScore, hTally]
  cases hMax : getEffectiveMaxDoubles m config with
  | none => rfl
  | some bound =>
    have hBound : bound ∈ config.maxDoubleHits := by
      rw [getEffectiveMaxDoubles] at hMax
      split_ifs at hMax
      exact hMax
    have hPos : decide (Tally.zero.doubles ≥ bound) = false :=
      decide_eq_false (not_le.mpr (hSound.maxDoubleHits bound hBound))
    simp only [hPos, Bool.false_and, Bool.false_eq_true, if_false]
    rfl

theorem autoOver_zero {config : MatchFormatConfig} (hSound : SoundFormat config)
    (edition : DecisionEdition) (m : FormatMatch) {score : MatchScore}
    (hRed : score.redScore = (applyScoringDirection config 0 0).1)
    (hBlue : score.blueScore = (applyScoringDirection config 0 0).2) (hDoubles : score.doubles = 0) :
    (roundOutcome score.cap config edition upperTrimmed m).autoOver = false := by
  have hCeiling : atTheCeiling score.cap config m = false := by
    rw [atTheCeiling]
    split
    · rename_i bound hMax
      rw [getEffectiveMaxDoubles] at hMax
      split_ifs at hMax
      have hPos := hSound.maxDoubleHits bound hMax
      exact decide_eq_false (by rw [MatchScore.cap, hDoubles]; exact not_le.mpr hPos)
    · rfl
  have hCap : config.pointCap ≠ 0 := hSound.pointCap.ne'
  have hReached : isPointCapReached score.cap config = false := by
    rw [isPointCapReached, MatchScore.cap]
    dsimp only
    rw [hRed, hBlue, applyScoringDirection]
    by_cases hDown : config.scoringDirection = .reverseZeroLoses
    · simp [hDown, hCap]
    · simp [hDown, hCap]
  rw [roundOutcome, hCeiling, pointCapEndsBout, hReached]
  rfl

/-- A round with nothing on its sheet does not end by itself. -/
theorem autoOver_of_empty (hSound : SoundFormat rules.config) {round : ℕ}
    (hExchanges : inRound bout.exchanges round = []) (hPenalties : inRound bout.penalties round = []) :
    (bout.evaluateRound upperTrimmed rules round).outcome.autoOver = false := by
  have hDoubles : SoundFormat (withoutMaxDoubles rules.config) := ⟨hSound.pointCap, nofun⟩
  rw [SeriesBout.evaluateRound, hExchanges, hPenalties]
  cases hEngine : rules.engine with
  | tfV1 =>
    have hScore := computeMatchScore_nil rules.config hSound rules.fight.format rules.afterblowMode
    refine autoOver_zero hSound _ _ ?_ ?_ ?_ <;>
    · rw [applyPenaltyDeltas, List.foldl_nil, List.map_nil, Engine.computeMatchScore, hScore]
  | formula hit =>
    have hScore := computeMatchScore_nil rules.config hSound rules.fight.format .full
    refine autoOver_zero hSound _ _ ?_ ?_ ?_ <;>
    · rw [applyPenaltyDeltas, List.foldl_nil, List.map_nil, Engine.computeMatchScore,
        List.map_nil, hScore]
  | genericPointsCap hit =>
    have hScore := computeMatchScore_nil _ hDoubles rules.fight.format .full
    refine autoOver_zero hDoubles _ _ ?_ ?_ ?_ <;>
    · rw [applyPenaltyDeltas, List.foldl_nil, List.map_nil, Engine.computeMatchScore,
        List.map_nil, hScore]

/-- A bout in play is counted the same way, whatever is answered about its result. -/
theorem recompute_answers (hPlay : bout.row.completed = false) (answers answers' : Answers) :
    bout.recomputeBestOfRounds upperTrimmed rules answers =
      bout.recomputeBestOfRounds upperTrimmed rules answers' := by
  have hReopenable : ∀ a : Answers, bout.reopenableRound a = some bout.currentRound := by
    intro a
    rw [SeriesBout.reopenableRound, hPlay]
    rfl
  have hReopens : ∀ a : Answers, bout.reopensRound upperTrimmed rules a =
      fun closed => decide (some closed.round = some bout.currentRound) &&
        roundShouldReopen closed (bout.evaluateRound upperTrimmed rules closed.round) := by
    intro a
    funext closed
    rw [SeriesBout.reopensRound, hReopenable]
  have hSnapshots : bout.correctedSnapshots upperTrimmed rules answers =
      bout.correctedSnapshots upperTrimmed rules answers' := by
    rw [SeriesBout.correctedSnapshots, SeriesBout.correctedSnapshots, hReopens, hReopens]
  rw [SeriesBout.recomputeBestOfRounds, SeriesBout.recomputeBestOfRounds, hSnapshots, hReopens,
    hReopens]
  simp only [SeriesBout.reopenClosedRound, hPlay, Bool.not_false, Bool.true_or, if_true]

/-- A count of a round on the board that nothing ends leaves the bout in play, and in that round. -/
theorem recompute_onBoard (h : InStep rules.bestOf bout)
    (hCurrent : bout.currentRound = bout.row.rounds.length + 1)
    (hPlay : bout.row.completed = false)
    (hOpen : (bout.evaluateRound upperTrimmed rules bout.currentRound).outcome.autoOver = false)
    (answers : Answers) {counted : SeriesBout ι}
    (hCounted : counted = bout.recomputeBestOfRounds upperTrimmed rules answers) :
    counted.row.completed = false ∧ counted.row.awaitingRoundAdvance = false ∧
      counted.row.winnerRegistrationId = bout.row.winnerRegistrationId ∧
        counted.row.endReason = bout.row.endReason := by
  have hCases : RecountCase upperTrimmed rules bout answers counted :=
    hCounted ▸ recompute_cases h answers
  cases hCases with
  | held completed => exact absurd (hPlay.symm.trans completed) Bool.false_ne_true
  | popped _ current => omega
  | closed _ autoOver => exact absurd (hOpen.symm.trans autoOver) Bool.false_ne_true
  | judged _ =>
    refine ⟨hPlay, ?_, rfl, rfl⟩
    have hSame : SameResults (bout.correctedSnapshots upperTrimmed rules answers) bout.row.rounds :=
      correctedSnapshots_same bout answers
    have hNone : (bout.afterCount upperTrimmed rules answers).row.rounds.any
        (·.round = bout.currentRound) = false :=
      (any_of_sameResults hSame bout.currentRound).trans (not_any_of_onBoard h.numbered hCurrent)
    dsimp only
    rw [hNone, Bool.false_and, Bool.false_and]

/-- What holds of a best-of bout along every run of the doors. -/
theorem lawful_of_run {moves : List (Move (SeriesBout ι) (SeriesEvent ι × Answers))}
    (hRun : Run (seriesStep upperTrimmed rules) (.fresh ι) moves bout) :
    InStep rules.bestOf bout ∧ Stamped bout := by
  have hInStep : InStep rules.bestOf bout ∧ ∀ m ∈ moves, InStep rules.bestOf m.before :=
    hRun.invariant (fresh_inStep rules.bestOf) fun _ _ _ hLaw hStep => hLaw.door hStep
  refine ⟨hInStep.1, ?_⟩
  induction hRun with
  | start => exact ⟨nofun, nofun⟩
  | @move moves s s' e hRun hStep ih =>
    have hBefore := hInStep.2 _ (List.mem_append_right moves List.mem_cons_self)
    refine (ih ⟨hBefore, fun m hm => hInStep.2 m (List.mem_append_left _ hm)⟩).door hBefore hStep

end Counted

end MyClash.Scoring
