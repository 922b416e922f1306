import MyClash.Timeline.Doors

/-!
# What the doors leave on the clock

For a press that is not before the timeline's rows: what the clock is after each write of the
server, and the writes that leave it as it was.
-/

namespace MyClash.Timeline

open Clock MatchFormat Scoring

universe u v

variable {τ : Type u} {ι : Type v} {iso : IsoTime τ} {bout written : ServerBout τ ι}
variable {action : ClockAction} {ms nowMs : ℤ} {time : τ} {clientUuid : Option ι}

theorem firstRefusal_eq_none_iff {rules : List (Bool × Refusal)} :
    firstRefusal rules = none ↔ ∀ rule ∈ rules, rule.1 = false := by
  rw [firstRefusal, Option.map_eq_none_iff, List.find?_eq_none]
  simp

/-- The clock after a row of the server's own or of a press. -/
def ServerClock.after (iso : IsoTime τ) (clock : ServerClock τ) (action : ClockAction) (time : τ) :
    ServerClock τ :=
  { clock with fold := clockStep iso.getTime clock.fold ⟨.press action, time, none⟩ }

/-! ## One row written -/

theorem clock_write {type : EventType} {adjustmentMs : Option ℤ}
    (h : NotBefore iso bout.rows (iso.getTime time)) :
    (bout.write type time adjustmentMs clientUuid).clock iso =
      rowStep iso (bout.clock iso)
        ⟨type, time, nextSequence bout.rows, adjustmentMs, clientUuid⟩ :=
  getClockState_concat h fun _ hr => sequence_lt_nextSequence hr

theorem notBefore_write {type : EventType} {adjustmentMs : Option ℤ}
    (h : NotBefore iso bout.rows ms) (hTime : iso.getTime time ≤ ms) :
    NotBefore iso (bout.write type time adjustmentMs clientUuid).rows ms := by
  intro row hRow
  rcases List.mem_append.mp hRow with hRow | hRow
  · exact h row hRow
  · exact List.mem_singleton.mp hRow ▸ hTime

theorem clock_record (h : NotBefore iso bout.rows (iso.getTime time)) :
    (record bout action time clientUuid).clock iso = (bout.clock iso).after iso action time :=
  clock_write h

theorem notBefore_record (h : NotBefore iso bout.rows ms) (hTime : iso.getTime time ≤ ms) :
    NotBefore iso (record bout action time clientUuid).rows ms := notBefore_write h hTime

/-! ## The server's own steps of the clock -/

theorem clockAction_ok (h : NotBefore iso bout.rows ms)
    (hOk : clockAction iso bout action (some ms) nowMs = .ok written) :
    written = record bout action (iso.toISOString ms) none ∧
      (action = .resetClock → (bout.clock iso).levelResolutionSteps = 0) := by
  simp only [clockAction] at hOk
  split at hOk
  · cases hOk
  · rename_i hNone
    rw [placedInTimeline_of_notBefore h] at hOk
    refine ⟨(Except.ok.inj hOk).symm, fun hReset => ?_⟩
    have hSteps := firstRefusal_eq_none_iff.mp hNone
      (action = .resetClock && (bout.clock iso).levelResolutionSteps > 0, .resetAfterLevelStep)
      (by simp)
    simpa [hReset] using hSteps

/-- A Halt of the server's own lands on a bout in play, whenever its clock runs. -/
theorem haltClockBestEffort_eq (h : NotBefore iso bout.rows ms) (hOpen : bout.completed = false) :
    haltClockBestEffort iso bout (some ms) nowMs =
      if (bout.clock iso).fold.status = .running then
        record bout .halt (iso.toISOString ms) none
      else bout := by
  rw [haltClockBestEffort]
  split_ifs with hRunning
  · have hNone : firstRefusal
        [(bout.completed && ClockAction.halt ≠ .endBout, .boutCompleted),
          (!(CLOCK_ACTIONS_FROM (bout.clock iso).fold.status).contains .halt, .pressOutOfOrder),
          ((ClockAction.halt = .start || ClockAction.halt = .resume) &&
            bout.awaitingRoundAdvance, .roundAwaitsAdvance),
          (ClockAction.halt = .resetClock && (bout.clock iso).levelResolutionSteps > 0,
            .resetAfterLevelStep)] = none := by
      rw [firstRefusal_eq_none_iff, hRunning, hOpen]
      simp [CLOCK_ACTIONS_FROM]
    simp only [clockAction, hNone, bestEffort, placedInTimeline_of_notBefore h]
  · rfl

theorem rows_haltClockBestEffort {causedMs : Option ℤ}
    (h : (getClockState iso bout.rows).fold.status ≠ .running) :
    (haltClockBestEffort iso bout causedMs nowMs).rows = bout.rows :=
  congrArg ServerBout.rows (if_neg h)

/-- An End of the server's own lands wherever an End is legal. -/
theorem endClockBestEffort_eq (h : NotBefore iso bout.rows ms)
    (hFits : ClockAction.endBout ∈ CLOCK_ACTIONS_FROM (bout.clock iso).fold.status) :
    endClockBestEffort iso bout (some ms) nowMs =
      record bout .endBout (iso.toISOString ms) none := by
  have hStatus : (bout.clock iso).fold.status = .running ∨
      (bout.clock iso).fold.status = .halted := by
    cases hStatus : (bout.clock iso).fold.status <;> rw [hStatus] at hFits <;>
      first | exact Or.inl rfl | exact Or.inr rfl | exact absurd hFits (by decide)
  have hNone : firstRefusal
      [(bout.completed && ClockAction.endBout ≠ .endBout, .boutCompleted),
        (!(CLOCK_ACTIONS_FROM (bout.clock iso).fold.status).contains .endBout, .pressOutOfOrder),
        ((ClockAction.endBout = .start || ClockAction.endBout = .resume) &&
          bout.awaitingRoundAdvance, .roundAwaitsAdvance),
        (ClockAction.endBout = .resetClock && (bout.clock iso).levelResolutionSteps > 0,
          .resetAfterLevelStep)] = none := by
    rw [firstRefusal_eq_none_iff]
    simp [hFits]
  rw [endClockBestEffort, if_pos (by simpa using hStatus)]
  simp only [clockAction, hNone, bestEffort, placedInTimeline_of_notBefore h]

/-! ## The clock put to zero -/

/-- A clock stopped for its reset is halted, and keeps its start and its round's steps. -/
structure Stopped (iso : IsoTime τ) (bout stopped : ServerBout τ ι) (ms : ℤ) : Prop where
  halted : (stopped.clock iso).fold.status = .halted
  startedAt : (stopped.clock iso).fold.startedAt = (bout.clock iso).fold.startedAt
  notBefore : NotBefore iso stopped.rows ms
  closedRounds : stopped.closedRounds = bout.closedRounds

theorem stopped_of_clockAction (h : NotBefore iso bout.rows ms)
    (hAction : action = .halt ∨ action = .reopen)
    (hOk : clockAction iso bout action (some ms) nowMs = .ok written) :
    Stopped iso bout written ms := by
  obtain ⟨rfl, -⟩ := clockAction_ok h hOk
  have hTime : iso.getTime (iso.toISOString ms) = ms := iso.getTime_toISOString ms
  have hClock : (record bout action (iso.toISOString ms) none).clock iso = _ :=
    clock_record (hTime.symm ▸ h)
  refine ⟨?_, ?_, notBefore_record h hTime.le, rfl⟩
  · rw [hClock]
    rcases hAction with rfl | rfl <;> rfl
  · rw [hClock]
    rcases hAction with rfl | rfl <;> rfl

/-- The clock at zero for a new round, halted, with no level step taken. -/
structure Zeroed (iso : IsoTime τ) (bout zeroed : ServerBout τ ι) (ms : ℤ) : Prop where
  clock : zeroed.clock iso =
    ⟨{ (bout.clock iso).fold with activeMs := 0, runningFrom := none, status := .halted }, 0⟩
  notBefore : NotBefore iso zeroed.rows ms
  closedRounds : zeroed.closedRounds = bout.closedRounds

theorem Stopped.zeroed {stopped : ServerBout τ ι} (h : Stopped iso bout stopped ms)
    (hOk : (if (stopped.clock iso).fold.status = .halted then
      clockAction iso stopped .resetClock (some ms) nowMs else .ok stopped) = .ok written) :
    Zeroed iso bout written ms := by
  rw [if_pos h.halted] at hOk
  obtain ⟨rfl, hSteps⟩ := clockAction_ok h.notBefore hOk
  have hTime : iso.getTime (iso.toISOString ms) = ms := iso.getTime_toISOString ms
  refine ⟨?_, notBefore_record h.notBefore hTime.le, h.closedRounds⟩
  rw [clock_record (hTime.symm ▸ h.notBefore), ServerClock.after, hSteps rfl]
  simp only [clockStep, h.startedAt]

theorem resetClock_ok (h : NotBefore iso bout.rows (iso.getTime time))
    (hIdle : (bout.clock iso).fold.status ≠ .idle)
    (hOk : resetClock iso bout time nowMs = .ok written) :
    Zeroed iso bout written (iso.getTime time) := by
  rw [resetClock] at hOk
  cases hStatus : (bout.clock iso).fold.status with
  | idle => exact absurd hStatus hIdle
  | halted =>
    simp only [hStatus] at hOk
    exact Stopped.zeroed ⟨hStatus, rfl, h, rfl⟩ hOk
  | running =>
    simp only [hStatus] at hOk
    cases hHalt : clockAction iso bout .halt (some (iso.getTime time)) nowMs with
    | error refusal =>
      rw [hHalt] at hOk
      cases hOk
    | ok stopped =>
      rw [hHalt] at hOk
      exact (stopped_of_clockAction h (.inl rfl) hHalt).zeroed hOk
  | ended =>
    simp only [hStatus] at hOk
    cases hReopen : clockAction iso bout .reopen (some (iso.getTime time)) nowMs with
    | error refusal =>
      rw [hReopen] at hOk
      cases hOk
    | ok stopped =>
      rw [hReopen] at hOk
      exact (stopped_of_clockAction h (.inr rfl) hReopen).zeroed hOk

/-! ## The counts that leave the clock -/

variable {rules : BoutRules} {sheets : Sheets}

/-- The sheet that ends a single fight ends its clock where the End was pressed. -/
theorem rows_recompute_of_sheetEnds (h : NotBefore iso bout.rows ms)
    (hEnds : sheetEnds rules sheets bout = true)
    (hFits : ClockAction.endBout ∈ CLOCK_ACTIONS_FROM (bout.clock iso).fold.status) :
    (recomputeMatchScore iso rules sheets bout (some ms) nowMs).rows =
      (record bout .endBout (iso.toISOString ms) none).rows := by
  simp only [sheetEnds, Bool.and_eq_true, decide_eq_true_eq] at hEnds
  obtain ⟨⟨⟨hOpen, -⟩, hSingle⟩, hEnds⟩ := hEnds
  rw [recomputeMatchScore, if_neg (not_lt.mpr hSingle)]
  dsimp only
  rw [if_pos (by rw [hEnds]; exact hOpen)]
  let ended : ServerBout τ ι :=
    { bout with
      redScore := (sheets.ofRound bout.round).redScore
      blueScore := (sheets.ofRound bout.round).blueScore
      status := .completed }
  have hEnded : endClockBestEffort iso ended (some ms) nowMs =
      record ended .endBout (iso.toISOString ms) none := endClockBestEffort_eq h hFits
  have hRows := congrArg ServerBout.rows hEnded
  exact hRows

/-- Does the sheet of the bout's open round end its series, or its single fight? -/
def countDecides (rules : BoutRules) (sheets : Sheets) (bout : ServerBout τ ι) : Bool :=
  let sheet := sheets.ofRound bout.round
  if rules.bestOf > 1 then
    !bout.closedRounds.any (·.round = bout.round) &&
      sheet.roundEnds.any fun ends =>
        (seriesResult (bout.closedRounds ++
          [⟨bout.round, sheet.redScore, sheet.blueScore, ends.1, ends.2⟩]) rules.bestOf).isOver
  else sheet.endsBout

theorem rows_buildRoundClosure (closing : ClosedRound) :
    (buildRoundClosure rules bout closing).rows = bout.rows := by
  rw [buildRoundClosure]
  split_ifs <;> rfl

theorem awaiting_buildRoundClosure (closing : ClosedRound) :
    (buildRoundClosure rules bout closing).awaitingRoundAdvance =
      !(seriesResult (bout.closedRounds ++ [closing]) rules.bestOf).isOver := by
  rw [buildRoundClosure]
  split_ifs with h <;> simp [h]

theorem completed_buildRoundClosure {closing : ClosedRound}
    (h : (seriesResult (bout.closedRounds ++ [closing]) rules.bestOf).isOver = false) :
    (buildRoundClosure rules bout closing).completed = bout.completed := by
  rw [buildRoundClosure, if_neg (by simp [h])]
  rfl

/-- A count that decides nothing leaves a clock that does not run. -/
theorem rows_recompute (hDecides : countDecides rules sheets bout = false)
    (hStopped : (bout.clock iso).fold.status ≠ .running) :
    (recomputeMatchScore iso rules sheets bout none nowMs).rows = bout.rows := by
  rw [recomputeMatchScore]
  split_ifs with hBestOf
  · rw [countDecides, if_pos hBestOf] at hDecides
    rw [recomputeBestOfRounds]
    split
    · rename_i winnerColor endReason hClosed hEnds
      rw [hClosed, hEnds] at hDecides
      have hGoesOn : (seriesResult (bout.closedRounds ++
          [⟨bout.round, (sheets.ofRound bout.round).redScore,
            (sheets.ofRound bout.round).blueScore, winnerColor, endReason⟩])
          rules.bestOf).isOver = false := hDecides
      rw [closeRound]
      refine (congrArg ServerBout.rows (if_pos ?_)).trans ?_
      · rw [awaiting_buildRoundClosure]
        simp [hGoesOn]
      · refine (rows_haltClockBestEffort ?_).trans (rows_buildRoundClosure _)
        rw [rows_buildRoundClosure]
        exact hStopped
    · split_ifs
      · exact rows_haltClockBestEffort hStopped
      · rfl
  · rw [countDecides, if_neg hBestOf] at hDecides
    simp [hDecides]

/-- A count over an empty sheet leaves the clock, unless it runs between two rounds. -/
theorem rows_recompute_of_empty (hEmpty : (sheets.ofRound bout.round).isEmpty = true)
    (hBetween : betweenRounds rules bout = true → (bout.clock iso).fold.status ≠ .running) :
    (recomputeMatchScore iso rules sheets bout none nowMs).rows = bout.rows := by
  rw [recomputeMatchScore]
  split_ifs with hBestOf
  · rw [recomputeBestOfRounds, sheets.roundEnds_of_empty _ hEmpty]
    split
    · rename_i hNone
      cases hNone
    · split_ifs with hWaits
      · exact rows_haltClockBestEffort (hBetween hWaits)
      · rfl
  · simp [sheets.endsBout_of_empty _ hEmpty]

end MyClash.Timeline
