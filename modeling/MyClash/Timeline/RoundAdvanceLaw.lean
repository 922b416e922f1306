import MyClash.Scoring.RoundsCounted
import MyClash.Timeline.RoundAdvance
import MyClash.Timeline.Written

/-!
# An advance cut short and sent again

What one send of "Start round N+1" writes to a bout that waits for it, and what a second send writes
to what a first one left.
-/

namespace MyClash.Timeline

universe u v w

open Clock MatchFormat Scoring CutShort Runs

variable {τ : Type u} {κ : Type v} {ι : Type w} {iso : IsoTime τ} {bout : RoundsBout τ κ ι}

/-! ## What the writes do to the rows and to the columns -/

def AdvanceWrite.action? : AdvanceWrite τ κ → Option (EventType × Option κ)
  | .row type _ clientUuid => some (type, clientUuid)
  | _ => none

/-- The actions of the timeline and the presses they are of, as they were written. -/
def RoundsBout.actions (bout : RoundsBout τ κ ι) : List (EventType × Option κ) :=
  bout.rows.map fun row => (row.type, row.clientUuid)

/-- The bout's own row. -/
def RoundsBout.columns (bout : RoundsBout τ κ ι) : RoundsBout τ κ ι := { bout with rows := [] }

def AdvanceWrite.addsOnly : AdvanceWrite τ κ → Bool
  | .takeBackRow _ => false
  | _ => true

section Writes

variable [DecidableEq ι] {upperTrimmed : String → String} {rules : SeriesRules ι}

theorem actions_runAll {writes : List (AdvanceWrite τ κ)} (h : writes.all (·.addsOnly) = true)
    (bout : RoundsBout τ κ ι) :
    (runAll (AdvanceWrite.run iso upperTrimmed rules) writes bout).actions =
      bout.actions ++ writes.filterMap (·.action?) := by
  induction writes generalizing bout with
  | nil => exact (List.append_nil _).symm
  | cons write writes ih =>
    rw [List.all_cons, Bool.and_eq_true] at h
    rw [runAll_cons, ih h.2]
    cases write with
    | row type time clientUuid =>
      have hConcat : (AdvanceWrite.run iso upperTrimmed rules (.row type time clientUuid)
          bout).actions = bout.actions ++ [(type, clientUuid)] := List.map_append
      rw [hConcat, List.append_assoc]
      rfl
    | takeBackRow sequence => exact absurd h.1 Bool.false_ne_true
    | paused => rfl
    | reopened => rfl
    | ended time activeMs => rfl
    | opened round => rfl
    | recount answers => rfl

theorem columns_runAll (writes : List (AdvanceWrite τ κ)) (bout : RoundsBout τ κ ι) :
    (runAll (AdvanceWrite.run iso upperTrimmed rules) writes bout).columns =
      runAll (AdvanceWrite.run iso upperTrimmed rules)
        (writes.filter (·.action?.isNone)) bout.columns := by
  induction writes generalizing bout with
  | nil => rfl
  | cons write writes ih =>
    rw [runAll_cons, ih]
    cases write <;> rfl

/-- The rows of the writes are behind those of the bout. -/
theorem rows_runAll {writes : List (AdvanceWrite τ κ)} (h : writes.all (·.addsOnly) = true)
    (bout : RoundsBout τ κ ι) :
    ∃ more, (runAll (AdvanceWrite.run iso upperTrimmed rules) writes bout).rows =
      bout.rows ++ more := by
  induction writes generalizing bout with
  | nil => exact ⟨[], (List.append_nil _).symm⟩
  | cons write writes ih =>
    rw [List.all_cons, Bool.and_eq_true] at h
    obtain ⟨more, hMore⟩ := ih h.2 (AdvanceWrite.run iso upperTrimmed rules write bout)
    rw [runAll_cons, hMore]
    cases write with
    | row type time clientUuid =>
      exact ⟨⟨type, time, nextSequence bout.rows, none, clientUuid⟩ :: more,
        List.append_assoc _ _ _⟩
    | takeBackRow sequence => exact absurd h.1 Bool.false_ne_true
    | paused => exact ⟨more, rfl⟩
    | reopened => exact ⟨more, rfl⟩
    | ended time activeMs => exact ⟨more, rfl⟩
    | opened round => exact ⟨more, rfl⟩
    | recount answers => exact ⟨more, rfl⟩

/-! ## One send to a bout that waits -/

/-- The bout waits for `round`, which nothing is stamped with. -/
structure WaitsFor (rules : SeriesRules ι) (round : ℕ) (bout : RoundsBout τ κ ι) : Prop where
  inStep : InStep rules.bestOf bout.series
  stamped : Stamped bout.series
  awaiting : bout.awaiting = true
  current : bout.series.currentRound + 1 = round

omit [DecidableEq ι] in
theorem WaitsFor.notOver {round : ℕ} (h : WaitsFor rules round bout) :
    bout.completed = false ∧ 0 < bout.series.currentRound := by
  have hAwaiting := h.awaiting
  rw [RoundsBout.awaiting] at hAwaiting
  cases h.inStep.position with
  | onBoard _ _ notAwaiting _ =>
    exact absurd (notAwaiting.symm.trans hAwaiting) Bool.false_ne_true
  | closed current pos _ awaiting completed =>
    have hOver := (Bool.not_eq_true' _).mp (awaiting.symm.trans hAwaiting)
    exact ⟨completed.trans hOver, current ▸ pos⟩

omit [DecidableEq ι] in
theorem WaitsFor.waitingFor {round : ℕ} (h : WaitsFor rules round bout) :
    waitingFor bout round = .waits := by
  rw [Timeline.waitingFor, h.notOver.1, h.awaiting, ← h.current]
  simp

omit [DecidableEq ι] in
theorem WaitsFor.reopened {round : ℕ} (h : WaitsFor rules round bout) :
    bout.series.reopen =
      { bout.series with
        row :=
          { bout.series.row with
            completed := false, winnerRegistrationId := none, endReason := none } } :=
  reopen_of_awaiting h.awaiting

/-- A row, or what is written to the bout of a clock that is stopped. -/
def AdvanceWrite.keepsWaiting : AdvanceWrite τ κ → Bool
  | .row _ _ _ | .paused | .reopened => true
  | _ => false

variable (iso upperTrimmed) in
theorem WaitsFor.runAll {round : ℕ} (h : WaitsFor rules round bout)
    (writes : List (AdvanceWrite τ κ)) (hKeeps : writes.all (·.keepsWaiting) = true) :
    WaitsFor rules round (runAll (AdvanceWrite.run iso upperTrimmed rules) writes bout) := by
  induction writes generalizing bout with
  | nil => exact h
  | cons write writes ih =>
    rw [List.all_cons, Bool.and_eq_true] at hKeeps
    refine ih ?_ hKeeps.2
    obtain ⟨inStep, stamped, awaiting, current⟩ := h
    cases write with
    | row type time clientUuid => exact ⟨inStep, stamped, awaiting, current⟩
    | paused => exact ⟨inStep, stamped, awaiting, current⟩
    | reopened =>
      have hReopen := WaitsFor.reopened ⟨inStep, stamped, awaiting, current⟩
      have hAwaiting : bout.series.reopen.row.awaitingRoundAdvance = true := by
        rw [hReopen]
        exact awaiting
      exact ⟨inStep.reopen, stamped.reopen inStep, hAwaiting,
        (congrArg (· + 1) (currentRound_reopen inStep)).trans current⟩
    | takeBackRow sequence => exact absurd hKeeps.1 Bool.false_ne_true
    | ended time activeMs => exact absurd hKeeps.1 Bool.false_ne_true
    | opened round => exact absurd hKeeps.1 Bool.false_ne_true
    | recount answers => exact absurd hKeeps.1 Bool.false_ne_true

/-- What stops a clock for its reset writes to the bout. -/
def stopWrite : ClockStatus → Option (ClockAction × AdvanceWrite τ κ)
  | .running => some (.halt, .paused)
  | .ended => some (.reopen, .reopened)
  | .idle | .halted => none

def stopPlan (status : ClockStatus) (time : τ) : List (AdvanceWrite τ κ) :=
  match stopWrite status with
  | some (action, write) => [.row (.clock (.press action)) time none, write]
  | none => []

def zeroPlan (status : ClockStatus) (time : τ) : List (AdvanceWrite τ κ) :=
  if status = .idle then [] else [.row (.clock (.press .resetClock)) time none]

/-- The writes that open a round, behind the row of the advance. -/
def openPlan (status : ClockStatus) (time : τ) (round : ℕ) (answers : Answers) :
    List (AdvanceWrite τ κ) :=
  stopPlan status time ++ zeroPlan status time ++ [.opened round, .recount answers]

/-- A bout that waits, with a clock that may be put to zero at the time of the advance. -/
structure Ready (iso : IsoTime τ) (rules : SeriesRules ι) (round : ℕ) (atMs : ℤ)
    (bout : RoundsBout τ κ ι) : Prop where
  waits : WaitsFor rules round bout
  notBefore : NotBefore iso bout.rows atMs
  noSteps : (bout.clock iso).levelResolutionSteps = 0

variable {round : ℕ} {atMs : ℤ} {series : SeriesBout ι}

variable (upperTrimmed rules) in
theorem clock_row (type : EventType) {time : τ} (clientUuid : Option κ)
    (h : NotBefore iso bout.rows (iso.getTime time)) :
    (AdvanceWrite.run iso upperTrimmed rules (.row type time clientUuid) bout).clock iso =
      rowStep iso (bout.clock iso) ⟨type, time, nextSequence bout.rows, none, clientUuid⟩ :=
  getClockState_concat h fun _ hr => sequence_lt_nextSequence hr

variable (upperTrimmed rules) in
theorem notBefore_row (type : EventType) {time : τ} (clientUuid : Option κ)
    (h : NotBefore iso bout.rows atMs) (hTime : iso.getTime time ≤ atMs) :
    NotBefore iso (AdvanceWrite.run iso upperTrimmed rules (.row type time clientUuid) bout).rows
      atMs := by
  intro row hRow
  rcases List.mem_append.mp hRow with hRow | hRow
  · exact h row hRow
  · exact List.mem_singleton.mp hRow ▸ hTime

variable (upperTrimmed) in
/-- The row of the advance puts the bout's level steps back to none, and leaves its clock. -/
theorem Ready.of_advance {time : τ} (clientUuid : Option κ) (h : WaitsFor rules round bout)
    (hBefore : NotBefore iso bout.rows (iso.getTime time)) :
    Ready iso rules round (iso.getTime time)
        (AdvanceWrite.run iso upperTrimmed rules (.row .roundAdvance time clientUuid) bout) ∧
      ((AdvanceWrite.run iso upperTrimmed rules (.row .roundAdvance time clientUuid) bout).clock
        iso).fold = (bout.clock iso).fold := by
  have hClock := clock_row upperTrimmed rules .roundAdvance clientUuid hBefore
  have hAfter := notBefore_row upperTrimmed rules .roundAdvance clientUuid hBefore (le_refl _)
  refine ⟨⟨⟨h.inStep, h.stamped, h.awaiting, h.current⟩, hAfter, ?_⟩, ?_⟩
  · rw [hClock]
    rfl
  · rw [hClock]
    rfl

/-- The three steps of a clock that is put to zero halt it. -/
def halts (action : ClockAction) : Bool :=
  action = .halt || action = .reopen || action = .resetClock

variable (upperTrimmed) in
theorem Ready.row {action : ClockAction} (h : Ready iso rules round atMs bout)
    (hHalts : halts action = true) :
    Ready iso rules round atMs (AdvanceWrite.run iso upperTrimmed rules
        (.row (.clock (.press action)) (iso.toISOString atMs) none) bout) ∧
      ((AdvanceWrite.run iso upperTrimmed rules
        (.row (.clock (.press action)) (iso.toISOString atMs) none) bout).clock iso).fold.status =
          .halted := by
  have hTime : iso.getTime (iso.toISOString atMs) = atMs := iso.getTime_toISOString atMs
  have hClock := clock_row upperTrimmed rules (.clock (.press action)) none (hTime.symm ▸ h.notBefore)
  have hBefore := notBefore_row upperTrimmed rules (.clock (.press action)) none h.notBefore hTime.le
  have hWaits : WaitsFor rules round _ := h.waits.runAll iso upperTrimmed
    [.row (.clock (.press action)) (iso.toISOString atMs) none] rfl
  refine ⟨⟨hWaits, hBefore, ?_⟩, ?_⟩
  · rw [hClock]
    exact h.noSteps
  · rw [hClock]
    cases action <;> first | rfl | exact absurd hHalts Bool.false_ne_true

variable (upperTrimmed) in
theorem Ready.write {write : AdvanceWrite τ κ} (h : Ready iso rules round atMs bout)
    (hWrite : write = .paused ∨ write = .reopened) :
    Ready iso rules round atMs (AdvanceWrite.run iso upperTrimmed rules write bout) ∧
      (AdvanceWrite.run iso upperTrimmed rules write bout).clock iso = bout.clock iso := by
  obtain rfl | rfl := hWrite
  · exact ⟨⟨h.waits.runAll iso upperTrimmed [.paused] rfl, h.notBefore, h.noSteps⟩, rfl⟩
  · exact ⟨⟨h.waits.runAll iso upperTrimmed [.reopened] rfl, h.notBefore, h.noSteps⟩, rfl⟩

omit [DecidableEq ι] in
theorem stopWrite_spec {status : ClockStatus} {action : ClockAction} {write : AdvanceWrite τ κ}
    (h : stopWrite status = some (action, write)) :
    halts action = true ∧ (write = .paused ∨ write = .reopened) := by
  cases status with
  | idle => cases h
  | halted => cases h
  | running =>
    obtain ⟨rfl, rfl⟩ := Prod.mk.inj (Option.some.inj h)
    exact ⟨rfl, Or.inl rfl⟩
  | ended =>
    obtain ⟨rfl, rfl⟩ := Prod.mk.inj (Option.some.inj h)
    exact ⟨rfl, Or.inr rfl⟩

variable (upperTrimmed) in
/-- A clock stopped for its reset is halted, and the bout still waits. -/
theorem Ready.stopped {action : ClockAction} {write : AdvanceWrite τ κ}
    (h : Ready iso rules round atMs bout)
    (hStop : stopWrite (bout.clock iso).fold.status = some (action, write)) :
    Ready iso rules round atMs (runAll (AdvanceWrite.run iso upperTrimmed rules)
        [.row (.clock (.press action)) (iso.toISOString atMs) none, write] bout) ∧
      ((runAll (AdvanceWrite.run iso upperTrimmed rules)
        [.row (.clock (.press action)) (iso.toISOString atMs) none, write] bout).clock
          iso).fold.status = .halted := by
  obtain ⟨hHalts, hWrite⟩ := stopWrite_spec hStop
  obtain ⟨hRow, hHalted⟩ := h.row upperTrimmed hHalts
  obtain ⟨hReady, hClock⟩ := hRow.write upperTrimmed hWrite
  exact ⟨hReady, (congrArg (fun clock => clock.fold.status) hClock).trans hHalted⟩

omit [DecidableEq ι] in
theorem clockStepWrites_eq {action : ClockAction} (h : Ready iso rules round atMs bout) :
    clockStepWrites iso round atMs action bout =
      .write (.row (.clock (.press action)) (iso.toISOString atMs) none ::
        match action with
        | .halt => [.paused]
        | .reopen => [.reopened]
        | _ => []) := by
  have hSteps : ¬(action = .resetClock ∧ (bout.clock iso).levelResolutionSteps > 0) := by
    rw [h.noSteps]
    exact fun hContra => absurd hContra.2 (lt_irrefl 0)
  rw [clockStepWrites, if_neg (not_not.mpr h.waits.waitingFor), if_neg hSteps,
    placedInTimeline_of_notBefore h.notBefore]
  cases action <;> rfl

theorem resetClockWrites_eq (h : Ready iso rules round atMs bout) :
    resetClockWrites iso upperTrimmed rules round atMs bout =
      .write (stopPlan (bout.clock iso).fold.status (iso.toISOString atMs) ++
        zeroPlan (bout.clock iso).fold.status (iso.toISOString atMs)) := by
  have hStopped : ∀ action (write : AdvanceWrite τ κ),
      stopWrite (bout.clock iso).fold.status = some (action, write) →
      clockStepWrites iso round atMs action bout =
        .write [.row (.clock (.press action)) (iso.toISOString atMs) none, write] →
      (clockStepWrites iso round atMs action bout).andThen
          (AdvanceWrite.run iso upperTrimmed rules) bout (fun bout =>
            if (bout.clock iso).fold.status = .halted then
              clockStepWrites iso round atMs .resetClock bout
            else .nothing) =
        .write [.row (.clock (.press action)) (iso.toISOString atMs) none, write,
          .row (.clock (.press .resetClock)) (iso.toISOString atMs) none] := by
    intro action write hStop hWrites
    obtain ⟨hReady, hHalted⟩ := h.stopped upperTrimmed hStop
    rw [hWrites, andThen_write, if_pos hHalted, clockStepWrites_eq hReady]
    rfl
  rw [resetClockWrites]
  cases hStatus : (bout.clock iso).fold.status with
  | idle =>
    dsimp only [Sent.nothing, Sent.andThen, Sent.done]
    rw [runAll_nil, hStatus]
    rfl
  | halted =>
    dsimp only [Sent.nothing, Sent.andThen, Sent.done]
    rw [runAll_nil, hStatus, if_pos rfl, clockStepWrites_eq h]
    rfl
  | running =>
    exact hStopped .halt .paused (by rw [hStatus]; rfl) (clockStepWrites_eq h)
  | ended =>
    exact hStopped .reopen .reopened (by rw [hStatus]; rfl) (clockStepWrites_eq h)

/-! ## The round opened and counted -/

/-- The bout in its new round, with nothing on the sheet of it. -/
structure Opened (rules : SeriesRules ι) (round : ℕ) (series : SeriesBout ι) : Prop where
  inStep : InStep rules.bestOf series
  onBoard : series.currentRound = series.row.rounds.length + 1
  inPlay : series.row.completed = false
  current : series.currentRound = round
  noExchange : inRound series.exchanges round = []
  noPenalty : inRound series.penalties round = []

omit [DecidableEq ι] in
theorem inRound_eq_nil {α : Type v} {rows : List (RoundRow α)}
    (h : ∀ r ∈ rows, r.roundNumber < round) : inRound rows round = [] := by
  rw [inRound, List.map_eq_nil_iff, List.filter_eq_nil_iff]
  intro r hr
  simp [(h r hr).ne]

omit [DecidableEq ι] in
theorem WaitsFor.opened (h : WaitsFor rules round bout) :
    Opened rules round
      { bout.series with
        currentRound := round
        row := { bout.series.row with awaitingRoundAdvance := false } } := by
  have hInStep := h.inStep.advance h.awaiting
  rw [h.current] at hInStep
  have hLt : ∀ n, n ≤ bout.series.currentRound → n < round := fun n hn =>
    Nat.lt_of_lt_of_le (Nat.lt_succ_of_le hn) h.current.le
  refine ⟨hInStep, ?_, h.notOver.1, rfl, inRound_eq_nil fun r hr => hLt _ (h.stamped.exchanges r hr),
    inRound_eq_nil fun r hr => hLt _ (h.stamped.penalties r hr)⟩
  cases hInStep.position with
  | onBoard current _ _ _ => exact current
  | closed current _ _ awaiting completed =>
    have hPlay := h.notOver.1
    have hOver := completed.symm.trans hPlay
    rw [hOver] at awaiting
    exact absurd awaiting Bool.false_ne_true

theorem Opened.autoOver (h : Opened rules round series) (hSound : SoundFormat rules.config) :
    (series.evaluateRound upperTrimmed rules series.currentRound).outcome.autoOver = false := by
  rw [h.current]
  exact autoOver_of_empty hSound h.noExchange h.noPenalty

variable (upperTrimmed) in
/-- Counted, the round stays open and empty, and the columns of a result as they were. -/
theorem Opened.recount (h : Opened rules round series) (hSound : SoundFormat rules.config)
    (answers : Answers) {counted : SeriesBout ι}
    (hCounted : counted = series.recomputeBestOfRounds upperTrimmed rules answers) :
    Opened rules round counted ∧ Counted upperTrimmed rules counted ∧
      counted.row.awaitingRoundAdvance = false ∧
        counted.row.winnerRegistrationId = series.row.winnerRegistrationId ∧
          counted.row.endReason = series.row.endReason := by
  obtain ⟨hPlay, hAwaiting, hWinner, hReason⟩ :=
    recompute_onBoard h.inStep h.onBoard h.inPlay (h.autoOver hSound) answers hCounted
  have hKeeps : counted.exchanges = series.exchanges ∧ counted.penalties = series.penalties ∧
      counted.currentRound = series.currentRound := hCounted ▸ recompute_keeps h.inStep answers
  obtain ⟨hExchanges, hPenalties, hCurrent⟩ := hKeeps
  have hInStep : InStep rules.bestOf counted := hCounted ▸ h.inStep.recompute answers
  refine ⟨⟨hInStep, ?_, hPlay, hCurrent.trans h.current, ?_, ?_⟩,
    hCounted ▸ counted_recompute h.inStep answers, hAwaiting, hWinner, hReason⟩
  · cases hInStep.position with
    | onBoard current _ _ _ => exact current
    | closed _ _ _ awaiting completed =>
      have hOver := completed.symm.trans hPlay
      rw [hOver, hAwaiting] at awaiting
      exact absurd awaiting Bool.false_ne_true
  · rw [hExchanges]
    exact h.noExchange
  · rw [hPenalties]
    exact h.noPenalty

theorem recountWrites_opened (h : Opened rules round bout.series) (hSound : SoundFormat rules.config)
    (answers : Answers) (nowMs : ℤ) :
    recountWrites iso upperTrimmed rules answers nowMs bout = .write [.recount answers] := by
  obtain ⟨hOpened, -, hAwaiting, -, -⟩ :=
    h.recount upperTrimmed hSound answers rfl
  have hCompleted : (AdvanceWrite.run iso upperTrimmed rules (.recount answers) bout).completed =
      false := hOpened.inPlay
  have hWaits : (AdvanceWrite.run iso upperTrimmed rules (.recount answers) bout).awaiting =
      false := hAwaiting
  rw [recountWrites, hCompleted, stopSeriesClock, hWaits]
  rfl

/-- All that is written behind the row of an advance. -/
theorem openRoundWrites_eq (h : Ready iso rules round atMs bout) (hSound : SoundFormat rules.config)
    (sequence : ℕ) (answers : Answers) (nowMs : ℤ) :
    openRoundWrites iso upperTrimmed rules round sequence atMs answers nowMs bout =
      .write (openPlan (bout.clock iso).fold.status (iso.toISOString atMs) round answers) := by
  have hKeeps : (stopPlan (bout.clock iso).fold.status (iso.toISOString atMs) ++
      zeroPlan (bout.clock iso).fold.status (iso.toISOString atMs) :
        List (AdvanceWrite τ κ)).all (·.keepsWaiting) = true := by
    cases (bout.clock iso).fold.status <;> rfl
  have hWaits := h.waits.runAll iso upperTrimmed _ hKeeps
  have hOpened : Opened rules round ((AdvanceWrite.run iso upperTrimmed rules (.opened round)
      (runAll (AdvanceWrite.run iso upperTrimmed rules)
        (stopPlan (bout.clock iso).fold.status (iso.toISOString atMs) ++
          zeroPlan (bout.clock iso).fold.status (iso.toISOString atMs)) bout)).series) :=
    hWaits.opened
  rw [openRoundWrites, h.waits.waitingFor, resetClockWrites_eq h, andThen_write, andThen_write, runAll_cons, runAll_nil,
    recountWrites_opened hOpened hSound]
  rfl

/-! ## The two sends -/

variable [DecidableEq κ] {press : LatePress κ} {answers : Answers} {nowMs : ℤ}

theorem savedRoundPress_fresh {clientUuid : κ} {rows : List (EventRow τ κ)}
    (h : ∀ row ∈ rows, row.clientUuid ≠ some clientUuid) (type : EventType) :
    savedRoundPress rows clientUuid type = .ok none := by
  have hNone : rows.find? (·.clientUuid = some clientUuid) = none := by
    rw [List.find?_eq_none]
    intro row hRow
    simp [h row hRow]
  rw [savedRoundPress, hNone]

theorem savedRoundPress_append {clientUuid : κ} {rows : List (EventRow τ κ)} {type : EventType}
    {sequence : ℕ} (h : savedRoundPress rows clientUuid type = .ok (some sequence))
    (more : List (EventRow τ κ)) :
    savedRoundPress (rows ++ more) clientUuid type = .ok (some sequence) := by
  rw [savedRoundPress, List.find?_append]
  rw [savedRoundPress] at h
  cases hFind : rows.find? (·.clientUuid = some clientUuid) with
  | none =>
    rw [hFind] at h
    cases h
  | some row =>
    rw [hFind] at h
    exact h

/-- The first send that is taken: the row of the press, then the round. -/
theorem advanceLateWrites_fresh (h : WaitsFor rules round bout) (hSound : SoundFormat rules.config)
    (hFresh : ∀ row ∈ bout.rows, row.clientUuid ≠ some press.clientUuid)
    (hTaken : (advanceLateWrites iso upperTrimmed rules press round answers nowMs bout).refusal =
      none) :
    bout.eventOver = false ∧
      advanceLateWrites iso upperTrimmed rules press round answers nowMs bout =
        .write (.row .roundAdvance
            (placedInTimeline iso bout.rows (pressedAtServer press nowMs)) (some press.clientUuid) ::
          openPlan (bout.clock iso).fold.status (iso.toISOString (iso.getTime
            (placedInTimeline iso bout.rows (pressedAtServer press nowMs)))) round answers) := by
  obtain ⟨hPlay, hPos⟩ := h.notOver
  have hSecond : decide (round < 2) = false := decide_eq_false (by rw [← h.current]; omega)
  have hNotYet : ¬bout.series.currentRound ≥ round := by rw [← h.current]; omega
  have hWaits : (bout.awaiting && decide (bout.series.currentRound = round - 1) &&
      !bout.completed) = true := by
    rw [h.awaiting, hPlay, ← h.current, Nat.add_sub_cancel, decide_eq_true rfl]
    rfl
  simp only [advanceLateWrites, hSecond, savedRoundPress_fresh hFresh, hWaits, Option.isSome_none,
    Option.isNone_none, Bool.false_and, Bool.true_and, Bool.false_eq_true, if_false, hNotYet,
    decide_false] at hTaken ⊢
  cases hOver : bout.eventOver with
  | true =>
    rw [hOver, if_pos rfl] at hTaken
    cases hTaken
  | false =>
    rw [hOver] at hTaken
    refine ⟨rfl, ?_⟩
    simp only [Bool.false_eq_true, if_false] at hTaken ⊢
    split at hTaken
    · cases hTaken
    · rename_i hNone
      have hBefore : NotBefore iso bout.rows (iso.getTime _) :=
        notBefore_placedInTimeline bout.rows (pressedAtServer press nowMs)
      have hReady := Ready.of_advance upperTrimmed (some press.clientUuid) h hBefore
      rw [andThen_write, runAll_cons, runAll_nil, openRoundWrites_eq hReady.1 hSound,
        hReady.2]
      rfl

/-- A send of an advance the server holds, to a bout that still waits. -/
theorem advanceLateWrites_again {sequence : ℕ} (h : WaitsFor rules round bout)
    (hSound : SoundFormat rules.config) (hNotOver : bout.eventOver = false)
    (hSaved : savedRoundPress bout.rows press.clientUuid .roundAdvance = .ok (some sequence))
    (hSteps : (bout.clock iso).levelResolutionSteps = 0)
    (hTaken : (advanceLateWrites iso upperTrimmed rules press round answers nowMs bout).refusal =
      none) :
    advanceLateWrites iso upperTrimmed rules press round answers nowMs bout =
      .write (openPlan (bout.clock iso).fold.status (iso.toISOString (iso.getTime
        (placedInTimeline iso bout.rows (pressedAtServer press nowMs)))) round answers) := by
  obtain ⟨hPlay, hPos⟩ := h.notOver
  have hSecond : decide (round < 2) = false := decide_eq_false (by rw [← h.current]; omega)
  have hWaits : (bout.awaiting && decide (bout.series.currentRound = round - 1) &&
      !bout.completed) = true := by
    rw [h.awaiting, hPlay, ← h.current, Nat.add_sub_cancel, decide_eq_true rfl]
    rfl
  have hReady : Ready iso rules round _ bout :=
    ⟨h, notBefore_placedInTimeline bout.rows (pressedAtServer press nowMs), hSteps⟩
  simp only [advanceLateWrites, hSecond, hSaved, hWaits, hNotOver, Option.isSome_some,
    Option.isNone_some, Bool.not_true, Bool.or_false, Bool.and_false, Bool.false_and,
    Bool.false_eq_true, if_false] at hTaken ⊢
  split at hTaken
  · cases hTaken
  · rename_i hNone
    rw [if_pos trivial, andThen_write, runAll_nil, openRoundWrites_eq hReady hSound]
    rfl

/-- What the server makes of an advance it holds whose round is open. -/
theorem advanceLateWrites_done {sequence : ℕ}
    (hSaved : savedRoundPress bout.rows press.clientUuid .roundAdvance = .ok (some sequence))
    (hRound : 2 ≤ round) (hCurrent : round ≤ bout.series.currentRound) :
    advanceLateWrites iso upperTrimmed rules press round answers nowMs bout =
      if !bout.eventOver && !bout.completed && bout.series.currentRound = round &&
          nothingOnTheSheet bout.series round then
        recountWrites iso upperTrimmed rules answers nowMs bout
      else .nothing := by
  have hSecond : decide (round < 2) = false := decide_eq_false (not_lt.mpr hRound)
  have hNot : decide (bout.series.currentRound = round - 1) = false :=
    decide_eq_false (by omega)
  simp only [advanceLateWrites, hSecond, hSaved, hNot, Option.isSome_some, Bool.and_false,
    Bool.false_and, Bool.not_false, Bool.true_or, Bool.and_self, if_true]

end Writes

end MyClash.Timeline
