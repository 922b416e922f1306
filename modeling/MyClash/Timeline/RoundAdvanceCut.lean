import MyClash.Timeline.RoundAdvanceLaw
import Mathlib.Logic.Relation

/-!
# An advance of a round, cut short

A send cut after any of its writes and sent again, and every send after that: what the bout's
timeline, clock, row and score are beside those of one send that was not cut.
-/

namespace MyClash.Timeline

universe u v w

open Clock MatchFormat Scoring CutShort Runs

/-- One send of a press: its own two times, what is answered it, and when it arrives. -/
structure LateSend (κ : Type v) where
  press : LatePress κ
  answers : Answers
  nowMs : ℤ

section Send

variable {τ : Type u} {κ : Type v} {ι : Type w} [DecidableEq κ] [DecidableEq ι] (iso : IsoTime τ)
  (upperTrimmed : String → String) (rules : SeriesRules ι) (round : ℕ)

def LateSend.writes (send : LateSend κ) (bout : RoundsBout τ κ ι) :
    Sent (AdvanceWrite τ κ) Refusal :=
  advanceLateWrites iso upperTrimmed rules send.press round send.answers send.nowMs bout

def LateSend.done (send : LateSend κ) (bout : RoundsBout τ κ ι) : RoundsBout τ κ ι :=
  (send.writes iso upperTrimmed rules round bout).done (AdvanceWrite.run iso upperTrimmed rules) bout

/-- What the send leaves that is cut short after `k` writes. -/
def LateSend.cut (send : LateSend κ) (k : ℕ) (bout : RoundsBout τ κ ι) : RoundsBout τ κ ι :=
  (send.writes iso upperTrimmed rules round bout).cut (AdvanceWrite.run iso upperTrimmed rules) k
    bout

/-! ## The round fought -/

/-- A step of the fight: a door and the stop of the clock behind it, or a row of the timeline. No
clock is started while the bout waits between two rounds. -/
inductive FoughtStep (bout bout' : RoundsBout τ κ ι) : Prop
  | door (event : SeriesEvent ι) (answers : Answers) (nowMs : ℤ) (series : SeriesBout ι)
      (opens : bout.series.door upperTrimmed rules event answers = some series)
      (onTime : NotBefore iso bout.rows nowMs) (series_eq : bout'.series = series)
      (rows_eq : bout'.rows = (runAll (AdvanceWrite.run iso upperTrimmed rules)
        (stopSeriesClock iso { bout with series := series }
          (series.row.completed && !bout.completed) nowMs) { bout with series := series }).rows)
  | row (row : EventRow τ κ) (onTime : NotBefore iso bout.rows (iso.getTime row.occurredAt))
      (sequence : ∀ r ∈ bout.rows, r.sequence < row.sequence)
      (starts : bout.awaiting = true →
        row.type ≠ .clock (.press .start) ∧ row.type ≠ .clock (.press .resume))
      (series_eq : bout'.series = bout.series) (rows_eq : bout'.rows = bout.rows ++ [row])

/-- The press is taken: its round is open or over, and a send of it finds the sheet counted. -/
structure PressTaken (clientUuid : κ) (bout : RoundsBout τ κ ι) : Prop where
  inStep : InStep rules.bestOf bout.series
  counted : Counted upperTrimmed rules bout.series
  current : round ≤ bout.series.currentRound
  saved : ∃ sequence, savedRoundPress bout.rows clientUuid .roundAdvance = .ok (some sequence)
  stopped : bout.awaiting = true → (bout.clock iso).fold.status ≠ .running

end Send

section Taken

variable {τ : Type u} {κ : Type v} {ι : Type w} [DecidableEq κ] [DecidableEq ι] {iso : IsoTime τ}
  {upperTrimmed : String → String} {rules : SeriesRules ι} {round : ℕ} {clientUuid : κ}
  {bout bout' : RoundsBout τ κ ι}

theorem PressTaken.done (h : PressTaken iso upperTrimmed rules round clientUuid bout)
    (hSound : SoundFormat rules.config) (hRound : 2 ≤ round) {send : LateSend κ}
    (hSend : send.press.clientUuid = clientUuid) :
    send.done iso upperTrimmed rules round bout = bout := by
  obtain ⟨sequence, hSaved⟩ := h.saved
  rw [← hSend] at hSaved
  rw [LateSend.done, LateSend.writes, advanceLateWrites_done hSaved hRound h.current]
  split_ifs with hUnfinished
  · simp only [Bool.and_eq_true, Bool.not_eq_true', decide_eq_true_eq, nothingOnTheSheet,
      List.isEmpty_iff] at hUnfinished
    obtain ⟨⟨⟨-, hPlay⟩, hCurrent⟩, hExchanges, hPenalties⟩ := hUnfinished
    rw [← hCurrent] at hExchanges hPenalties
    have hOpen : (bout.series.evaluateRound upperTrimmed rules
        bout.series.currentRound).outcome.autoOver = false :=
      autoOver_of_empty hSound hExchanges hPenalties
    have hSame : AdvanceWrite.run iso upperTrimmed rules (.recount send.answers) bout = bout := by
      rw [AdvanceWrite.run, recompute_of_counted h.inStep h.counted hPlay hOpen]
    have hStop : stopSeriesClock (κ := κ) iso bout (bout.completed && !bout.completed)
        send.nowMs = [] := by
      rw [stopSeriesClock, hPlay, Bool.false_and, if_neg Bool.false_ne_true]
      refine if_neg fun hRuns => ?_
      simp only [Bool.and_eq_true, decide_eq_true_eq] at hRuns
      exact h.stopped hRuns.1 hRuns.2
    rw [recountWrites, hSame, hStop]
    exact hSame
  · rfl

omit [DecidableEq κ] [DecidableEq ι] in
theorem addsOnly_stopSeriesClock (justCompleted : Bool) (nowMs : ℤ) :
    (stopSeriesClock (κ := κ) iso bout justCompleted nowMs).all (·.addsOnly) = true := by
  rw [stopSeriesClock]
  split
  · split <;> rfl
  · split <;> rfl

omit [DecidableEq κ] in
/-- No clock runs behind the count of a bout that waits or is over. -/
theorem stopped_stopSeriesClock {justCompleted : Bool} {nowMs : ℤ}
    (hTime : NotBefore iso bout.rows nowMs) (hStops : bout.awaiting = true ∨ justCompleted = true) :
    ((runAll (AdvanceWrite.run iso upperTrimmed rules)
      (stopSeriesClock iso bout justCompleted nowMs) bout).clock iso).fold.status ≠ .running := by
  have hNow : NotBefore iso bout.rows (iso.getTime (iso.toISOString nowMs)) :=
    (iso.getTime_toISOString nowMs).symm ▸ hTime
  rw [stopSeriesClock]
  split_ifs with hCompleted hFits hRuns
  · have hClock := clock_row upperTrimmed rules (.clock (.press .endBout)) none hNow
    have hEnded : (runAll (AdvanceWrite.run iso upperTrimmed rules)
        [.row (.clock (.press .endBout)) (iso.toISOString nowMs) none,
          .ended (iso.toISOString nowMs)
            (closed iso.getTime (bout.clock iso).fold (iso.toISOString nowMs))] bout).clock iso =
        rowStep iso (bout.clock iso) _ := hClock
    rw [hEnded]
    exact ClockStatus.noConfusion
  · exact fun hRunning => hFits (Or.inl hRunning)
  · have hClock := clock_row upperTrimmed rules (.clock (.press .halt)) none hNow
    have hHalted : (runAll (AdvanceWrite.run iso upperTrimmed rules)
        [.row (.clock (.press .halt)) (iso.toISOString nowMs) none, .paused] bout).clock iso =
        rowStep iso (bout.clock iso) _ := hClock
    rw [hHalted]
    exact ClockStatus.noConfusion
  · intro hRunning
    have hAwaiting := hStops.resolve_right hCompleted
    rw [hAwaiting] at hRuns
    exact hRuns (by simpa using hRunning)

omit [DecidableEq κ] in
/-- A row that starts no clock leaves one that does not run. -/
theorem status_rowStep {clock : ServerClock τ} {row : EventRow τ κ}
    (hStopped : clock.fold.status ≠ .running)
    (hStarts : row.type ≠ .clock (.press .start) ∧ row.type ≠ .clock (.press .resume)) :
    (rowStep iso clock row).fold.status ≠ .running := by
  cases hType : row.type with
  | roundAdvance => simpa [rowStep, hType] using hStopped
  | roundEnd => simpa [rowStep, hType] using hStopped
  | clock type =>
    rw [hType] at hStarts
    cases type with
    | press action =>
      cases action with
      | start => exact absurd rfl hStarts.1
      | resume => exact absurd rfl hStarts.2
      | halt => simp [rowStep, hType, clockStep]
      | endBout => simp [rowStep, hType, clockStep]
      | reopen => simp [rowStep, hType, clockStep]
      | resetClock => simp [rowStep, hType, clockStep]
    | adjustTime => simpa [rowStep, hType, clockStep] using hStopped
    | resetMatch => simp [rowStep, hType, clockStep, IDLE_CLOCK]
    | levelResolution => simpa [rowStep, hType, clockStep] using hStopped
    | unknown text => simpa [rowStep, hType, clockStep] using hStopped

theorem PressTaken.step (h : PressTaken iso upperTrimmed rules round clientUuid bout)
    (hStep : FoughtStep iso upperTrimmed rules bout bout') :
    PressTaken iso upperTrimmed rules round clientUuid bout' := by
  obtain ⟨sequence, hSaved⟩ := h.saved
  cases hStep with
  | door event answers nowMs series opens onTime series_eq rows_eq =>
    obtain ⟨hCounted, hLe⟩ := h.counted.door h.inStep opens
    have hMore : ∃ more, (runAll (AdvanceWrite.run iso upperTrimmed rules)
        (stopSeriesClock iso { bout with series := series }
          (series.row.completed && !bout.completed) nowMs) { bout with series := series }).rows =
        bout.rows ++ more := rows_runAll (addsOnly_stopSeriesClock _ nowMs) _
    obtain ⟨more, hMore⟩ := hMore
    refine ⟨series_eq ▸ h.inStep.door opens, series_eq ▸ hCounted,
      series_eq ▸ h.current.trans hLe, ⟨sequence, ?_⟩, fun hAwaiting => ?_⟩
    · rw [rows_eq, hMore]
      exact savedRoundPress_append hSaved more
    · rw [RoundsBout.awaiting, series_eq] at hAwaiting
      rw [RoundsBout.clock, rows_eq]
      exact stopped_stopSeriesClock onTime (Or.inl hAwaiting)
  | row row onTime sequence' starts series_eq rows_eq =>
    refine ⟨series_eq ▸ h.inStep, series_eq ▸ h.counted, series_eq ▸ h.current,
      ⟨sequence, ?_⟩, fun hAwaiting => ?_⟩
    · rw [rows_eq]
      exact savedRoundPress_append hSaved [row]
    · rw [RoundsBout.awaiting, series_eq] at hAwaiting
      rw [RoundsBout.clock, rows_eq, getClockState_concat onTime sequence']
      exact status_rowStep (h.stopped hAwaiting) (starts hAwaiting)

/-! ## The round opened from a bout that waits -/

section Opens

variable {atMs : ℤ} {answers : Answers} {time : τ}

/-- The clock's steps to zero. -/
def openActions (status : ClockStatus) : List (EventType × Option κ) :=
  (match (stopWrite status : Option (ClockAction × AdvanceWrite τ κ)) with
    | some (action, _) => [(.clock (.press action), none)]
    | none => []) ++
  if status = .idle then [] else [(.clock (.press .resetClock), none)]

/-- The writes to the bout's own row. -/
def openColumns (status : ClockStatus) (round : ℕ) (answers : Answers) :
    List (AdvanceWrite τ κ) :=
  (stopWrite status).toList.map (·.2) ++ [.opened round, .recount answers]

omit [DecidableEq κ] in
theorem filterMap_openPlan (status : ClockStatus) :
    (openPlan status time round answers : List (AdvanceWrite τ κ)).filterMap (·.action?) =
      openActions (τ := τ) status := by
  cases status <;> rfl

omit [DecidableEq κ] in
theorem filter_openPlan (status : ClockStatus) :
    (openPlan status time round answers : List (AdvanceWrite τ κ)).filter (·.action?.isNone) =
      openColumns status round answers := by
  cases status <;> rfl

omit [DecidableEq κ] in
theorem addsOnly_openPlan (status : ClockStatus) :
    (openPlan status time round answers : List (AdvanceWrite τ κ)).all (·.addsOnly) = true := by
  cases status <;> rfl

omit [DecidableEq κ] in
theorem keepsWaiting_stopPlan (status : ClockStatus) :
    (stopPlan status time ++ zeroPlan status time :
      List (AdvanceWrite τ κ)).all (·.keepsWaiting) = true := by
  cases status <;> rfl

omit [DecidableEq κ] in
theorem keepsWaiting_stopWrite (status : ClockStatus) :
    ((stopWrite status).toList.map (·.2) : List (AdvanceWrite τ κ)).all (·.keepsWaiting) = true := by
  cases status <;> rfl

/-- A bout opened and counted holds the press. -/
theorem PressTaken.of_opened {opened : RoundsBout τ κ ι} (h : Opened rules round opened.series)
    (hSound : SoundFormat rules.config)
    (hSaved : ∃ sequence, savedRoundPress opened.rows clientUuid .roundAdvance = .ok (some sequence)) :
    PressTaken iso upperTrimmed rules round clientUuid
      (AdvanceWrite.run iso upperTrimmed rules (.recount answers) opened) := by
  obtain ⟨hOpened, hCounted, hAwaiting, -, -⟩ := h.recount upperTrimmed hSound answers rfl
  refine ⟨hOpened.inStep, hCounted, hOpened.current.ge, hSaved, fun hWaits => ?_⟩
  exact absurd (hAwaiting.symm.trans hWaits) Bool.false_ne_true

theorem PressTaken.of_openPlan (h : WaitsFor rules round bout) (hSound : SoundFormat rules.config)
    (hSaved : ∃ sequence, savedRoundPress bout.rows clientUuid .roundAdvance = .ok (some sequence))
    (status : ClockStatus) :
    PressTaken iso upperTrimmed rules round clientUuid
      (runAll (AdvanceWrite.run iso upperTrimmed rules) (openPlan status time round answers)
        bout) := by
  obtain ⟨sequence, hSaved⟩ := hSaved
  have hWaits := h.runAll iso upperTrimmed (stopPlan status time ++ zeroPlan status time)
    (keepsWaiting_stopPlan status)
  have hMore : ∃ more, (runAll (AdvanceWrite.run iso upperTrimmed rules)
      (stopPlan status time ++ zeroPlan status time) bout).rows = bout.rows ++ more :=
    rows_runAll (by cases status <;> rfl) bout
  obtain ⟨more, hMore⟩ := hMore
  rw [openPlan, runAll_append]
  refine PressTaken.of_opened hWaits.opened hSound ⟨sequence, ?_⟩
  exact (congrArg (savedRoundPress · clientUuid .roundAdvance) hMore).trans
    (savedRoundPress_append hSaved more)

/-- The clock reads nothing and does not run. -/
def RoundsBout.AtZero (iso : IsoTime τ) (bout : RoundsBout τ κ ι) : Prop :=
  (bout.clock iso).fold.activeMs = 0 ∧ (bout.clock iso).fold.runningFrom = none

omit [DecidableEq κ] in
theorem atZero_openPlan (h : Ready iso rules round atMs bout)
    (hStarted : (bout.clock iso).fold.status ≠ .idle) :
    (runAll (AdvanceWrite.run iso upperTrimmed rules)
      (openPlan (bout.clock iso).fold.status (iso.toISOString atMs) round answers) bout).AtZero
        iso := by
  have hReset : ∀ s : RoundsBout τ κ ι, Ready iso rules round atMs s →
      (AdvanceWrite.run iso upperTrimmed rules
        (.row (.clock (.press .resetClock)) (iso.toISOString atMs) none) s).AtZero iso := by
    intro s hReady
    have hTime : iso.getTime (iso.toISOString atMs) = atMs := iso.getTime_toISOString atMs
    have hClock := clock_row upperTrimmed rules (.clock (.press .resetClock)) none
      (hTime.symm ▸ hReady.notBefore)
    rw [RoundsBout.AtZero, hClock]
    exact ⟨rfl, rfl⟩
  cases hStop : (stopWrite (bout.clock iso).fold.status : Option (ClockAction × AdvanceWrite τ κ))
    with
  | some stop =>
    have hZero := hReset _ (h.stopped upperTrimmed hStop).1
    rw [openPlan, stopPlan, hStop, zeroPlan, if_neg hStarted]
    exact hZero
  | none =>
    rw [openPlan, stopPlan, hStop, zeroPlan, if_neg hStarted]
    exact hReset bout h

omit [DecidableEq κ] in
theorem clock_openPlan_idle :
    (runAll (AdvanceWrite.run iso upperTrimmed rules)
      (openPlan (κ := κ) .idle time round answers) bout).clock iso = bout.clock iso := rfl

omit [DecidableEq κ] in
/-- Opened by the same writes, a round is counted the same way. -/
theorem runAll_opened_answers (h : WaitsFor rules round bout) {writes : List (AdvanceWrite τ κ)}
    (hKeeps : writes.all (·.keepsWaiting) = true) (answers answers' : Answers) :
    runAll (AdvanceWrite.run iso upperTrimmed rules) (writes ++ [.opened round, .recount answers])
        bout =
      runAll (AdvanceWrite.run iso upperTrimmed rules)
        (writes ++ [.opened round, .recount answers']) bout := by
  have hOpened := (h.runAll iso upperTrimmed writes hKeeps).opened
  rw [runAll_append, runAll_append]
  simp only [runAll_cons, runAll_nil, AdvanceWrite.run]
  rw [recompute_answers hOpened.inPlay answers answers']

end Opens

/-! ## Where a send is cut -/

section Cut

variable {time : τ} {answers : Answers}

/-- The write of the clock at zero, counted from the row of the press. -/
def resetAt : ClockStatus → Option ℕ
  | .idle => none
  | .halted => some 2
  | .running | .ended => some 4

/-- The write of the bout in its new round. -/
def roundOpensAt : ClockStatus → ℕ
  | .idle => 2
  | .halted => 3
  | .running | .ended => 5

omit [DecidableEq κ] in
theorem length_steps (status : ClockStatus) :
    (stopPlan status time ++ zeroPlan status time : List (AdvanceWrite τ κ)).length + 2 =
      roundOpensAt status := by
  cases status <;> rfl

/-- What a send leaves that is cut while the bout still waits. -/
inductive Stage (iso : IsoTime τ) (upperTrimmed : String → String) (rules : SeriesRules ι)
    (clientUuid : κ) (bout : RoundsBout τ κ ι) (k : ℕ) (s : RoundsBout τ κ ι) : Prop
  | begun (early : k ≤ 1) (columns : s.columns = bout.columns)
      (actions : s.actions = bout.actions ++ [(.roundAdvance, some clientUuid)])
      (clock : (s.clock iso).fold = (bout.clock iso).fold)
  | stopping {action : ClockAction} {write : AdvanceWrite τ κ}
      (stop : stopWrite (bout.clock iso).fold.status = some (action, write)) (second : k = 2)
      (columns : s.columns = bout.columns)
      (actions : s.actions =
        bout.actions ++ [(.roundAdvance, some clientUuid), (.clock (.press action), none)])
      (halted : (s.clock iso).fold.status = .halted)
  | stopped {action : ClockAction} {write : AdvanceWrite τ κ}
      (stop : stopWrite (bout.clock iso).fold.status = some (action, write)) (third : k = 3)
      (columns : s.columns = AdvanceWrite.run iso upperTrimmed rules write bout.columns)
      (actions : s.actions =
        bout.actions ++ [(.roundAdvance, some clientUuid), (.clock (.press action), none)])
      (halted : (s.clock iso).fold.status = .halted)
  | zeroed (reset : resetAt (bout.clock iso).fold.status = some k)
      (actions : s.actions = bout.actions ++ [(.roundAdvance, some clientUuid)] ++
        openActions (τ := τ) (bout.clock iso).fold.status)
      (halted : (s.clock iso).fold.status = .halted)

omit [DecidableEq κ] [DecidableEq ι] in
theorem resetAt_of_stop {status : ClockStatus} {stop : ClockAction × AdvanceWrite τ κ}
    (h : stopWrite status = some stop) : resetAt status = some 4 ∧ roundOpensAt status = 5 := by
  cases status with
  | idle => cases h
  | halted => cases h
  | running => exact ⟨rfl, rfl⟩
  | ended => exact ⟨rfl, rfl⟩

omit [DecidableEq κ] in
theorem columns_write {write : AdvanceWrite τ κ} (hWrite : write = .paused ∨ write = .reopened)
    (s : RoundsBout τ κ ι) :
    (AdvanceWrite.run iso upperTrimmed rules write s).columns =
      AdvanceWrite.run iso upperTrimmed rules write s.columns := by
  obtain rfl | rfl := hWrite <;> rfl

omit [DecidableEq κ] in
/-- The writes before the bout's own, one after the other. -/
theorem stage_of_take (h : WaitsFor rules round bout)
    (hBefore : NotBefore iso bout.rows (iso.getTime time)) {k : ℕ} (hPos : 0 < k)
    (hCut : k < roundOpensAt (bout.clock iso).fold.status) :
    ∃ s, s = runAll (AdvanceWrite.run iso upperTrimmed rules)
        ((.row .roundAdvance time (some clientUuid) :: openPlan (bout.clock iso).fold.status
          (iso.toISOString (iso.getTime time)) round answers).take k) bout ∧
      Ready iso rules round (iso.getTime time) s ∧
        Stage iso upperTrimmed rules clientUuid bout k s := by
  obtain ⟨hBegun, hClock⟩ := Ready.of_advance upperTrimmed (some clientUuid) h hBefore
  have hRow : ∀ (s : RoundsBout τ κ ι) (type : EventType) (at' : τ) (id : Option κ),
      (AdvanceWrite.run iso upperTrimmed rules (.row type at' id) s).actions =
        s.actions ++ [(type, id)] := fun _ _ _ _ => List.map_append
  have hFirst : Stage iso upperTrimmed rules clientUuid bout 1 (AdvanceWrite.run iso upperTrimmed
      rules (.row .roundAdvance time (some clientUuid)) bout) :=
    .begun (le_refl 1) rfl (hRow _ _ _ _) hClock
  cases hStop : (stopWrite (bout.clock iso).fold.status : Option (ClockAction × AdvanceWrite τ κ))
    with
  | none =>
    cases hStatus : (bout.clock iso).fold.status with
    | running =>
      rw [hStatus] at hStop
      cases hStop
    | ended =>
      rw [hStatus] at hStop
      cases hStop
    | idle =>
      rw [hStatus] at hCut
      obtain rfl : k = 1 := le_antisymm (Nat.le_of_lt_succ hCut) hPos
      exact ⟨_, rfl, hBegun, hFirst⟩
    | halted =>
      rw [hStatus] at hCut
      obtain rfl | rfl : k = 1 ∨ k = 2 := by
        have hThird : k < 3 := hCut
        omega
      · exact ⟨_, rfl, hBegun, hFirst⟩
      · have hHalts : halts .resetClock = true := rfl
        obtain ⟨hReady, hHalted⟩ := hBegun.row upperTrimmed hHalts
        refine ⟨_, rfl, hReady, .zeroed ?_ ?_ hHalted⟩
        · rw [hStatus]
          rfl
        · rw [hStatus]
          exact (hRow _ _ _ _).trans (congrArg (· ++ _) (hRow _ _ _ _))
  | some stop =>
    obtain ⟨action, write⟩ := stop
    obtain ⟨hHalts, hWrite⟩ := stopWrite_spec hStop
    have hStarted : (bout.clock iso).fold.status ≠ .idle := by
      intro hIdle
      rw [hIdle] at hStop
      cases hStop
    obtain ⟨hReset, hOpens⟩ := resetAt_of_stop hStop
    obtain ⟨hStopping, hHalted⟩ := hBegun.row upperTrimmed hHalts
    obtain ⟨hStopped, hSame⟩ := hStopping.write upperTrimmed hWrite
    have hResets : halts .resetClock = true := rfl
    obtain ⟨hZeroed, hZero⟩ := hStopped.row upperTrimmed hResets
    have hActions : (AdvanceWrite.run iso upperTrimmed rules
        (.row (.clock (.press action)) (iso.toISOString (iso.getTime time)) none)
        (AdvanceWrite.run iso upperTrimmed rules (.row .roundAdvance time (some clientUuid))
          bout)).actions =
        bout.actions ++ [(.roundAdvance, some clientUuid), (.clock (.press action), none)] := by
      rw [hRow, hRow, List.append_assoc]
      rfl
    have hKept : ∀ s : RoundsBout τ κ ι,
        (AdvanceWrite.run iso upperTrimmed rules write s).actions = s.actions := by
      intro s
      obtain rfl | rfl := hWrite <;> rfl
    rw [openPlan, stopPlan, zeroPlan, hStop, if_neg hStarted]
    rw [hOpens] at hCut
    obtain rfl | rfl | rfl | rfl : k = 1 ∨ k = 2 ∨ k = 3 ∨ k = 4 := by omega
    · exact ⟨_, rfl, hBegun, hFirst⟩
    · exact ⟨_, rfl, hStopping, .stopping hStop rfl rfl hActions hHalted⟩
    · refine ⟨_, rfl, hStopped, .stopped hStop rfl (columns_write hWrite _) ?_ ?_⟩
      · exact (hKept _).trans hActions
      · exact (congrArg (fun clock => clock.fold.status) hSame).trans hHalted
    · refine ⟨_, rfl, hZeroed, .zeroed hReset ?_ hZero⟩
      rw [openActions, hStop, if_neg hStarted]
      refine (hRow _ _ _ _).trans ?_
      rw [hKept, hActions]
      simp

/-! ## The send after the cut -/

variable {atMs : ℤ}

omit [DecidableEq κ] [DecidableEq ι] in
theorem runningFrom_of_idle (h : NotBefore iso bout.rows atMs)
    (hIdle : (bout.clock iso).fold.status = .idle) : (bout.clock iso).fold.runningFrom = none := by
  have hRunning := (getClockState_sound h).running_iff
  rw [← Option.not_isSome_iff_eq_none]
  intro hSome
  have hContra : (bout.clock iso).fold.status = .running := hRunning.mp hSome
  rw [hIdle] at hContra
  cases hContra

/-- What a send leaves that opens the round from a bout that waits. -/
structure OpenedFrom (iso : IsoTime τ) (upperTrimmed : String → String) (rules : SeriesRules ι)
    (round : ℕ) (clientUuid : κ) (answers : Answers) (s opened : RoundsBout τ κ ι) : Prop where
  taken : PressTaken iso upperTrimmed rules round clientUuid opened
  actions : opened.actions = s.actions ++ openActions (τ := τ) (s.clock iso).fold.status
  columns : opened.columns = runAll (AdvanceWrite.run iso upperTrimmed rules)
    (openColumns (s.clock iso).fold.status round answers) s.columns
  atZero : opened.AtZero iso ↔
    ((s.clock iso).fold.status = .idle → (s.clock iso).fold.activeMs = 0)

theorem OpenedFrom.of_ready (h : Ready iso rules round atMs bout) (hSound : SoundFormat rules.config)
    (hSaved : ∃ sequence,
      savedRoundPress bout.rows clientUuid .roundAdvance = .ok (some sequence)) :
    OpenedFrom iso upperTrimmed rules round clientUuid answers bout
      (runAll (AdvanceWrite.run iso upperTrimmed rules)
        (openPlan (bout.clock iso).fold.status (iso.toISOString atMs) round answers) bout) := by
  refine ⟨.of_openPlan h.waits hSound hSaved _, ?_, ?_, ?_⟩
  · rw [actions_runAll (addsOnly_openPlan _), filterMap_openPlan]
  · rw [columns_runAll, filter_openPlan]
  · by_cases hIdle : (bout.clock iso).fold.status = .idle
    · rw [hIdle, RoundsBout.AtZero, clock_openPlan_idle]
      exact ⟨fun hZero _ => hZero.1,
        fun hZero => ⟨hZero rfl, runningFrom_of_idle h.notBefore hIdle⟩⟩
    · exact iff_of_true (atZero_openPlan h hIdle) fun hContra => absurd hContra hIdle

omit [DecidableEq κ] in
/-- A write of a stopped clock that a later count does not show was there before. -/
theorem run_of_columns {action : ClockAction} {write : AdvanceWrite τ κ} {status : ClockStatus}
    {answers' : Answers} (h : WaitsFor rules round bout) (hSound : SoundFormat rules.config)
    (hStop : stopWrite status = some (action, write))
    (hEq : runAll (AdvanceWrite.run iso upperTrimmed rules) [.opened round, .recount answers']
        bout.columns =
      runAll (AdvanceWrite.run iso upperTrimmed rules) [write, .opened round, .recount answers]
        bout.columns) :
    AdvanceWrite.run iso upperTrimmed rules write bout = bout := by
  obtain rfl | rfl := (stopWrite_spec hStop).2
  · have hStatus : bout.statusInPlay = .paused := congrArg RoundsBout.statusInPlay hEq
    rw [AdvanceWrite.run, ← hStatus]
  · have hStatus : bout.statusInPlay = .paused := congrArg RoundsBout.statusInPlay hEq
    have hEnded : bout.endedAt = none := congrArg RoundsBout.endedAt hEq
    have hLocked : bout.locked = false := congrArg RoundsBout.locked hEq
    have hTotal : bout.durationTotalMs = none := congrArg RoundsBout.durationTotalMs hEq
    obtain ⟨-, -, -, hWinner, hReason⟩ := h.opened.recount upperTrimmed hSound answers' rfl
    have hReopened := h.runAll iso upperTrimmed [.reopened] rfl
    obtain ⟨-, -, -, hWinner', hReason'⟩ := hReopened.opened.recount upperTrimmed hSound answers rfl
    have hNone : bout.series.reopen.row.winnerRegistrationId = none ∧
        bout.series.reopen.row.endReason = none := by
      rw [h.reopened]
      exact ⟨rfl, rfl⟩
    have hNoWinner : bout.series.row.winnerRegistrationId = none :=
      hWinner.symm.trans ((congrArg (·.series.row.winnerRegistrationId) hEq).trans
        (hWinner'.trans hNone.1))
    have hNoReason : bout.series.row.endReason = none :=
      hReason.symm.trans ((congrArg (·.series.row.endReason) hEq).trans
        (hReason'.trans hNone.2))
    have hPlay : bout.series.row.completed = false := h.notOver.1
    have hSeries : bout.series.reopen = bout.series := by
      rw [h.reopened, ← hNoWinner, ← hNoReason, ← hPlay]
    rw [AdvanceWrite.run, hSeries, ← hEnded, ← hLocked]
    conv_lhs => rw [← hTotal, ← hStatus]

omit [DecidableEq κ] in
theorem eventOver_runAll (writes : List (AdvanceWrite τ κ)) (bout : RoundsBout τ κ ι) :
    (runAll (AdvanceWrite.run iso upperTrimmed rules) writes bout).eventOver = bout.eventOver := by
  induction writes generalizing bout with
  | nil => rfl
  | cons write writes ih =>
    rw [runAll_cons, ih]
    cases write <;> rfl

/-- The row of the press is the one the server finds again. -/
theorem saved_of_row (hFresh : ∀ row ∈ bout.rows, row.clientUuid ≠ some clientUuid) :
    savedRoundPress (AdvanceWrite.run iso upperTrimmed rules
      (.row .roundAdvance time (some clientUuid)) bout).rows clientUuid .roundAdvance =
        .ok (some (nextSequence bout.rows)) := by
  have hNone : bout.rows.find? (·.clientUuid = some clientUuid) = none := by
    rw [List.find?_eq_none]
    intro row hRow
    simp [hFresh row hRow]
  simp [AdvanceWrite.run, savedRoundPress, List.find?_append, hNone]

/-- The second send of a press whose round is open and empty. -/
theorem done_of_opened (h : Opened rules round bout.series) (hSound : SoundFormat rules.config)
    (hRound : 2 ≤ round) (hNotOver : bout.eventOver = false) {send : LateSend κ}
    (hSaved : ∃ sequence,
      savedRoundPress bout.rows send.press.clientUuid .roundAdvance = .ok (some sequence)) :
    send.done iso upperTrimmed rules round bout =
      AdvanceWrite.run iso upperTrimmed rules (.recount send.answers) bout := by
  obtain ⟨sequence, hSaved⟩ := hSaved
  have hPlay : bout.completed = false := h.inPlay
  have hUnfinished : (!bout.eventOver && !bout.completed &&
      decide (bout.series.currentRound = round) && nothingOnTheSheet bout.series round) = true := by
    rw [hNotOver, hPlay, nothingOnTheSheet, h.noExchange, h.noPenalty, h.current]
    simp
  rw [LateSend.done, LateSend.writes, advanceLateWrites_done hSaved hRound h.current.ge,
    if_pos hUnfinished, recountWrites_opened h hSound]
  rfl

/-- Cut once the bout is in its round, a send is finished by the count, or is finished. -/
theorem done_of_late (h : WaitsFor rules round bout) (hSound : SoundFormat rules.config)
    (hRound : 2 ≤ round) (hNotOver : bout.eventOver = false) {send : LateSend κ}
    (writes : List (AdvanceWrite τ κ)) (hKeeps : writes.all (·.keepsWaiting) = true) {k : ℕ}
    (hLate : writes.length < k)
    (hSaved : ∃ sequence, savedRoundPress (runAll (AdvanceWrite.run iso upperTrimmed rules)
      ((writes ++ [AdvanceWrite.opened round, .recount answers]).take k) bout).rows send.press.clientUuid
        .roundAdvance = .ok (some sequence)) :
    send.done iso upperTrimmed rules round (runAll (AdvanceWrite.run iso upperTrimmed rules)
        ((writes ++ [AdvanceWrite.opened round, .recount answers]).take k) bout) =
      runAll (AdvanceWrite.run iso upperTrimmed rules)
        (writes ++ [.opened round, .recount answers]) bout := by
  have hOpened := (h.runAll iso upperTrimmed writes hKeeps).opened
  obtain ⟨n, rfl⟩ := Nat.exists_eq_add_of_lt hLate
  cases n with
  | zero =>
    have hTake : (writes ++ [.opened round, .recount answers] : List (AdvanceWrite τ κ)).take
        (writes.length + 0 + 1) = writes ++ [.opened round] := by
      rw [Nat.add_zero, List.take_length_add_append]
      rfl
    have hOver : (runAll (AdvanceWrite.run iso upperTrimmed rules)
        (writes ++ [.opened round]) bout).eventOver = false := by
      rw [eventOver_runAll]
      exact hNotOver
    rw [hTake] at hSaved ⊢
    have hBout : (runAll (AdvanceWrite.run iso upperTrimmed rules) (writes ++ [.opened round])
        bout).series = _ := congrArg RoundsBout.series (runAll_append _ _ _)
    rw [done_of_opened (hBout ▸ hOpened) hSound hRound hOver hSaved,
      runAll_opened_answers h hKeeps answers send.answers, runAll_append, runAll_append]
    rfl
  | succ n =>
    have hTake : (writes ++ [.opened round, .recount answers] : List (AdvanceWrite τ κ)).take
        (writes.length + (n + 1) + 1) = writes ++ [.opened round, .recount answers] :=
      List.take_of_length_le (by simp)
    rw [hTake] at hSaved ⊢
    refine PressTaken.done ?_ hSound hRound rfl
    rw [runAll_append] at hSaved ⊢
    exact .of_opened hOpened hSound hSaved

/-- What the second send of a press leaves, from where the first was cut. -/
inductive ResendCase (iso : IsoTime τ) (upperTrimmed : String → String) (rules : SeriesRules ι)
    (round : ℕ) (clientUuid : κ) (answers : Answers) (bout whole : RoundsBout τ κ ι) (k : ℕ)
    (resent : RoundsBout τ κ ι) : Prop
  | finished (late : roundOpensAt (bout.clock iso).fold.status ≤ k) (same : resent = whole)
  | opened {s : RoundsBout τ κ ι} (stage : Stage iso upperTrimmed rules clientUuid bout k s)
      (waits : WaitsFor rules round s)
      (from_s : OpenedFrom iso upperTrimmed rules round clientUuid answers s resent)

variable {first again : LateSend κ} {k : ℕ}

theorem saved_of_take (hFresh : ∀ row ∈ bout.rows, row.clientUuid ≠ some clientUuid)
    {rest : List (AdvanceWrite τ κ)} (hRest : rest.all (·.addsOnly) = true) {k : ℕ} (hPos : 0 < k) :
    ∃ sequence, savedRoundPress (runAll (AdvanceWrite.run iso upperTrimmed rules)
      ((.row .roundAdvance time (some clientUuid) :: rest).take k) bout).rows clientUuid
        .roundAdvance = .ok (some sequence) := by
  obtain ⟨n, rfl⟩ := Nat.exists_eq_succ_of_ne_zero hPos.ne'
  have hTake : (rest.take n).all (·.addsOnly) = true :=
    List.all_eq_true.mpr fun write hWrite =>
      List.all_eq_true.mp hRest write (List.mem_of_mem_take hWrite)
  have hMore : ∃ more, (runAll (AdvanceWrite.run iso upperTrimmed rules) (rest.take n)
      (AdvanceWrite.run iso upperTrimmed rules (.row .roundAdvance time (some clientUuid))
        bout)).rows = (AdvanceWrite.run iso upperTrimmed rules
          (.row .roundAdvance time (some clientUuid)) bout).rows ++ more := rows_runAll hTake _
  obtain ⟨more, hMore⟩ := hMore
  refine ⟨nextSequence bout.rows, ?_⟩
  rw [List.take_succ_cons, runAll_cons, hMore]
  exact savedRoundPress_append (saved_of_row hFresh) more

theorem resend_cases (h : WaitsFor rules round bout) (hSound : SoundFormat rules.config)
    (hFresh : ∀ row ∈ bout.rows, row.clientUuid ≠ some first.press.clientUuid)
    (hSame : again.press.clientUuid = first.press.clientUuid)
    (hFirst : (first.writes iso upperTrimmed rules round bout).refusal = none)
    (hAgain : (again.writes iso upperTrimmed rules round
      (first.cut iso upperTrimmed rules round k bout)).refusal = none) :
    ResendCase iso upperTrimmed rules round first.press.clientUuid again.answers bout
      (first.done iso upperTrimmed rules round bout) k
      (again.done iso upperTrimmed rules round (first.cut iso upperTrimmed rules round k bout)) := by
  obtain ⟨hNotOver, hWrites⟩ := advanceLateWrites_fresh h hSound hFresh hFirst
  have hWrites : first.writes iso upperTrimmed rules round bout = _ := hWrites
  have hBefore : NotBefore iso bout.rows (iso.getTime (placedInTimeline iso bout.rows
    (pressedAtServer first.press first.nowMs))) := notBefore_placedInTimeline _ _
  generalize placedInTimeline iso bout.rows (pressedAtServer first.press first.nowMs) = time
    at hWrites hBefore
  by_cases hZero : k = 0
  · -- Nothing was written: the second send is a first one.
    subst hZero
    have hCut : first.cut iso upperTrimmed rules round 0 bout = bout := rfl
    rw [hCut] at hAgain ⊢
    rw [← hSame] at hFresh
    obtain ⟨-, hResend⟩ := advanceLateWrites_fresh h hSound hFresh hAgain
    have hPlaced : NotBefore iso bout.rows (iso.getTime (placedInTimeline iso bout.rows
      (pressedAtServer again.press again.nowMs))) := notBefore_placedInTimeline _ _
    obtain ⟨hReady, hClock⟩ := Ready.of_advance upperTrimmed (some again.press.clientUuid) h hPlaced
    rw [← hClock] at hResend
    have hDone : again.done iso upperTrimmed rules round bout = runAll _ _ _ :=
      congrArg (fun sent => Sent.done _ sent bout) hResend
    have hStage : Stage iso upperTrimmed rules again.press.clientUuid bout 0
        (AdvanceWrite.run iso upperTrimmed rules (.row .roundAdvance _
          (some again.press.clientUuid)) bout) :=
      .begun (Nat.zero_le 1) rfl List.map_append hClock
    rw [hDone, ← hSame]
    exact .opened hStage hReady.waits (.of_ready hReady hSound ⟨_, saved_of_row hFresh⟩)
  · have hPos : 0 < k := Nat.pos_of_ne_zero hZero
    have hRound : 2 ≤ round := by
      have hCurrent := h.notOver.2
      rw [← h.current]
      omega
    have hCut : first.cut iso upperTrimmed rules round k bout =
        runAll (AdvanceWrite.run iso upperTrimmed rules)
          ((.row .roundAdvance time (some first.press.clientUuid) ::
            openPlan (bout.clock iso).fold.status (iso.toISOString (iso.getTime time)) round
              first.answers).take k) bout := by
      rw [LateSend.cut, hWrites, Sent.cut, writes_write]
    have hWhole : first.done iso upperTrimmed rules round bout =
        runAll (AdvanceWrite.run iso upperTrimmed rules)
          (.row .roundAdvance time (some first.press.clientUuid) ::
            openPlan (bout.clock iso).fold.status (iso.toISOString (iso.getTime time)) round
              first.answers) bout := by
      rw [LateSend.done, hWrites, Sent.done, writes_write]
    have hSaved : ∃ sequence, savedRoundPress (first.cut iso upperTrimmed rules round k bout).rows
        first.press.clientUuid .roundAdvance = .ok (some sequence) := by
      rw [hCut]
      exact saved_of_take hFresh (addsOnly_openPlan _) hPos
    by_cases hEarly : k < roundOpensAt (bout.clock iso).fold.status
    · obtain ⟨s, hs, hReady, hStage⟩ := stage_of_take h hBefore hPos hEarly
      rw [← hCut] at hs
      rw [← hs] at hAgain hSaved ⊢
      have hOver : s.eventOver = false := by
        rw [hs, hCut, eventOver_runAll]
        exact hNotOver
      obtain ⟨sequence, hSequence⟩ := hSaved
      rw [← hSame] at hSequence
      have hResend := advanceLateWrites_again hReady.waits hSound hOver hSequence hReady.noSteps hAgain
      have hDone : again.done iso upperTrimmed rules round s = runAll _ _ _ :=
        congrArg (fun sent => Sent.done _ sent s) hResend
      have hPlaced : NotBefore iso s.rows (iso.getTime (placedInTimeline iso s.rows
        (pressedAtServer again.press again.nowMs))) := notBefore_placedInTimeline _ _
      rw [hDone]
      exact .opened hStage hReady.waits (.of_ready ⟨hReady.waits, hPlaced, hReady.noSteps⟩ hSound
        ⟨sequence, hSame ▸ hSequence⟩)
    · -- The bout is in its round: what is left is the count.
      refine .finished (not_lt.mp hEarly) ?_
      rw [hWhole, hCut]
      rw [hCut] at hSaved
      have hLength : (stopPlan (bout.clock iso).fold.status (iso.toISOString (iso.getTime time)) ++
          zeroPlan (bout.clock iso).fold.status (iso.toISOString (iso.getTime time)) :
            List (AdvanceWrite τ κ)).length + 2 = _ := length_steps _
      let steps : List (AdvanceWrite τ κ) :=
        .row .roundAdvance time (some first.press.clientUuid) ::
          (stopPlan (bout.clock iso).fold.status (iso.toISOString (iso.getTime time)) ++
            zeroPlan (bout.clock iso).fold.status (iso.toISOString (iso.getTime time)))
      have hKeeps : steps.all (·.keepsWaiting) = true := keepsWaiting_stopPlan _
      have hSteps : steps.length < k := by
        rw [List.length_cons]
        omega
      refine done_of_late h hSound hRound hNotOver steps hKeeps hSteps ?_
      rw [hSame]
      exact hSaved

end Cut

end Taken

/-! ## The press sent again -/

section Resent

variable {τ : Type u} {κ : Type v} {ι : Type w} [DecidableEq κ] [DecidableEq ι] (iso : IsoTime τ)
  (upperTrimmed : String → String) (rules : SeriesRules ι) (round : ℕ)

/-- Sent again, a press leaves what one send leaves, and every further send of it leaves the bout as
it is, also when the round was fought. -/
structure Resent (clientUuid : κ) (resent whole : RoundsBout τ κ ι) : Prop where
  actions : resent.actions = whole.actions
  once : resent.actions.filter (·.2 = some clientUuid) = [(.roundAdvance, some clientUuid)]
  atZero : resent.AtZero iso
  columns : resent.columns = whole.columns
  settled : ∀ later, Relation.ReflTransGen (FoughtStep iso upperTrimmed rules) resent later →
    ∀ send : LateSend κ, send.press.clientUuid = clientUuid →
      send.done iso upperTrimmed rules round later = later

/-- The cut is not behind the row of the clock's reset, nor between a Halt or a Reopen and what it
writes to the bout, unless that is there already; and a clock never started reads nothing. -/
structure CutFinished (bout : RoundsBout τ κ ι) (k : ℕ) : Prop where
  reset : resetAt (bout.clock iso).fold.status ≠ some k
  stopped : k = 2 → ∀ stop ∈
    (stopWrite (bout.clock iso).fold.status : Option (ClockAction × AdvanceWrite τ κ)),
      stop.2.run iso upperTrimmed rules bout = bout
  started : (bout.clock iso).fold.status = .idle → (bout.clock iso).fold.activeMs = 0

end Resent

section Law

variable {τ : Type u} {κ : Type v} {ι : Type w} [DecidableEq κ] [DecidableEq ι] {iso : IsoTime τ}
  {upperTrimmed : String → String} {rules : SeriesRules ι} {round : ℕ} {bout : RoundsBout τ κ ι}
  {first again : LateSend κ} {k : ℕ}

theorem PressTaken.settled {clientUuid : κ} {later : RoundsBout τ κ ι}
    (h : PressTaken iso upperTrimmed rules round clientUuid bout)
    (hFought : Relation.ReflTransGen (FoughtStep iso upperTrimmed rules) bout later) :
    PressTaken iso upperTrimmed rules round clientUuid later := by
  induction hFought with
  | refl => exact h
  | tail _ hStep ih => exact ih.step hStep

/-- The one send: what it leaves, and that the bout waited. -/
theorem whole_spec (h : WaitsFor rules round bout) (hSound : SoundFormat rules.config)
    (hFresh : ∀ row ∈ bout.rows, row.clientUuid ≠ some first.press.clientUuid)
    (hFirst : (first.writes iso upperTrimmed rules round bout).refusal = none) :
    ∃ s : RoundsBout τ κ ι, s.columns = bout.columns ∧
      s.actions = bout.actions ++ [(.roundAdvance, some first.press.clientUuid)] ∧
      (s.clock iso).fold = (bout.clock iso).fold ∧
      OpenedFrom iso upperTrimmed rules round first.press.clientUuid first.answers s
        (first.done iso upperTrimmed rules round bout) := by
  obtain ⟨-, hWrites⟩ := advanceLateWrites_fresh h hSound hFresh hFirst
  have hPlaced : NotBefore iso bout.rows (iso.getTime (placedInTimeline iso bout.rows
    (pressedAtServer first.press first.nowMs))) := notBefore_placedInTimeline _ _
  obtain ⟨hReady, hClock⟩ := Ready.of_advance upperTrimmed (some first.press.clientUuid) h hPlaced
  rw [← hClock] at hWrites
  have hDone : first.done iso upperTrimmed rules round bout = runAll _ _ _ :=
    congrArg (fun sent => Sent.done _ sent bout) hWrites
  rw [hDone]
  refine ⟨_, ?_, ?_, hClock, .of_ready hReady hSound ⟨_, saved_of_row hFresh⟩⟩
  · rfl
  · exact List.map_append

omit [DecidableEq ι] [DecidableEq κ] in
theorem WaitsFor.of_columns {s : RoundsBout τ κ ι} (h : WaitsFor rules round bout)
    (hColumns : s.columns = bout.columns) : WaitsFor rules round s.columns := by
  rw [hColumns]
  exact ⟨h.inStep, h.stamped, h.awaiting, h.current⟩

omit [DecidableEq κ] in
theorem columns_answers (h : WaitsFor rules round bout) (status : ClockStatus)
    (answers answers' : Answers) :
    runAll (AdvanceWrite.run iso upperTrimmed rules) (openColumns status round answers)
        bout.columns =
      runAll (AdvanceWrite.run iso upperTrimmed rules) (openColumns status round answers')
        bout.columns :=
  runAll_opened_answers (h.of_columns rfl) (keepsWaiting_stopWrite status) answers answers'

omit [DecidableEq ι] in
theorem filter_actions {clientUuid : κ}
    (hFresh : ∀ row ∈ bout.rows, row.clientUuid ≠ some clientUuid) (status : ClockStatus) :
    (bout.actions ++ [(EventType.roundAdvance, some clientUuid)] ++
      openActions (τ := τ) status).filter (·.2 = some clientUuid) =
        [(.roundAdvance, some clientUuid)] := by
  have hNone : bout.actions.filter (·.2 = some clientUuid) = [] := by
    rw [List.filter_eq_nil_iff]
    intro action hAction
    obtain ⟨row, hRow, rfl⟩ := List.mem_map.mp hAction
    simpa using hFresh row hRow
  rw [List.filter_append, List.filter_append, hNone]
  cases status <;> simp [openActions, stopWrite]

omit [DecidableEq κ] in
theorem late_spec {status : ClockStatus} (late : roundOpensAt status ≤ k) :
    resetAt status ≠ some k ∧
      (k = 2 → (stopWrite status : Option (ClockAction × AdvanceWrite τ κ)) = none) := by
  cases status with
  | idle => exact ⟨nofun, fun _ => rfl⟩
  | halted =>
    have hLate : 3 ≤ k := late
    refine ⟨fun hReset => ?_, fun _ => rfl⟩
    have hSecond : 2 = k := Option.some.inj hReset
    omega
  | running =>
    have hLate : 5 ≤ k := late
    refine ⟨fun hReset => ?_, fun _ => by omega⟩
    have hFourth : 4 = k := Option.some.inj hReset
    omega
  | ended =>
    have hLate : 5 ≤ k := late
    refine ⟨fun hReset => ?_, fun _ => by omega⟩
    have hFourth : 4 = k := Option.some.inj hReset
    omega

omit [DecidableEq κ] [DecidableEq ι] in
/-- A clock that is stopped first goes on as a halted one. -/
theorem plan_of_stop (round : ℕ) {status : ClockStatus} {action : ClockAction} {write : AdvanceWrite τ κ}
    (hStop : stopWrite status = some (action, write)) (answers : Answers) :
    status ≠ .idle ∧
      (openActions (τ := τ) status : List (EventType × Option κ)) =
        (.clock (.press action), none) :: openActions (τ := τ) .halted ∧
      openColumns status round answers = write :: openColumns .halted round answers := by
  cases status with
  | idle => cases hStop
  | halted => cases hStop
  | running =>
    obtain ⟨rfl, rfl⟩ := Prod.mk.inj (Option.some.inj hStop)
    exact ⟨nofun, rfl, rfl⟩
  | ended =>
    obtain ⟨rfl, rfl⟩ := Prod.mk.inj (Option.some.inj hStop)
    exact ⟨nofun, rfl, rfl⟩

/-- For every bout that waits for a round, every late press that opens it and every cut of its
first send: sent again, the press leaves what one send leaves iff the cut is a finished one. -/
theorem resent_iff {moves : List (Move (SeriesBout ι) (SeriesEvent ι × Answers))}
    (hRun : Run (seriesStep upperTrimmed rules) (.fresh ι) moves bout.series)
    (hSound : SoundFormat rules.config) (hAwaiting : bout.awaiting = true)
    (hRound : bout.series.currentRound + 1 = round)
    (hFresh : ∀ row ∈ bout.rows, row.clientUuid ≠ some first.press.clientUuid)
    (hSame : again.press.clientUuid = first.press.clientUuid)
    (hFirst : (first.writes iso upperTrimmed rules round bout).refusal = none)
    (hAgain : (again.writes iso upperTrimmed rules round
      (first.cut iso upperTrimmed rules round k bout)).refusal = none) :
    Resent iso upperTrimmed rules round first.press.clientUuid
        (again.done iso upperTrimmed rules round (first.cut iso upperTrimmed rules round k bout))
        (first.done iso upperTrimmed rules round bout) ↔
      CutFinished iso upperTrimmed rules bout k := by
  obtain ⟨inStep, stamped⟩ := lawful_of_run hRun
  have h : WaitsFor rules round bout := ⟨inStep, stamped, hAwaiting, hRound⟩
  have hTwo : 2 ≤ round := by
    have hPos := h.notOver.2
    omega
  obtain ⟨s, hColumns, hActions, hClock, hWhole⟩ := whole_spec h hSound hFresh hFirst
  have hCases := resend_cases h hSound hFresh hSame hFirst hAgain
  generalize first.done iso upperTrimmed rules round bout = whole at hWhole hCases ⊢
  generalize again.done iso upperTrimmed rules round
    (first.cut iso upperTrimmed rules round k bout) = resent at hCases ⊢
  have hWholeActions := hWhole.actions
  have hWholeColumns := hWhole.columns
  have hWholeZero := hWhole.atZero
  rw [hActions, hClock] at hWholeActions
  rw [hColumns, hClock] at hWholeColumns
  rw [hClock] at hWholeZero
  have hOnce : whole.actions.filter (·.2 = some first.press.clientUuid) =
      [(.roundAdvance, some first.press.clientUuid)] := hWholeActions ▸ filter_actions hFresh _
  have hSettled : ∀ bout' : RoundsBout τ κ ι,
      PressTaken iso upperTrimmed rules round first.press.clientUuid bout' → ∀ later,
        Relation.ReflTransGen (FoughtStep iso upperTrimmed rules) bout' later →
          ∀ send : LateSend κ, send.press.clientUuid = first.press.clientUuid →
            send.done iso upperTrimmed rules round later = later :=
    fun _ hTaken _ hFought _ hSend => (hTaken.settled hFought).done hSound hTwo hSend
  cases hCases with
  | finished late same =>
    subst same
    have hNot : resetAt (bout.clock iso).fold.status ≠ some k ∧
        (k = 2 → (stopWrite (bout.clock iso).fold.status :
          Option (ClockAction × AdvanceWrite τ κ)) = none) := late_spec late
    constructor
    · intro hResent
      refine ⟨hNot.1, fun hSecond stop hStop => ?_, hWholeZero.mp hResent.atZero⟩
      rw [hNot.2 hSecond] at hStop
      cases hStop
    · intro hCut
      exact ⟨rfl, hOnce, hWholeZero.mpr hCut.started, rfl, hSettled resent hWhole.taken⟩
  | @opened s' stage waits from_s =>
    have hFromActions := from_s.actions
    have hFromColumns := from_s.columns
    cases stage with
    | begun early columns actions clock =>
      rw [actions, clock, ← hWholeActions] at hFromActions
      rw [columns, clock, columns_answers h _ again.answers first.answers, ← hWholeColumns]
        at hFromColumns
      have hZero := from_s.atZero
      rw [clock] at hZero
      have hReset : resetAt (bout.clock iso).fold.status ≠ some k := by
        cases (bout.clock iso).fold.status <;> simp [resetAt] <;> omega
      constructor
      · intro hResent
        exact ⟨hReset, fun hSecond => absurd early (by omega), hZero.mp hResent.atZero⟩
      · intro hCut
        exact ⟨hFromActions, hFromActions ▸ hOnce, hZero.mpr hCut.started, hFromColumns,
          hSettled resent from_s.taken⟩
    | @stopping action write stop second columns actions halted =>
      obtain ⟨hStarted, hOpenActions, hOpenColumns⟩ := plan_of_stop round stop first.answers
      obtain ⟨-, hWrite⟩ := stopWrite_spec stop
      have hReset : resetAt (bout.clock iso).fold.status ≠ some k := by
        rw [(resetAt_of_stop stop).1, second]
        decide
      have hZero : resent.AtZero iso := from_s.atZero.mpr fun hIdle => by
        rw [halted] at hIdle
        cases hIdle
      have hSameActions : resent.actions = whole.actions := by
        rw [hFromActions, hWholeActions, actions, halted, hOpenActions]
        simp
      rw [columns, halted] at hFromColumns
      rw [hOpenColumns] at hWholeColumns
      constructor
      · intro hResent
        refine ⟨hReset, fun _ other hOther => ?_, fun hIdle => absurd hIdle hStarted⟩
        obtain rfl := Option.some.inj (stop.symm.trans hOther)
        exact run_of_columns h hSound stop
          (hFromColumns.symm.trans (hResent.columns.trans hWholeColumns))
      · intro hCut
        have hRun : AdvanceWrite.run iso upperTrimmed rules write bout.columns = bout.columns := by
          rw [← columns_write hWrite, hCut.stopped second _ stop]
        refine ⟨hSameActions, hSameActions ▸ hOnce, hZero, ?_, hSettled resent from_s.taken⟩
        rw [hFromColumns, hWholeColumns, runAll_cons, hRun]
        exact columns_answers h .halted again.answers first.answers
    | @stopped action write stop third columns actions halted =>
      obtain ⟨hStarted, hOpenActions, hOpenColumns⟩ := plan_of_stop round stop first.answers
      obtain ⟨-, hWrite⟩ := stopWrite_spec stop
      have hZero : resent.AtZero iso := from_s.atZero.mpr fun hIdle => by
        rw [halted] at hIdle
        cases hIdle
      have hSameActions : resent.actions = whole.actions := by
        rw [hFromActions, hWholeActions, actions, halted, hOpenActions]
        simp
      have hWaits : WaitsFor rules round (AdvanceWrite.run iso upperTrimmed rules write bout) :=
        h.runAll iso upperTrimmed [write] (by obtain rfl | rfl := hWrite <;> rfl)
      have hSameColumns : resent.columns = whole.columns := by
        rw [hFromColumns, hWholeColumns, columns, halted, hOpenColumns, runAll_cons,
          ← columns_write hWrite]
        exact columns_answers hWaits .halted again.answers first.answers
      refine iff_of_true ⟨hSameActions, hSameActions ▸ hOnce, hZero, hSameColumns,
        hSettled resent from_s.taken⟩ ⟨?_, fun hSecond => by omega, fun hIdle => absurd hIdle hStarted⟩
      rw [(resetAt_of_stop stop).1, third]
      decide
    | zeroed reset actions halted =>
      refine iff_of_false (fun hResent => ?_) fun hCut => hCut.reset reset
      have hTwice := hResent.actions.symm.trans hFromActions
      rw [hWholeActions, actions, halted] at hTwice
      have hLength := congrArg List.length hTwice
      simp [openActions, stopWrite] at hLength

end Law

/-! ## A bout between two rounds -/

/-- Red has taken the first round. -/
def redTookOne : SeriesBout ℕ :=
  (SeriesBout.door id bestOfThree (.fresh ℕ) (redHit 3) ⟨false, true⟩).getD (.fresh ℕ)

theorem run_redTookOne :
    ∃ moves, Run (seriesStep id bestOfThree) (.fresh ℕ) moves redTookOne := by
  have hDoor : (SeriesBout.door id bestOfThree (.fresh ℕ) (redHit 3) ⟨false, true⟩).isSome := by
    decide +kernel
  obtain ⟨series, hSeries⟩ := Option.isSome_iff_exists.mp hDoor
  have hEq : redTookOne = series := by rw [redTookOne, hSeries, Option.getD_some]
  rw [hEq]
  exact ⟨_, .move (e := (redHit 3, ⟨false, true⟩)) .start hSeries⟩

/-- Its clock is halted, and the bout waits for the second round. -/
def betweenRoundsBout : RoundsBout ℤ ℕ ℕ where
  rows := [⟨.clock (.press .start), 0, 1, none, none⟩, ⟨.clock (.press .halt), 9000, 2, none, none⟩]
  series := redTookOne
  statusInPlay := .paused
  locked := false
  startedAt := some 0
  endedAt := none
  durationActiveMs := none
  durationTotalMs := none
  backInPlayAt := none
  eventOver := false

def secondRoundPress (sentMs nowMs : ℤ) : LateSend ℕ := ⟨⟨7, 20000, sentMs⟩, ⟨false, true⟩, nowMs⟩

theorem soundFormat_bestOfThree : SoundFormat bestOfThree.config := ⟨by decide, nofun⟩

theorem fresh_secondRoundPress : ∀ row ∈ betweenRoundsBout.rows,
    row.clientUuid ≠ some (secondRoundPress 30000 30000).press.clientUuid := by decide

/-- Cut behind the row of the clock's reset, the press is sent again and resets the clock twice. -/
theorem not_resent_betweenRoundsBout :
    (∃ moves, Run (seriesStep id bestOfThree) (.fresh ℕ) moves betweenRoundsBout.series) ∧
      SoundFormat bestOfThree.config ∧ betweenRoundsBout.awaiting = true ∧
      betweenRoundsBout.series.currentRound + 1 = 2 ∧
      ((secondRoundPress 30000 30000).writes msTime id bestOfThree 2 betweenRoundsBout).refusal =
        none ∧
      ((secondRoundPress 50000 50000).writes msTime id bestOfThree 2
        ((secondRoundPress 30000 30000).cut msTime id bestOfThree 2 2 betweenRoundsBout)).refusal =
          none ∧
      ¬Resent msTime id bestOfThree 2 7
        ((secondRoundPress 50000 50000).done msTime id bestOfThree 2
          ((secondRoundPress 30000 30000).cut msTime id bestOfThree 2 2 betweenRoundsBout))
        ((secondRoundPress 30000 30000).done msTime id bestOfThree 2 betweenRoundsBout) := by
  refine ⟨run_redTookOne, soundFormat_bestOfThree, by decide +kernel, by decide +kernel,
    by decide +kernel, by decide +kernel, fun hResent => ?_⟩
  have hTwice : ((secondRoundPress 50000 50000).done msTime id bestOfThree 2
      ((secondRoundPress 30000 30000).cut msTime id bestOfThree 2 2 betweenRoundsBout)).actions ≠
        ((secondRoundPress 30000 30000).done msTime id bestOfThree 2 betweenRoundsBout).actions := by
    decide +kernel
  exact hTwice hResent.actions

/-- Cut behind its own row, it opens the round as one send does. -/
theorem resent_betweenRoundsBout :
    Resent msTime id bestOfThree 2 7
      ((secondRoundPress 50000 50000).done msTime id bestOfThree 2
        ((secondRoundPress 30000 30000).cut msTime id bestOfThree 2 1 betweenRoundsBout))
      ((secondRoundPress 30000 30000).done msTime id bestOfThree 2 betweenRoundsBout) := by
  obtain ⟨moves, hRun⟩ := run_redTookOne
  have hRun : Run (seriesStep id bestOfThree) (.fresh ℕ) moves betweenRoundsBout.series := hRun
  have hHalted : (betweenRoundsBout.clock msTime).fold.status = .halted := by decide +kernel
  have hAwaiting : betweenRoundsBout.awaiting = true := by decide +kernel
  have hRound : betweenRoundsBout.series.currentRound + 1 = 2 := by decide +kernel
  have hFirst : ((secondRoundPress 30000 30000).writes msTime id bestOfThree 2
      betweenRoundsBout).refusal = none := by decide +kernel
  have hAgain : ((secondRoundPress 50000 50000).writes msTime id bestOfThree 2
      ((secondRoundPress 30000 30000).cut msTime id bestOfThree 2 1 betweenRoundsBout)).refusal =
        none := by decide +kernel
  have hSame : (secondRoundPress 50000 50000).press.clientUuid =
      (secondRoundPress 30000 30000).press.clientUuid := rfl
  have hIff := resent_iff hRun soundFormat_bestOfThree hAwaiting hRound fresh_secondRoundPress hSame
    hFirst hAgain
  refine hIff.mpr ⟨?_, nofun, ?_⟩
  · rw [hHalted]
    decide
  · rw [hHalted]
    nofun

end MyClash.Timeline
