import MyClash.Library.Run
import MyClash.Pad.PadClock
import MyClash.Timeline.Written

/-!
# The pad's clock against the server's

Press after press, the pad's fold and the server's timeline come to the same clock, as long as no
round press or level step is one the server has done already.
-/

namespace MyClash.Pad

open Clock Timeline MatchFormat Runs
open Scoring (ClosedRound seriesResult)
open Offline (RoundPress)

universe u v

variable {τ : Type u} {ι : Type v}

/-! ## What the server has done already -/

section Done

variable [DecidableEq ι]

/-- The server holds this "End round", or its round is closed. -/
def endIsDone (bout : ServerBout τ ι) (clientUuid : ι) (round : ℕ) : Bool :=
  let snapshot := bout.closedRounds.any (·.round = round)
  match savedRoundPress bout.rows clientUuid .roundEnd with
  | .ok (some sequence) =>
    !(bout.round = round && !snapshot && !bout.completed) || bout.eventOver ||
      nextSequence bout.rows ≠ sequence + 1
  | .ok none => !bout.eventOver && snapshot
  | .error _ => false

/-- The server holds this "Start round", or its round is open. -/
def advanceIsDone (bout : ServerBout τ ι) (clientUuid : ι) (round : ℕ) : Bool :=
  match savedRoundPress bout.rows clientUuid .roundAdvance with
  | .ok (some _) =>
    !(bout.awaitingRoundAdvance && bout.round = round - 1 && !bout.completed) || bout.eventOver
  | .ok none => !bout.eventOver && bout.round ≥ round
  | .error _ => false

/-- The server holds this step, or its round has taken it. -/
def levelIsDone (iso : IsoTime τ) (bout : ServerBout τ ι) (clientUuid : ι) (step : ℕ) : Bool :=
  match savedRoundPress bout.rows clientUuid (.clock .levelResolution) with
  | .ok (some _) => true
  | .ok none => (bout.clock iso).levelResolutionSteps > step
  | .error _ => false

/-- What the pad's fold takes for granted of the bout a press finds. A clock press the server holds
asks for what is so; a round press it has done finds the clock where the press puts it; a level
step is new to the server and gives the bout's own seconds; no sheet ends the series. -/
def Foreseen (iso : IsoTime τ) (rules : BoutRules) (sheets : Sheets) (bout : ServerBout τ ι)
    (row : PressRow τ ι) : Prop :=
  let clock := bout.clock iso
  match row.tap with
  | .clock action =>
    (pressIsSaved bout.rows row.clientUuid = true →
        pressAlreadyTrue action clock.fold.status = true ∨
          action.action ∉ CLOCK_ACTIONS_FROM clock.fold.status) ∧
      (action = .start → betweenRounds rules bout = true → clock.fold.status ≠ .running)
  | .round .endRound round =>
    if endIsDone bout row.clientUuid round then clock.fold.status ≠ .running
    else (seriesResult (bout.closedRounds ++ [roundEndedOnTime sheets bout])
      rules.bestOf).isOver = false
  | .round .advance round =>
    if advanceIsDone bout row.clientUuid round then
      clock.fold.status = .halted ∧ clock.fold.activeMs = 0 ∧ clock.levelResolutionSteps = 0
    else countDecides rules sheets { bout with currentRound := some round } = false
  | .level level _ =>
    levelIsDone iso bout row.clientUuid level.step = false ∧
      levelPressOf (pendingLevelStep rules level.step) level.step rules.limitSeconds = some level

end Done

/-- The server reads the press's age right, and its time as the tablet wrote it. -/
structure AtItsAge (iso : IsoTime τ) (send : Send τ ι) : Prop where
  age : pressedAtServer (send.press iso) send.nowMs = iso.getTime send.row.occurredAt
  text : iso.toISOString (iso.getTime send.row.occurredAt) = send.row.occurredAt

/-- The press is placed where it was tapped: it is not before the timeline's rows. -/
structure InPlace (iso : IsoTime τ) (bout : ServerBout τ ι) (send : Send τ ι) : Prop
    extends AtItsAge iso send where
  notBefore : NotBefore iso bout.rows (iso.getTime send.row.occurredAt)

/-- The pad's step is the server's. -/
structure Agrees (iso : IsoTime τ) (bout taken : ServerBout τ ι) (row : PressRow τ ι) : Prop where
  clock : answerOf (taken.clock iso) = afterRow iso.getTime (answerOf (bout.clock iso)) row
  notBefore : NotBefore iso taken.rows (iso.getTime row.occurredAt)

/-! ## The pad's own steps -/

section PadSteps

variable {getTime : τ → ℤ} {clock : ClockFold τ} {time : τ}

theorem clockAfterPress_of_not_fits {press : ClockPress}
    (h : press.action ∉ CLOCK_ACTIONS_FROM clock.status) :
    clockAfterPress getTime clock press time = clock := by
  rw [clockAfterPress]
  split_ifs with hTrue hFits
  · rfl
  · rfl
  · simp [h] at hFits

theorem clockAfterPress_of_fits {press : ClockPress}
    (hTrue : pressAlreadyTrue press clock.status ≠ true)
    (h : press.action ∈ CLOCK_ACTIONS_FROM clock.status) :
    clockAfterPress getTime clock press time =
      clockStep getTime clock ⟨.press press.action, time, none⟩ := by
  rw [clockAfterPress, if_neg hTrue, if_neg (by simp [h])]

/-- A Halt moves a clock that runs, and no other. -/
theorem clockAfterPress_halt :
    clockAfterPress getTime clock .halt time =
      if clock.status = .running then clockStep getTime clock ⟨.press .halt, time, none⟩
      else clock := by
  split_ifs with hRunning
  · exact clockAfterPress_of_fits (by rw [hRunning]; decide) (by rw [hRunning]; decide)
  · refine clockAfterPress_of_not_fits ?_
    cases hStatus : clock.status <;> first | exact absurd hStatus hRunning | decide

theorem clockStep_not_idle {action : ClockAction} :
    (clockStep getTime clock ⟨.press action, time, none⟩).status ≠ .idle := by
  cases action <;> nofun

theorem clockAfterPress_not_idle {press : ClockPress} (h : clock.status ≠ .idle) :
    (clockAfterPress getTime clock press time).status ≠ .idle := by
  rw [clockAfterPress]
  split_ifs
  · exact h
  · exact h
  · exact clockStep_not_idle

/-- No press puts a clock that was started back to idle. -/
theorem afterRow_not_idle {state : ClockState τ} {row : PressRow τ ι}
    (h : state.fold.status ≠ .idle) : (afterRow getTime state row).fold.status ≠ .idle := by
  rw [afterRow]
  split
  · exact clockAfterPress_not_idle h
  · rename_i level round hTap
    have hPaused : (if state.fold.status = .running then
        clockAfterPress getTime state.fold .halt row.occurredAt else state.fold).status ≠ .idle := by
      split_ifs
      · exact clockAfterPress_not_idle h
      · exact h
    simp only [clockAfterLevel]
    split <;> exact hPaused
  · rename_i action round hTap
    cases action with
    | endRound => exact clockAfterPress_not_idle h
    | advance => nofun

end PadSteps

/-! ## A clock press -/

section Doors

variable {iso : IsoTime τ} {rules : BoutRules} {sheets : Sheets} {mayPassLock : Bool}
variable {bout taken : ServerBout τ ι} {send : Send τ ι}

theorem Agrees.of_rows (hIn : InPlace iso bout send) (hRows : taken.rows = bout.rows)
    (hSame : afterRow iso.getTime (answerOf (bout.clock iso)) send.row =
      answerOf (bout.clock iso)) : Agrees iso bout taken send.row where
  clock := by
    rw [hSame, ServerBout.clock, ServerBout.clock, hRows]
  notBefore := hRows ▸ hIn.notBefore

theorem Agrees.congr_rows {written : ServerBout τ ι} (h : Agrees iso bout written send.row)
    (hRows : taken.rows = written.rows) : Agrees iso bout taken send.row where
  clock := by
    rw [ServerBout.clock, hRows]
    exact h.clock
  notBefore := hRows ▸ h.notBefore

theorem rows_finishSavedPress [DecidableEq ι] {action : ClockPress} {press : LatePress ι} :
    (finishSavedPress iso rules bout action press).rows = bout.rows := by
  rw [finishSavedPress]
  split
  · rfl
  · dsimp only
    split <;> rfl

theorem betweenRounds_finishSavedPress [DecidableEq ι] {press : LatePress ι} :
    betweenRounds rules (finishSavedPress iso rules bout .start press) =
      betweenRounds rules bout := by
  rw [finishSavedPress]
  split
  · rfl
  · dsimp only
    split
    · rfl
    · rename_i h
      have hOpen : bout.completed = false := by
        rw [not_or, not_or] at h
        exact Bool.eq_false_iff.mpr h.2.1
      rw [betweenRounds, betweenRounds, hOpen]
      rfl

theorem agrees_record {action : ClockPress} (clientUuid : Option ι)
    (hTap : send.row.tap = .clock action) (hIn : InPlace iso bout send)
    (hTrue : pressAlreadyTrue action (bout.clock iso).fold.status ≠ true)
    (hFits : action.action ∈ CLOCK_ACTIONS_FROM (bout.clock iso).fold.status) :
    Agrees iso bout (record bout action.action send.row.occurredAt clientUuid) send.row where
  clock := by
    rw [clock_record hIn.notBefore, afterRow, hTap]
    simp only [answerOf, clockAfterPress_of_fits hTrue hFits]
    rfl
  notBefore := notBefore_record hIn.notBefore le_rfl

variable [DecidableEq ι]

theorem takePress_agrees {action : ClockPress} (hTap : send.row.tap = .clock action)
    (hIn : InPlace iso bout send)
    (hSaved : pressIsSaved bout.rows send.row.clientUuid = true →
      pressAlreadyTrue action (bout.clock iso).fold.status = true ∨
        action.action ∉ CLOCK_ACTIONS_FROM (bout.clock iso).fold.status)
    (hTake : takePress iso rules sheets mayPassLock bout action (send.press iso) send.nowMs =
      .ok taken) : Agrees iso bout taken send.row := by
  rw [takePress] at hTake
  split at hTake
  · rename_i hHeld
    obtain rfl := Except.ok.inj hTake
    refine Agrees.of_rows hIn rows_finishSavedPress ?_
    rw [afterRow, hTap]
    rcases hSaved hHeld with hTrue | hNot
    · simp only [answerOf, clockAfterPress_of_alreadyTrue hTrue]
    · simp only [answerOf, clockAfterPress_of_not_fits hNot]
  split at hTake
  · cases hTake
  split at hTake
  · rename_i hTrue
    obtain rfl := Except.ok.inj hTake
    refine Agrees.of_rows hIn rfl ?_
    rw [afterRow, hTap]
    simp only [answerOf, clockAfterPress_of_alreadyTrue hTrue]
  rename_i hTrue
  dsimp only at hTake
  split at hTake
  · cases hTake
  rename_i hNone
  rw [hIn.age, placedInTimeline_of_notBefore hIn.notBefore, hIn.text] at hTake
  have hFits : action.action ∈ CLOCK_ACTIONS_FROM (bout.clock iso).fold.status := by
    have hRule := firstRefusal_eq_none_iff.mp hNone
      (!(CLOCK_ACTIONS_FROM (bout.clock iso).fold.status).contains action.action,
        .pressOutOfOrder) (by simp)
    simpa using hRule
  split at hTake
  · -- the sheet ends the bout, and the server's own End is at the time of the press
    rename_i hSheet
    obtain ⟨rfl, hEnds⟩ := hSheet
    obtain rfl := Except.ok.inj hTake
    refine (agrees_record none hTap hIn hTrue hFits).congr_rows ?_
    rw [rows_recompute_of_sheetEnds hIn.notBefore hEnds hFits, hIn.text]
    rfl
  split at hTake
  · cases hTake
  · exact Except.ok.inj hTake ▸ agrees_record _ hTap hIn hTrue hFits

/-- A Start of a clock that was started is never written. -/
theorem takePress_start {press : LatePress ι} {nowMs : ℤ}
    (hIdle : (bout.clock iso).fold.status ≠ .idle)
    (hTake : takePress iso rules sheets mayPassLock bout .start press nowMs = .ok taken) :
    taken.rows = bout.rows ∧ betweenRounds rules taken = betweenRounds rules bout := by
  rw [takePress] at hTake
  split at hTake
  · exact Except.ok.inj hTake ▸ ⟨rows_finishSavedPress, betweenRounds_finishSavedPress⟩
  split at hTake
  · cases hTake
  split at hTake
  · exact Except.ok.inj hTake ▸ ⟨rfl, rfl⟩
  rename_i hTrue
  dsimp only at hTake
  split at hTake
  · cases hTake
  rename_i hNone
  have hRule := firstRefusal_eq_none_iff.mp hNone
    (!(CLOCK_ACTIONS_FROM (bout.clock iso).fold.status).contains ClockPress.start.action,
      .pressOutOfOrder) (by simp)
  cases hStatus : (bout.clock iso).fold.status <;> rw [hStatus] at hIdle hTrue hRule <;>
    first | exact absurd rfl hIdle | exact absurd rfl hTrue | cases hRule

omit [DecidableEq ι] in
theorem rows_countAtStart {nowMs : ℤ}
    (hBetween : betweenRounds rules bout = true → (bout.clock iso).fold.status ≠ .running) :
    (countAtStart iso rules sheets bout nowMs).rows = bout.rows := by
  rw [countAtStart]
  split_ifs with hCounts
  · exact rows_recompute_of_empty (sheets.ofRound_empty hCounts.2.2.2.2 _) hBetween
  · rfl

theorem clock_agrees {action : ClockPress} (hTap : send.row.tap = .clock action)
    (hIdle : (bout.clock iso).fold.status ≠ .idle) (hIn : InPlace iso bout send)
    (hForeseen : Foreseen iso rules sheets bout send.row)
    (hTake : take iso rules sheets mayPassLock bout send = .ok taken) :
    Agrees iso bout taken send.row := by
  rw [Foreseen, hTap] at hForeseen
  obtain ⟨hSaved, hBetween⟩ := hForeseen
  rw [take, hTap] at hTake
  dsimp only at hTake
  rw [latePress] at hTake
  cases hPress : takePress iso rules sheets mayPassLock bout action (send.press iso)
      send.nowMs with
  | error refusal =>
    rw [hPress] at hTake
    cases hTake
  | ok pressed =>
    rw [hPress] at hTake
    obtain rfl := Except.ok.inj hTake
    have hAgrees := takePress_agrees hTap hIn hSaved hPress
    split_ifs with hStart
    · subst hStart
      obtain ⟨hRows, hSame⟩ := takePress_start hIdle hPress
      refine hAgrees.congr_rows (rows_countAtStart fun hWaits => ?_)
      rw [ServerBout.clock, hRows]
      exact hBetween rfl (hSame ▸ hWaits)
    · exact hAgrees

/-! ## The two round presses -/

theorem endIsDone_eq {bout : ServerBout τ ι} {clientUuid : ι} {round : ℕ} {pressedMs nowMs : ℤ}
    {answer : RoundEndAnswer}
    (h : (savedRoundPress bout.rows clientUuid .roundEnd).map
      (fun saved => placeLateRoundEnd iso bout round saved pressedMs nowMs) = .ok answer)
    (hAnswer : ∀ refusal, answer ≠ .refused refusal) :
    endIsDone bout clientUuid round = decide (answer = .done) := by
  rw [endIsDone]
  cases hSaved : savedRoundPress bout.rows clientUuid .roundEnd with
  | error refusal =>
    rw [hSaved] at h
    cases h
  | ok saved =>
    rw [hSaved] at h
    obtain rfl := Except.ok.inj h
    cases saved with
    | some sequence =>
      dsimp only [placeLateRoundEnd]
      split_ifs with hDone
      · exact hDone.trans (decide_eq_true rfl).symm
      · exact (Bool.eq_false_iff.mpr hDone).trans (decide_eq_false nofun).symm
    | none =>
      dsimp only [placeLateRoundEnd] at hAnswer ⊢
      split at hAnswer
      · exact absurd rfl (hAnswer _)
      · rename_i hOver
        simp only [Bool.eq_false_iff.mpr hOver, Bool.not_false, Bool.true_and]
        split at hAnswer
        · rename_i hClosed
          simp [hClosed]
        · rename_i hClosed
          split at hAnswer
          · exact absurd rfl (hAnswer _)
          · simp [hClosed]

omit [DecidableEq ι] in
/-- A round closed and the series going on: the Halt the server writes is the one the pad folds. -/
theorem agrees_closeRound {written : ServerBout τ ι} {closing : ClosedRound} {round : ℕ} {nowMs : ℤ}
    (hTap : send.row.tap = .round .endRound round) (hIn : InPlace iso bout send)
    (hRows : NotBefore iso written.rows (iso.getTime send.row.occurredAt))
    (hClock : written.clock iso = bout.clock iso) (hOpen : written.completed = false)
    (hGoesOn : (seriesResult (written.closedRounds ++ [closing]) rules.bestOf).isOver = false) :
    Agrees iso bout
      (closeRound iso rules written closing (some (iso.getTime send.row.occurredAt)) nowMs)
      send.row := by
  have hRowsClosed : NotBefore iso (buildRoundClosure rules written closing).rows
      (iso.getTime send.row.occurredAt) := by
    rw [rows_buildRoundClosure]
    exact hRows
  have hClockClosed : (buildRoundClosure rules written closing).clock iso = bout.clock iso := by
    rw [ServerBout.clock, rows_buildRoundClosure]
    exact hClock
  have hOpenClosed : (buildRoundClosure rules written closing).completed = false :=
    (completed_buildRoundClosure hGoesOn).trans hOpen
  rw [closeRound, if_pos (by rw [awaiting_buildRoundClosure, hGoesOn]; rfl),
    haltClockBestEffort_eq hRowsClosed hOpenClosed, hIn.text, hClockClosed]
  constructor
  · rw [afterRow, hTap]
    simp only [answerOf, clockAfterRound, clockAfterPress_halt]
    split_ifs
    · rw [clock_record hRowsClosed, hClockClosed]
      rfl
    · rw [hClockClosed]
  · split_ifs
    · exact notBefore_record hRowsClosed le_rfl
    · exact hRowsClosed

theorem endRound_agrees {round : ℕ} (hTap : send.row.tap = .round .endRound round)
    (hIn : InPlace iso bout send) (hForeseen : Foreseen iso rules sheets bout send.row)
    (hTake : take iso rules sheets mayPassLock bout send = .ok taken) :
    Agrees iso bout taken send.row := by
  rw [Foreseen, hTap] at hForeseen
  rw [take, hTap] at hTake
  dsimp only at hForeseen hTake
  rw [endRound] at hTake
  dsimp only at hTake
  split at hTake
  · cases hTake
  · -- the server has done it: the clock stands, and the pad's Halt leaves it
    rename_i hAnswer
    have hDone : endIsDone bout send.row.clientUuid round = true :=
      (endIsDone_eq hAnswer nofun).trans (decide_eq_true rfl)
    rw [if_pos hDone] at hForeseen
    obtain rfl := Except.ok.inj hTake
    refine Agrees.of_rows hIn rfl ?_
    rw [afterRow, hTap]
    simp only [answerOf, clockAfterRound, clockAfterPress_halt, if_neg hForeseen]
  · cases hTake
  · rename_i isSaved hAnswer
    have hDone : endIsDone bout send.row.clientUuid round = false :=
      (endIsDone_eq hAnswer nofun).trans (decide_eq_false nofun)
    rw [if_neg (by simp [hDone])] at hForeseen
    split at hTake
    · cases hTake
    rename_i hNone
    have hEnded := firstRefusal_eq_none_iff.mp hNone _ (List.mem_cons_of_mem _ List.mem_cons_self)
    have hOpen : bout.completed = false := by
      simp only [Bool.or_eq_false_iff] at hEnded
      exact hEnded.1.1
    rw [hIn.age, placedInTimeline_of_notBefore hIn.notBefore, hIn.text] at hTake
    obtain rfl := Except.ok.inj hTake
    cases isSaved with
    | true => exact agrees_closeRound hTap hIn hIn.notBefore rfl hOpen hForeseen
    | false =>
      refine agrees_closeRound hTap hIn (notBefore_write hIn.notBefore le_rfl) ?_ hOpen hForeseen
      exact (clock_write hIn.notBefore).trans (rowStep_of_not_read _ rfl)

omit [DecidableEq ι] in
/-- The round opened: the Halt or the Reopen and the Reset the server writes come to the zero the
pad folds. -/
theorem openRound_agrees {written : ServerBout τ ι} {round : ℕ} {nowMs : ℤ}
    (hTap : send.row.tap = .round .advance round)
    (hRows : NotBefore iso written.rows (iso.getTime send.row.occurredAt))
    (hFold : (written.clock iso).fold = (bout.clock iso).fold)
    (hClosed : written.closedRounds = bout.closedRounds)
    (hIdle : (bout.clock iso).fold.status ≠ .idle)
    (hDecides : countDecides rules sheets { bout with currentRound := some round } = false)
    (hOpen : openRound iso rules sheets written round send.row.occurredAt nowMs = .ok taken) :
    Agrees iso bout taken send.row := by
  rw [openRound] at hOpen
  cases hReset : resetClock iso written send.row.occurredAt nowMs with
  | error refusal =>
    rw [hReset] at hOpen
    cases hOpen
  | ok reset =>
    rw [hReset] at hOpen
    obtain rfl := Except.ok.inj hOpen
    have hZeroed := resetClock_ok hRows (hFold ▸ hIdle) hReset
    have hSame : countDecides rules sheets
        { reset with currentRound := some round, awaitingRoundAdvance := false } = false := by
      rw [← hDecides, countDecides, countDecides]
      simp only [ServerBout.round, hZeroed.closedRounds, hClosed]
      rfl
    have hHalted : (reset.clock iso).fold.status ≠ .running := by
      rw [hZeroed.clock]
      rintro ⟨⟩
    have hCount : (recomputeMatchScore iso rules sheets
        { reset with currentRound := some round, awaitingRoundAdvance := false } none nowMs).rows =
        reset.rows := rows_recompute hSame hHalted
    constructor
    · rw [ServerBout.clock, hCount]
      refine (congrArg answerOf hZeroed.clock).trans ?_
      rw [afterRow, hTap, hFold]
      rfl
    · rw [hCount]
      exact hZeroed.notBefore

omit [DecidableEq ι] in
/-- A round the server has opened already: it writes nothing, and the clock stands at the zero the
pad folds. -/
theorem agrees_of_zero {round : ℕ} (hTap : send.row.tap = .round .advance round)
    (hIn : InPlace iso bout send) (hRows : taken.rows = bout.rows)
    (hZero : (bout.clock iso).fold.status = .halted ∧ (bout.clock iso).fold.activeMs = 0 ∧
      (bout.clock iso).levelResolutionSteps = 0) : Agrees iso bout taken send.row := by
  obtain ⟨hHalted, hActive, hSteps⟩ := hZero
  have hSound := (getClockState_sound hIn.notBefore).running_iff
  have hFrom : (bout.clock iso).fold.runningFrom = none := by
    rw [← Option.not_isSome_iff_eq_none]
    exact fun hSome => absurd (hSound.mp hSome) (hHalted ▸ nofun)
  refine Agrees.of_rows hIn hRows ?_
  rw [afterRow, hTap]
  simp only [answerOf, clockAfterRound, hSteps, ← hHalted, ← hActive, ← hFrom]

theorem advance_agrees {round : ℕ} (hTap : send.row.tap = .round .advance round)
    (hIdle : (bout.clock iso).fold.status ≠ .idle) (hIn : InPlace iso bout send)
    (hForeseen : Foreseen iso rules sheets bout send.row)
    (hTake : take iso rules sheets mayPassLock bout send = .ok taken) :
    Agrees iso bout taken send.row := by
  rw [Foreseen, hTap] at hForeseen
  rw [take, hTap] at hTake
  dsimp only at hForeseen hTake
  rw [advanceLate] at hTake
  split at hTake
  · cases hTake
  · cases hTake
  rename_i saved hRound hSaved
  dsimp only at hTake
  have hSavedRow : savedRoundPress bout.rows send.row.clientUuid .roundAdvance = .ok saved := hSaved
  rw [advanceIsDone, hSavedRow] at hForeseen
  cases saved with
  | none =>
    simp only [Option.isSome_none, Option.isNone_none, Bool.false_and, Bool.true_and,
      Bool.false_eq_true, if_false] at hTake hForeseen
    split at hTake
    · cases hTake
    rename_i hOver
    rw [Bool.eq_false_iff.mpr hOver, Bool.not_false, Bool.true_and] at hForeseen
    split at hTake
    · rename_i hPast
      rw [if_pos hPast] at hForeseen
      exact agrees_of_zero hTap hIn (congrArg _ (Except.ok.inj hTake).symm) hForeseen
    · rename_i hNew
      rw [if_neg hNew] at hForeseen
      split at hTake
      · cases hTake
      rw [hIn.age, placedInTimeline_of_notBefore hIn.notBefore, hIn.text] at hTake
      refine openRound_agrees hTap (notBefore_write hIn.notBefore le_rfl) ?_ rfl hIdle
        hForeseen hTake
      rw [clock_write hIn.notBefore]
      rfl
  | some sequence =>
    simp only [Option.isSome_some, Option.isNone_some, Bool.false_and, Bool.true_and,
      Bool.false_eq_true, if_false, if_true] at hTake hForeseen
    split at hTake
    · rename_i hOpened
      rw [if_pos hOpened] at hForeseen
      have hHalted : (bout.clock iso).fold.status ≠ .running := hForeseen.1 ▸ nofun
      split at hTake
      · rename_i hCounts
        obtain rfl := Except.ok.inj hTake
        simp only [Bool.and_eq_true, decide_eq_true_eq] at hCounts
        have hEmpty : (sheets.ofRound bout.round).isEmpty = true := hCounts.1.2 ▸ hCounts.2
        exact agrees_of_zero hTap hIn (rows_recompute_of_empty hEmpty fun _ => hHalted) hForeseen
      · exact agrees_of_zero hTap hIn (congrArg _ (Except.ok.inj hTake).symm) hForeseen
    · rename_i hWaits
      rw [if_neg hWaits] at hForeseen
      split at hTake
      · cases hTake
      rw [hIn.age, placedInTimeline_of_notBefore hIn.notBefore, hIn.text] at hTake
      exact openRound_agrees hTap hIn.notBefore rfl rfl hIdle hForeseen hTake

/-! ## A step of a level bout -/

/-- The clock a step finds, paused at the tap. -/
def pausedAt (getTime : τ → ℤ) (clock : ClockFold τ) (time : τ) : ClockFold τ :=
  if clock.status = .running then clockStep getTime clock ⟨.press .halt, time, none⟩ else clock

omit [DecidableEq ι] in
/-- The time the server reads at the tap is the one the pad's paused clock shows. -/
theorem elapsedAt_eq {clock : ClockFold τ} {time : τ}
    (h : Sound iso clock (iso.getTime time)) :
    elapsedAt iso clock time = (pausedAt iso.getTime clock time).activeMs := by
  rw [elapsedAt, pausedAt]
  split
  · rename_i since hRunning hSince
    rw [if_pos hRunning]
    simp only [clockStep, closed, hSince]
    rw [max_eq_right (sub_nonneg.mpr (h.since_le since hSince))]
  · rename_i hOther
    split_ifs with hRunning
    · obtain ⟨since, hSince⟩ := Option.isSome_iff_exists.mp (h.running_iff.mpr hRunning)
      exact absurd hSince (hOther since hRunning)
    · rfl

theorem pausedAt_nonneg {clock : ClockFold τ} {time : τ}
    (h : Sound iso clock (iso.getTime time)) : 0 ≤ (pausedAt iso.getTime clock time).activeMs := by
  rw [pausedAt]
  split_ifs
  · exact h.closed_nonneg
  · exact h.nonneg

omit [DecidableEq ι] in
/-- A correction of nothing is not written, and comes to the same. -/
theorem timeGiven_extraTime {seconds : ℕ} {elapsedMs : ℤ} :
    (timeGiven rules (.extraTime seconds) elapsedMs).getD 0 =
      extraTimeAdjustmentMs seconds elapsedMs rules.limitMs := by
  dsimp only [timeGiven]
  split_ifs with hZero
  · exact hZero.symm
  · rfl

/-- The correction the server writes with a step comes to the one the pad folds. -/
theorem clockAfterLevel_eq {step : LevelStep} {steps : ℕ} {level : LevelPress} {clock : ClockFold τ}
    {time : τ} (hLevel : levelPressOf (some step) steps rules.limitSeconds = some level)
    (h : Sound iso clock (iso.getTime time)) :
    clockAfterLevel iso.getTime clock level time =
      clockStep iso.getTime (pausedAt iso.getTime clock time)
        ⟨.levelResolution, time, timeGiven rules step (elapsedAt iso clock time)⟩ := by
  have hPaused : (if clock.status = .running then
      clockAfterPress iso.getTime clock .halt time else clock) = pausedAt iso.getTime clock time := by
    rw [pausedAt]
    split_ifs with hRunning
    · rw [clockAfterPress_halt, if_pos hRunning]
    · rfl
  rw [clockAfterLevel, hPaused, elapsedAt_eq h]
  cases step with
  | draw => cases hLevel
  | suddenDeath =>
    obtain rfl := Option.some.inj hLevel
    simp only [clockStep, timeGiven, Option.getD_none, add_zero, max_eq_right (pausedAt_nonneg h)]
  | extraTime seconds =>
    obtain rfl := Option.some.inj hLevel
    simp only [clockStep, timeGiven_extraTime]
    rfl

omit [DecidableEq ι] in
theorem clock_pausedAt {time : τ} (paused : ServerBout τ ι)
    (h : NotBefore iso bout.rows (iso.getTime time))
    (hRows : paused.rows = (if (bout.clock iso).fold.status = .running then
      bout.write (.clock (.press .halt)) time none none else bout).rows) :
    paused.clock iso =
        ⟨pausedAt iso.getTime (bout.clock iso).fold time, (bout.clock iso).levelResolutionSteps⟩ ∧
      NotBefore iso paused.rows (iso.getTime time) := by
  rw [ServerBout.clock, hRows, pausedAt]
  split_ifs
  · exact ⟨clock_write h, notBefore_write h le_rfl⟩
  · exact ⟨rfl, h⟩

omit [DecidableEq ι] in
/-- The rows of a step, the Halt of a clock that runs among them. -/
theorem writeStep_agrees {level : LevelPress} {round : ℕ} {press : LatePress ι}
    (hTap : send.row.tap = .level level round) (hIn : InPlace iso bout send)
    (hLevel : levelPressOf (pendingLevelStep rules (bout.clock iso).levelResolutionSteps)
      (bout.clock iso).levelResolutionSteps rules.limitSeconds = some level)
    (hWrite : writeStep iso rules bout press send.row.occurredAt = .ok taken) :
    Agrees iso bout taken send.row := by
  have hSound : Sound iso (bout.clock iso).fold (iso.getTime send.row.occurredAt) :=
    getClockState_sound hIn.notBefore
  simp only [writeStep] at hWrite
  split at hWrite
  · cases hWrite
  · cases hWrite
  · cases hWrite
  rename_i step hNone hDraw hStep
  rw [hStep] at hLevel
  obtain rfl := Except.ok.inj hWrite
  have hFold := clockAfterLevel_eq hLevel hSound
  let paused : ServerBout τ ι :=
    { (if (bout.clock iso).fold.status = .running then
        bout.write (.clock (.press .halt)) send.row.occurredAt none none else bout) with
      status := if bout.status = .running then .paused else bout.status }
  obtain ⟨hClock, hRows⟩ := clock_pausedAt paused hIn.notBefore rfl
  constructor
  · refine (congrArg answerOf (clock_write hRows)).trans ?_
    rw [hClock, afterRow, hTap]
    simp only [answerOf, hFold]
    rfl
  · exact notBefore_write hRows le_rfl

theorem level_agrees {level : LevelPress} {round : ℕ} (hTap : send.row.tap = .level level round)
    (hIn : InPlace iso bout send) (hForeseen : Foreseen iso rules sheets bout send.row)
    (hTake : take iso rules sheets mayPassLock bout send = .ok taken) :
    Agrees iso bout taken send.row := by
  rw [Foreseen, hTap] at hForeseen
  rw [take, hTap] at hTake
  dsimp only at hForeseen hTake
  obtain ⟨hNew, hLevel⟩ := hForeseen
  rw [stepLate] at hTake
  rw [levelIsDone] at hNew
  split at hTake
  · cases hTake
  · rename_i sequence hSaved
    have hSavedRow : savedRoundPress bout.rows send.row.clientUuid (.clock .levelResolution) =
        .ok (some sequence) := hSaved
    rw [hSavedRow] at hNew
    cases hNew
  rename_i hSaved
  have hSavedRow : savedRoundPress bout.rows send.row.clientUuid (.clock .levelResolution) =
      .ok none := hSaved
  rw [hSavedRow] at hNew
  dsimp only at hTake
  split at hTake
  · cases hTake
  split at hTake
  · rename_i hTaken
    exact absurd hTaken (of_decide_eq_false hNew)
  split at hTake
  · cases hTake
  rename_i hNotMore hNotLess
  obtain hSteps : (bout.clock iso).levelResolutionSteps = level.step := by omega
  rw [hIn.age, placedInTimeline_of_notBefore hIn.notBefore, hIn.text] at hTake
  exact writeStep_agrees hTap hIn (hSteps ▸ hLevel) hTake

/-! ## The queue, press after press -/

theorem take_agrees (hIdle : (bout.clock iso).fold.status ≠ .idle) (hIn : InPlace iso bout send)
    (hForeseen : Foreseen iso rules sheets bout send.row)
    (hTake : take iso rules sheets mayPassLock bout send = .ok taken) :
    Agrees iso bout taken send.row := by
  cases hTap : send.row.tap with
  | clock action => exact clock_agrees hTap hIdle hIn hForeseen hTake
  | level level round => exact level_agrees hTap hIn hForeseen hTake
  | round action round =>
    cases action with
    | endRound => exact endRound_agrees hTap hIn hForeseen hTake
    | advance => exact advance_agrees hTap hIdle hIn hForeseen hTake

variable {start finish : ServerBout τ ι} {moves : List (Move (ServerBout τ ι) (Send τ ι))}

/-- The server takes the queue one press after another, and refuses none. -/
abbrev Sent (iso : IsoTime τ) (rules : BoutRules) (sheets : Sheets) (mayPassLock : Bool)
    (start : ServerBout τ ι) (moves : List (Move (ServerBout τ ι) (Send τ ι)))
    (finish : ServerBout τ ι) : Prop :=
  Run (fun bout send taken => take iso rules sheets mayPassLock bout send = .ok taken)
    start moves finish

/-- The times of the queue do not decrease, and none is before the rows the server has. -/
structure Timed (iso : IsoTime τ) (start : ServerBout τ ι)
    (moves : List (Move (ServerBout τ ι) (Send τ ι))) : Prop where
  ages : ∀ move ∈ moves, AtItsAge iso move.event
  order : moves.Pairwise fun a b =>
    iso.getTime a.event.row.occurredAt ≤ iso.getTime b.event.row.occurredAt
  notBefore : ∀ move ∈ moves, NotBefore iso start.rows (iso.getTime move.event.row.occurredAt)

omit [DecidableEq ι] in
theorem Timed.init {move : Move (ServerBout τ ι) (Send τ ι)}
    (h : Timed iso start (moves ++ [move])) : Timed iso start moves where
  ages m hm := h.ages m (List.mem_append_left _ hm)
  order := (List.pairwise_append.mp h.order).1
  notBefore m hm := h.notBefore m (List.mem_append_left _ hm)

theorem foldl_afterRow_of_sent (hSent : Sent iso rules sheets mayPassLock start moves finish)
    (hIdle : (start.clock iso).fold.status ≠ .idle) (hTimed : Timed iso start moves)
    (hForeseen : ∀ move ∈ moves, Foreseen iso rules sheets move.before move.event.row) :
    (moves.map (·.event.row)).foldl (afterRow iso.getTime) (answerOf (start.clock iso)) =
        answerOf (finish.clock iso) ∧
      (finish.clock iso).fold.status ≠ .idle ∧
      ∀ ms, NotBefore iso start.rows ms →
        (∀ move ∈ moves, iso.getTime move.event.row.occurredAt ≤ ms) →
        NotBefore iso finish.rows ms := by
  induction hSent with
  | start => exact ⟨rfl, hIdle, fun _ h _ => h⟩
  | @move moves bout taken send hRun hTake ih =>
    obtain ⟨hFold, hStarted, hRows⟩ := ih hTimed.init fun m hm =>
      hForeseen m (List.mem_append_left _ hm)
    have hLast := List.mem_append_right moves (List.mem_singleton_self ⟨bout, send, taken⟩)
    have hBefore : ∀ m ∈ moves, iso.getTime m.event.row.occurredAt ≤
        iso.getTime send.row.occurredAt := fun m hm =>
      (List.pairwise_append.mp hTimed.order).2.2 m hm _ List.mem_cons_self
    have hIn : InPlace iso bout send :=
      ⟨hTimed.ages _ hLast, hRows _ (hTimed.notBefore _ hLast) hBefore⟩
    have hAgrees := take_agrees hStarted hIn (hForeseen _ hLast) hTake
    refine ⟨?_, ?_, fun ms hStart hMs => ?_⟩
    · rw [List.map_append, List.foldl_append, hFold]
      exact hAgrees.clock.symm
    · have hNotIdle : (afterRow iso.getTime (answerOf (bout.clock iso)) send.row).fold.status ≠
          .idle := afterRow_not_idle hStarted
      rw [← hAgrees.clock] at hNotIdle
      exact hNotIdle
    · exact fun row hRow => (hAgrees.notBefore row hRow).trans (hMs _ hLast)

/-- The pad shows the clock the server has once the queue is sent. -/
theorem padClock_of_sent (hSent : Sent iso rules sheets mayPassLock start moves finish)
    (hIdle : (start.clock iso).fold.status ≠ .idle) (hTimed : Timed iso start moves)
    (hForeseen : ∀ move ∈ moves, Foreseen iso rules sheets move.before move.event.row)
    (sent : List ι) (hUnsent : ∀ move ∈ moves, move.event.row.clientUuid ∉ sent) :
    padClock iso.getTime (some (answerOf (start.clock iso))) (moves.map (·.event.row)) sent =
      some (answerOf (finish.clock iso)) := by
  have hFold := (foldl_afterRow_of_sent hSent hIdle hTimed hForeseen).1
  have hHeld : (moves.map (·.event.row)).filter (fun press => !sent.contains press.clientUuid) =
      moves.map (·.event.row) := by
    rw [List.filter_eq_self]
    intro press hPress
    obtain ⟨move, hMove, rfl⟩ := List.mem_map.mp hPress
    simpa using hUnsent move hMove
  rw [padClock, hHeld, ← hFold]
  split
  · rename_i hNil
    rw [hNil]
    rfl
  · rename_i hCons
    rw [hCons]
    rfl

end Doors

/-! ## Two queues of a best of 3 -/

def msTime : IsoTime ℤ := ⟨id, id, Eq.refl⟩

def bestOfThree : BoutRules := ⟨3, none, []⟩

/-- Red led round 1; nothing was put down in the later rounds. -/
def redLedFirst : Sheets where
  ofRound round := if round = 1 then ⟨3, 1, false, none, false⟩ else ⟨0, 0, false, none, true⟩
  isEmpty := false
  ofRound_empty h := absurd h (by decide)
  endsBout_of_empty round _ := by split <;> rfl
  roundEnds_of_empty round _ := by split <;> rfl

def pressRow (type : ClockAction) (ms : ℤ) (sequence : ℕ) : EventRow ℤ ℕ :=
  ⟨.clock (.press type), ms, sequence, none, none⟩

/-- Round 1 runs, nothing of it is counted yet. -/
def firstRound : ServerBout ℤ ℕ where
  rows := [pressRow .start 0 1]
  status := .running
  locked := false
  currentRound := some 1
  awaitingRoundAdvance := false
  closedRounds := []
  redScore := 3
  blueScore := 1
  backInPlayAt := none
  eventOver := false

def firstEnded : ServerBout ℤ ℕ :=
  { firstRound with
    rows := firstRound.rows ++ [⟨.roundEnd, 60000, 2, none, some 7⟩, pressRow .halt 60000 3]
    status := .paused
    awaitingRoundAdvance := true
    closedRounds := [⟨1, 3, 1, some .red, some .timeLimit⟩] }

def secondOpened : ServerBout ℤ ℕ :=
  { firstEnded with
    rows := firstEnded.rows ++
      [⟨.roundAdvance, 63000, 4, none, some 8⟩, pressRow .resetClock 63000 5]
    currentRound := some 2
    awaitingRoundAdvance := false
    redScore := 0
    blueScore := 0 }

/-- Round 2 was opened on another tablet, and its clock runs since its Resume. -/
def secondRuns : ServerBout ℤ ℕ :=
  { secondOpened with
    rows := [pressRow .start 0 1, pressRow .halt 60000 2,
      ⟨.roundAdvance, 61000, 3, none, some 1⟩, pressRow .resetClock 61000 4,
      pressRow .resume 62000 5]
    status := .running }

/-- Sent the moment it is tapped. -/
def sendAt (clientUuid : ℕ) (ms : ℤ) (tap : Tap) : Send ℤ ℕ := ⟨⟨clientUuid, ms, tap⟩, ms, ms⟩

def endFirst : Send ℤ ℕ := sendAt 7 60000 (.round .endRound 1)

def startSecond : Send ℤ ℕ := sendAt 8 63000 (.round .advance 2)

theorem sendAt_atItsAge (clientUuid : ℕ) (ms : ℤ) (tap : Tap) :
    AtItsAge msTime (sendAt clientUuid ms tap) where
  age := by simp [pressedAtServer, Send.press, sendAt, msTime]
  text := rfl

/-- "End round 1" and "Start round 2" in one queue. -/
theorem padClock_of_sent_nextRound :
    take msTime bestOfThree redLedFirst false firstRound endFirst = .ok firstEnded ∧
      take msTime bestOfThree redLedFirst false firstEnded startSecond = .ok secondOpened ∧
      padClock id (some (answerOf (firstRound.clock msTime))) [endFirst.row, startSecond.row] [] =
        some (answerOf (secondOpened.clock msTime)) := by
  have hEnd : take msTime bestOfThree redLedFirst false firstRound endFirst = .ok firstEnded := by
    rfl
  have hStart : take msTime bestOfThree redLedFirst false firstEnded startSecond =
      .ok secondOpened := by
    rfl
  refine ⟨hEnd, hStart, ?_⟩
  have hSent : Sent msTime bestOfThree redLedFirst false firstRound
      [⟨firstRound, endFirst, firstEnded⟩, ⟨firstEnded, startSecond, secondOpened⟩]
      secondOpened := Run.cons hEnd (Run.cons hStart Run.start)
  refine padClock_of_sent hSent (by decide +kernel) ⟨?_, ?_, ?_⟩ ?_ [] ?_
  · intro move hMove
    simp only [List.mem_cons, List.not_mem_nil, or_false] at hMove
    rcases hMove with rfl | rfl <;> exact sendAt_atItsAge ..
  · simp [msTime, endFirst, startSecond, sendAt]
  · intro move hMove
    simp only [List.mem_cons, List.not_mem_nil, or_false] at hMove
    rcases hMove with rfl | rfl <;>
      simp [NotBefore, firstRound, pressRow, msTime, endFirst, startSecond, sendAt]
  · intro move hMove
    simp only [List.mem_cons, List.not_mem_nil, or_false] at hMove
    rcases hMove with rfl | rfl
    · have hGoesOn : (seriesResult ([] ++ [roundEndedOnTime redLedFirst firstRound]) 3).isOver =
          false := by decide +kernel
      exact hGoesOn
    · have hCounts : countDecides bestOfThree redLedFirst
          { firstEnded with currentRound := some 2 } = false := by decide +kernel
      exact hCounts
  · simp

/-- A "Start round 2" still queued when round 2 runs: the server has it done, the pad folds it. -/
theorem padClock_ne_of_openRound :
    ¬ ∀ (start finish : ServerBout ℤ ℕ) (moves : List (Move (ServerBout ℤ ℕ) (Send ℤ ℕ))),
      Sent msTime bestOfThree redLedFirst false start moves finish →
      (start.clock msTime).fold.status ≠ .idle → Timed msTime start moves →
      (∀ move ∈ moves, ∀ round, move.event.row.tap ≠ .round .endRound round) →
      padClock id (some (answerOf (start.clock msTime))) (moves.map (·.event.row)) [] =
        some (answerOf (finish.clock msTime)) := by
  intro h
  have hStart : take msTime bestOfThree redLedFirst false secondRuns startSecond =
      .ok secondRuns := by
    rfl
  have hTimed : Timed msTime secondRuns [⟨secondRuns, startSecond, secondRuns⟩] := by
    refine ⟨?_, List.pairwise_singleton .., ?_⟩
    · intro move hMove
      obtain rfl := List.mem_singleton.mp hMove
      exact sendAt_atItsAge ..
    · intro move hMove
      obtain rfl := List.mem_singleton.mp hMove
      simp [NotBefore, secondRuns, pressRow, msTime, startSecond, sendAt]
  have hSame := h secondRuns secondRuns _ (Run.cons hStart Run.start) (by decide +kernel) hTimed
    (by simp [startSecond, sendAt])
  revert hSame
  decide +kernel

end MyClash.Pad
