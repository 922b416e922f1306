import MyClash.Timeline.SavedPress
import MyClash.Timeline.Written

/-!
# A saved press, finished

What a press writes from the timeline it found, and what its next send writes from a timeline that
holds it: the same, unless the bout read already as the press leaves it.
-/

namespace MyClash.Timeline.SavedPress

open Clock MatchFormat Scoring CutShort

universe u v w x

variable {τ : Type u} {κ : Type v} {ι : Type w} {ρ : Type x} {iso : IsoTime τ}
  {bout : PressedBout τ κ ι ρ} {action : ClockPress}

/-! ## The clock before the row and the clock behind it -/

theorem le_placedInTimeline (rows : List (EventRow τ κ)) (ms : ℤ) :
    ms ≤ iso.getTime (placedInTimeline iso rows ms) := by
  rw [placedInTimeline, placedAt, iso.getTime_toISOString]
  exact le_max_left _ _

section Row

variable {time : τ} {clientUuid : κ}

/-- The row of a press is the one its timeline ends with. -/
theorem lastTimelineRow_row {act : ClockAction}
    (h : NotBefore iso bout.rows (iso.getTime time)) :
    lastTimelineRow iso (PressWrite.run (.row act time clientUuid) bout).rows =
      some ⟨.clock (.press act), time, nextSequence bout.rows, none, some clientUuid⟩ := by
  have hConcat : inOrder iso (bout.rows ++
      [⟨.clock (.press act), time, nextSequence bout.rows, none, some clientUuid⟩]) =
        inOrder iso bout.rows ++ [_] :=
    inOrder_concat (List.Sublist.refl _) h fun _ hr => sequence_lt_nextSequence hr
  rw [lastTimelineRow]
  exact (congrArg List.getLast? hConcat).trans List.getLast?_concat

theorem clock_row {act : ClockAction} (h : NotBefore iso bout.rows (iso.getTime time)) :
    (PressWrite.run (.row act time clientUuid) bout).clock iso =
      (bout.clock iso).after iso act time :=
  clock_write h

/-- The time a clock had run is what it reads once it is ended. -/
theorem elapsedAt_end (h : NotBefore iso bout.rows (iso.getTime time)) :
    elapsedAt iso ((bout.clock iso).after iso .endBout time).fold time =
        elapsedAt iso (bout.clock iso).fold time ∧
      finalActiveMs iso ((bout.clock iso).after iso .endBout time).fold time =
        finalActiveMs iso (bout.clock iso).fold time := by
  have hSound := getClockState_sound h
  have hClock : getClockState iso bout.rows = bout.clock iso := rfl
  rw [hClock] at hSound
  have hEnded : elapsedAt iso ((bout.clock iso).after iso .endBout time).fold time =
        closed iso.getTime (bout.clock iso).fold time ∧
      finalActiveMs iso ((bout.clock iso).after iso .endBout time).fold time =
        closed iso.getTime (bout.clock iso).fold time := ⟨rfl, rfl⟩
  rw [hEnded.1, hEnded.2, closed, elapsedAt, finalActiveMs]
  cases hFrom : (bout.clock iso).fold.runningFrom with
  | none => simp
  | some since =>
    have hRunning : (bout.clock iso).fold.status = .running :=
      hSound.running_iff.mp (by rw [hFrom]; rfl)
    have hLe : iso.getTime since ≤ iso.getTime time := hSound.since_le since hFrom
    rw [hRunning]
    dsimp only
    exact ⟨by rw [max_eq_right (sub_nonneg.mpr hLe)], rfl⟩

end Row

section Send

variable [DecidableEq κ] [DecidableEq ρ] [DecidableEq ι] {rules : BoutRules}
  {mayPassLock sheetEnds : Bool} {press resent : QueuedPress κ ρ} {nowMs : ℤ}

/-! ## The first send -/

/-- A press the bout takes: it was judged, and its two writes are these. -/
structure Taken (iso : IsoTime τ) (rules : BoutRules) (bout : PressedBout τ κ ι ρ)
    (action : ClockPress) (press : QueuedPress κ ρ) (time : τ) (write : PressWrite τ κ ι ρ) :
    Prop where
  notOver : bout.eventOver = false
  inTime : ∀ mark ∈ bout.backInPlayAt, mark < iso.getTime time
  notBefore : NotBefore iso bout.rows (iso.getTime time)
  inPlay : action ≠ .endBout → bout.completed = false ∧ write = putInPlay bout action press time
  ended : action = .endBout → ∃ result,
    timeLimitResult rules bout (bout.clock iso).levelResolutionSteps
        (elapsedAt iso (bout.clock iso).fold time) = .ok result ∧
      write = completeOnEnd iso bout (bout.clock iso).fold result time

/-- The time a send is placed at. -/
def pressTime (iso : IsoTime τ) (bout : PressedBout τ κ ι ρ) (press : QueuedPress κ ρ)
    (nowMs : ℤ) : τ :=
  placedInTimeline iso bout.rows (pressedAtServer press.toLatePress nowMs)

omit [DecidableEq κ] in
theorem record_writes {time : τ}
    (hWrites : (record iso rules sheetEnds bout action press time).writes ≠ []) :
    ∃ write, record iso rules sheetEnds bout action press time =
        .write [.row action.action time press.clientUuid, write] ∧
      (action ≠ .endBout → write = putInPlay bout action press time) ∧
      (action = .endBout → ∃ result,
        timeLimitResult rules bout (bout.clock iso).levelResolutionSteps
            (elapsedAt iso (bout.clock iso).fold time) = .ok result ∧
          write = completeOnEnd iso bout (bout.clock iso).fold result time) := by
  rw [record] at hWrites ⊢
  by_cases hEnd : action = .endBout
  · rw [if_neg (not_not.mpr hEnd)] at hWrites ⊢
    by_cases hSheet : sheetEnds = true
    · rw [if_pos hSheet] at hWrites
      exact absurd rfl hWrites
    · rw [if_neg hSheet] at hWrites ⊢
      cases hResult : timeLimitResult rules bout (bout.clock iso).levelResolutionSteps
          (elapsedAt iso (bout.clock iso).fold time) with
      | error refusal =>
        rw [hResult] at hWrites
        exact absurd rfl hWrites
      | ok result =>
        subst hEnd
        exact ⟨_, rfl, fun hNot => absurd rfl hNot, fun _ => ⟨result, rfl, rfl⟩⟩
  · rw [if_pos hEnd]
    exact ⟨_, rfl, fun _ => rfl, fun hContra => absurd hContra hEnd⟩

theorem taken_of_writes (hFresh : pressIsSaved bout.rows press.clientUuid = false)
    (hWrites : (takePress iso rules mayPassLock sheetEnds bout action press nowMs).writes ≠ []) :
    ∃ write, Taken iso rules bout action press (pressTime iso bout press nowMs) write ∧
      takePress iso rules mayPassLock sheetEnds bout action press nowMs =
        .write [.row action.action (pressTime iso bout press nowMs) press.clientUuid, write] := by
  rw [takePress, if_neg (by rw [hFresh]; exact Bool.false_ne_true)] at hWrites ⊢
  by_cases hOver : bout.eventOver = true
  · rw [if_pos hOver] at hWrites
    exact absurd rfl hWrites
  · by_cases hTrue : pressAlreadyTrue action (bout.clock iso).fold.status = true
    · rw [if_neg hOver, if_pos hTrue] at hWrites
      exact absurd rfl hWrites
    · rw [if_neg hOver, if_neg hTrue] at hWrites ⊢
      cases hPlace : placeLatePress iso mayPassLock bout.toServerBout action
          (pressedAtServer press.toLatePress nowMs) nowMs with
      | some refusal =>
        rw [hPlace] at hWrites
        exact absurd rfl hWrites
      | none =>
        rw [hPlace] at hWrites
        obtain ⟨write, hRecord, hInPlay, hEnded⟩ := record_writes hWrites
        have hRules := firstRefusal_eq_none_iff.mp hPlace
        refine ⟨write, ⟨Bool.not_eq_true _ ▸ hOver, fun mark hMark => ?_,
          notBefore_placedInTimeline _ _, fun hNot => ⟨?_, hInPlay hNot⟩, hEnded⟩, hRecord⟩
        · have hBefore := hRules (beforeBackInPlay bout.toServerBout
            (pressedAtServer press.toLatePress nowMs), .pressedBeforeReopen) (by simp)
          rw [beforeBackInPlay, Option.any_eq_false] at hBefore
          have hLt := hBefore mark hMark
          rw [decide_eq_false_iff_not, not_le] at hLt
          exact lt_of_lt_of_le hLt (le_placedInTimeline _ _)
        · have hCompleted := hRules (bout.completed && action ≠ .endBout, .boutCompleted) (by simp)
          simpa [hNot] using hCompleted

/-! ## The send of a press that is saved -/

variable {time : τ} {write : PressWrite τ κ ι ρ}

/-- The bout reads as the press leaves it, as far as its status says. -/
def readsDone (bout : PressedBout τ κ ι ρ) (action : ClockPress) : Bool :=
  bout.status = .voided || bout.status = statusAfter bout.status action.action

/-- The same press, sent another time. -/
structure SamePress (press resent : QueuedPress κ ρ) : Prop where
  clientUuid : resent.clientUuid = press.clientUuid
  startedUnder : resent.startedUnder = press.startedUnder
  pressedWithoutNetwork : resent.pressedWithoutNetwork = press.pressedWithoutNetwork

omit [DecidableEq κ] [DecidableEq ι] in
theorem putInPlay_row (hSame : SamePress press resent) {act : ClockAction} {id : κ} :
    putInPlay (PressWrite.run (.row act time id) bout) action resent time =
      putInPlay bout action press time := by
  have hCopy : startCopyOf (PressWrite.run (.row act time id) bout) resent =
      startCopyOf bout press := by
    rw [startCopyOf, startCopyOf, hSame.startedUnder, hSame.pressedWithoutNetwork]
    rfl
  cases action with
  | start => rw [putInPlay, putInPlay, hCopy]
  | halt => rfl
  | resume => rfl
  | endBout => rfl

omit [DecidableEq ρ] [DecidableEq ι] in
theorem pressIsSaved_row {act : ClockAction} :
    pressIsSaved (PressWrite.run (.row act time press.clientUuid) bout).rows press.clientUuid =
      true := by
  simp [PressWrite.run, ServerBout.write, pressIsSaved]

/-- The bout's write that was lost is made again, unless the bout reads done. -/
theorem finishSavedPress_row (h : Taken iso rules bout action press time write)
    (hSame : SamePress press resent) :
    finishSavedPress iso rules
        (PressWrite.run (.row action.action time press.clientUuid) bout) action resent =
      if readsDone bout action then .nothing else .write [write] := by
  have hClock : (PressWrite.run (.row action.action time press.clientUuid) bout).clock iso =
      (bout.clock iso).after iso action.action time := clock_row h.notBefore
  have hUuid : (some press.clientUuid ≠ some resent.clientUuid) = False := by
    rw [hSame.clientUuid]
    exact eq_false (not_not.mpr rfl)
  rw [finishSavedPress, lastTimelineRow_row h.notBefore]
  simp only [hUuid, if_false]
  by_cases hVoided : bout.status = .voided
  · have hDone : readsDone bout action = true := by
      rw [readsDone, hVoided]
      rfl
    rw [if_pos hDone, if_pos fun hSpeaks => hSpeaks.1 hVoided]
  · rw [if_neg (not_not.mpr ⟨hVoided, h.notOver, h.inTime⟩)]
    by_cases hEnd : action = .endBout
    · subst hEnd
      obtain ⟨result, hResult, hWrite⟩ := h.ended rfl
      have hDone : readsDone bout .endBout = bout.completed := by
        rw [readsDone, ServerBout.completed, decide_eq_false hVoided, Bool.false_or]
        rfl
      have hCompleted : (PressWrite.run (.row (ClockPress.endBout).action time press.clientUuid)
          bout).completed = bout.completed := rfl
      obtain ⟨hElapsed, hFinal⟩ := elapsedAt_end h.notBefore
      rw [if_pos rfl, hDone, hCompleted]
      by_cases hPlayed : bout.completed = true
      · rw [if_pos hPlayed, if_pos hPlayed]
      · have hAgain : timeLimitResult rules
            (PressWrite.run (.row (ClockPress.endBout).action time press.clientUuid) bout)
            (bout.clock iso).levelResolutionSteps (elapsedAt iso (bout.clock iso).fold time) =
              .ok result := hResult
        have hElapsed : elapsedAt iso ((bout.clock iso).after iso (ClockPress.endBout).action
          time).fold time = _ := hElapsed
        have hSteps : ((bout.clock iso).after iso (ClockPress.endBout).action
          time).levelResolutionSteps = (bout.clock iso).levelResolutionSteps := rfl
        rw [if_neg hPlayed, if_neg hPlayed, hClock, hElapsed, hSteps, hAgain, hWrite]
        dsimp only
        rw [completeOnEnd, completeOnEnd, ← hFinal]
        rfl
    · obtain ⟨hPlay, hWrite⟩ := h.inPlay hEnd
      have hDone : readsDone bout action =
          decide (bout.status = statusAfter bout.status action.action) := by
        rw [readsDone, decide_eq_false hVoided, Bool.false_or]
      rw [if_neg hEnd, putInPlay_row hSame, ← hWrite, hDone]
      by_cases hStatus : bout.status = statusAfter bout.status action.action
      · exact (if_pos hStatus).trans (if_pos (decide_eq_true hStatus)).symm
      · have hNot : ¬decide (bout.status = statusAfter bout.status action.action) = true := by
          simpa using hStatus
        exact (if_neg hStatus).trans (if_neg hNot).symm

/-! ## Sent again, and once more -/

/-- The write of a press finds nothing lost: what it would write is there, or the bout does not read
as the press leaves it. -/
structure Finishes (iso : IsoTime τ) (bout : PressedBout τ κ ι ρ) (action : ClockPress)
    (press : QueuedPress κ ρ) (time : τ) : Prop where
  notVoided : bout.status ≠ .voided
  started : action = .start → bout.status = .running →
    bout.startedAt = some time ∧ ∀ copy ∈ startCopyOf bout press, copy = bout.matchRulesId
  ended : action = .endBout → bout.status = .completed →
    bout.endedAt = some time ∧
      bout.durationActiveMs = some (finalActiveMs iso (bout.clock iso).fold time) ∧
        ∀ started ∈ bout.startedAt,
          bout.durationTotalMs = some (iso.getTime time - iso.getTime started)

omit [DecidableEq κ] [DecidableEq ρ] [DecidableEq ι] in
theorem run_inPlay {status : MatchStatus} {startedAt : Option τ} {copy : Option ρ}
    (hPlay : bout.completed = false) :
    PressWrite.run (.inPlay status startedAt copy) bout =
      { bout with
        status := status
        startedAt := startedAt.or bout.startedAt
        matchRulesId := copy.getD bout.matchRulesId } := by
  rw [PressWrite.run, hPlay]
  rfl

omit [DecidableEq κ] [DecidableEq ρ] [DecidableEq ι] in
/-- A bout put in play is as it was iff it read so. -/
theorem run_inPlay_iff {status : MatchStatus} {startedAt : Option τ} {copy : Option ρ}
    (hPlay : bout.completed = false) :
    PressWrite.run (.inPlay status startedAt copy) bout = bout ↔
      bout.status = status ∧ (∀ time ∈ startedAt, bout.startedAt = some time) ∧
        ∀ rulesId ∈ copy, rulesId = bout.matchRulesId := by
  rw [run_inPlay hPlay]
  constructor
  · intro hEq
    refine ⟨(congrArg (·.status) hEq).symm, fun time hTime => ?_, fun rulesId hCopy => ?_⟩
    · have hStarted := congrArg (·.startedAt) hEq
      rw [Option.mem_def.mp hTime] at hStarted
      exact hStarted.symm
    · have hRules := congrArg (·.matchRulesId) hEq
      rw [Option.mem_def.mp hCopy] at hRules
      exact hRules
  · rintro ⟨rfl, hStarted, hRules⟩
    have hStartedAt : startedAt.or bout.startedAt = bout.startedAt := by
      cases startedAt with
      | none => rfl
      | some time => exact (hStarted time rfl).symm
    have hRulesId : copy.getD bout.matchRulesId = bout.matchRulesId := by
      cases copy with
      | none => rfl
      | some rulesId => exact hRules rulesId rfl
    rw [hStartedAt, hRulesId]

omit [DecidableEq κ] [DecidableEq ρ] [DecidableEq ι] in
/-- An End that names nobody leaves a completed bout as it was iff it read so. -/
theorem run_completed_iff {activeMs : ℤ} {totalMs : Option ℤ} :
    PressWrite.run (.completed time activeMs totalMs none) bout = bout ↔
      bout.status = .completed ∧ bout.endedAt = some time ∧
        bout.durationActiveMs = some activeMs ∧
          ∀ ms ∈ totalMs, bout.durationTotalMs = some ms := by
  rw [PressWrite.run]
  constructor
  · intro hEq
    refine ⟨(congrArg (·.status) hEq).symm, (congrArg (·.endedAt) hEq).symm,
      (congrArg (·.durationActiveMs) hEq).symm, fun ms hMs => ?_⟩
    have hTotal := congrArg (·.durationTotalMs) hEq
    rw [Option.mem_def.mp hMs] at hTotal
    exact hTotal.symm
  · rintro ⟨hStatus, hEnded, hActive, hTotal⟩
    have hTotalMs : totalMs.or bout.durationTotalMs = bout.durationTotalMs := by
      cases totalMs with
      | none => rfl
      | some ms => exact (hTotal ms rfl).symm
    rw [hTotalMs, ← hStatus, ← hEnded, ← hActive]
    rfl

omit [DecidableEq κ] [DecidableEq ρ] [DecidableEq ι] in
theorem statusAfter_ne_voided (status : MatchStatus) (action : ClockPress) :
    statusAfter status action.action ≠ .voided := by
  cases action <;> exact MatchStatus.noConfusion

omit [DecidableEq κ] in
theorem status_write (h : Taken iso rules bout action press time write) :
    (write.run (PressWrite.run (.row action.action time press.clientUuid) bout)).status =
      statusAfter bout.status action.action := by
  by_cases hEnd : action = .endBout
  · obtain ⟨result, -, rfl⟩ := h.ended hEnd
    subst hEnd
    rfl
  · obtain ⟨hPlay, rfl⟩ := h.inPlay hEnd
    have hRow : (PressWrite.run (.row action.action time press.clientUuid) bout).completed =
      false := hPlay
    cases action with
    | start => rw [putInPlay, run_inPlay hRow]; rfl
    | halt => rw [putInPlay, run_inPlay hRow]; rfl
    | resume => rw [putInPlay, run_inPlay hRow]; rfl
    | endBout => exact absurd rfl hEnd

omit [DecidableEq κ] in
/-- What a bout that reads done misses is nothing iff the columns of the press are there. -/
theorem run_write_iff (h : Taken iso rules bout action press time write)
    (hDone : readsDone bout action = true) :
    write.run (PressWrite.run (.row action.action time press.clientUuid) bout) =
        PressWrite.run (.row action.action time press.clientUuid) bout ↔
      Finishes iso bout action press time := by
  rw [readsDone, Bool.or_eq_true, decide_eq_true_eq, decide_eq_true_eq] at hDone
  by_cases hVoided : bout.status = .voided
  · refine iff_of_false (fun hEq => ?_) fun hFinishes => hFinishes.notVoided hVoided
    have hStatus : statusAfter bout.status action.action = bout.status :=
      (status_write h).symm.trans (congrArg (·.status) hEq)
    exact statusAfter_ne_voided _ _ (hStatus.trans hVoided)
  · have hStatus := hDone.resolve_left hVoided
    by_cases hEnd : action = .endBout
    · obtain ⟨result, hResult, rfl⟩ := h.ended hEnd
      subst hEnd
      have hCompleted : bout.completed = true := decide_eq_true hStatus
      obtain rfl : result = none := by
        rw [timeLimitResult, hCompleted, if_pos rfl, ite_self] at hResult
        exact (Except.ok.inj hResult).symm
      refine run_completed_iff.trans ⟨?_, fun hFinishes => ?_⟩
      · rintro ⟨-, hEnded, hActive, hTotal⟩
        refine ⟨hVoided, nofun, fun _ _ => ⟨hEnded, hActive, fun started hStarted => ?_⟩⟩
        exact hTotal _ (Option.mem_map_of_mem _ hStarted)
      · obtain ⟨hEnded, hActive, hTotal⟩ := hFinishes.ended rfl hStatus
        refine ⟨hStatus, hEnded, hActive, fun ms hMs => ?_⟩
        obtain ⟨started, hStarted, rfl⟩ := Option.mem_map.mp hMs
        exact hTotal started hStarted
    · obtain ⟨hPlay, rfl⟩ := h.inPlay hEnd
      have hRow : (PressWrite.run (.row action.action time press.clientUuid) bout).completed =
        false := hPlay
      cases action with
      | start =>
        refine (run_inPlay_iff hRow).trans ⟨?_, fun hFinishes => ?_⟩
        · rintro ⟨-, hStarted, hCopy⟩
          exact ⟨hVoided, fun _ _ => ⟨hStarted time rfl, hCopy⟩, nofun⟩
        · obtain ⟨hStarted, hCopy⟩ := hFinishes.started rfl hStatus
          refine ⟨hStatus, fun t hTime => ?_, hCopy⟩
          rw [← Option.some.inj hTime]
          exact hStarted
      | halt =>
        exact (run_inPlay_iff hRow).trans
          ⟨fun _ => ⟨hVoided, nofun, nofun⟩, fun _ => ⟨hStatus, nofun, nofun⟩⟩
      | resume =>
        exact (run_inPlay_iff hRow).trans
          ⟨fun _ => ⟨hVoided, nofun, nofun⟩, fun _ => ⟨hStatus, nofun, nofun⟩⟩
      | endBout => exact absurd rfl hEnd

omit [DecidableEq κ] [DecidableEq ι] in
theorem finishes_of_not_readsDone (hDone : readsDone bout action = false) :
    Finishes iso bout action press time := by
  rw [readsDone, Bool.or_eq_false_iff, decide_eq_false_iff_not, decide_eq_false_iff_not] at hDone
  obtain ⟨hVoided, hStatus⟩ := hDone
  refine ⟨hVoided, ?_, ?_⟩
  · rintro rfl hRunning
    exact absurd hRunning hStatus
  · rintro rfl hCompleted
    exact absurd hCompleted hStatus

variable {again : QueuedPress κ ρ} {mayPassLock' sheetEnds' : Bool} {nowMs' nowMs'' : ℤ}

omit [DecidableEq κ] in
theorem rows_write (h : Taken iso rules bout action press time write)
    (s : PressedBout τ κ ι ρ) : (write.run s).rows = s.rows := by
  have hInPlay : ∀ status startedAt (copy : Option ρ),
      (PressWrite.run (.inPlay status startedAt copy) s).rows = s.rows := by
    intro status startedAt copy
    rw [PressWrite.run]
    split_ifs <;> rfl
  by_cases hEnd : action = .endBout
  · obtain ⟨result, -, rfl⟩ := h.ended hEnd
    rfl
  · obtain ⟨-, rfl⟩ := h.inPlay hEnd
    cases action with
    | start => exact hInPlay _ _ _
    | halt => exact hInPlay _ _ _
    | resume => exact hInPlay _ _ _
    | endBout => exact absurd rfl hEnd

/-- Sent to the bout as the press leaves it, a press writes nothing. -/
theorem takePress_done (h : Taken iso rules bout action press time write)
    (hSame : again.clientUuid = press.clientUuid) {whole : PressedBout τ κ ι ρ}
    (hWhole : whole = write.run (PressWrite.run (.row action.action time press.clientUuid) bout)) :
    (takePress iso rules mayPassLock sheetEnds whole action again nowMs).done PressWrite.run whole =
      whole := by
  have hRows : whole.rows =
      (PressWrite.run (.row action.action time press.clientUuid) bout).rows := by
    rw [hWhole, rows_write h]
  have hSaved : pressIsSaved whole.rows again.clientUuid = true := by
    rw [hRows, hSame, pressIsSaved_row]
  have hStatus : whole.status = statusAfter bout.status action.action := by
    rw [hWhole, status_write h]
  have hNothing : finishSavedPress iso rules whole action again = .nothing := by
    rw [finishSavedPress, hRows, lastTimelineRow_row h.notBefore]
    dsimp only
    split_ifs with hUuid hSpeaks hEnd hCompleted hDone
    · rfl
    · rfl
    · subst hEnd
      exact absurd (decide_eq_true hStatus) hCompleted
    · rfl
    · refine absurd ?_ hDone
      rw [hStatus]
      cases action <;> rfl
    · rfl
  rw [takePress, if_pos hSaved, hNothing]
  rfl

/-- For every late press whose row was saved and whose bout write was lost: sent again it leaves
what one send leaves, and sent once more it changes nothing, iff its bout did not read done, or
held the columns of the press. -/
theorem savedPress_iff (hFresh : pressIsSaved bout.rows press.clientUuid = false)
    (hTaken : (takePress iso rules mayPassLock sheetEnds bout action press nowMs).writes ≠ [])
    (hResent : SamePress press resent) (hAgain : SamePress press again)
    {whole cut finished : PressedBout τ κ ι ρ}
    (hWhole : whole = (takePress iso rules mayPassLock sheetEnds bout action press nowMs).done
      PressWrite.run bout)
    (hCut : cut = (takePress iso rules mayPassLock sheetEnds bout action press nowMs).cut
      PressWrite.run 1 bout)
    (hFinished : finished = (takePress iso rules mayPassLock' sheetEnds' cut action resent
      nowMs').done PressWrite.run cut) :
    (finished = whole ∧
        (takePress iso rules mayPassLock' sheetEnds' finished action again nowMs'').done
          PressWrite.run finished = finished) ↔
      Finishes iso bout action press (pressTime iso bout press nowMs) := by
  obtain ⟨write, h, hWrites⟩ := taken_of_writes hFresh hTaken
  have hWhole : whole = write.run (PressWrite.run (.row action.action
      (pressTime iso bout press nowMs) press.clientUuid) bout) := by
    rw [hWhole, hWrites]
    rfl
  have hCut : cut = PressWrite.run (.row action.action (pressTime iso bout press nowMs)
      press.clientUuid) bout := by
    rw [hCut, hWrites]
    rfl
  have hSaved : pressIsSaved cut.rows resent.clientUuid = true := by
    rw [hCut, hResent.clientUuid, pressIsSaved_row]
  have hFinished : finished = (if readsDone bout action then Sent.nothing
      else Sent.write [write] : Sent (PressWrite τ κ ι ρ) Refusal).done PressWrite.run cut := by
    rw [hFinished, takePress, if_pos hSaved, hCut, finishSavedPress_row h hResent]
  cases hDone : readsDone bout action with
  | true =>
    have hLeft : finished = cut := by
      rw [hFinished, hDone]
      rfl
    rw [hLeft]
    constructor
    · rintro ⟨hEq, -⟩
      refine (run_write_iff h hDone).mp ?_
      rw [← hWhole, ← hCut, hEq]
    · intro hFinishes
      have hEq : cut = whole := by
        rw [hWhole, hCut, (run_write_iff h hDone).mpr hFinishes]
      exact ⟨hEq, takePress_done h hAgain.clientUuid (hEq.trans hWhole)⟩
  | false =>
    have hEq : finished = whole := by
      rw [hFinished, hDone, hWhole, hCut]
      rfl
    refine iff_of_true ⟨hEq, ?_⟩ (finishes_of_not_readsDone hDone)
    exact takePress_done h hAgain.clientUuid (hEq.trans hWhole)

end Send

/-! ## An End whose write of the bout is lost -/

def timedFight : BoutRules := ⟨1, some 90, [.draw]⟩

/-- Red leads, ten seconds after the Start. -/
def runningFight (status : MatchStatus) : PressedBout ℤ ℕ ℕ ℕ where
  rows := [⟨.clock (.press .start), 0, 1, none, some 1⟩]
  status := status
  locked := false
  currentRound := some 1
  awaitingRoundAdvance := false
  closedRounds := []
  redScore := 2
  blueScore := 1
  backInPlayAt := none
  eventOver := false
  startedAt := some 0
  endedAt := none
  durationActiveMs := none
  durationTotalMs := none
  winnerRegistrationId := none
  endReason := none
  redRegistrationId := some 11
  blueRegistrationId := some 12
  matchRulesId := 5
  earlierRulesIds := []

def queuedEnd (sentMs : ℤ) : QueuedPress ℕ ℕ := ⟨⟨2, 10000, sentMs⟩, none, false⟩

/-- The End of a bout that a forfeit has completed stops its clock; sent again, it leaves the bout
with no time of its end and no duration. -/
theorem not_finished_completedFight :
    pressIsSaved (runningFight .completed).rows 2 = false ∧
      (takePress msTime timedFight false false (runningFight .completed) .endBout
        (queuedEnd 10000) 10000).writes ≠ [] ∧
      (takePress msTime timedFight false false
        ((takePress msTime timedFight false false (runningFight .completed) .endBout
          (queuedEnd 10000) 10000).cut PressWrite.run 1 (runningFight .completed)) .endBout
        (queuedEnd 15000) 15000).done PressWrite.run
        ((takePress msTime timedFight false false (runningFight .completed) .endBout
          (queuedEnd 10000) 10000).cut PressWrite.run 1 (runningFight .completed)) ≠
      (takePress msTime timedFight false false (runningFight .completed) .endBout
        (queuedEnd 10000) 10000).done PressWrite.run (runningFight .completed) := by
  refine ⟨by decide, ?_, ?_⟩
  · decide +kernel
  · decide +kernel

/-- The End of a bout in play names its leader, also when it is sent again. -/
theorem savedPress_runningFight :
    ∃ finished, finished = (takePress msTime timedFight false false
        ((takePress msTime timedFight false false (runningFight .running) .endBout
          (queuedEnd 10000) 10000).cut PressWrite.run 1 (runningFight .running)) .endBout
        (queuedEnd 15000) 15000).done PressWrite.run
        ((takePress msTime timedFight false false (runningFight .running) .endBout
          (queuedEnd 10000) 10000).cut PressWrite.run 1 (runningFight .running)) ∧
      finished.winnerRegistrationId = some 11 ∧ finished.durationActiveMs = some 10000 ∧
      finished = (takePress msTime timedFight false false (runningFight .running) .endBout
        (queuedEnd 10000) 10000).done PressWrite.run (runningFight .running) ∧
      (takePress msTime timedFight false false finished .endBout (queuedEnd 16000) 16000).done
        PressWrite.run finished = finished := by
  have hSame : ∀ sentMs, SamePress (queuedEnd 10000) (queuedEnd sentMs) := fun _ => ⟨rfl, rfl, rfl⟩
  have hTaken : (takePress msTime timedFight false false (runningFight .running) .endBout
      (queuedEnd 10000) 10000).writes ≠ [] := by decide +kernel
  have hFresh : pressIsSaved (runningFight .running).rows (queuedEnd 10000).clientUuid = false := by
    decide
  obtain ⟨finished, hFinished⟩ : ∃ finished, finished =
      (takePress msTime timedFight false false
        ((takePress msTime timedFight false false (runningFight .running) .endBout
          (queuedEnd 10000) 10000).cut PressWrite.run 1 (runningFight .running)) .endBout
        (queuedEnd 15000) 15000).done PressWrite.run
        ((takePress msTime timedFight false false (runningFight .running) .endBout
          (queuedEnd 10000) 10000).cut PressWrite.run 1 (runningFight .running)) := ⟨_, rfl⟩
  refine ⟨finished, hFinished, ?_, ?_, (savedPress_iff hFresh hTaken (hSame 15000) (hSame 16000)
    rfl rfl hFinished).mpr ⟨?_, nofun, ?_⟩⟩
  · rw [hFinished]
    decide +kernel
  · rw [hFinished]
    decide +kernel
  · exact MatchStatus.noConfusion
  · exact fun _ hContra => MatchStatus.noConfusion hContra

end MyClash.Timeline.SavedPress
