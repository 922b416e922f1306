import MyClash.Library.Run
import MyClash.Timeline.PressRace

/-!
# Racing presses: what a run writes

A send holds the sequence it read until it writes its row. While it holds one, either another row
has taken it, and the insert fails, or no row was written since, and what was read still stands. A
row taken back breaks this where it frees a sequence that another send holds.
-/

namespace MyClash.Timeline.PressRace

open Clock MatchFormat Scoring CutShort SavedPress Runs

universe u v w x y

section Rows

variable {τ : Type u} {κ : Type v}

/-- One row a press, and times that do not go down in the order of the sequences. -/
structure Laid (iso : IsoTime τ) (rows : List (EventRow τ κ)) : Prop where
  once : (rows.filterMap (·.clientUuid)).Nodup
  ascending : rows.Pairwise fun a b =>
    a.sequence < b.sequence ∧ iso.getTime a.occurredAt ≤ iso.getTime b.occurredAt

def SequenceTaken (rows : List (EventRow τ κ)) (sequence : ℕ) : Prop :=
  ∃ row ∈ rows, row.sequence = sequence

/-- What one move does to the rows of the bout, which frees a sequence where it takes one back. -/
inductive RowsMove (iso : IsoTime τ) (rows : List (EventRow τ κ)) :
    Option ℕ → List (EventRow τ κ) → Prop
  | kept : RowsMove iso rows none rows
  | wrote (action : ClockAction) (time : τ) (clientUuid : κ)
      (hFresh : ∀ row ∈ rows, row.clientUuid ≠ some clientUuid)
      (hAllowed : action ∈ CLOCK_ACTIONS_FROM (getClockState iso rows).fold.status)
      (hTime : NotBefore iso rows (iso.getTime time)) :
      RowsMove iso rows none
        (rows ++ [⟨.clock (.press action), time, nextSequence rows, none, some clientUuid⟩])
  | tookBack (freed : ℕ) :
      RowsMove iso rows (some freed) (rows.filter fun row => row.sequence ≠ freed)

variable {iso : IsoTime τ} {rows rows' : List (EventRow τ κ)} {freed : Option ℕ}

theorem Laid.sublist (h : Laid iso rows) (hSublist : rows'.Sublist rows) : Laid iso rows' :=
  ⟨h.once.sublist (hSublist.filterMap _), h.ascending.sublist hSublist⟩

theorem Laid.move (h : Laid iso rows) (hMove : RowsMove iso rows freed rows') :
    Laid iso rows' := by
  cases hMove with
  | kept => exact h
  | wrote action time clientUuid hFresh hAllowed hTime =>
    constructor
    · rw [List.filterMap_append]
      refine List.nodup_append'.mpr
        ⟨h.once, List.nodup_singleton _, List.disjoint_singleton.mpr fun hMem => ?_⟩
      obtain ⟨row, hRow, hUuid⟩ := List.mem_filterMap.mp hMem
      exact hFresh row hRow hUuid
    · refine List.pairwise_append.mpr ⟨h.ascending, List.pairwise_singleton _ _, ?_⟩
      intro row hRow last hLast
      rw [List.mem_singleton.mp hLast]
      exact ⟨sequence_lt_nextSequence hRow, hTime row hRow⟩
  | tookBack => exact h.sublist List.filter_sublist

end Rows

section Sends

variable {τ : Type u} {κ : Type v} {ι : Type w} {ρ : Type x} {υ : Type y}

/-- The sequence whose row a send takes back. -/
def Phase.frees? : Phase τ κ ι ρ → Option ℕ
  | .takesBackRow sequence _ => some sequence
  | _ => none

/-- What a send has read is what the rows still say. -/
def Phase.Current (iso : IsoTime τ) (send : Send κ ρ) (rows : List (EventRow τ κ)) :
    Phase τ κ ι ρ → Prop
  | .readsBout _ sequence | .readsClock _ sequence _ => sequence = nextSequence rows
  | .readsReset _ sequence _ clock => sequence = nextSequence rows ∧ clock = getClockState iso rows
  | .readsLastRow _ sequence _ _ _ =>
    sequence = nextSequence rows ∧
      send.action.action ∈ CLOCK_ACTIONS_FROM (getClockState iso rows).fold.status
  | .insertsRow _ sequence judged =>
    sequence = nextSequence rows ∧
      send.action.action ∈ CLOCK_ACTIONS_FROM (getClockState iso rows).fold.status ∧
      NotBefore iso rows (iso.getTime judged.time)
  | _ => True

/-- The sequence a send holds is another row's by now, or its reads still stand. -/
def Judges (iso : IsoTime τ) (send : Send κ ρ) (rows : List (EventRow τ κ))
    (phase : Phase τ κ ι ρ) : Prop :=
  ∀ sequence ∈ phase.sequence?, SequenceTaken rows sequence ∨ phase.Current iso send rows

/-- Has the send written nothing, neither a row nor the bout? -/
def Phase.OnlyRead : Phase τ κ ι ρ → Prop
  | .writesBout _ _ | .readsLoss _ _ | .takesBackRow _ _ => False
  | .answered answer => answer = .alreadyTrue
  | _ => True

/-- A send that has written no row so far, or was answered as saved. -/
def Phase.NoRow (phase : Phase τ κ ι ρ) : Prop := phase.OnlyRead ∨ phase = .answered .saved

end Sends

section Step

variable {τ : Type u} {κ : Type v} {ι : Type w} {ρ : Type x} [DecidableEq κ] [DecidableEq ρ]
  [DecidableEq ι] {iso : IsoTime τ} {rules : BoutRules} {send : Send κ ρ}
  {bout bout' : PressedBout τ κ ι ρ} {phase phase' : Phase τ κ ι ρ} {nowMs : ℤ} {sheetEnds : Bool}

omit [DecidableEq κ] [DecidableEq ι] in
theorem rows_inPlay (bout read : PressedBout τ κ ι ρ) (action : ClockPress)
    (press : QueuedPress κ ρ) (time : τ) :
    ((putInPlay read action press time).run bout).rows = bout.rows := by
  cases action <;> (dsimp only [putInPlay, PressWrite.run]; split <;> rfl)

theorem rows_finishSavedPress (bout : PressedBout τ κ ι ρ) (action : ClockPress)
    (press : QueuedPress κ ρ) :
    ((SavedPress.finishSavedPress iso rules bout action press).done PressWrite.run bout).rows =
      bout.rows := by
  rw [SavedPress.finishSavedPress]
  split
  · rfl
  · dsimp only
    split_ifs
    · rfl
    · rfl
    · split <;> rfl
    · rfl
    · exact rows_inPlay ..
    · rfl

omit [DecidableEq κ] [DecidableEq ρ] [DecidableEq ι] in
theorem allowed_of_placeLatePress {read : PressedBout τ κ ι ρ} {clock : ServerClock τ}
    {pressedMs : ℤ} {rows : List (EventRow τ κ)}
    (h : placeLatePress iso send rows read clock pressedMs nowMs = none) :
    send.action.action ∈ CLOCK_ACTIONS_FROM clock.fold.status := by
  have hNone := List.find?_eq_none.mp (Option.map_eq_none_iff.mp h)
    (!(CLOCK_ACTIONS_FROM clock.fold.status).contains send.action.action, .pressOutOfOrder)
    (by simp)
  simpa using hNone

omit [DecidableEq ρ] [DecidableEq ι] in
theorem insertRow_eq_some {sequence : ℕ} {action : ClockAction} {time : τ} {clientUuid : κ}
    (h : insertRow bout sequence action time clientUuid = some bout') :
    ¬SequenceTaken bout.rows sequence ∧ (∀ row ∈ bout.rows, row.clientUuid ≠ some clientUuid) ∧
      bout'.rows =
        bout.rows ++ [⟨.clock (.press action), time, sequence, none, some clientUuid⟩] := by
  rw [insertRow] at h
  split at h
  · cases h
  · rename_i hFree
    rw [Bool.or_eq_true, not_or, pressIsSaved] at hFree
    obtain ⟨hSequence, hSaved⟩ := hFree
    refine ⟨?_, ?_, ?_⟩
    · rintro ⟨row, hRow, hEq⟩
      exact hSequence (List.any_eq_true.mpr ⟨row, hRow, by simpa using hEq⟩)
    · intro row hRow hEq
      exact hSaved (List.any_eq_true.mpr ⟨row, hRow, by simpa using hEq⟩)
    · rw [← Option.some.inj h]

/-- A send that judges right moves the rows by the law, and judges right after it. -/
theorem step_law (hJudges : Judges iso send bout.rows phase)
    (hStep : send.step iso rules nowMs sheetEnds bout phase = some (bout', phase')) :
    RowsMove iso bout.rows phase.frees? bout'.rows ∧ Judges iso send bout'.rows phase' := by
  have hFree : ∀ {rows : List (EventRow τ κ)} {phase : Phase τ κ ι ρ}, phase.sequence? = none →
      Judges iso send rows phase := by
    intro rows phase hNone sequence hMem
    rw [hNone] at hMem
    cases hMem
  cases phase with
  | asksSaved attempt =>
    rw [Send.step] at hStep
    split at hStep <;> cases hStep
    · exact ⟨.kept, hFree rfl⟩
    · exact ⟨.kept, hFree rfl⟩
  | finishesSaved =>
    cases hStep
    rw [rows_finishSavedPress]
    exact ⟨.kept, hFree rfl⟩
  | readsSequence attempt =>
    cases hStep
    refine ⟨.kept, fun sequence hMem => .inr ?_⟩
    rfl
  | readsBout attempt sequence =>
    rw [Send.step] at hStep
    split at hStep <;> cases hStep
    · exact ⟨.kept, hFree rfl⟩
    · exact ⟨.kept, hJudges⟩
  | readsClock attempt sequence read =>
    dsimp only [Send.step] at hStep
    split at hStep <;> cases hStep
    · exact ⟨.kept, hFree rfl⟩
    · exact ⟨.kept, fun s hMem => (hJudges s hMem).imp_right fun hNext => ⟨hNext, rfl⟩⟩
  | readsReset attempt sequence read clock =>
    dsimp only [Send.step] at hStep
    split at hStep <;> cases hStep
    · exact ⟨.kept, hFree rfl⟩
    · rename_i hPlaced
      refine ⟨.kept, fun s hMem => (hJudges s hMem).imp_right ?_⟩
      rintro ⟨hNext, rfl⟩
      exact ⟨hNext, allowed_of_placeLatePress hPlaced⟩
  | readsLastRow attempt sequence read clock pressedMs =>
    have hPlaced : ∀ result : Option (Option ι), Judges iso send bout.rows
        (.insertsRow attempt sequence
          ⟨read, clock, placedInTimeline iso bout.rows pressedMs, result⟩) := by
      intro result s hMem
      refine (hJudges s hMem).imp_right ?_
      rintro ⟨hNext, hAllowed⟩
      exact ⟨hNext, hAllowed, notBefore_placedInTimeline _ _⟩
    dsimp only [Send.step] at hStep
    split_ifs at hStep
    · cases hStep
      exact ⟨.kept, hPlaced _⟩
    · cases hStep
      exact ⟨.kept, hFree rfl⟩
    · split at hStep <;> cases hStep
      · exact ⟨.kept, hFree rfl⟩
      · exact ⟨.kept, hPlaced _⟩
  | insertsRow attempt sequence judged =>
    dsimp only [Send.step] at hStep
    split at hStep <;> cases hStep
    · refine ⟨.kept, hFree ?_⟩
      rw [againOnCollision]
      split <;> rfl
    · rename_i hInsert
      obtain ⟨hSequence, hFresh, hRows⟩ := insertRow_eq_some hInsert
      rcases hJudges sequence rfl with hTaken | ⟨rfl, hAllowed, hTime⟩
      · exact (hSequence hTaken).elim
      · refine ⟨?_, hFree rfl⟩
        rw [hRows]
        exact .wrote _ _ _ hFresh hAllowed hTime
  | writesBout sequence judged =>
    dsimp only [Send.step] at hStep
    split_ifs at hStep <;> cases hStep
    · exact ⟨.kept, hFree rfl⟩
    · rw [rows_inPlay]
      exact ⟨.kept, hFree rfl⟩
    · exact ⟨.kept, hFree rfl⟩
    · exact ⟨.kept, hFree rfl⟩
  | readsLoss sequence readStatus =>
    dsimp only [Send.step] at hStep
    split at hStep <;> cases hStep
    · exact ⟨.kept, hFree rfl⟩
    · exact ⟨.kept, hFree rfl⟩
  | takesBackRow sequence refusal =>
    cases hStep
    exact ⟨.tookBack sequence, hFree rfl⟩
  | answered answer => cases hStep

omit [DecidableEq κ] [DecidableEq ρ] [DecidableEq ι] in
/-- A send judges right after a move of the rows that frees no sequence it holds. -/
theorem Judges.move {rows rows' : List (EventRow τ κ)} {freed : Option ℕ}
    (h : Judges iso send rows phase) (hMove : RowsMove iso rows freed rows')
    (hHeld : ∀ s ∈ freed, ∀ sequence ∈ phase.sequence?,
      sequence ≠ s ∧ SequenceTaken rows sequence) :
    Judges iso send rows' phase := by
  intro sequence hMem
  cases hMove with
  | kept => exact h sequence hMem
  | wrote action time clientUuid hFresh hAllowed hTime =>
    left
    rcases h sequence hMem with ⟨row, hRow, hSequence⟩ | hCurrent
    · exact ⟨row, List.mem_append_left _ hRow, hSequence⟩
    · refine ⟨_, List.mem_append_right _ List.mem_cons_self, ?_⟩
      -- the row that was written took the sequence this send holds
      have hNext : sequence = nextSequence rows := by
        cases phase <;> cases hMem <;> first | exact hCurrent | exact hCurrent.1
      exact hNext.symm
  | tookBack freed =>
    obtain ⟨hNe, row, hRow, hSequence⟩ := hHeld freed rfl sequence hMem
    exact .inl ⟨row, List.mem_filter.mpr ⟨hRow, by simpa [hSequence] using hNe⟩, hSequence⟩

/-- A step into a phase that has only read comes from one, and leaves the bout. -/
theorem step_onlyRead
    (hStep : send.step iso rules nowMs sheetEnds bout phase = some (bout', phase'))
    (h : phase'.OnlyRead) : phase.OnlyRead ∧ bout' = bout := by
  cases phase <;> dsimp only [Send.step] at hStep <;> (repeat' split at hStep) <;> cases hStep <;>
    first
    | exact ⟨trivial, rfl⟩
    | cases h

theorem step_saved
    (hStep : send.step iso rules nowMs sheetEnds bout phase = some (bout', .answered .saved)) :
    phase = .finishesSaved ∧ bout'.rows = bout.rows := by
  cases phase with
  | finishesSaved =>
    cases hStep
    exact ⟨rfl, rows_finishSavedPress ..⟩
  | _ =>
    dsimp only [Send.step, againOnCollision] at hStep
    (repeat' split at hStep) <;> cases hStep

theorem step_noRow
    (hStep : send.step iso rules nowMs sheetEnds bout phase = some (bout', phase'))
    (h : phase'.NoRow) : phase.NoRow ∧ bout'.rows = bout.rows := by
  rcases h with hRead | rfl
  · obtain ⟨hBefore, rfl⟩ := step_onlyRead hStep hRead
    exact ⟨.inl hBefore, rfl⟩
  · obtain ⟨rfl, hRows⟩ := step_saved hStep
    exact ⟨.inl trivial, hRows⟩

end Step

section Run

variable {τ : Type u} {κ : Type v} {ι : Type w} {ρ : Type x} {υ : Type y} [DecidableEq κ]
  [DecidableEq ρ] [DecidableEq ι] [DecidableEq υ]

/-- The moves of any number of sends, in any order. -/
abbrev RaceMove (υ : Type y) (τ : Type u) (κ : Type v) (ι : Type w) (ρ : Type x) :=
  Move (World υ τ κ ι ρ) (Tick υ)

/-- A row is taken back while every sequence another send holds is another row's. -/
def FreesNone (m : RaceMove υ τ κ ι ρ) : Prop :=
  ∀ freed ∈ (m.before.phase m.event.send).frees?, ∀ i, ∀ sequence ∈ (m.before.phase i).sequence?,
    sequence ≠ freed ∧ SequenceTaken m.before.bout.rows sequence

variable (iso : IsoTime τ) (rules : BoutRules) (sends : υ → Send κ ρ)

def Ticks (world : World υ τ κ ι ρ) (tick : Tick υ) (world' : World υ τ κ ι ρ) : Prop :=
  world.tick iso rules sends tick = some world'

/-- What every state of a race from `bout` keeps. -/
structure Fair (bout : PressedBout τ κ ι ρ) (world : World υ τ κ ι ρ) : Prop where
  laid : Laid iso bout.rows → Laid iso world.bout.rows
  judges : ∀ i, Judges iso (sends i) world.bout.rows (world.phase i)

variable {iso : IsoTime τ} {rules : BoutRules} {sends : υ → Send κ ρ}
  {bout : PressedBout τ κ ι ρ} {world world' : World υ τ κ ι ρ} {tick : Tick υ}
  {moves : List (RaceMove υ τ κ ι ρ)}

/-- One send makes one step, and no other send has moved. -/
theorem ticks_iff : Ticks iso rules sends world tick world' ↔
    (sends tick.send).step iso rules tick.nowMs tick.sheetEnds world.bout (world.phase tick.send) =
      some (world'.bout, world'.phase tick.send) ∧
    ∀ i ≠ tick.send, world'.phase i = world.phase i := by
  rw [Ticks, World.tick, Option.map_eq_some_iff]
  constructor
  · rintro ⟨⟨bout', phase'⟩, hStep, rfl⟩
    refine ⟨?_, fun i hNe => Function.update_of_ne hNe ..⟩
    dsimp only
    rw [hStep, Function.update_self]
  · rintro ⟨hStep, hOthers⟩
    refine ⟨_, hStep, ?_⟩
    dsimp only
    have hPhase : Function.update world.phase tick.send (world'.phase tick.send) = world'.phase :=
      Function.update_eq_iff.mpr ⟨rfl, fun i hNe => (hOthers i hNe).symm⟩
    rw [hPhase]

theorem Fair.after (h : Fair iso sends bout world) (hTick : Ticks iso rules sends world tick world')
    (hFrees : FreesNone ⟨world, tick, world'⟩) :
    RowsMove iso world.bout.rows (world.phase tick.send).frees? world'.bout.rows ∧
      Fair iso sends bout world' := by
  obtain ⟨hStep, hOthers⟩ := ticks_iff.mp hTick
  obtain ⟨hMove, hJudges⟩ := step_law (h.judges tick.send) hStep
  refine ⟨hMove, fun hLaid => (h.laid hLaid).move hMove, fun i => ?_⟩
  by_cases hSend : i = tick.send
  · rw [hSend]
    exact hJudges
  · rw [hOthers i hSend]
    exact (h.judges i).move hMove fun freed hFreed => hFrees freed hFreed i

/-- A phase reached only from its like, by steps of one kind: every step of that send is of it. -/
theorem steps_of_phase {P : Phase τ κ ι ρ → Prop}
    {Q : PressedBout τ κ ι ρ → PressedBout τ κ ι ρ → Prop}
    (hRun : Run (Ticks iso rules sends) (World.start bout) moves world)
    (hBack : ∀ {send : Send κ ρ} {nowMs : ℤ} {sheetEnds : Bool} {bout bout' : PressedBout τ κ ι ρ}
      {phase phase' : Phase τ κ ι ρ},
      send.step iso rules nowMs sheetEnds bout phase = some (bout', phase') → P phase' →
        P phase ∧ Q bout bout')
    {i : υ} (hPhase : P (world.phase i)) :
    ∀ m ∈ moves, m.event.send = i → Q m.before.bout m.after.bout := by
  induction hRun with
  | start =>
    intro m hm
    cases hm
  | @move moves world world' tick hRun hTick ih =>
    obtain ⟨hStep, hOthers⟩ := ticks_iff.mp hTick
    have hBefore : P (world.phase i) ∧ (tick.send = i → Q world.bout world'.bout) := by
      by_cases hSend : tick.send = i
      · subst hSend
        have hLast : P (world.phase tick.send) ∧ Q world.bout world'.bout := hBack hStep hPhase
        exact ⟨hLast.1, fun _ => hLast.2⟩
      · exact ⟨hOthers i (Ne.symm hSend) ▸ hPhase, fun hEq => (hSend hEq).elim⟩
    intro m hm hEvent
    rcases List.mem_append.mp hm with hm | hm
    · exact ih hBefore.1 m hm hEvent
    · obtain rfl := List.mem_singleton.mp hm
      exact hBefore.2 hEvent

end Run

/-! ## A fight that runs, and the presses of two tablets -/

def singleFight : BoutRules := ⟨1, some 60, []⟩

/-- Started at 0, red ahead. -/
def runningBout : PressedBout ℤ ℕ ℕ ℕ where
  rows := [⟨.clock (.press .start), 0, 1, none, none⟩]
  status := .running
  locked := false
  currentRound := none
  awaitingRoundAdvance := false
  closedRounds := []
  redScore := 3
  blueScore := 1
  backInPlayAt := none
  eventOver := false
  startedAt := some 0
  endedAt := none
  durationActiveMs := none
  durationTotalMs := none
  winnerRegistrationId := none
  endReason := none
  redRegistrationId := some 1
  blueRegistrationId := some 2
  matchRulesId := 7
  earlierRulesIds := []

def sendOf (action : ClockPress) (clientUuid : ℕ) (pressedMs : ℤ) : Send ℕ ℕ where
  action := action
  press := ⟨⟨clientUuid, pressedMs, 25000⟩, none, false⟩
  mayPassLock := false

/-- A Halt at 10 seconds, an End at 12, and an End at 20. -/
def threeSends : Fin 3 → Send ℕ ℕ
  | 0 => sendOf .halt 100 10000
  | 1 => sendOf .endBout 101 12000
  | 2 => sendOf .endBout 102 20000

def ticksOf (send : Fin 3) (count : ℕ) : List (Tick (Fin 3)) :=
  List.replicate count ⟨send, 25000, false⟩

/-- The last End is judged, then the Halt is written, then the first End, which completes the bout:
the Halt is taken back, and the last End takes the sequence it left. -/
def takenBackRow : List (Tick (Fin 3)) :=
  ticksOf 2 6 ++ ticksOf 0 7 ++ ticksOf 1 8 ++ ticksOf 0 2 ++ ticksOf 2 3

/-- Two presses judged on the same timeline: the second collides and is judged again. -/
def collision : List (Tick (Fin 3)) :=
  ticksOf 0 6 ++ ticksOf 1 6 ++ ticksOf 0 2 ++ ticksOf 1 9

end MyClash.Timeline.PressRace
