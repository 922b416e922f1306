import MyClash.Clock
import MyClash.Library.StableSort

/-!
# A bout's timeline

The rows of a bout, read by time and then by sequence. The clock is folded from them and kept
nowhere else; a row is written at the next sequence, never before the row the timeline ends with.
-/

namespace MyClash.Timeline

open Clock StableSort

universe u v

/-- ISO strings: `toISOString` writes an instant in milliseconds, `getTime` reads one. -/
structure IsoTime (τ : Type u) where
  getTime : τ → ℤ
  toISOString : ℤ → τ
  getTime_toISOString : ∀ ms, getTime (toISOString ms) = ms

/-- Instants as they are, in milliseconds. -/
def msTime : IsoTime ℤ := ⟨id, id, Eq.refl⟩

inductive EventType where
  | clock (type : ClockMoveType)
  | roundAdvance
  | roundEnd
  deriving DecidableEq

structure EventRow (τ : Type u) (ι : Type v) where
  type : EventType
  occurredAt : τ
  sequence : ℕ
  adjustmentMs : Option ℤ
  clientUuid : Option ι
  deriving DecidableEq

/-- What the server answers: the fold, and how far down its chain a level bout has been taken. -/
structure ServerClock (τ : Type u) where
  fold : ClockFold τ
  levelResolutionSteps : ℕ

variable {τ : Type u} {ι : Type v}

/-- The clock's query asks for the types it knows; an "End round" is not one. -/
def EventRow.readByClock (row : EventRow τ ι) : Bool :=
  match row.type with
  | .clock (.unknown _) | .roundEnd => false
  | .clock _ | .roundAdvance => true

def EventRow.move? (row : EventRow τ ι) : Option (ClockMove τ) :=
  match row.type with
  | .clock type => some ⟨type, row.occurredAt, row.adjustmentMs⟩
  | .roundAdvance | .roundEnd => none

/-- A new round works the chain from its top, and so does a bout that was reset. -/
def countLevelStep (steps : ℕ) (row : EventRow τ ι) : ℕ :=
  match row.type with
  | .clock .levelResolution => steps + 1
  | .roundAdvance | .clock .resetMatch => 0
  | _ => steps

section Read

variable (iso : IsoTime τ)

def placeOrder (a b : EventRow τ ι) : Ordering :=
  (compare (iso.getTime a.occurredAt) (iso.getTime b.occurredAt)).then
    (compare a.sequence b.sequence)

def inOrder (rows : List (EventRow τ ι)) : List (EventRow τ ι) := sortWith (placeOrder iso) rows

def computeClockState (rows : List (EventRow τ ι)) : ServerClock τ where
  fold := foldClock iso.getTime (rows.filterMap (·.move?))
  levelResolutionSteps := rows.foldl countLevelStep 0

def getClockState (rows : List (EventRow τ ι)) : ServerClock τ :=
  computeClockState iso (inOrder iso (rows.filter (·.readByClock)))

def lastTimelineRow (rows : List (EventRow τ ι)) : Option (EventRow τ ι) :=
  (inOrder iso rows).getLast?

/-- Never before the row the bout ends with. -/
def placedAt (pressedMs : ℤ) (lastRowAt : Option τ) : τ :=
  iso.toISOString (max pressedMs ((lastRowAt.map iso.getTime).getD pressedMs))

def placedInTimeline (rows : List (EventRow τ ι)) (atMs : ℤ) : τ :=
  placedAt iso atMs ((lastTimelineRow iso rows).map (·.occurredAt))

end Read

def nextSequence (rows : List (EventRow τ ι)) : ℕ := (rows.map (·.sequence)).foldr max 0 + 1

/-! ## One more row -/

section Concat

variable {iso : IsoTime τ} {rows : List (EventRow τ ι)} {row : EventRow τ ι}

/-- The row is not before any row of the timeline. -/
def NotBefore (iso : IsoTime τ) (rows : List (EventRow τ ι)) (ms : ℤ) : Prop :=
  ∀ r ∈ rows, iso.getTime r.occurredAt ≤ ms

theorem sequence_lt_nextSequence {r : EventRow τ ι} (hr : r ∈ rows) :
    r.sequence < nextSequence rows := by
  rw [nextSequence, Nat.lt_succ_iff]
  induction rows with
  | nil => exact (List.not_mem_nil hr).elim
  | cons first rest ih =>
    rcases List.mem_cons.mp hr with rfl | hr
    · exact Nat.le_max_left _ _
    · exact (ih hr).trans (Nat.le_max_right _ _)

theorem placeOrder_isLE {a b : EventRow τ ι}
    (hTime : iso.getTime a.occurredAt ≤ iso.getTime b.occurredAt)
    (hSequence : a.sequence < b.sequence) : (placeOrder iso a b).isLE := by
  rw [placeOrder]
  rcases hTime.lt_or_eq with hLt | hEq
  · rw [compare_lt_iff_lt.mpr hLt]
    rfl
  · rw [compare_eq_iff_eq.mpr hEq, compare_lt_iff_lt.mpr hSequence]
    rfl

/-- A row at the next sequence that goes before no other is read last. -/
theorem inOrder_concat {kept : List (EventRow τ ι)} (hKept : kept.Sublist rows)
    (hTime : NotBefore iso rows (iso.getTime row.occurredAt))
    (hSequence : ∀ r ∈ rows, r.sequence < row.sequence) :
    inOrder iso (kept ++ [row]) = inOrder iso kept ++ [row] :=
  sortWith_concat fun r hr =>
    placeOrder_isLE (hTime r (hKept.subset hr)) (hSequence r (hKept.subset hr))

/-- What one row does to the clock the server answers. -/
def rowStep (iso : IsoTime τ) (clock : ServerClock τ) (row : EventRow τ ι) : ServerClock τ where
  fold :=
    match row.type with
    | .clock type => clockStep iso.getTime clock.fold ⟨type, row.occurredAt, row.adjustmentMs⟩
    | .roundAdvance | .roundEnd => clock.fold
  levelResolutionSteps := countLevelStep clock.levelResolutionSteps row

theorem computeClockState_concat (rows : List (EventRow τ ι)) (row : EventRow τ ι) :
    computeClockState iso (rows ++ [row]) = rowStep iso (computeClockState iso rows) row := by
  have hSteps : (rows ++ [row]).foldl countLevelStep 0 =
      countLevelStep (rows.foldl countLevelStep 0) row := List.foldl_concat ..
  rw [computeClockState, hSteps, List.filterMap_append]
  cases hType : row.type with
  | clock type =>
    have hMove : [row].filterMap (·.move?) = [⟨type, row.occurredAt, row.adjustmentMs⟩] := by
      simp [EventRow.move?, hType]
    rw [hMove, foldClock_concat, rowStep, hType]
    rfl
  | roundAdvance =>
    have hMove : [row].filterMap (·.move?) = [] := by simp [EventRow.move?, hType]
    rw [hMove, List.append_nil, rowStep, hType]
    rfl
  | roundEnd =>
    have hMove : [row].filterMap (·.move?) = [] := by simp [EventRow.move?, hType]
    rw [hMove, List.append_nil, rowStep, hType]
    rfl

theorem rowStep_of_not_read (clock : ServerClock τ) (h : row.readByClock = false) :
    rowStep iso clock row = clock := by
  rw [EventRow.readByClock] at h
  split at h
  · rename_i hType
    simp [rowStep, countLevelStep, hType, clockStep]
  · rename_i hType
    simp [rowStep, countLevelStep, hType]
  · cases h
  · cases h

theorem getClockState_concat (hTime : NotBefore iso rows (iso.getTime row.occurredAt))
    (hSequence : ∀ r ∈ rows, r.sequence < row.sequence) :
    getClockState iso (rows ++ [row]) = rowStep iso (getClockState iso rows) row := by
  rw [getClockState, List.filter_append]
  cases hRead : row.readByClock with
  | true =>
    rw [List.filter_cons_of_pos hRead, List.filter_nil,
      inOrder_concat List.filter_sublist hTime hSequence, computeClockState_concat]
    rfl
  | false =>
    rw [List.filter_cons_of_neg (by simp [hRead]), List.filter_nil, List.append_nil,
      rowStep_of_not_read _ hRead]
    rfl

/-! ## What every clock the server answers is -/

/-- The clock of rows read in their order, none of them after `ms`. -/
structure Sound (iso : IsoTime τ) (clock : ClockFold τ) (ms : ℤ) : Prop where
  running_iff : clock.runningFrom.isSome ↔ clock.status = .running
  nonneg : 0 ≤ clock.activeMs
  since_le : ∀ since ∈ clock.runningFrom, iso.getTime since ≤ ms

theorem Sound.mono {clock : ClockFold τ} {ms ms' : ℤ} (h : Sound iso clock ms) (hLe : ms ≤ ms') :
    Sound iso clock ms' :=
  ⟨h.running_iff, h.nonneg, fun since hSince => (h.since_le since hSince).trans hLe⟩

theorem Sound.closed_nonneg {clock : ClockFold τ} {time : τ}
    (h : Sound iso clock (iso.getTime time)) : 0 ≤ closed iso.getTime clock time := by
  rw [closed]
  split
  · exact h.nonneg
  · rename_i since hSince
    exact add_nonneg h.nonneg (sub_nonneg.mpr (h.since_le since hSince))

theorem Sound.step {clock : ClockFold τ} {move : ClockMove τ}
    (h : Sound iso clock (iso.getTime move.occurredAt)) :
    Sound iso (clockStep iso.getTime clock move) (iso.getTime move.occurredAt) := by
  refine ⟨running_iff_step h.running_iff move, ?_, ?_⟩
  · have hClosed := h.closed_nonneg
    have hNonneg := h.nonneg
    unfold clockStep
    split <;> first | exact hClosed | exact hNonneg | exact le_max_left _ _ | exact le_rfl
  · have hSince := h.since_le
    unfold clockStep
    split <;> first | exact hSince | simp [IDLE_CLOCK]

theorem foldClock_sound {moves : List (ClockMove τ)} {ms : ℤ}
    (hOrder : moves.Pairwise fun a b => iso.getTime a.occurredAt ≤ iso.getTime b.occurredAt)
    (hBefore : ∀ move ∈ moves, iso.getTime move.occurredAt ≤ ms) :
    Sound iso (foldClock iso.getTime moves) ms := by
  induction moves using List.reverseRecOn generalizing ms with
  | nil => exact ⟨by simp [foldClock, IDLE_CLOCK], le_rfl, by simp [foldClock, IDLE_CLOCK]⟩
  | append_singleton moves move ih =>
    obtain ⟨hRest, -, hLast⟩ := List.pairwise_append.mp hOrder
    rw [foldClock_concat]
    have hStep := ih hRest fun m hm => hLast m hm move List.mem_cons_self
    exact hStep.step.mono (hBefore move (List.mem_append_right _ List.mem_cons_self))

instance : Std.TransCmp (placeOrder iso (ι := ι)) := by
  have h : placeOrder iso (ι := ι) =
      compareLex (compareOn fun row : EventRow τ ι => iso.getTime row.occurredAt)
        (compareOn fun row : EventRow τ ι => row.sequence) := rfl
  rw [h]
  infer_instance

theorem pairwise_inOrder (rows : List (EventRow τ ι)) :
    (inOrder iso rows).Pairwise fun a b => iso.getTime a.occurredAt ≤ iso.getTime b.occurredAt := by
  refine (pairwise_sortWith rows).imp fun {a b} hLE => ?_
  dsimp only [placeOrder] at hLE
  rcases hTime : compare (iso.getTime a.occurredAt) (iso.getTime b.occurredAt) with _ | _ | _
  · exact (compare_lt_iff_lt.mp hTime).le
  · exact (compare_eq_iff_eq.mp hTime).le
  · rw [hTime] at hLE
    cases hLE

theorem getClockState_sound {ms : ℤ} (h : NotBefore iso rows ms) :
    Sound iso (getClockState iso rows).fold ms := by
  have hAt : ∀ {row : EventRow τ ι} {move : ClockMove τ}, row.move? = some move →
      move.occurredAt = row.occurredAt := by
    intro row move hMove
    rw [EventRow.move?] at hMove
    split at hMove
    · exact Option.some.inj hMove ▸ rfl
    · cases hMove
    · cases hMove
  refine foldClock_sound ?_ fun move hMove => ?_
  · refine (pairwise_inOrder _).filterMap _ fun a b hLe m hm m' hm' => ?_
    rw [hAt hm, hAt hm']
    exact hLe
  · obtain ⟨row, hRow, hMove⟩ := List.mem_filterMap.mp hMove
    have hMem : row ∈ rows := List.mem_of_mem_filter (mem_sortWith.mp hRow)
    rw [hAt hMove]
    exact h row hMem

/-- No row of the timeline is after the place of a press. -/
theorem notBefore_placedInTimeline (rows : List (EventRow τ ι)) (ms : ℤ) :
    NotBefore iso rows (iso.getTime (placedInTimeline iso rows ms)) := by
  intro row hRow
  have hMem : row ∈ inOrder iso rows := mem_sortWith.mpr hRow
  rw [placedInTimeline, placedAt, iso.getTime_toISOString, lastTimelineRow]
  obtain ⟨before, last, hOrder⟩ : ∃ before last, inOrder iso rows = before ++ [last] :=
    (List.eq_nil_or_concat' _).resolve_left (List.ne_nil_of_mem hMem)
  have hPairwise : (inOrder iso rows).Pairwise fun a b =>
      iso.getTime a.occurredAt ≤ iso.getTime b.occurredAt := pairwise_inOrder rows
  rw [hOrder] at hMem hPairwise ⊢
  rw [List.getLast?_concat]
  refine le_trans ?_ (le_max_right _ _)
  rcases List.mem_append.mp hMem with hMem | hMem
  · exact (List.pairwise_append.mp hPairwise).2.2 row hMem last List.mem_cons_self
  · rw [List.mem_singleton.mp hMem]
    exact le_refl _

/-- A press not before the timeline's rows is placed where it was pressed. -/
theorem placedInTimeline_of_notBefore {ms : ℤ} (h : NotBefore iso rows ms) :
    placedInTimeline iso rows ms = iso.toISOString ms := by
  rw [placedInTimeline, placedAt]
  cases hLast : lastTimelineRow iso rows with
  | none => simp
  | some last =>
    have hMem : last ∈ rows := mem_sortWith.mp (List.mem_of_getLast? hLast)
    simp [max_eq_left (h last hMem)]

end Concat

end MyClash.Timeline
