import MyClash.Library.Floored
import Mathlib.Algebra.Order.Ring.Int
import Mathlib.Data.List.DropRight

/-!
# The match clock

A list of rows and the state they add up to. A time is the row's own ISO string, of type
`τ`; `getTime` reads it as `new Date(..).getTime()` does.
-/

namespace MyClash.Clock

universe u

inductive ClockStatus where
  | idle
  | running
  | halted
  | ended
  deriving DecidableEq

inductive ClockAction where
  | start
  | halt
  | resume
  | endBout
  | reopen
  | resetClock
  deriving DecidableEq

/-- The presses a pad may make with no network. -/
inductive ClockPress where
  | start
  | halt
  | resume
  | endBout
  deriving DecidableEq

def ClockPress.action : ClockPress → ClockAction
  | .start => .start
  | .halt => .halt
  | .resume => .resume
  | .endBout => .endBout

/-- `unknown` is a row of a type the fold does not know. -/
inductive ClockMoveType where
  | press (action : ClockAction)
  | adjustTime
  | resetMatch
  | levelResolution
  | unknown (type : String)
  deriving DecidableEq

structure ClockMove (τ : Type u) where
  type : ClockMoveType
  occurredAt : τ
  adjustmentMs : Option ℤ

structure ClockFold (τ : Type u) where
  status : ClockStatus
  activeMs : ℤ
  runningFrom : Option τ
  startedAt : Option τ
  deriving DecidableEq

variable {τ : Type u}

def IDLE_CLOCK : ClockFold τ where
  status := .idle
  activeMs := 0
  runningFrom := none
  startedAt := none

section Step

variable (getTime : τ → ℤ)

/-- `activeMs` with the interval that runs closed at `at`. -/
def closed (clock : ClockFold τ) (time : τ) : ℤ :=
  match clock.runningFrom with
  | none => clock.activeMs
  | some since => clock.activeMs + (getTime time - getTime since)

def clockStep (clock : ClockFold τ) (move : ClockMove τ) : ClockFold τ :=
  match move.type with
  | .press .start =>
    { clock with
      status := .running
      runningFrom := some move.occurredAt
      startedAt := clock.startedAt.or (some move.occurredAt) }
  | .press .halt =>
    { clock with
      activeMs := closed getTime clock move.occurredAt
      runningFrom := none
      status := .halted }
  | .press .resume => { clock with status := .running, runningFrom := some move.occurredAt }
  | .press .endBout =>
    { clock with
      activeMs := closed getTime clock move.occurredAt
      runningFrom := none
      status := .ended }
  | .press .reopen => { clock with runningFrom := none, status := .halted }
  | .press .resetClock => { clock with activeMs := 0, runningFrom := none, status := .halted }
  | .adjustTime | .levelResolution =>
    { clock with activeMs := max 0 (clock.activeMs + move.adjustmentMs.getD 0) }
  | .resetMatch => IDLE_CLOCK
  | .unknown _ => clock

def foldClock (moves : List (ClockMove τ)) : ClockFold τ :=
  moves.foldl (clockStep getTime) IDLE_CLOCK

end Step

def CLOCK_ACTIONS_FROM : ClockStatus → List ClockAction
  | .idle => [.start]
  | .running => [.halt, .endBout]
  | .halted => [.resume, .endBout, .resetClock]
  | .ended => [.reopen]

def PRESS_ALREADY_TRUE : ClockPress → List ClockStatus
  | .start => [.running, .halted]
  | .halt => [.halted, .ended]
  | .resume => [.running]
  | .endBout => [.ended]

def pressAlreadyTrue (press : ClockPress) (status : ClockStatus) : Bool :=
  (PRESS_ALREADY_TRUE press).contains status

def clockAfterPress (getTime : τ → ℤ) (clock : ClockFold τ) (press : ClockPress) (time : τ) :
    ClockFold τ :=
  if pressAlreadyTrue press clock.status then clock
  else if !(CLOCK_ACTIONS_FROM clock.status).contains press.action then clock
  else clockStep getTime clock ⟨.press press.action, time, none⟩

/-- The correction that puts exactly `seconds` back on a clock: granting time is a negative one.
None with no limit, where there is nothing to extend. -/
def extraTimeAdjustmentMs (seconds elapsedMs : ℤ) (limitMs : Option ℤ) : ℤ :=
  match limitMs with
  | none => 0
  | some limit => limit - seconds * 1000 - elapsedMs

/-! ## The rows since a reset -/

def ClockMove.opens (move : ClockMove τ) : Bool :=
  move.type == .press .start || move.type == .press .resume

def ClockMove.closes (move : ClockMove τ) : Bool :=
  move.type == .press .halt || move.type == .press .endBout

def ClockMove.corrects (move : ClockMove τ) : Bool :=
  move.type == .adjustTime || move.type == .levelResolution

/-- The rows that put the time back to nothing. -/
def ClockMove.clears (move : ClockMove τ) : Bool :=
  move.type == .press .resetClock || move.type == .resetMatch

def sinceClear (rows : List (ClockMove τ)) : List (ClockMove τ) := rows.rtakeWhile (!·.clears)

def sinceMatchReset (rows : List (ClockMove τ)) : List (ClockMove τ) :=
  rows.rtakeWhile (·.type != .resetMatch)

def firstStart (rows : List (ClockMove τ)) : Option τ :=
  (rows.find? (·.type == .press .start)).map (·.occurredAt)

/-- The time of the last Start, Resume, Halt or End, if it was a Start or a Resume. -/
def openedAt (rows : List (ClockMove τ)) : Option τ :=
  match (rows.filter fun move => move.opens || move.closes).getLast? with
  | some move => if move.opens then some move.occurredAt else none
  | none => none

inductive Entry (τ : Type u) where
  | ran (since till : τ)
  | corrected (ms : ℤ)

def Entry.ms (getTime : τ → ℤ) : Entry τ → ℤ
  | .ran since till => getTime till - getTime since
  | .corrected ms => ms

/-- What a row writes in the books: the interval it closes, or its correction. -/
def entryOf (before : List (ClockMove τ)) (move : ClockMove τ) : Option (Entry τ) :=
  if move.closes then (openedAt before).map (Entry.ran · move.occurredAt)
  else if move.corrects then some (.corrected (move.adjustmentMs.getD 0))
  else none

def entriesFrom (before : List (ClockMove τ)) : List (ClockMove τ) → List (Entry τ)
  | [] => []
  | move :: rest => (entryOf before move).toList ++ entriesFrom (before ++ [move]) rest

/-- The closed running intervals and the corrections since the time was last put to nothing. -/
def ledger (rows : List (ClockMove τ)) : List (Entry τ) := entriesFrom [] (sinceClear rows)

/-! ## Legal rows -/

/-- A press is legal from the statuses that list it; the table names no other row. -/
def legalFrom (status : ClockStatus) (move : ClockMove τ) : Prop :=
  match move.type with
  | .press action => action ∈ CLOCK_ACTIONS_FROM status
  | _ => True

instance (status : ClockStatus) (move : ClockMove τ) : Decidable (legalFrom status move) :=
  match move with
  | ⟨.press action, _, _⟩ => inferInstanceAs (Decidable (action ∈ CLOCK_ACTIONS_FROM status))
  | ⟨.adjustTime, _, _⟩ => inferInstanceAs (Decidable True)
  | ⟨.resetMatch, _, _⟩ => inferInstanceAs (Decidable True)
  | ⟨.levelResolution, _, _⟩ => inferInstanceAs (Decidable True)
  | ⟨.unknown _, _, _⟩ => inferInstanceAs (Decidable True)

/-- Each row is legal where the rows before it lead, and no time goes back. -/
structure LegalRows (getTime : τ → ℤ) (rows : List (ClockMove τ)) : Prop where
  legal : ∀ before move after, rows = before ++ move :: after →
    legalFrom (foldClock getTime before).status move
  ordered : rows.Pairwise fun a b => getTime a.occurredAt ≤ getTime b.occurredAt

/-- The time is the sum of the books, floored at zero; where no correction took it below zero,
the plain sum. -/
structure ClockLaw (getTime : τ → ℤ) (rows : List (ClockMove τ)) (clock : ClockFold τ) :
    Prop where
  running_iff : clock.runningFrom.isSome ↔ clock.status = .running
  runningFrom_eq : clock.runningFrom = openedAt (sinceClear rows)
  nonneg : 0 ≤ clock.activeMs
  activeMs_eq : clock.activeMs = Floored.sum ((ledger rows).map (Entry.ms getTime))
  activeMs_plain : (∀ p, p <+: (ledger rows).map (Entry.ms getTime) → 0 ≤ p.sum) →
    clock.activeMs = ((ledger rows).map (Entry.ms getTime)).sum
  startedAt_eq : clock.startedAt = firstStart (sinceMatchReset rows)

variable {getTime : τ → ℤ} {rows : List (ClockMove τ)} {move : ClockMove τ}

theorem foldClock_concat (rows : List (ClockMove τ)) (move : ClockMove τ) :
    foldClock getTime (rows ++ [move]) = clockStep getTime (foldClock getTime rows) move := by
  simp [foldClock, List.foldl_append]

theorem LegalRows.init (h : LegalRows getTime (rows ++ [move])) : LegalRows getTime rows where
  legal before m after hSplit := h.legal before m (after ++ [move]) (by simp [hSplit])
  ordered := (List.pairwise_append.mp h.ordered).1

theorem LegalRows.nil : LegalRows getTime ([] : List (ClockMove τ)) where
  legal before move after hSplit := by simp at hSplit
  ordered := List.Pairwise.nil

theorem LegalRows.concat (h : LegalRows getTime rows)
    (hLegal : legalFrom (foldClock getTime rows).status move)
    (hTimes : ∀ m ∈ rows, getTime m.occurredAt ≤ getTime move.occurredAt) :
    LegalRows getTime (rows ++ [move]) where
  legal before m after hSplit := by
    rcases List.eq_nil_or_concat after with rfl | ⟨front, last, rfl⟩
    · obtain ⟨rfl, hLast⟩ := List.append_inj' hSplit rfl
      exact List.singleton_inj.mp hLast ▸ hLegal
    · rw [List.concat_eq_append, ← List.cons_append, ← List.append_assoc] at hSplit
      exact h.legal before m front (List.append_inj' hSplit rfl).1
  ordered := List.pairwise_append.mpr ⟨h.ordered, List.pairwise_singleton _ _,
    fun m hm _ hLast => List.mem_singleton.mp hLast ▸ hTimes m hm⟩

theorem LegalRows.last (h : LegalRows getTime (rows ++ [move])) :
    legalFrom (foldClock getTime rows).status move := h.legal rows move [] rfl

theorem LegalRows.le_last (h : LegalRows getTime (rows ++ [move])) {m : ClockMove τ}
    (hm : m ∈ rows) : getTime m.occurredAt ≤ getTime move.occurredAt :=
  (List.pairwise_append.mp h.ordered).2.2 m hm move List.mem_cons_self

theorem sinceClear_concat (rows : List (ClockMove τ)) (move : ClockMove τ) :
    sinceClear (rows ++ [move]) = if move.clears then [] else sinceClear rows ++ [move] := by
  rw [sinceClear, List.rtakeWhile_concat]
  cases move.clears <;> rfl

theorem sinceMatchReset_concat (rows : List (ClockMove τ)) (move : ClockMove τ) :
    sinceMatchReset (rows ++ [move]) =
      if move.type = .resetMatch then [] else sinceMatchReset rows ++ [move] := by
  rw [sinceMatchReset, List.rtakeWhile_concat]
  split_ifs <;> simp_all [sinceMatchReset]

theorem openedAt_concat (rows : List (ClockMove τ)) (move : ClockMove τ) :
    openedAt (rows ++ [move]) =
      if move.opens then some move.occurredAt
      else if move.closes then none else openedAt rows := by
  rw [openedAt, List.filter_append]
  cases hOpens : move.opens with
  | true => simp [hOpens]
  | false =>
    cases hCloses : move.closes with
    | true => simp [hOpens, hCloses]
    | false => simp [hOpens, hCloses, openedAt]

theorem openedAt_mem {time : τ} (h : openedAt rows = some time) :
    ∃ move ∈ rows, move.occurredAt = time := by
  rw [openedAt] at h
  split at h
  · rename_i m hm
    split at h
    · exact ⟨m, List.mem_of_mem_filter (List.mem_of_getLast? hm), Option.some.inj h⟩
    · exact nomatch h
  · exact nomatch h

theorem entriesFrom_concat (before rows : List (ClockMove τ)) (move : ClockMove τ) :
    entriesFrom before (rows ++ [move]) =
      entriesFrom before rows ++ (entryOf (before ++ rows) move).toList := by
  induction rows generalizing before with
  | nil => simp [entriesFrom]
  | cons m rest ih => simp [entriesFrom, ih]

theorem ledger_concat (rows : List (ClockMove τ)) (move : ClockMove τ) :
    ledger (rows ++ [move]) =
      if move.clears then [] else ledger rows ++ (entryOf (sinceClear rows) move).toList := by
  rw [ledger, sinceClear_concat]
  split
  · rfl
  · rw [entriesFrom_concat, List.nil_append, ledger]

/-! ## What a row preserves -/

variable {clock : ClockFold τ}

theorem running_iff_step (h : clock.runningFrom.isSome ↔ clock.status = .running)
    (move : ClockMove τ) :
    (clockStep getTime clock move).runningFrom.isSome ↔
      (clockStep getTime clock move).status = .running := by
  unfold clockStep
  split <;> simp [h, IDLE_CLOCK]

theorem startedAt_step (h : clock.startedAt = firstStart (sinceMatchReset rows))
    (move : ClockMove τ) :
    (clockStep getTime clock move).startedAt = firstStart (sinceMatchReset (rows ++ [move])) := by
  rw [sinceMatchReset_concat]
  unfold clockStep
  split <;> simp [*, IDLE_CLOCK, firstStart]

/-- A Reopen and a Reset of the clock are legal on a clock that does not run only. -/
theorem runningFrom_step (hRunning : clock.runningFrom.isSome ↔ clock.status = .running)
    (h : clock.runningFrom = openedAt (sinceClear rows))
    (hLegal : legalFrom clock.status move) :
    (clockStep getTime clock move).runningFrom = openedAt (sinceClear (rows ++ [move])) := by
  rw [sinceClear_concat]
  unfold clockStep
  unfold legalFrom at hLegal
  split <;>
    simp_all [ClockMove.clears, openedAt_concat, ClockMove.opens, ClockMove.closes, IDLE_CLOCK]
  · cases hStatus : clock.status <;> simp_all [CLOCK_ACTIONS_FROM]
  · rfl
  · rfl

/-- A Halt or an End adds the interval it closes; the times make it no negative one. -/
theorem closed_eq (hRows : LegalRows getTime (rows ++ [move]))
    (hOpened : clock.runningFrom = openedAt (sinceClear rows))
    (hActive : clock.activeMs = Floored.sum ((ledger rows).map (Entry.ms getTime)))
    (hClears : move.clears = false) (hCloses : move.closes) :
    closed getTime clock move.occurredAt =
      Floored.sum ((ledger (rows ++ [move])).map (Entry.ms getTime)) := by
  rw [ledger_concat, if_neg (by simp [hClears]), entryOf, if_pos hCloses, ← hOpened, closed]
  cases hFrom : clock.runningFrom with
  | none => simp [hActive]
  | some since =>
    obtain ⟨m, hm, rfl⟩ := openedAt_mem (hOpened.symm.trans hFrom)
    have hEarlier : getTime m.occurredAt ≤ getTime move.occurredAt :=
      hRows.le_last ((List.rtakeWhile_suffix _ rows).subset hm)
    have hRan := Floored.sum_concat_of_nonneg ((ledger rows).map (Entry.ms getTime))
      (sub_nonneg.mpr hEarlier)
    simpa [hActive, Entry.ms] using hRan.symm

theorem activeMs_step (hRows : LegalRows getTime (rows ++ [move]))
    (hOpened : clock.runningFrom = openedAt (sinceClear rows))
    (hActive : clock.activeMs = Floored.sum ((ledger rows).map (Entry.ms getTime))) :
    (clockStep getTime clock move).activeMs =
      Floored.sum ((ledger (rows ++ [move])).map (Entry.ms getTime)) := by
  have hCorrected : move.corrects → max 0 (clock.activeMs + move.adjustmentMs.getD 0) =
      Floored.sum ((ledger (rows ++ [move])).map (Entry.ms getTime)) := by
    intro hCorrects
    have hOther : move.closes = false ∧ move.clears = false := by
      unfold ClockMove.corrects at hCorrects
      unfold ClockMove.closes ClockMove.clears
      cases hType : move.type <;> simp_all
    rw [ledger_concat, if_neg (by simp [hOther.2]), entryOf, if_neg (by simp [hOther.1]),
      if_pos hCorrects]
    simp [Floored.sum_concat, Entry.ms, hActive]
  have hKept : move.closes = false → move.corrects = false → move.clears = false →
      clock.activeMs = Floored.sum ((ledger (rows ++ [move])).map (Entry.ms getTime)) := by
    intro hCloses hCorrects hClears
    rw [ledger_concat, if_neg (by simp [hClears]), entryOf, if_neg (by simp [hCloses]),
      if_neg (by simp [hCorrects])]
    simpa using hActive
  have hClosed := closed_eq hRows hOpened hActive
  unfold clockStep
  split <;> rename_i hType
  · exact hKept (by simp [ClockMove.closes, hType]) (by simp [ClockMove.corrects, hType])
      (by simp [ClockMove.clears, hType])
  · exact hClosed (by simp [ClockMove.clears, hType]) (by simp [ClockMove.closes, hType])
  · exact hKept (by simp [ClockMove.closes, hType]) (by simp [ClockMove.corrects, hType])
      (by simp [ClockMove.clears, hType])
  · exact hClosed (by simp [ClockMove.clears, hType]) (by simp [ClockMove.closes, hType])
  · exact hKept (by simp [ClockMove.closes, hType]) (by simp [ClockMove.corrects, hType])
      (by simp [ClockMove.clears, hType])
  · simp [ledger_concat, ClockMove.clears, hType]
  · exact hCorrected (by simp [ClockMove.corrects, hType])
  · exact hCorrected (by simp [ClockMove.corrects, hType])
  · simp [ledger_concat, ClockMove.clears, hType, IDLE_CLOCK]
  · exact hKept (by simp [ClockMove.closes, hType]) (by simp [ClockMove.corrects, hType])
      (by simp [ClockMove.clears, hType])

theorem foldClock_lawful (h : LegalRows getTime rows) :
    ClockLaw getTime rows (foldClock getTime rows) := by
  induction rows using List.reverseRecOn with
  | nil => exact ⟨by simp [foldClock, IDLE_CLOCK], rfl, le_rfl, rfl, fun _ => rfl, rfl⟩
  | append_singleton rows move ih =>
    have hBefore := ih h.init
    have hActive := activeMs_step h hBefore.runningFrom_eq hBefore.activeMs_eq
    rw [foldClock_concat]
    exact
      { running_iff := running_iff_step hBefore.running_iff move
        runningFrom_eq := runningFrom_step hBefore.running_iff hBefore.runningFrom_eq h.last
        nonneg := hActive ▸ Floored.sum_nonneg _
        activeMs_eq := hActive
        activeMs_plain := fun hPrefixes => hActive.trans (Floored.sum_eq_of_prefixes _ hPrefixes)
        startedAt_eq := startedAt_step hBefore.startedAt_eq move }

/-- The state a press asks for. -/
def ClockPress.asksFor : ClockPress → ClockStatus
  | .start => .running
  | .halt => .halted
  | .resume => .running
  | .endBout => .ended

theorem pressAlreadyTrue_of_asksFor {press : ClockPress} {status : ClockStatus}
    (h : status = press.asksFor) : pressAlreadyTrue press status := by
  subst h
  cases press <;> rfl

theorem clockAfterPress_of_alreadyTrue {press : ClockPress}
    (h : pressAlreadyTrue press clock.status) (time : τ) :
    clockAfterPress getTime clock press time = clock := if_pos h

theorem foldClock_law (h : LegalRows getTime rows) :
    ClockLaw getTime rows (foldClock getTime rows) ∧
      ∀ press time, pressAlreadyTrue press (foldClock getTime rows).status ∨
          (foldClock getTime rows).status = press.asksFor →
        clockAfterPress getTime (foldClock getTime rows) press time = foldClock getTime rows := by
  refine ⟨foldClock_lawful h, fun press time hTrue => ?_⟩
  rcases hTrue with hTrue | hAsked
  · exact clockAfterPress_of_alreadyTrue hTrue time
  · exact clockAfterPress_of_alreadyTrue (pressAlreadyTrue_of_asksFor hAsked) time

/-- A correction that overdraws the clock while it runs, then a Halt. -/
def overdrawn : List (ClockMove ℤ) :=
  [⟨.press .start, 0, none⟩, ⟨.adjustTime, 4, some (-5)⟩, ⟨.press .halt, 10, none⟩]

theorem foldClock_law_overdrawn :
    (foldClock id overdrawn).activeMs = 10 ∧
      ClockLaw id overdrawn (foldClock id overdrawn) ∧
      ∀ press time, pressAlreadyTrue press (foldClock id overdrawn).status ∨
          (foldClock id overdrawn).status = press.asksFor →
        clockAfterPress id (foldClock id overdrawn) press time = foldClock id overdrawn := by
  refine ⟨rfl, foldClock_law ?_⟩
  have hStart : LegalRows id (overdrawn.take 1) :=
    LegalRows.nil.concat (by decide) nofun
  have hAdjusted : LegalRows id (overdrawn.take 2) := hStart.concat trivial (by decide)
  exact hAdjusted.concat (by decide) (by decide)

/-! ## Extra time -/

/-- The step puts back exactly its seconds, unless they are more than the limit: the time already
fought is floored at zero. -/
theorem extraTime_iff (clock : ClockFold τ) (time : τ) (seconds limitMs : ℤ) :
    limitMs - (clockStep getTime clock ⟨.levelResolution, time,
        some (extraTimeAdjustmentMs seconds clock.activeMs (some limitMs))⟩).activeMs =
      seconds * 1000 ↔ seconds * 1000 ≤ limitMs := by
  have hActive : (clockStep getTime clock ⟨.levelResolution, time,
      some (extraTimeAdjustmentMs seconds clock.activeMs (some limitMs))⟩).activeMs =
      max 0 (limitMs - seconds * 1000) := by
    dsimp only [clockStep, extraTimeAdjustmentMs, Option.getD_some]
    rw [add_sub_cancel]
  rw [hActive]
  omega

/-- Two minutes of extra time in a bout of one: a minute comes back. -/
theorem not_extraTime_twoMinutesOfOne :
    ¬∀ (clock : ClockFold ℤ) (time seconds limitMs : ℤ), clock.status ≠ .running → 0 < limitMs →
      1 ≤ seconds → seconds ≤ 3600 →
      limitMs - (clockStep id clock ⟨.levelResolution, time,
        some (extraTimeAdjustmentMs seconds clock.activeMs (some limitMs))⟩).activeMs =
        seconds * 1000 := by
  intro h
  have hBack := h ⟨.halted, 60000, none, some 0⟩ 60000 120 60000 (by decide) (by decide)
    (by decide) (by decide)
  revert hBack
  decide

end MyClash.Clock
