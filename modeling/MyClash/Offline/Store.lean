import Mathlib.Data.List.Sort
import Mathlib.Logic.Function.Basic
import MyClash.Library.KeyTable

/-!
# The tablet's store

The hits, the cards and the taps of a bout wait in `outbox` until the server took them
(`synced`) or refused them (`rejected`). Each function is one transaction of the store.
-/

namespace MyClash.Offline

open KeyTable

universe u v w

/-! ## Rows -/

inductive OutboxKind where
  | exchange
  | penalty
  | press
  | round
  | level
  deriving DecidableEq

inductive RoundPress where
  | advance
  | endRound
  deriving DecidableEq

/-- A row of the outbox without its id, which is the key of the table. -/
structure OutboxEntry (β : Type u) (υ : Type v) where
  kind : Option OutboxKind
  clientUuid : υ
  matchId : β
  sequence : ℕ
  round : Option ℕ
  roundAction : Option RoundPress
  createdAt : ℕ
  attempts : ℕ
  lastError : Option String
  deriving DecidableEq

structure RejectedEntry (β : Type u) (υ : Type v) extends OutboxEntry β υ where
  rejectedReason : String
  rejectedCode : Option String
  /-- The place the row had in the queue. -/
  outboxId : Option ℕ

structure SyncedEntry (β : Type u) (υ : Type v) (σ : Type w) where
  clientUuid : υ
  matchId : β
  sequence : ℕ
  serverId : σ

structure Store (β : Type u) (υ : Type v) (σ : Type w) where
  outbox : Table (OutboxEntry β υ)
  synced : List (SyncedEntry β υ σ)
  rejected : Table (RejectedEntry β υ)
  undone : List υ

variable {β : Type u} {υ : Type v} {σ : Type w}

def Store.empty : Store β υ σ := ⟨Table.empty, [], Table.empty, []⟩

def kindOf (kind : Option OutboxKind) : OutboxKind := kind.getD .exchange

def isTap (entry : OutboxEntry β υ) : Bool :=
  match kindOf entry.kind with
  | .press => true
  | .round => true
  | .level => true
  | .penalty => false
  | .exchange => false

/-! ## Which held rows a new send can save -/

def NEVER_AGAIN : List String :=
  ["scored_before_reset", "clock_press_too_old", "time_not_finished",
    "level_at_time_unresolved", "pressed_before_reopen", "bout_not_level",
    "level_step_not_pending"]

def NEVER_AGAIN_FOR_A_STEP : List String :=
  ["bout_completed", "round_awaits_advance", "round_not_open"]

def canSendAgain (held : RejectedEntry β υ) : Bool :=
  let code := held.rejectedCode.getD ""
  if held.kind = some .level ∧ code ∈ NEVER_AGAIN_FOR_A_STEP then false
  else decide (code ∉ NEVER_AGAIN)

/-! ## Writing a row -/

section Writes

variable [DecidableEq β]

def maxOf (numbers : List ℕ) : ℕ := numbers.foldl max 0

def nextSequence (s : Store β υ σ) (matchId : β) : ℕ :=
  let outboxMax := maxOf ((s.outbox.rows.filter (·.2.matchId = matchId)).map (·.2.sequence))
  let syncedMax := maxOf ((s.synced.filter (·.matchId = matchId)).map (·.sequence))
  max outboxMax syncedMax + 1

def openRoundFor (s : Store β υ σ) (matchId : β) (round : Option ℕ) : ℕ :=
  let queued := s.outbox.rows.filter (·.2.matchId = matchId)
  let opened := queued.filter fun row =>
    kindOf row.2.kind = .round ∧ row.2.roundAction = some .advance
  max (round.getD 0) (maxOf (opened.map fun row => row.2.round.getD 0))

def enqueue (s : Store β υ σ) (entry : OutboxEntry β υ) (now : ℕ) : Store β υ σ :=
  { s with outbox := s.outbox.push { entry with
      round := entry.round.map fun round => openRoundFor s entry.matchId (some round)
      sequence := max entry.sequence (nextSequence s entry.matchId)
      createdAt := now
      attempts := 0 } }

end Writes

/-- A tap of the clock, of a round button or of a level bout's step: sequence 0. -/
def queueTap (kind : OutboxKind) (s : Store β υ σ) (clientUuid : υ) (matchId : β)
    (round : Option ℕ) (roundAction : Option RoundPress) (at' : ℕ) : Store β υ σ :=
  let row := ⟨some kind, clientUuid, matchId, 0, round, roundAction, at', 0, none⟩
  { s with outbox := s.outbox.push row }

def queuePress (s : Store β υ σ) (clientUuid : υ) (matchId : β) (at' : ℕ) : Store β υ σ :=
  queueTap .press s clientUuid matchId none none at'

def queueRoundPress (s : Store β υ σ) (clientUuid : υ) (matchId : β) (action : RoundPress)
    (round : ℕ) (at' : ℕ) : Store β υ σ :=
  queueTap .round s clientUuid matchId (some round) (some action) at'

def queueLevelPress (s : Store β υ σ) (clientUuid : υ) (matchId : β) (round : ℕ) (at' : ℕ) :
    Store β υ σ :=
  queueTap .level s clientUuid matchId (some round) none at'

/-! ## The filing of a send -/

def claimForSend (s : Store β υ σ) (id : ℕ) : Bool := (s.outbox.get? id).isSome

def markFailed (s : Store β υ σ) (id : ℕ) (error : String) : Store β υ σ :=
  { s with outbox := s.outbox.modify id fun entry =>
      { entry with attempts := entry.attempts + 1, lastError := some error } }

def dropSentPress (s : Store β υ σ) (id : ℕ) : Store β υ σ :=
  { s with outbox := s.outbox.delete id }

def markSynced [DecidableEq υ] (s : Store β υ σ) (id : ℕ) (clientUuid : υ) (matchId : β)
    (sequence : ℕ) (serverId : σ) : Store β υ σ :=
  { s with
    outbox := s.outbox.delete id
    synced := s.synced.filter (·.clientUuid ≠ clientUuid) ++
      [⟨clientUuid, matchId, sequence, serverId⟩] }

def quarantine (s : Store β υ σ) (id : ℕ) (reason : String) (code : Option String) :
    Store β υ σ :=
  match s.outbox.get? id with
  | none => s
  | some entry =>
    { s with
      rejected := s.rejected.push ⟨entry, reason, code.filter (· ≠ ""), some id⟩
      outbox := s.outbox.delete id }

/-! ## Undo and Discard -/

inductive OffTablet (σ : Type w) where
  | removed
  | onItsWay
  | landed (serverId : σ)

def takeOffTablet [DecidableEq υ] (s : Store β υ σ) (clientUuid : υ) (isOnItsWay : ℕ → Bool) :
    OffTablet σ × Store β υ σ :=
  match s.synced.find? (·.clientUuid = clientUuid) with
  | some landed => (.landed landed.serverId, s)
  | none =>
    match s.outbox.rows.find? (·.2.clientUuid = clientUuid) with
    | some (id, _) =>
      if isOnItsWay id then (.onItsWay, s)
      else (.removed, { s with
        outbox := s.outbox.delete id
        undone := clientUuid :: s.undone.filter (· ≠ clientUuid) })
    | none =>
      (.removed, { s with
        rejected := s.rejected.deleteWhere (·.2.clientUuid = clientUuid)
        undone := clientUuid :: s.undone.filter (· ≠ clientUuid) })

def discardRejected (s : Store β υ σ) (id : ℕ) : Option OutboxKind × Store β υ σ :=
  ((s.rejected.get? id).map (kindOf ·.kind), { s with rejected := s.rejected.delete id })

section Bouts

variable [DecidableEq β]

def discardBoutOf (s : Store β υ σ) (heldId : ℕ) : Store β υ σ :=
  match s.rejected.get? heldId with
  | none => s
  | some held =>
    { s with
      rejected := s.rejected.deleteWhere (·.2.matchId = held.matchId)
      outbox := s.outbox.deleteWhere (·.2.matchId = held.matchId) }

def boutsBehindHeldRow (s : Store β υ σ) : List β := s.rejected.rows.map (·.2.matchId)

/-! ## Retry -/

/-- A held row as the row that goes back, with the place it had. -/
def backInQueue (held : RejectedEntry β υ) (sequence : ℕ) : Option ℕ × OutboxEntry β υ :=
  let payload := { held.toOutboxEntry with lastError := none, attempts := 0 }
  (held.outboxId, if isTap held.toOutboxEntry then payload else { payload with sequence })

/-- The held rows a Retry of all puts back, in the order they were scored. -/
def curableRejected (s : Store β υ σ) : List (ℕ × RejectedEntry β υ) :=
  (s.rejected.rows.filter fun row => canSendAgain row.2).insertionSort
    fun a b => a.2.createdAt ≤ b.2.createdAt

/-- The number a held row takes from what was read. -/
def numberFor (nextByMatch : β → Option ℕ) (held : RejectedEntry β υ) : ℕ :=
  (nextByMatch held.matchId).getD held.sequence

/-- The transaction of `requeueRejected`. None: the store refused a write, and kept nothing. -/
@[grind =] def requeueEntries : List (ℕ × RejectedEntry β υ) → (β → Option ℕ) → Store β υ σ →
    Option (Store β υ σ)
  | [], _, s => some s
  | (id, entry) :: entries, nextByMatch, s =>
    if (s.rejected.get? id).isNone then requeueEntries entries nextByMatch s
    else
      let sequence := numberFor nextByMatch entry
      let nextByMatch := if isTap entry.toOutboxEntry then nextByMatch
        else Function.update nextByMatch entry.matchId (some (sequence + 1))
      let back := backInQueue entry sequence
      match s.outbox.add? back.1 back.2 with
      | none => none
      | some outbox =>
        requeueEntries entries nextByMatch
          { s with outbox := outbox, rejected := s.rejected.delete id }

/-- The transaction of `requeueRejectedEntry`. -/
def requeueEntry (s : Store β υ σ) (id : ℕ) (sequence : ℕ) : Option (Store β υ σ) :=
  match s.rejected.get? id with
  | none => some s
  | some current =>
    let back := backInQueue current sequence
    (s.outbox.add? back.1 back.2).map fun outbox =>
      { s with outbox := outbox, rejected := s.rejected.delete id }

end Bouts

end MyClash.Offline
