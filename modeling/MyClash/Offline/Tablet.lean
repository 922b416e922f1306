import Mathlib.Data.List.Dedup
import MyClash.Offline.Store

/-!
# What the referee does to the store

The presses of the bout screen and of the inbox, transaction by transaction. A Retry
reads before it opens its transaction, so it stands here as a call under way.
-/

namespace MyClash.Offline

open KeyTable

universe u v w

variable {β : Type u} {υ : Type v} {σ : Type w}

/-- A Retry under way: what it read outside its transaction. -/
inductive RetryCall (β : Type u) (υ : Type v) where
  /-- `requeueRejected`: the rows it listed, the bouts whose next number it still reads. -/
  | all (entries : List (ℕ × RejectedEntry β υ)) (unread : List β) (nextByMatch : β → Option ℕ)
  /-- `requeueRejectedEntry`, with the bout of its row. -/
  | found (id : ℕ) (matchId : β)
  | numbered (id : ℕ) (matchId : β) (sequence : ℕ)

structure Tablet (β : Type u) (υ : Type v) (σ : Type w) where
  store : Store β υ σ
  calls : List (RetryCall β υ)

def Tablet.empty : Tablet β υ σ := ⟨Store.empty, []⟩

inductive RefereeAct (β : Type u) (υ : Type v) where
  | enqueue (entry : OutboxEntry β υ) (now : ℕ)
  | press (clientUuid : υ) (matchId : β) (at' : ℕ)
  | roundPress (clientUuid : υ) (matchId : β) (action : RoundPress) (round at' : ℕ)
  | levelPress (clientUuid : υ) (matchId : β) (round at' : ℕ)
  | listHeld
  | findHeld (id : ℕ)
  | readNext (call : ℕ)
  | requeue (call : ℕ)
  | discard (id : ℕ)
  | discardBout (heldId : ℕ)

variable [DecidableEq β]

/-- A call after it read the next number of one bout. -/
def RetryCall.readNext (s : Store β υ σ) : RetryCall β υ → Option (RetryCall β υ)
  | .all entries (matchId :: unread) nextByMatch =>
    some (.all entries unread
      (Function.update nextByMatch matchId (some (nextSequence s matchId))))
  | .all _ [] _ => none
  | .found id matchId => some (.numbered id matchId (nextSequence s matchId))
  | .numbered _ _ _ => none

/-- The transaction of a call that has read all it reads; a refused one keeps nothing. -/
def RetryCall.transaction (s : Store β υ σ) : RetryCall β υ → Option (Store β υ σ)
  | .all entries [] nextByMatch => some ((requeueEntries entries nextByMatch s).getD s)
  | .all _ (_ :: _) _ => none
  | .found _ _ => none
  | .numbered id _ sequence => some ((requeueEntry s id sequence).getD s)

def RefereeAct.apply (t : Tablet β υ σ) : RefereeAct β υ → Option (Tablet β υ σ)
  | .enqueue entry now => some { t with store := Offline.enqueue t.store entry now }
  | .press clientUuid matchId at' =>
    some { t with store := queuePress t.store clientUuid matchId at' }
  | .roundPress clientUuid matchId action round at' =>
    some { t with store := queueRoundPress t.store clientUuid matchId action round at' }
  | .levelPress clientUuid matchId round at' =>
    some { t with store := queueLevelPress t.store clientUuid matchId round at' }
  | .listHeld =>
    let entries := curableRejected t.store
    if entries = [] then some t
    else
      let bouts := (entries.map (·.2.matchId)).dedup
      some { t with calls := .all entries bouts (fun _ => none) :: t.calls }
  | .findHeld id =>
    match t.store.rejected.get? id with
    | none => some t
    | some entry => some { t with calls := .found id entry.matchId :: t.calls }
  | .readNext call =>
    t.calls[call]?.bind fun asked => (asked.readNext t.store).map fun read =>
      { t with calls := t.calls.set call read }
  | .requeue call =>
    t.calls[call]?.bind fun asked => (asked.transaction t.store).map fun store =>
      ⟨store, t.calls.eraseIdx call⟩
  | .discard id => some { t with store := (discardRejected t.store id).2 }
  | .discardBout heldId => some { t with store := discardBoutOf t.store heldId }

end MyClash.Offline
