import MyClash.Library.Run
import MyClash.Offline.Tablet

/-!
# The numbers of a bout's hits and cards

`enqueue` reads the next number inside its transaction. A Retry and a second try read it
before theirs, so a number they read may be given to another row first.
-/

namespace MyClash.Offline

open KeyTable Runs

universe u v w

variable {β : Type u} {υ : Type v} {σ : Type w} {s s' : Store β υ σ}

/-! ## The law of the numbers -/

/-- Two hits or cards of one bout never wait under one number, nor under a taken one. -/
structure SequenceLaw (s : Store β υ σ) : Prop where
  queued : ∀ a ∈ s.outbox.rows, ∀ b ∈ s.outbox.rows, isTap a.2 = false → isTap b.2 = false →
    a.2.matchId = b.2.matchId → a.1 ≠ b.1 → a.2.sequence ≠ b.2.sequence
  taken : ∀ a ∈ s.outbox.rows, isTap a.2 = false →
    ∀ e ∈ s.synced, e.matchId = a.2.matchId → e.sequence ≠ a.2.sequence

/-- No hit or card of the bout in the queue, and no taken number of it, has reached `n`. -/
structure Unreached (s : Store β υ σ) (matchId : β) (n : ℕ) : Prop where
  queued : ∀ a ∈ s.outbox.rows, isTap a.2 = false → a.2.matchId = matchId → a.2.sequence < n
  taken : ∀ e ∈ s.synced, e.matchId = matchId → e.sequence < n

theorem SequenceLaw.mono (law : SequenceLaw s) (hOutbox : ∀ a ∈ s'.outbox.rows, a ∈ s.outbox.rows)
    (hSynced : s'.synced = s.synced) : SequenceLaw s' where
  queued a ha b hb := law.queued a (hOutbox a ha) b (hOutbox b hb)
  taken a ha := by
    rw [hSynced]
    exact law.taken a (hOutbox a ha)

theorem Unreached.mono {matchId : β} {n n' : ℕ} (h : Unreached s matchId n) (hn : n ≤ n') :
    Unreached s matchId n' where
  queued a ha hTap hBout := (h.queued a ha hTap hBout).trans_le hn
  taken e he hBout := (h.taken e he hBout).trans_le hn

/-- What a row must meet to join the queue. -/
def Joins (s : Store β υ σ) (row : OutboxEntry β υ) : Prop :=
  isTap row = false → Unreached s row.matchId row.sequence

theorem SequenceLaw.join (law : SequenceLaw s) {place : ℕ} {row : OutboxEntry β υ}
    (hOutbox : ∀ a, a ∈ s'.outbox.rows ↔ a ∈ s.outbox.rows ∨ a = (place, row))
    (hSynced : s'.synced = s.synced) (hRow : Joins s row) : SequenceLaw s' where
  queued a ha b hb hTapA hTapB hBout hKey := by
    rcases (hOutbox a).mp ha with ha | rfl <;> rcases (hOutbox b).mp hb with hb | rfl
    · exact law.queued a ha b hb hTapA hTapB hBout hKey
    · exact ((hRow hTapB).queued a ha hTapA hBout).ne
    · exact ((hRow hTapA).queued b hb hTapB hBout.symm).ne'
    · exact absurd rfl hKey
  taken a ha hTap e he hBout := by
    rw [hSynced] at he
    rcases (hOutbox a).mp ha with ha | rfl
    · exact law.taken a ha hTap e he hBout
    · exact ((hRow hTap).taken e he hBout).ne

/-! ## The next number -/

theorem le_maxOf {numbers : List ℕ} {n : ℕ} (h : n ∈ numbers) : n ≤ maxOf numbers := by
  have hFold : ∀ (l : List ℕ) (start : ℕ), start ≤ l.foldl max start ∧
      ∀ n ∈ l, n ≤ l.foldl max start := by
    intro l
    induction l with
    | nil => exact fun start => ⟨le_rfl, nofun⟩
    | cons m l ih =>
      intro start
      obtain ⟨hStart, hMem⟩ := ih (max start m)
      refine ⟨(le_max_left start m).trans hStart, ?_⟩
      intro n hn
      rcases List.mem_cons.mp hn with rfl | hn
      · exact (le_max_right start n).trans hStart
      · exact hMem n hn
  exact (hFold numbers 0).2 n h

variable [DecidableEq β]

/-- The number read is above every number of the bout on the tablet. -/
theorem unreached_nextSequence (s : Store β υ σ) (matchId : β) :
    Unreached s matchId (nextSequence s matchId) where
  queued a ha _ hBout := by
    have hMem : a ∈ s.outbox.rows.filter (·.2.matchId = matchId) :=
      List.mem_filter.mpr ⟨ha, decide_eq_true hBout⟩
    have hLe := le_maxOf (List.mem_map_of_mem (f := (·.2.sequence)) hMem)
    exact Nat.lt_succ_of_le (hLe.trans (le_max_left _ _))
  taken e he hBout := by
    have hMem : e ∈ s.synced.filter (·.matchId = matchId) :=
      List.mem_filter.mpr ⟨he, decide_eq_true hBout⟩
    have hLe := le_maxOf (List.mem_map_of_mem (f := (·.sequence)) hMem)
    exact Nat.lt_succ_of_le (hLe.trans (le_max_right _ _))

theorem SequenceLaw.enqueue (law : SequenceLaw s) (entry : OutboxEntry β υ) (now : ℕ) :
    SequenceLaw (enqueue s entry now) :=
  law.join (fun _ => Table.mem_push) rfl fun _ =>
    (unreached_nextSequence s entry.matchId).mono (le_max_right _ _)

omit [DecidableEq β] in
theorem SequenceLaw.queueTap (law : SequenceLaw s) {kind : OutboxKind} (hKind : kind = .press ∨
    kind = .round ∨ kind = .level) (clientUuid : υ) (matchId : β) (round : Option ℕ)
    (roundAction : Option RoundPress) (at' : ℕ) :
    SequenceLaw (queueTap kind s clientUuid matchId round roundAction at') := by
  refine law.join (fun _ => Table.mem_push) rfl fun hTap => ?_
  rcases hKind with rfl | rfl | rfl <;> exact absurd hTap nofun

omit [DecidableEq β] in
theorem SequenceLaw.quarantine (law : SequenceLaw s) (id : ℕ) (reason : String)
    (code : Option String) : SequenceLaw (quarantine s id reason code) := by
  unfold Offline.quarantine
  split
  · exact law
  · exact law.mono (fun a ha => (Table.mem_delete.mp ha).1) rfl

omit [DecidableEq β] in
theorem SequenceLaw.discard (law : SequenceLaw s) (id : ℕ) :
    SequenceLaw (discardRejected s id).2 :=
  law.mono (fun _ ha => ha) rfl

theorem SequenceLaw.discardBout (law : SequenceLaw s) (heldId : ℕ) :
    SequenceLaw (discardBoutOf s heldId) := by
  unfold discardBoutOf
  split
  · exact law
  · exact law.mono (fun a ha => (Table.mem_deleteWhere.mp ha).1) rfl

/-! ## A Retry under a number nothing has reached -/

omit [DecidableEq β] in
theorem backInQueue_matchId (held : RejectedEntry β υ) (sequence : ℕ) :
    (backInQueue held sequence).2.matchId = held.matchId := by
  unfold backInQueue
  split <;> rfl

omit [DecidableEq β] in
theorem isTap_backInQueue (held : RejectedEntry β υ) (sequence : ℕ) :
    isTap (backInQueue held sequence).2 = isTap held.toOutboxEntry := by
  unfold backInQueue
  split <;> rfl

omit [DecidableEq β] in
theorem backInQueue_sequence {held : RejectedEntry β υ} (hTap : isTap held.toOutboxEntry = false)
    (sequence : ℕ) : (backInQueue held sequence).2.sequence = sequence := by
  simp [backInQueue, hTap]

omit [DecidableEq β] in
theorem joins_backInQueue {held : RejectedEntry β υ} {sequence : ℕ}
    (h : isTap held.toOutboxEntry = false → Unreached s held.matchId sequence) :
    Joins s (backInQueue held sequence).2 := by
  intro hTap
  rw [isTap_backInQueue] at hTap
  rw [backInQueue_matchId, backInQueue_sequence hTap]
  exact h hTap

omit [DecidableEq β] in
theorem SequenceLaw.requeueEntry (law : SequenceLaw s) {id sequence : ℕ}
    (hNumber : ∀ held, s.rejected.get? id = some held → isTap held.toOutboxEntry = false →
      Unreached s held.matchId sequence) (h : requeueEntry s id sequence = some s') :
    SequenceLaw s' := by
  unfold Offline.requeueEntry at h
  split at h
  · obtain rfl := Option.some.inj h
    exact law
  · next held hHeld =>
    obtain ⟨outbox, hAdd, rfl⟩ := Option.map_eq_some_iff.mp h
    obtain ⟨place, hOutbox⟩ := Table.mem_of_add? hAdd
    exact law.join hOutbox rfl (joins_backInQueue (hNumber held hHeld))

/-- The numbers a Retry of all is about to give are above what the store holds. -/
def NumbersUnreached (s : Store β υ σ) (entries : List (ℕ × RejectedEntry β υ))
    (nextByMatch : β → Option ℕ) : Prop :=
  ∀ e ∈ entries, (s.rejected.get? e.1).isSome → isTap e.2.toOutboxEntry = false →
    Unreached s e.2.matchId (numberFor nextByMatch e.2)

omit [DecidableEq β] in
theorem held_of_held_delete {rejected : Table (RejectedEntry β υ)} {id key : ℕ}
    (h : ((rejected.delete id).get? key).isSome) : (rejected.get? key).isSome := by
  obtain ⟨held, hHeld⟩ := Option.isSome_iff_exists.mp h
  have hMem := Table.mem_delete.mp ((Table.get?_eq_some_iff _).mp hHeld)
  rw [(Table.get?_eq_some_iff _).mpr hMem.1]
  rfl

/-- One row of the loop: the numbers left to give stay above what the store holds. -/
theorem NumbersUnreached.tail {id : ℕ} {entry : RejectedEntry β υ}
    {entries : List (ℕ × RejectedEntry β υ)} {nextByMatch : β → Option ℕ}
    {outbox : Table (OutboxEntry β υ)}
    (h : NumbersUnreached s ((id, entry) :: entries) nextByMatch)
    (hHeld : (s.rejected.get? id).isSome)
    (hAdd : s.outbox.add? (backInQueue entry (numberFor nextByMatch entry)).1
      (backInQueue entry (numberFor nextByMatch entry)).2 = some outbox) :
    NumbersUnreached { s with outbox := outbox, rejected := s.rejected.delete id } entries
      (if isTap entry.toOutboxEntry then nextByMatch
        else Function.update nextByMatch entry.matchId
          (some (numberFor nextByMatch entry + 1))) := by
  intro e he hStill hTapE
  obtain ⟨place, hOutbox⟩ := Table.mem_of_add? hAdd
  have hBefore := h e (List.mem_cons_of_mem _ he) (held_of_held_delete hStill) hTapE
  cases hTap : isTap entry.toOutboxEntry with
  | true =>
    refine ⟨fun a ha hTapA hBout => ?_, hBefore.taken⟩
    rcases (hOutbox a).mp ha with ha | rfl
    · exact hBefore.queued a ha hTapA hBout
    · rw [isTap_backInQueue, hTap] at hTapA
      exact absurd hTapA nofun
  | false =>
    have hHead := h _ List.mem_cons_self hHeld hTap
    by_cases hSame : e.2.matchId = entry.matchId
    · -- the row just put back took the number, so the next one is one higher
      have hNumber : numberFor (Function.update nextByMatch entry.matchId
          (some (numberFor nextByMatch entry + 1))) e.2 = numberFor nextByMatch entry + 1 := by
        simp [numberFor, hSame]
      rw [if_neg Bool.false_ne_true, hNumber, hSame]
      refine ⟨fun a ha hTapA hBout => ?_, (hHead.mono (Nat.le_succ _)).taken⟩
      rcases (hOutbox a).mp ha with ha | rfl
      · exact (hHead.mono (Nat.le_succ _)).queued a ha hTapA hBout
      · rw [backInQueue_sequence hTap]
        exact Nat.lt_succ_self _
    · have hNumber : numberFor (Function.update nextByMatch entry.matchId
          (some (numberFor nextByMatch entry + 1))) e.2 = numberFor nextByMatch e.2 := by
        simp [numberFor, Function.update_of_ne hSame]
      rw [if_neg Bool.false_ne_true, hNumber]
      refine ⟨fun a ha hTapA hBout => ?_, hBefore.taken⟩
      rcases (hOutbox a).mp ha with ha | rfl
      · exact hBefore.queued a ha hTapA hBout
      · rw [backInQueue_matchId] at hBout
        exact absurd hBout.symm hSame

theorem SequenceLaw.requeueEntries {entries : List (ℕ × RejectedEntry β υ)}
    {nextByMatch : β → Option ℕ} (law : SequenceLaw s)
    (hNumbers : NumbersUnreached s entries nextByMatch)
    (h : requeueEntries entries nextByMatch s = some s') : SequenceLaw s' := by
  induction entries generalizing s nextByMatch with
  | nil =>
    obtain rfl := Option.some.inj h
    exact law
  | cons e entries ih =>
    obtain ⟨id, entry⟩ := e
    simp only [Offline.requeueEntries] at h
    split at h
    · exact ih law (fun e he => hNumbers e (List.mem_cons_of_mem _ he)) h
    · next hGone =>
      have hHeld : (s.rejected.get? id).isSome := by simpa [Option.isSome_iff_ne_none] using hGone
      split at h
      · cases h
      · next outbox hAdd =>
        obtain ⟨place, hOutbox⟩ := Table.mem_of_add? hAdd
        have hJoins := joins_backInQueue (hNumbers _ List.mem_cons_self hHeld)
        have hNext : SequenceLaw { s with outbox := outbox, rejected := s.rejected.delete id } :=
          law.join hOutbox rfl hJoins
        exact ih hNext (hNumbers.tail hHeld hAdd) h

/-! ## The filing of a send -/

omit [DecidableEq β] in
/-- A row filed under the number it waits under. -/
theorem SequenceLaw.markSynced_own [DecidableEq υ] (law : SequenceLaw s) {id : ℕ}
    {entry : OutboxEntry β υ} (hEntry : (id, entry) ∈ s.outbox.rows) (hTap : isTap entry = false)
    (clientUuid : υ) (serverId : σ) :
    SequenceLaw (markSynced s id clientUuid entry.matchId entry.sequence serverId) where
  queued a ha b hb := law.queued a (Table.mem_delete.mp ha).1 b (Table.mem_delete.mp hb).1
  taken a ha hTapA e he hBout := by
    obtain ⟨ha, hKey⟩ := Table.mem_delete.mp ha
    rcases List.mem_append.mp he with he | he
    · exact law.taken a ha hTapA e (List.mem_filter.mp he).1 hBout
    · obtain rfl := List.mem_singleton.mp he
      exact law.queued (id, entry) hEntry a ha hTap hTapA hBout hKey.symm

omit [DecidableEq β] in
/-- A row filed under a number nothing of its bout has reached. -/
theorem SequenceLaw.markSynced_fresh [DecidableEq υ] (law : SequenceLaw s) {matchId : β}
    {sequence : ℕ} (hFresh : Unreached s matchId sequence) (id : ℕ) (clientUuid : υ)
    (serverId : σ) : SequenceLaw (markSynced s id clientUuid matchId sequence serverId) where
  queued a ha b hb := law.queued a (Table.mem_delete.mp ha).1 b (Table.mem_delete.mp hb).1
  taken a ha hTapA e he hBout := by
    obtain ⟨ha, -⟩ := Table.mem_delete.mp ha
    rcases List.mem_append.mp he with he | he
    · exact law.taken a ha hTapA e (List.mem_filter.mp he).1 hBout
    · obtain rfl := List.mem_singleton.mp he
      exact (hFresh.queued a ha hTapA hBout.symm).ne'

/-! ## The queue, transaction by transaction -/

/-- A hit or a card whose POST is out, as the send listed it, and the number it is filed under. -/
structure Send (β : Type u) (υ : Type v) where
  id : ℕ
  entry : OutboxEntry β υ
  sequence : ℕ

structure Queue (β : Type u) (υ : Type v) (σ : Type w) where
  tablet : Tablet β υ σ
  /-- The rows a send has listed. -/
  listed : List (ℕ × OutboxEntry β υ)
  sends : List (Send β υ)

def Queue.empty : Queue β υ σ := ⟨Tablet.empty, [], []⟩

def Queue.store (q : Queue β υ σ) : Store β υ σ := q.tablet.store

inductive QueueEvent (β : Type u) (υ : Type v) (σ : Type w) where
  | referee (act : RefereeAct β υ)
  | getAllPending
  | claimForSend (listed : ℕ)
  | freshSequence (send : ℕ) (serverMax : ℕ)
  | markSynced (send : ℕ) (serverId : σ)
  | quarantine (id : ℕ) (reason : String) (code : Option String)

/-- The queue after an event; none where nothing of the kind is under way. -/
def QueueEvent.apply [DecidableEq υ] (q : Queue β υ σ) : QueueEvent β υ σ → Option (Queue β υ σ)
  | .referee act => (act.apply q.tablet).map fun tablet => { q with tablet := tablet }
  | .getAllPending => some { q with listed := q.store.outbox.rows }
  | .claimForSend listed =>
    q.listed[listed]?.bind fun (id, entry) =>
      if Offline.claimForSend q.store id ∧ isTap entry = false then
        some { q with sends := ⟨id, entry, entry.sequence⟩ :: q.sends }
      else none
  | .freshSequence send serverMax =>
    q.sends[send]?.map fun sent =>
      let sequence := max (serverMax + 1) (nextSequence q.store sent.entry.matchId)
      { q with sends := q.sends.set send { sent with sequence := sequence } }
  | .markSynced send serverId =>
    q.sends[send]?.map fun sent =>
      { q with
        tablet.store := Offline.markSynced q.store sent.id sent.entry.clientUuid sent.entry.matchId
          sent.sequence serverId
        sends := q.sends.eraseIdx send }
  | .quarantine id reason code =>
    some { q with tablet.store := Offline.quarantine q.store id reason code }

/-- The numbers a Retry read are above what the store holds when it writes. -/
def RetryCall.Current (s : Store β υ σ) : RetryCall β υ → Prop
  | .all entries _ nextByMatch => NumbersUnreached s entries nextByMatch
  | .found _ _ => True
  | .numbered id _ sequence => ∀ held ∈ s.rejected.get? id,
    isTap held.toOutboxEntry = false → Unreached s held.matchId sequence

/-- The row still waits under the number it is filed under, or nothing has reached that number. -/
def Send.Current (s : Store β υ σ) (sent : Send β υ) : Prop :=
  (∃ row ∈ s.outbox.rows, row.1 = sent.id ∧ isTap row.2 = false ∧
    row.2.matchId = sent.entry.matchId ∧ row.2.sequence = sent.sequence) ∨
  Unreached s sent.entry.matchId sent.sequence

def NumbersCurrent (m : Move (Queue β υ σ) (QueueEvent β υ σ)) : Prop :=
  match m.event with
  | .referee (.requeue call) => ∀ asked ∈ m.before.tablet.calls[call]?, asked.Current m.before.store
  | .markSynced send _ => ∀ sent ∈ m.before.sends[send]?, sent.Current m.before.store
  | _ => True

section Decide

instance (s : Store β υ σ) (matchId : β) (n : ℕ) : Decidable (Unreached s matchId n) :=
  decidable_of_iff ((∀ a ∈ s.outbox.rows, isTap a.2 = false → a.2.matchId = matchId →
      a.2.sequence < n) ∧ ∀ e ∈ s.synced, e.matchId = matchId → e.sequence < n)
    ⟨fun h => ⟨h.1, h.2⟩, fun h => ⟨h.queued, h.taken⟩⟩

instance (s : Store β υ σ) (call : RetryCall β υ) : Decidable (call.Current s) :=
  match call with
  | .all entries _ nextByMatch =>
    inferInstanceAs (Decidable (∀ e ∈ entries, (s.rejected.get? e.1).isSome →
      isTap e.2.toOutboxEntry = false → Unreached s e.2.matchId (numberFor nextByMatch e.2)))
  | .found _ _ => inferInstanceAs (Decidable True)
  | .numbered id _ sequence => inferInstanceAs (Decidable (∀ held ∈ s.rejected.get? id,
      isTap held.toOutboxEntry = false → Unreached s held.matchId sequence))

instance (s : Store β υ σ) (sent : Send β υ) : Decidable (sent.Current s) :=
  inferInstanceAs (Decidable (_ ∨ _))

instance (m : Move (Queue β υ σ) (QueueEvent β υ σ)) : Decidable (NumbersCurrent m) := by
  unfold NumbersCurrent
  split <;> infer_instance

end Decide

theorem SequenceLaw.transaction {call : RetryCall β υ} (law : SequenceLaw s)
    (hCurrent : call.Current s) (h : call.transaction s = some s') : SequenceLaw s' := by
  cases call with
  | all entries unread nextByMatch =>
    cases unread with
    | cons => exact absurd h nofun
    | nil =>
      obtain rfl := Option.some.inj h
      cases hLoop : Offline.requeueEntries entries nextByMatch s with
      | none => exact law
      | some after => exact law.requeueEntries hCurrent hLoop
  | found => exact absurd h nofun
  | numbered id matchId sequence =>
    obtain rfl := Option.some.inj h
    cases hWrite : Offline.requeueEntry s id sequence with
    | none => exact law
    | some after => exact law.requeueEntry hCurrent hWrite

theorem SequenceLaw.act {t t' : Tablet β υ σ} {act : RefereeAct β υ} (law : SequenceLaw t.store)
    (hCurrent : ∀ call, act = .requeue call → ∀ asked, t.calls[call]? = some asked →
      asked.Current t.store) (h : act.apply t = some t') : SequenceLaw t'.store := by
  cases act with
  | enqueue entry now =>
    obtain rfl := Option.some.inj h
    exact law.enqueue entry now
  | press clientUuid matchId at' =>
    obtain rfl := Option.some.inj h
    exact law.queueTap (Or.inl rfl) ..
  | roundPress clientUuid matchId action round at' =>
    obtain rfl := Option.some.inj h
    exact law.queueTap (Or.inr (Or.inl rfl)) ..
  | levelPress clientUuid matchId round at' =>
    obtain rfl := Option.some.inj h
    exact law.queueTap (Or.inr (Or.inr rfl)) ..
  | listHeld =>
    simp only [RefereeAct.apply] at h
    split at h <;> obtain rfl := Option.some.inj h <;> exact law
  | findHeld id =>
    simp only [RefereeAct.apply] at h
    split at h <;> obtain rfl := Option.some.inj h <;> exact law
  | readNext call =>
    obtain ⟨asked, -, h⟩ := Option.bind_eq_some_iff.mp h
    obtain ⟨read, -, rfl⟩ := Option.map_eq_some_iff.mp h
    exact law
  | requeue call =>
    obtain ⟨asked, hAsked, h⟩ := Option.bind_eq_some_iff.mp h
    obtain ⟨store, hStore, rfl⟩ := Option.map_eq_some_iff.mp h
    exact law.transaction (hCurrent call rfl asked hAsked) hStore
  | discard id =>
    obtain rfl := Option.some.inj h
    exact law.discard id
  | discardBout heldId =>
    obtain rfl := Option.some.inj h
    exact law.discardBout heldId

theorem SequenceLaw.step [DecidableEq υ] {q q' : Queue β υ σ} {e : QueueEvent β υ σ}
    (law : SequenceLaw q.store) (hCurrent : NumbersCurrent ⟨q, e, q'⟩)
    (h : e.apply q = some q') : SequenceLaw q'.store := by
  cases e with
  | referee act =>
    obtain ⟨tablet, hAct, rfl⟩ := Option.map_eq_some_iff.mp h
    refine law.act ?_ hAct
    rintro call rfl
    exact hCurrent
  | getAllPending =>
    obtain rfl := Option.some.inj h
    exact law
  | claimForSend listed =>
    obtain ⟨⟨id, entry⟩, -, h⟩ := Option.bind_eq_some_iff.mp h
    dsimp only at h
    split at h
    · obtain rfl := Option.some.inj h
      exact law
    · exact absurd h nofun
  | freshSequence send serverMax =>
    obtain ⟨sent, -, rfl⟩ := Option.map_eq_some_iff.mp h
    exact law
  | markSynced send serverId =>
    obtain ⟨sent, hSent, rfl⟩ := Option.map_eq_some_iff.mp h
    rcases hCurrent sent hSent with ⟨row, hRow, hKey, hTap, hBout, hNumber⟩ | hFresh
    · have hFiled := law.markSynced_own hRow hTap sent.entry.clientUuid serverId
      rwa [hKey, hBout, hNumber] at hFiled
    · exact law.markSynced_fresh hFresh ..
  | quarantine id reason code =>
    obtain rfl := Option.some.inj h
    exact law.quarantine id reason code

/-! ## Runs of the queue -/

def queueStep [DecidableEq υ] (q : Queue β υ σ) (e : QueueEvent β υ σ) (q' : Queue β υ σ) : Prop :=
  e.apply q = some q'

omit [DecidableEq β] in
theorem sequenceLaw_empty : SequenceLaw (Store.empty : Store β υ σ) where
  queued _ ha := absurd ha (Table.not_mem_empty _)
  taken _ ha := absurd ha (Table.not_mem_empty _)

/-- Along a run whose Retries and second tries write under numbers nothing has reached since,
no two hits or cards of a bout ever share a number, nor take a taken one. -/
theorem sequences_apart [DecidableEq υ] {q : Queue β υ σ}
    {moves : List (Move (Queue β υ σ) (QueueEvent β υ σ))}
    (hRun : Run queueStep Queue.empty moves q) (hCurrent : ∀ m ∈ moves, NumbersCurrent m) :
    SequenceLaw q.store ∧ ∀ m ∈ moves, SequenceLaw m.before.store :=
  hRun.invariant_of_allowed (I := fun q => SequenceLaw q.store) NumbersCurrent hCurrent
    sequenceLaw_empty fun _ _ _ law hStep hAllowed => law.step hAllowed hStep

def hitOf (clientUuid : ℕ) : OutboxEntry ℕ ℕ :=
  ⟨some .exchange, clientUuid, 0, 1, none, none, 0, 0, none⟩

/-- A refused hit is put back, sent under its new number and filed, behind it a second hit. -/
def retriedHit : List (QueueEvent ℕ ℕ ℕ) :=
  [.referee (.enqueue (hitOf 1) 0), .getAllPending, .claimForSend 0, .freshSequence 0 3,
    .quarantine 1 "Round awaits advance" (some "round_awaits_advance"),
    .referee (.findHeld 1), .referee (.readNext 0), .referee (.requeue 0),
    .referee (.enqueue (hitOf 2) 1), .getAllPending, .claimForSend 0, .markSynced 0 7]

theorem sequences_apart_retriedHit : ∃ (q : Queue ℕ ℕ ℕ)
    (moves : List (Move (Queue ℕ ℕ ℕ) (QueueEvent ℕ ℕ ℕ))),
    moves.map (·.event) = retriedHit ∧ SequenceLaw q.store := by
  have hReplay : ∃ r, replay (fun q e => e.apply q) Queue.empty retriedHit = some r ∧
      (∀ m ∈ r.1, NumbersCurrent m) ∧ r.1.map (·.event) = retriedHit :=
    ⟨_, rfl, by decide, rfl⟩
  obtain ⟨⟨moves, q⟩, hRun, hCurrent, hEvents⟩ := hReplay
  exact ⟨q, moves, hEvents, (sequences_apart (run_of_replay hRun) hCurrent).1⟩

/-- The Retry reads the next number, a hit is scored and takes it, the Retry writes it. -/
def staleRetry : List (QueueEvent ℕ ℕ ℕ) :=
  [.referee (.enqueue (hitOf 1) 0),
    .quarantine 1 "Round awaits advance" (some "round_awaits_advance"),
    .referee (.findHeld 1), .referee (.readNext 0), .referee (.enqueue (hitOf 2) 1),
    .referee (.requeue 0)]

theorem requeueRejectedEntry_sharesNumber : ¬ ∀ (q : Queue ℕ ℕ ℕ)
    (moves : List (Move (Queue ℕ ℕ ℕ) (QueueEvent ℕ ℕ ℕ))), Run queueStep Queue.empty moves q →
    SequenceLaw q.store := by
  have hReplay : ∃ r, replay (fun q e => e.apply q) Queue.empty staleRetry = some r ∧
      ∃ a ∈ r.2.store.outbox.rows, ∃ b ∈ r.2.store.outbox.rows, isTap a.2 = false ∧
        isTap b.2 = false ∧ a.2.matchId = b.2.matchId ∧ a.1 ≠ b.1 ∧
        a.2.sequence = b.2.sequence :=
    ⟨_, rfl, by decide⟩
  obtain ⟨⟨moves, q⟩, hRun, a, ha, b, hb, hTapA, hTapB, hBout, hKey, hSequence⟩ := hReplay
  intro hLaw
  have law := hLaw q moves (run_of_replay hRun)
  exact law.queued a ha b hb hTapA hTapB hBout hKey hSequence

end MyClash.Offline
