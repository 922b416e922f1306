import MyClash.Offline.SyncEngine

/-!
# The rows of a pass

What a pass has listed, and the row whose POST is out, stay the rows the tablet holds,
whatever the referee does meanwhile. Nothing of a bout is sent while the pass knows a
refused row of it.
-/

namespace MyClash.Offline

open KeyTable

universe u v

variable {β : Type u} {υ : Type v} {s s' : Store β υ (Option υ)} {order order' : BoutOrder β}
  {left : List (ℕ × OutboxEntry β υ)} {id : ℕ} {entry : OutboxEntry β υ}

/-- The row the tablet holds at a listed place is the listed one. -/
structure Remembered (s : Store β υ (Option υ)) (listed : ℕ × OutboxEntry β υ) : Prop where
  below : listed.1 < s.outbox.nextKey
  queued : ∀ row, (listed.1, row) ∈ s.outbox.rows → SameRow row listed.2
  held : ∀ held ∈ s.rejected.rows, held.2.outboxId = some listed.1 →
    SameRow held.2.toOutboxEntry listed.2

/-- Every bout that holds a refused row is known to. -/
def HeldNoted (s : Store β υ (Option υ)) (order : BoutOrder β) : Prop :=
  ∀ held ∈ s.rejected.rows, held.2.matchId ∈ order.held

theorem Remembered.keepsPlaces {listed : ℕ × OutboxEntry β υ} (h : Remembered s listed)
    (hPlaces : KeepsPlaces s s') : Remembered s' listed where
  below := h.below.trans_le hPlaces.nextKey
  queued row hRow := by
    rcases hPlaces.queued _ hRow with hOld | hNew | ⟨held, hHeld, hPlace, hSame⟩
    · exact h.queued row hOld
    · exact absurd h.below (Nat.not_lt.mpr hNew)
    · exact hSame.trans (h.held held hHeld hPlace)
  held held hHeld := h.held held (hPlaces.held held hHeld)

theorem HeldNoted.keepsPlaces (h : HeldNoted s order) (hPlaces : KeepsPlaces s s') :
    HeldNoted s' order :=
  fun held hHeld => h held (hPlaces.held held hHeld)

theorem remembered_queued (law : PlacesLaw s) {row : ℕ × OutboxEntry β υ}
    (hRow : row ∈ s.outbox.rows) : Remembered s row where
  below := s.outbox.below row hRow
  queued other hOther := by
    rw [Table.row_unique _ hOther hRow]
    exact SameRow.refl _
  held held hIn hPlace := absurd hPlace (law.remembered hRow held hIn)

/-! ## The undo -/

section Undo

variable [DecidableEq υ] {clientUuid : υ} {isOnItsWay : ℕ → Bool}

theorem keepsPlaces_takeOffTablet (s : Store β υ (Option υ)) (clientUuid : υ)
    (isOnItsWay : ℕ → Bool) : KeepsPlaces s (takeOffTablet s clientUuid isOnItsWay).2 := by
  unfold takeOffTablet
  split
  · exact KeepsPlaces.refl s
  · split
    · split
      · exact KeepsPlaces.refl s
      · exact keepsPlaces_remove List.filter_sublist rfl (List.Sublist.refl _) rfl
    · exact keepsPlaces_remove (List.Sublist.refl _) rfl List.filter_sublist rfl

theorem rows_of_takeOffTablet {row : ℕ × OutboxEntry β υ}
    (hRow : row ∈ (takeOffTablet s clientUuid isOnItsWay).2.outbox.rows) :
    row ∈ s.outbox.rows := by
  unfold takeOffTablet at hRow
  split at hRow
  · exact hRow
  · split at hRow
    · split at hRow
      · exact hRow
      · exact (Table.mem_delete.mp hRow).1
    · exact hRow

/-- The row on its way stays. -/
theorem stays_takeOffTablet (hWay : isOnItsWay id = true) (hRow : (id, entry) ∈ s.outbox.rows) :
    (id, entry) ∈ (takeOffTablet s clientUuid isOnItsWay).2.outbox.rows := by
  unfold takeOffTablet
  split
  · exact hRow
  · split
    · next id' _ _ =>
      split
      · exact hRow
      · next hNot =>
        refine Table.mem_delete.mpr ⟨hRow, ?_⟩
        rintro rfl
        exact hNot hWay
    · exact hRow

end Undo

section Acts

variable [DecidableEq β]

/-- A Retry takes no row off the queue. -/
theorem stays_requeueEntries {entries : List (ℕ × RejectedEntry β υ)}
    {nextByMatch : β → Option ℕ} (h : requeueEntries entries nextByMatch s = some s')
    {row : ℕ × OutboxEntry β υ} (hRow : row ∈ s.outbox.rows) : row ∈ s'.outbox.rows := by
  induction entries generalizing s nextByMatch with
  | nil =>
    obtain rfl := Option.some.inj h
    exact hRow
  | cons e entries ih =>
    simp only [requeueEntries] at h
    split at h
    · exact ih h hRow
    · split at h
      · cases h
      · next outbox hAdd =>
        obtain ⟨place, hOutbox⟩ := Table.mem_of_add? hAdd
        exact ih h ((hOutbox row).mpr (Or.inl hRow))

theorem stays_transaction {call : RetryCall β υ} (h : call.transaction s = some s')
    {row : ℕ × OutboxEntry β υ} (hRow : row ∈ s.outbox.rows) : row ∈ s'.outbox.rows := by
  cases call with
  | all entries unread nextByMatch =>
    cases unread with
    | cons => exact absurd h nofun
    | nil =>
      obtain rfl := Option.some.inj h
      cases hLoop : requeueEntries entries nextByMatch s with
      | none => exact hRow
      | some after => exact stays_requeueEntries hLoop hRow
  | found => exact absurd h nofun
  | numbered id matchId sequence =>
    obtain rfl := Option.some.inj h
    cases hWrite : requeueEntry s id sequence with
    | none => exact hRow
    | some after =>
      unfold requeueEntry at hWrite
      split at hWrite
      · obtain rfl := Option.some.inj hWrite
        exact hRow
      · obtain ⟨outbox, hAdd, rfl⟩ := Option.map_eq_some_iff.mp hWrite
        obtain ⟨place, hOutbox⟩ := Table.mem_of_add? hAdd
        exact (hOutbox row).mpr (Or.inl hRow)

/-- No act of the referee takes a row off the queue while no row of its bout is held. -/
theorem stays_act {t t' : Tablet β υ (Option υ)} {act : RefereeAct β υ}
    (h : act.apply t = some t') {row : ℕ × OutboxEntry β υ} (hRow : row ∈ t.store.outbox.rows)
    (hFree : ∀ held ∈ t.store.rejected.rows, held.2.matchId ≠ row.2.matchId) :
    row ∈ t'.store.outbox.rows := by
  cases act with
  | enqueue | press | roundPress | levelPress =>
    obtain rfl := Option.some.inj h
    exact Table.mem_push.mpr (Or.inl hRow)
  | listHeld | findHeld =>
    simp only [RefereeAct.apply] at h
    split at h <;> obtain rfl := Option.some.inj h <;> exact hRow
  | readNext call =>
    obtain ⟨asked, -, h⟩ := Option.bind_eq_some_iff.mp h
    obtain ⟨read, -, rfl⟩ := Option.map_eq_some_iff.mp h
    exact hRow
  | requeue call =>
    obtain ⟨asked, -, h⟩ := Option.bind_eq_some_iff.mp h
    obtain ⟨store, hStore, rfl⟩ := Option.map_eq_some_iff.mp h
    exact stays_transaction hStore hRow
  | discard id =>
    obtain rfl := Option.some.inj h
    exact hRow
  | discardBout heldId =>
    obtain rfl := Option.some.inj h
    unfold discardBoutOf
    split
    · exact hRow
    · next held hHeld =>
      have hBout := hFree _ ((Table.get?_eq_some_iff _).mp hHeld)
      exact Table.mem_deleteWhere.mpr ⟨hRow, decide_eq_false hBout.symm⟩

/-! ## The order -/

theorem waits_eq_none (h : order.waits entry = none) :
    entry.matchId ∉ order.held ∧ (isTap entry = true → order.unsent entry.matchId = none) := by
  unfold BoutOrder.waits at h
  split at h
  · exact absurd h nofun
  · next hHeld =>
    refine ⟨hHeld, fun hTap => ?_⟩
    split at h
    · next hUnsent => exact hUnsent
    · simp [hTap] at h

theorem held_note (outcome : Filed) : ∀ matchId ∈ order.held,
    matchId ∈ (order.note entry outcome).held := by
  intro matchId hHeld
  cases outcome with
  | held => exact List.mem_cons_of_mem _ hHeld
  | _ => exact hHeld

/-! ## The law of the rows -/

/-- What holds of the rows of a pass between two of its steps. -/
def PassRows (s : Store β υ (Option υ)) : Pass β υ → Prop
  | .idle => True
  | .listed pending => ∀ listed ∈ pending, Remembered s listed
  | .walking order left _ => (∀ listed ∈ left, Remembered s listed) ∧ HeldNoted s order
  | .sending order _ entry left _ (.filed outcome) =>
    (∀ listed ∈ left, Remembered s listed) ∧ HeldNoted s (order.note entry outcome)
  | .sending order id entry left _ _ =>
    (∀ listed ∈ (id, entry) :: left, Remembered s listed) ∧ HeldNoted s order ∧
      order.waits entry = none ∧ ∃ row, (id, row) ∈ s.outbox.rows

theorem passRows_sending {failures : ℕ} {stage : Stage υ} (hStage : stage.isFiled = false) :
    PassRows s (.sending order id entry left failures stage) ↔
      (∀ listed ∈ (id, entry) :: left, Remembered s listed) ∧ HeldNoted s order ∧
        order.waits entry = none ∧ ∃ row, (id, row) ∈ s.outbox.rows := by
  cases stage with
  | filed => exact absurd hStage nofun
  | _ => rfl

theorem passRows_afterRow (h : (∀ listed ∈ left, Remembered s listed) ∧ HeldNoted s order)
    (failures : ℕ) (failed : Bool) : PassRows s (afterRow order left failures failed) := by
  unfold afterRow
  dsimp only
  generalize (if failed then failures + 1 else 0) = failures'
  split
  · trivial
  · exact h

theorem passRows_nextRow (h : (∀ listed ∈ left, Remembered s listed) ∧ HeldNoted s order)
    (failures : ℕ) : PassRows s (nextRow s order left failures) := by
  unfold nextRow
  split
  · trivial
  · next id entry left =>
    obtain ⟨hAll, hNoted⟩ := h
    have hLeft : ∀ listed ∈ left, Remembered s listed := fun listed hIn =>
      hAll listed (List.mem_cons_of_mem _ hIn)
    split
    · exact ⟨hLeft, hNoted⟩
    · exact ⟨hLeft, hNoted⟩
    · have hAfter : HeldNoted s (order.note entry .offline) := hNoted
      exact passRows_afterRow ⟨hLeft, hAfter⟩ ..
    · next hWaits =>
      split
      · next hClaim =>
        obtain ⟨row, hRow⟩ := Option.isSome_iff_exists.mp hClaim
        exact ⟨hAll, hNoted, hWaits, row, (Table.get?_eq_some_iff _).mp hRow⟩
      · exact ⟨hLeft, hNoted⟩

theorem passRows_afterFiled {outcome : Filed} (h : (∀ listed ∈ left, Remembered s listed) ∧
    HeldNoted s (order.note entry outcome)) (failures : ℕ) :
    PassRows s (afterFiled order entry left failures outcome) := by
  unfold afterFiled
  split
  · trivial
  · exact passRows_afterRow h ..

omit [DecidableEq β] in
/-- Rows the pass has left once one was filed. -/
theorem Remembered.filing [DecidableEq υ] {named : Option υ → Prop} {stage' : Stage υ}
    {listed : ℕ × OutboxEntry β υ} (h : Remembered s listed)
    (hFiling : Filing named s id entry stage' s') : Remembered s' listed := by
  have hDelete : Remembered (dropSentPress s id) listed :=
    h.keepsPlaces (keepsPlaces_remove List.filter_sublist rfl (List.Sublist.refl _) rfl)
  cases hFiling with
  | tapTaken hTap => exact hDelete
  | taken sequence serverId hId => exact ⟨hDelete.below, hDelete.queued, hDelete.held⟩
  | held reason code =>
    unfold quarantine
    split
    · exact h
    · next row hRow =>
      have hMem := (Table.get?_eq_some_iff _).mp hRow
      refine ⟨hDelete.below, hDelete.queued, fun held hHeld hPlace => ?_⟩
      rcases Table.mem_push.mp hHeld with hOld | rfl
      · exact h.held held hOld hPlace
      · obtain rfl : id = listed.1 := Option.some.inj hPlace
        exact h.queued row hMem
  | waits outcome error hOutcome =>
    refine ⟨h.below, fun row hRow => ?_, h.held⟩
    obtain ⟨old, hOld, hEq⟩ := Table.mem_modify.mp hRow
    have hSame : SameRow row old := by
      dsimp only at hEq
      rw [hEq]
      split
      · exact ⟨rfl, rfl, rfl⟩
      · exact SameRow.refl _
    exact hSame.trans (h.queued old hOld)
  | stopped => exact h
  | refused first => exact h

/-- A refused row of the bout is noted as it is held. -/
theorem HeldNoted.filing [DecidableEq υ] {named : Option υ → Prop} {outcome : Filed}
    (h : HeldNoted s order) (hEntry : Remembered s (id, entry))
    (hFiling : Filing named s id entry (.filed outcome) s') :
    HeldNoted s' (order.note entry outcome) := by
  cases hFiling with
  | held reason code =>
    unfold quarantine
    split
    · exact fun held hHeld => held_note .held _ (h held hHeld)
    · next row hRow =>
      intro held hHeld
      rcases Table.mem_push.mp hHeld with hOld | rfl
      · exact held_note .held _ (h held hOld)
      · have hSame := hEntry.queued row ((Table.get?_eq_some_iff _).mp hRow)
        exact List.mem_cons.mpr (Or.inl hSame.matchId)
  | tapTaken | taken | stopped => exact h
  | waits outcome error hOutcome =>
    exact fun held hHeld => held_note outcome _ (h held hHeld)

/-! ## The engine -/

structure EngineRows (e : Engine β υ) : Prop where
  pass : PassRows e.store e.pass
  calls : CallsKnown e.tablet
  places : PlacesLaw e.store

theorem PassRows.keepsPlaces {pass : Pass β υ} (h : PassRows s pass) (hPlaces : KeepsPlaces s s')
    (hStays : ∀ order id entry left failures stage,
      pass = .sending order id entry left failures stage → stage.isFiled = false →
      ∀ row, (id, row) ∈ s.outbox.rows → (∀ held ∈ s.rejected.rows, held.2.matchId ≠ row.matchId) →
      (id, row) ∈ s'.outbox.rows) : PassRows s' pass := by
  cases pass with
  | idle => trivial
  | listed pending => exact fun listed hIn => (h listed hIn).keepsPlaces hPlaces
  | walking order left failures =>
    exact ⟨fun listed hIn => (h.1 listed hIn).keepsPlaces hPlaces, h.2.keepsPlaces hPlaces⟩
  | sending order id entry left failures stage =>
    cases hStage : stage.isFiled with
    | false =>
      obtain ⟨hAll, hNoted, hWaits, row, hRow⟩ := (passRows_sending hStage).mp h
      refine (passRows_sending hStage).mpr ⟨fun listed hIn => (hAll listed hIn).keepsPlaces hPlaces,
        hNoted.keepsPlaces hPlaces, hWaits, row, ?_⟩
      refine hStays _ _ _ _ _ _ rfl hStage row hRow fun held hHeld hBout => ?_
      have hSame := (hAll _ List.mem_cons_self).queued row hRow
      rw [hSame.matchId] at hBout
      exact (waits_eq_none hWaits).1 (hBout ▸ hNoted held hHeld)
    | true =>
      cases stage with
      | filed outcome =>
        exact ⟨fun listed hIn => (h.1 listed hIn).keepsPlaces hPlaces, h.2.keepsPlaces hPlaces⟩
      | _ => exact absurd hStage nofun

omit [DecidableEq β] in
theorem callsKnown_keepsPlaces {calls : List (RetryCall β υ)}
    (hCalls : ∀ call ∈ calls, call.Known s.rejected) (hPlaces : KeepsPlaces s s') :
    ∀ call ∈ calls, call.Known s'.rejected := fun call hCall =>
  (hCalls call hCall).mono hPlaces.nextHeld.ge fun held hHeld => Or.inl (hPlaces.held held hHeld)

omit [DecidableEq β] in
theorem callsKnown_filing [DecidableEq υ] {named : Option υ → Prop} {stage' : Stage υ}
    {calls : List (RetryCall β υ)} (hCalls : ∀ call ∈ calls, call.Known s.rejected)
    (hFiling : Filing named s id entry stage' s') : ∀ call ∈ calls, call.Known s'.rejected := by
  cases hFiling with
  | held reason code =>
    unfold quarantine
    split
    · exact hCalls
    · intro call hCall
      refine (hCalls call hCall).mono (Nat.le_succ _) fun held hHeld => ?_
      rcases Table.mem_push.mp hHeld with hOld | rfl
      · exact Or.inl hOld
      · exact Or.inr le_rfl
  | _ => exact hCalls

omit [DecidableEq β] in
theorem PlacesLaw.filing [DecidableEq υ] {named : Option υ → Prop} {stage' : Stage υ}
    (law : PlacesLaw s) (hFiling : Filing named s id entry stage' s') : PlacesLaw s' := by
  have hDelete : KeepsPlaces s (dropSentPress s id) :=
    keepsPlaces_remove List.filter_sublist rfl (List.Sublist.refl _) rfl
  cases hFiling with
  | tapTaken hTap => exact hDelete.law law
  | taken sequence serverId hId =>
    obtain ⟨hApart, hBelow⟩ := hDelete.law law
    exact ⟨hApart, hBelow⟩
  | held reason code => exact law.quarantine id reason code
  | waits outcome error hOutcome => exact law.of_perm (by rw [places_markFailed]) le_rfl
  | stopped => exact law
  | refused first => exact law

theorem EngineRows.step [DecidableEq υ] {e e' : Engine β υ} {event : EngineEvent β υ}
    (law : EngineRows e) (hMove : EngineMove e event e') : EngineRows e' := by
  obtain ⟨hPass, hCalls, hPlaces⟩ := law
  cases hMove with
  | referee act tablet hAct =>
    have hKeeps := keepsPlaces_act hCalls hAct
    refine ⟨hPass.keepsPlaces hKeeps ?_, callsKnown_act hCalls hAct, hKeeps.law hPlaces⟩
    intro order id entry left failures stage _ _ row hRow hFree
    exact stays_act hAct hRow hFree
  | takeBack clientUuid =>
    have hKeeps := keepsPlaces_takeOffTablet e.store clientUuid fun id => e.sendingId = some id
    refine ⟨hPass.keepsPlaces hKeeps ?_, callsKnown_keepsPlaces hCalls hKeeps, hKeeps.law hPlaces⟩
    intro order id entry left failures stage hSending _ row hRow _
    exact stays_takeOffTablet (decide_eq_true (by rw [Engine.sendingId, hSending])) hRow
  | empty hIdle => exact ⟨trivial, hCalls, hPlaces⟩
  | list hIdle => exact ⟨fun _ h => remembered_queued hPlaces h, hCalls, hPlaces⟩
  | readHeld pending hListed =>
    rw [hListed] at hPass
    exact ⟨⟨hPass, fun held hHeld => List.mem_map_of_mem hHeld⟩, hCalls, hPlaces⟩
  | next order left failures hWalking =>
    rw [hWalking] at hPass
    exact ⟨passRows_nextRow hPass failures, hCalls, hPlaces⟩
  | within _ order id entry left failures stage stage' _ hSending hStage hStage' =>
    rw [hSending] at hPass
    exact ⟨(passRows_sending hStage').mpr ((passRows_sending hStage).mp hPass), hCalls, hPlaces⟩
  | filing _ order id entry left failures stage stage' store _ hSending hStage hFiling =>
    rw [hSending] at hPass
    obtain ⟨hAll, hNoted, hWaits, hRow⟩ := (passRows_sending hStage).mp hPass
    refine ⟨?_, callsKnown_filing hCalls hFiling, hPlaces.filing hFiling⟩
    have hLeft : ∀ listed ∈ left, Remembered store listed := fun listed hIn =>
      (hAll listed (List.mem_cons_of_mem _ hIn)).filing hFiling
    rcases hFiling.filed_or_refused with ⟨outcome, rfl⟩ | ⟨first, rfl, rfl⟩
    · exact ⟨hLeft, hNoted.filing (hAll _ List.mem_cons_self) hFiling⟩
    · exact ⟨hAll, hNoted, hWaits, hRow⟩
  | noted order id entry left failures outcome hSending =>
    rw [hSending] at hPass
    exact ⟨passRows_afterFiled hPass failures, hCalls, hPlaces⟩
  | abort => exact ⟨trivial, hCalls, hPlaces⟩

theorem engineRows_empty : EngineRows (Engine.empty : Engine β υ) where
  pass := trivial
  calls := nofun
  places := ⟨List.nodup_nil, nofun⟩

end Acts

end MyClash.Offline
