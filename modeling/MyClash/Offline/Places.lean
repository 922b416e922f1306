import MyClash.Offline.Tablet

/-!
# The places of the rows

A row keeps its place for as long as the tablet holds it, in the queue or in the inbox.
What the referee does adds rows at the end of the queue, or puts a held one back.
-/

namespace MyClash.Offline

open KeyTable

universe u v w

variable {β : Type u} {υ : Type v} {σ : Type w}

/-- Two copies of one row: a send and a Retry change its counters, never these. -/
structure SameRow (a b : OutboxEntry β υ) : Prop where
  clientUuid : a.clientUuid = b.clientUuid
  matchId : a.matchId = b.matchId
  kind : a.kind = b.kind

theorem SameRow.refl (a : OutboxEntry β υ) : SameRow a a := ⟨rfl, rfl, rfl⟩

theorem SameRow.trans {a b c : OutboxEntry β υ} (h : SameRow a b) (h' : SameRow b c) :
    SameRow a c :=
  ⟨h.clientUuid.trans h'.clientUuid, h.matchId.trans h'.matchId, h.kind.trans h'.kind⟩

theorem SameRow.isTap {a b : OutboxEntry β υ} (h : SameRow a b) : isTap a = isTap b := by
  simp only [Offline.isTap, h.kind]

theorem sameRow_backInQueue (held : RejectedEntry β υ) (sequence : ℕ) :
    SameRow (backInQueue held sequence).2 held.toOutboxEntry := by
  unfold backInQueue
  split <;> exact ⟨rfl, rfl, rfl⟩

/-- The places the tablet holds: of the queued rows, and the ones the held rows go back to. -/
def places (s : Store β υ σ) : List ℕ :=
  s.outbox.rows.map Prod.fst ++ s.rejected.rows.filterMap (·.2.outboxId)

structure PlacesLaw (s : Store β υ σ) : Prop where
  apart : (places s).Nodup
  below : ∀ place ∈ places s, place < s.outbox.nextKey

/-- Every queued row stood at its place, is new at the end, or was held from that place. -/
structure KeepsPlaces (s s' : Store β υ σ) : Prop where
  queued : ∀ row ∈ s'.outbox.rows, row ∈ s.outbox.rows ∨ s.outbox.nextKey ≤ row.1 ∨
    ∃ held ∈ s.rejected.rows, held.2.outboxId = some row.1 ∧ SameRow row.2 held.2.toOutboxEntry
  held : ∀ held ∈ s'.rejected.rows, held ∈ s.rejected.rows
  nextKey : s.outbox.nextKey ≤ s'.outbox.nextKey
  nextHeld : s'.rejected.nextKey = s.rejected.nextKey
  law : PlacesLaw s → PlacesLaw s'

theorem KeepsPlaces.refl (s : Store β υ σ) : KeepsPlaces s s where
  queued _ h := Or.inl h
  held _ h := h
  nextKey := le_rfl
  nextHeld := rfl
  law h := h

theorem KeepsPlaces.trans {s₁ s₂ s₃ : Store β υ σ} (h : KeepsPlaces s₁ s₂)
    (h' : KeepsPlaces s₂ s₃) : KeepsPlaces s₁ s₃ where
  queued row hRow := by
    rcases h'.queued row hRow with hOld | hNew | ⟨held, hHeld, hBack⟩
    · exact h.queued row hOld
    · exact Or.inr (Or.inl (h.nextKey.trans hNew))
    · exact Or.inr (Or.inr ⟨held, h.held held hHeld, hBack⟩)
  held held hHeld := h.held held (h'.held held hHeld)
  nextKey := h.nextKey.trans h'.nextKey
  nextHeld := h'.nextHeld.trans h.nextHeld
  law hLaw := h'.law (h.law hLaw)

variable {s s' : Store β υ σ}

theorem PlacesLaw.of_perm (law : PlacesLaw s) (hPerm : (places s').Perm (places s))
    (hKey : s.outbox.nextKey ≤ s'.outbox.nextKey) : PlacesLaw s' where
  apart := hPerm.nodup_iff.mpr law.apart
  below place hPlace := (law.below place (hPerm.mem_iff.mp hPlace)).trans_le hKey

/-- A row at the end of the queue takes a place no row has had. -/
theorem PlacesLaw.of_new (law : PlacesLaw s)
    (hPerm : (places s').Perm (s.outbox.nextKey :: places s))
    (hKey : s.outbox.nextKey < s'.outbox.nextKey) : PlacesLaw s' where
  apart := by
    refine hPerm.nodup_iff.mpr (List.nodup_cons.mpr ⟨fun hIn => ?_, law.apart⟩)
    exact (law.below _ hIn).ne rfl
  below place hPlace := by
    rcases List.mem_cons.mp (hPerm.mem_iff.mp hPlace) with rfl | hOld
    · exact hKey
    · exact (law.below place hOld).trans hKey

theorem keepsPlaces_push (s : Store β υ σ) (row : OutboxEntry β υ) :
    KeepsPlaces s { s with outbox := s.outbox.push row } where
  queued a ha := by
    rcases Table.mem_push.mp ha with ha | rfl
    · exact Or.inl ha
    · exact Or.inr (Or.inl le_rfl)
  held _ h := h
  nextKey := Nat.le_succ _
  nextHeld := rfl
  law hLaw := by
    refine hLaw.of_new ?_ (Nat.lt_succ_self _)
    simp only [places, Table.push, List.map_append, List.map_singleton, List.append_assoc]
    exact List.perm_middle

/-- Rows that leave move no other row. -/
theorem keepsPlaces_remove (hOutbox : s'.outbox.rows.Sublist s.outbox.rows)
    (hKey : s'.outbox.nextKey = s.outbox.nextKey)
    (hHeld : s'.rejected.rows.Sublist s.rejected.rows)
    (hNext : s'.rejected.nextKey = s.rejected.nextKey) : KeepsPlaces s s' where
  queued row hRow := Or.inl (hOutbox.subset hRow)
  held _ h := hHeld.subset h
  nextKey := hKey.ge
  nextHeld := hNext
  law hLaw := by
    have hPlaces : (places s').Sublist (places s) := (hOutbox.map _).append (hHeld.filterMap _)
    exact ⟨hPlaces.nodup hLaw.apart, fun place h => hKey ▸ hLaw.below place (hPlaces.subset h)⟩

/-- One held row goes back. -/
theorem keepsPlaces_back {id : ℕ} {held : RejectedEntry β υ} {sequence : ℕ}
    {outbox : Table (OutboxEntry β υ)} (hHeld : (id, held) ∈ s.rejected.rows)
    (hAdd : s.outbox.add? (backInQueue held sequence).1 (backInQueue held sequence).2 =
      some outbox) :
    KeepsPlaces s { s with outbox := outbox, rejected := s.rejected.delete id } := by
  obtain ⟨place, hPerm, hKey, hPlace⟩ := Table.perm_add? hAdd
  have hBelow : place < outbox.nextKey := outbox.below _ (hPerm.mem_iff.mpr List.mem_cons_self)
  have hPlaces := (hPerm.map Prod.fst).append_right ((s.rejected.delete id).rows.filterMap
    (·.2.outboxId))
  have hOld := (((s.rejected.perm_delete hHeld).filterMap (·.2.outboxId)).append_left
    (s.outbox.rows.map Prod.fst))
  refine ⟨fun row hRow => ?_, fun _ h => (Table.mem_delete.mp h).1, hKey, rfl, fun hLaw => ?_⟩
  · rcases List.mem_cons.mp (hPerm.mem_iff.mp hRow) with rfl | hRow
    · rcases hPlace with hPlace | ⟨-, rfl⟩
      · exact Or.inr (Or.inr ⟨(id, held), hHeld, hPlace, sameRow_backInQueue held sequence⟩)
      · exact Or.inr (Or.inl le_rfl)
    · exact Or.inl hRow
  · rcases hPlace with hPlace | ⟨hNone, rfl⟩
    · have hBack : held.outboxId = some place := hPlace
      simp only [List.filterMap_cons, hBack] at hOld
      exact hLaw.of_perm (hPlaces.trans (List.perm_middle.symm.trans hOld.symm)) hKey
    · have hBack : held.outboxId = none := hNone
      simp only [List.filterMap_cons, hBack] at hOld
      exact hLaw.of_new (hPlaces.trans (hOld.symm.cons _)) hBelow

/-- A refused row keeps its place in the inbox. -/
theorem PlacesLaw.quarantine (law : PlacesLaw s) (id : ℕ) (reason : String)
    (code : Option String) : PlacesLaw (quarantine s id reason code) := by
  unfold Offline.quarantine
  split
  · exact law
  · next entry hEntry =>
    have hDelete := s.outbox.perm_delete ((Table.get?_eq_some_iff _).mp hEntry)
    refine law.of_perm ?_ le_rfl
    simp only [places, Table.push, List.filterMap_append]
    refine List.Perm.trans ?_ ((hDelete.map Prod.fst).append_right _).symm
    rw [← List.append_assoc]
    exact List.perm_append_singleton _ _

theorem places_markFailed (s : Store β υ σ) (id : ℕ) (error : String) :
    places (markFailed s id error) = places s := by
  simp only [places, markFailed, Table.modify, List.map_map]
  congr 1
  refine List.map_congr_left fun row _ => ?_
  dsimp only [Function.comp]
  split <;> rfl

theorem PlacesLaw.remembered (law : PlacesLaw s) {row : ℕ × OutboxEntry β υ}
    (hRow : row ∈ s.outbox.rows) : ∀ held ∈ s.rejected.rows, held.2.outboxId ≠ some row.1 := by
  intro held hHeld hPlace
  have hApart := (List.nodup_append.mp law.apart).2.2
  exact hApart _ (List.mem_map_of_mem hRow) _ (List.mem_filterMap.mpr ⟨held, hHeld, hPlace⟩) rfl

variable [DecidableEq β]

/-! ## A Retry of all works on a list it read earlier -/

/-- The rows a Retry of all listed are the held ones still there under their ids. -/
def EntriesKnown (rejected : Table (RejectedEntry β υ)) (entries : List (ℕ × RejectedEntry β υ)) :
    Prop :=
  ∀ e ∈ entries, e.1 < rejected.nextKey ∧ ∀ held, (e.1, held) ∈ rejected.rows → held = e.2

omit [DecidableEq β] in
theorem EntriesKnown.mono {rejected rejected' : Table (RejectedEntry β υ)}
    {entries : List (ℕ × RejectedEntry β υ)} (h : EntriesKnown rejected entries)
    (hNext : rejected.nextKey ≤ rejected'.nextKey)
    (hRows : ∀ held ∈ rejected'.rows, held ∈ rejected.rows ∨ rejected.nextKey ≤ held.1) :
    EntriesKnown rejected' entries := by
  intro e he
  obtain ⟨hKey, hSame⟩ := h e he
  refine ⟨hKey.trans_le hNext, fun held hHeld => ?_⟩
  rcases hRows _ hHeld with hOld | hNew
  · exact hSame held hOld
  · exact absurd hKey (Nat.not_lt.mpr hNew)

theorem keepsPlaces_requeueEntries {entries : List (ℕ × RejectedEntry β υ)}
    {nextByMatch : β → Option ℕ} (hKnown : EntriesKnown s.rejected entries)
    (h : requeueEntries entries nextByMatch s = some s') : KeepsPlaces s s' := by
  induction entries generalizing s nextByMatch with
  | nil =>
    obtain rfl := Option.some.inj h
    exact KeepsPlaces.refl s
  | cons e entries ih =>
    obtain ⟨id, entry⟩ := e
    simp only [requeueEntries] at h
    split at h
    · exact ih (fun e he => hKnown e (List.mem_cons_of_mem _ he)) h
    · next hGone =>
      obtain ⟨held, hHeld⟩ := Option.ne_none_iff_exists'.mp (by simpa using hGone)
      have hMem := (Table.get?_eq_some_iff _).mp hHeld
      obtain rfl := (hKnown _ List.mem_cons_self).2 held hMem
      split at h
      · cases h
      · next outbox hAdd =>
        have hBack := keepsPlaces_back hMem hAdd
        have hRest : EntriesKnown (s.rejected.delete id) entries :=
          EntriesKnown.mono (fun e he => hKnown e (List.mem_cons_of_mem _ he)) le_rfl
            fun _ h => Or.inl (Table.mem_delete.mp h).1
        exact hBack.trans (ih hRest h)

omit [DecidableEq β] in
theorem keepsPlaces_requeueEntry {id sequence : ℕ} (h : requeueEntry s id sequence = some s') :
    KeepsPlaces s s' := by
  unfold requeueEntry at h
  split at h
  · obtain rfl := Option.some.inj h
    exact KeepsPlaces.refl s
  · next held hHeld =>
    obtain ⟨outbox, hAdd, rfl⟩ := Option.map_eq_some_iff.mp h
    exact keepsPlaces_back ((Table.get?_eq_some_iff _).mp hHeld) hAdd

/-! ## Every act of the referee -/

def RetryCall.Known (rejected : Table (RejectedEntry β υ)) : RetryCall β υ → Prop
  | .all entries _ _ => EntriesKnown rejected entries
  | .found _ _ => True
  | .numbered _ _ _ => True

def CallsKnown (t : Tablet β υ σ) : Prop :=
  ∀ call ∈ t.calls, call.Known t.store.rejected

omit [DecidableEq β] in
theorem RetryCall.Known.mono {rejected rejected' : Table (RejectedEntry β υ)}
    {call : RetryCall β υ} (h : call.Known rejected) (hNext : rejected.nextKey ≤ rejected'.nextKey)
    (hRows : ∀ held ∈ rejected'.rows, held ∈ rejected.rows ∨ rejected.nextKey ≤ held.1) :
    call.Known rejected' := by
  cases call with
  | all => exact EntriesKnown.mono h hNext hRows
  | found => trivial
  | numbered => trivial

omit [DecidableEq β] in
theorem entriesKnown_curableRejected (s : Store β υ σ) :
    EntriesKnown s.rejected (curableRejected s) := by
  intro e he
  have hMem : e ∈ s.rejected.rows :=
    (List.mem_filter.mp ((List.mem_insertionSort _).mp he)).1
  exact ⟨s.rejected.below e hMem, fun held hHeld => Table.row_unique _ hHeld hMem⟩

theorem keepsPlaces_transaction {call : RetryCall β υ} (hKnown : call.Known s.rejected)
    (h : call.transaction s = some s') : KeepsPlaces s s' := by
  cases call with
  | all entries unread nextByMatch =>
    cases unread with
    | cons => exact absurd h nofun
    | nil =>
      obtain rfl := Option.some.inj h
      cases hLoop : requeueEntries entries nextByMatch s with
      | none => exact KeepsPlaces.refl s
      | some after => exact keepsPlaces_requeueEntries hKnown hLoop
  | found => exact absurd h nofun
  | numbered id matchId sequence =>
    obtain rfl := Option.some.inj h
    cases hWrite : requeueEntry s id sequence with
    | none => exact KeepsPlaces.refl s
    | some after => exact keepsPlaces_requeueEntry hWrite

theorem keepsPlaces_act {t t' : Tablet β υ σ} {act : RefereeAct β υ} (hKnown : CallsKnown t)
    (h : act.apply t = some t') : KeepsPlaces t.store t'.store := by
  cases act with
  | enqueue entry now =>
    obtain rfl := Option.some.inj h
    exact keepsPlaces_push ..
  | press clientUuid matchId at' =>
    obtain rfl := Option.some.inj h
    exact keepsPlaces_push ..
  | roundPress clientUuid matchId action round at' =>
    obtain rfl := Option.some.inj h
    exact keepsPlaces_push ..
  | levelPress clientUuid matchId round at' =>
    obtain rfl := Option.some.inj h
    exact keepsPlaces_push ..
  | listHeld =>
    simp only [RefereeAct.apply] at h
    split at h <;> obtain rfl := Option.some.inj h <;> exact KeepsPlaces.refl _
  | findHeld id =>
    simp only [RefereeAct.apply] at h
    split at h <;> obtain rfl := Option.some.inj h <;> exact KeepsPlaces.refl _
  | readNext call =>
    obtain ⟨asked, -, h⟩ := Option.bind_eq_some_iff.mp h
    obtain ⟨read, -, rfl⟩ := Option.map_eq_some_iff.mp h
    exact KeepsPlaces.refl _
  | requeue call =>
    obtain ⟨asked, hAsked, h⟩ := Option.bind_eq_some_iff.mp h
    obtain ⟨store, hStore, rfl⟩ := Option.map_eq_some_iff.mp h
    exact keepsPlaces_transaction (hKnown asked (List.mem_of_getElem? hAsked)) hStore
  | discard id =>
    obtain rfl := Option.some.inj h
    exact keepsPlaces_remove (List.Sublist.refl _) rfl List.filter_sublist rfl
  | discardBout heldId =>
    obtain rfl := Option.some.inj h
    unfold discardBoutOf
    split
    · exact KeepsPlaces.refl _
    · exact keepsPlaces_remove List.filter_sublist rfl List.filter_sublist rfl

/-- All but a Retry's transaction adds rows at the end of the queue only. -/
theorem atEnd_act {t t' : Tablet β υ σ} {act : RefereeAct β υ} (h : act.apply t = some t')
    (hRetry : ∀ call, act ≠ .requeue call) : ∀ row ∈ t'.store.outbox.rows,
      row ∈ t.store.outbox.rows ∨ t.store.outbox.nextKey ≤ row.1 := by
  have hPush : ∀ (entry : OutboxEntry β υ), ∀ row ∈ (t.store.outbox.push entry).rows,
      row ∈ t.store.outbox.rows ∨ t.store.outbox.nextKey ≤ row.1 := by
    intro entry row hRow
    rcases Table.mem_push.mp hRow with hOld | rfl
    · exact Or.inl hOld
    · exact Or.inr le_rfl
  cases act with
  | enqueue | press | roundPress | levelPress =>
    obtain rfl := Option.some.inj h
    exact hPush _
  | listHeld | findHeld =>
    simp only [RefereeAct.apply] at h
    split at h <;> obtain rfl := Option.some.inj h <;> exact fun _ h => Or.inl h
  | readNext call =>
    obtain ⟨asked, -, h⟩ := Option.bind_eq_some_iff.mp h
    obtain ⟨read, -, rfl⟩ := Option.map_eq_some_iff.mp h
    exact fun _ h => Or.inl h
  | requeue call => exact absurd rfl (hRetry call)
  | discard id =>
    obtain rfl := Option.some.inj h
    exact fun _ h => Or.inl h
  | discardBout heldId =>
    obtain rfl := Option.some.inj h
    unfold discardBoutOf
    split
    · exact fun _ h => Or.inl h
    · exact fun _ h => Or.inl (Table.mem_deleteWhere.mp h).1

/-- What a call read stays true of the held rows. -/
theorem callsKnown_act {t t' : Tablet β υ σ} {act : RefereeAct β υ} (hKnown : CallsKnown t)
    (h : act.apply t = some t') : CallsKnown t' := by
  have hPlaces := keepsPlaces_act hKnown h
  have hKept : ∀ call ∈ t.calls, call.Known t'.store.rejected := fun call hCall =>
    (hKnown call hCall).mono hPlaces.nextHeld.ge fun held hHeld => Or.inl (hPlaces.held held hHeld)
  cases act with
  | enqueue | press | roundPress | levelPress | discard | discardBout =>
    obtain rfl := Option.some.inj h
    exact hKept
  | listHeld =>
    simp only [RefereeAct.apply] at h
    split at h
    · obtain rfl := Option.some.inj h
      exact hKept
    · obtain rfl := Option.some.inj h
      exact List.forall_mem_cons.mpr ⟨entriesKnown_curableRejected t.store, hKept⟩
  | findHeld id =>
    simp only [RefereeAct.apply] at h
    split at h
    · obtain rfl := Option.some.inj h
      exact hKept
    · obtain rfl := Option.some.inj h
      exact List.forall_mem_cons.mpr ⟨trivial, hKept⟩
  | readNext call =>
    obtain ⟨asked, hAsked, h⟩ := Option.bind_eq_some_iff.mp h
    obtain ⟨read, hRead, rfl⟩ := Option.map_eq_some_iff.mp h
    intro other hOther
    rcases List.mem_or_eq_of_mem_set hOther with hOld | rfl
    · exact hKept other hOld
    · have hOld := hKept asked (List.mem_of_getElem? hAsked)
      cases asked with
      | all entries unread nextByMatch =>
        cases unread with
        | nil => exact absurd hRead nofun
        | cons matchId unread =>
          obtain rfl := Option.some.inj hRead
          exact hOld
      | found id matchId =>
        obtain rfl := Option.some.inj hRead
        trivial
      | numbered => exact absurd hRead nofun
  | requeue call =>
    obtain ⟨asked, hAsked, h⟩ := Option.bind_eq_some_iff.mp h
    obtain ⟨store, hStore, rfl⟩ := Option.map_eq_some_iff.mp h
    exact fun other hOther => hKept other (List.mem_of_mem_eraseIdx hOther)

end MyClash.Offline
