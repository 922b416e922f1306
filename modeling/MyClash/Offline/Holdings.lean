import MyClash.Offline.PassRows

/-!
# What the tablet holds

Each row of the sheet by its uuid: in the queue, in the inbox, or filed as taken. A
transaction moves a row, adds one, or takes one off; none loses or doubles any.
-/

namespace MyClash.Offline

open KeyTable

universe u v

variable {β : Type u} {υ : Type v} {s s' : Store β υ (Option υ)}

/-- A row by its uuid, and whether it is a tap. -/
def tagOf (entry : OutboxEntry β υ) : υ × Bool := (entry.clientUuid, isTap entry)

/-- What the tablet holds or filed. -/
def holdings (s : Store β υ (Option υ)) : List (υ × Bool) :=
  s.outbox.rows.map (tagOf ·.2) ++ (s.rejected.rows.map (tagOf ·.2.toOutboxEntry) ++
    s.synced.map fun row => (row.clientUuid, false))

theorem SameRow.tagOf {a b : OutboxEntry β υ} (h : SameRow a b) : tagOf a = tagOf b :=
  Prod.ext h.clientUuid h.isTap

theorem holdings_push (s : Store β υ (Option υ)) (row : OutboxEntry β υ) :
    (holdings { s with outbox := s.outbox.push row }).Perm (tagOf row :: holdings s) := by
  simp only [holdings, Table.push, List.map_append, List.map_singleton, List.append_assoc]
  exact List.perm_middle

theorem holdings_back {id : ℕ} {held : RejectedEntry β υ} {sequence : ℕ}
    {outbox : Table (OutboxEntry β υ)} (hHeld : (id, held) ∈ s.rejected.rows)
    (hAdd : s.outbox.add? (backInQueue held sequence).1 (backInQueue held sequence).2 =
      some outbox) :
    (holdings { s with outbox := outbox, rejected := s.rejected.delete id }).Perm
      (holdings s) := by
  obtain ⟨place, hPerm, -, -⟩ := Table.perm_add? hAdd
  have hLeft := (hPerm.map (tagOf ·.2)).append_right
    ((s.rejected.delete id).rows.map (tagOf ·.2.toOutboxEntry) ++
      s.synced.map fun row => (row.clientUuid, false))
  have hRight := (((s.rejected.perm_delete hHeld).map (tagOf ·.2.toOutboxEntry)).append_right
    (s.synced.map fun row => (row.clientUuid, false))).append_left
      (s.outbox.rows.map (tagOf ·.2))
  refine hLeft.trans (List.Perm.trans ?_ hRight.symm)
  rw [List.map_cons, List.map_cons, (sameRow_backInQueue held sequence).tagOf]
  exact List.perm_middle.symm

section Transactions

variable [DecidableEq β]

theorem holdings_requeueEntries {entries : List (ℕ × RejectedEntry β υ)}
    {nextByMatch : β → Option ℕ} (hKnown : EntriesKnown s.rejected entries)
    (h : requeueEntries entries nextByMatch s = some s') : (holdings s').Perm (holdings s) := by
  induction entries generalizing s nextByMatch with
  | nil =>
    obtain rfl := Option.some.inj h
    exact List.Perm.refl _
  | cons e entries ih =>
    obtain ⟨id, entry⟩ := e
    simp only [requeueEntries] at h
    split at h
    · exact ih (fun e he => hKnown e (List.mem_cons_of_mem _ he)) h
    · next hGone =>
      obtain ⟨held, hHeld⟩ := Option.ne_none_iff_exists'.mp (by simpa using hGone)
      have hMem := (Table.get?_eq_some_iff _).mp hHeld
      obtain rfl := (hKnown _ List.mem_cons_self).2 held hMem
      split at h
      · cases h
      · next outbox hAdd =>
        have hRest : EntriesKnown (s.rejected.delete id) entries :=
          EntriesKnown.mono (fun e he => hKnown e (List.mem_cons_of_mem _ he)) le_rfl
            fun _ h => Or.inl (Table.mem_delete.mp h).1
        exact (ih hRest h).trans (holdings_back hMem hAdd)

/-- A Retry loses no row and doubles none. -/
theorem holdings_transaction {call : RetryCall β υ} (hKnown : call.Known s.rejected)
    (h : call.transaction s = some s') : (holdings s').Perm (holdings s) := by
  cases call with
  | all entries unread nextByMatch =>
    cases unread with
    | cons => exact absurd h nofun
    | nil =>
      obtain rfl := Option.some.inj h
      cases hLoop : requeueEntries entries nextByMatch s with
      | none => exact List.Perm.refl _
      | some after => exact holdings_requeueEntries hKnown hLoop
  | found => exact absurd h nofun
  | numbered id matchId sequence =>
    obtain rfl := Option.some.inj h
    cases hWrite : requeueEntry s id sequence with
    | none => exact List.Perm.refl _
    | some after =>
      unfold requeueEntry at hWrite
      split at hWrite
      · obtain rfl := Option.some.inj hWrite
        exact List.Perm.refl _
      · next held hHeld =>
        obtain ⟨outbox, hAdd, rfl⟩ := Option.map_eq_some_iff.mp hWrite
        exact holdings_back ((Table.get?_eq_some_iff _).mp hHeld) hAdd

omit [DecidableEq β] in
theorem holdings_delete {id : ℕ} {row : OutboxEntry β υ} (hRow : (id, row) ∈ s.outbox.rows) :
    (holdings s).Perm (tagOf row :: holdings (dropSentPress s id)) :=
  ((s.outbox.perm_delete hRow).map (tagOf ·.2)).append_right _

omit [DecidableEq β] in
theorem holdings_quarantine (s : Store β υ (Option υ)) (id : ℕ) (reason : String)
    (code : Option String) : (holdings (quarantine s id reason code)).Perm (holdings s) := by
  unfold quarantine
  split
  · exact List.Perm.refl _
  · next row hRow =>
    have hDelete := holdings_delete ((Table.get?_eq_some_iff _).mp hRow)
    refine List.Perm.trans ?_ hDelete.symm
    simp only [holdings, dropSentPress, Table.push, List.map_append, List.map_singleton]
    refine List.Perm.trans ?_ List.perm_middle
    exact ((List.perm_append_singleton _ _).append_right _).append_left _

omit [DecidableEq β] in
theorem holdings_markFailed (s : Store β υ (Option υ)) (id : ℕ) (error : String) :
    holdings (markFailed s id error) = holdings s := by
  simp only [holdings, markFailed, Table.modify, List.map_map]
  congr 1
  refine List.map_congr_left fun row _ => ?_
  dsimp only [Function.comp]
  split <;> rfl

omit [DecidableEq β] in
/-- Rows that leave the queue and the inbox: each holding stays, or is of a row that left. -/
theorem holdings_remove (s : Store β υ (Option υ)) (goneQueued : ℕ × OutboxEntry β υ → Bool)
    (goneHeld : ℕ × RejectedEntry β υ → Bool) (undone : List υ) (lost : υ → Prop)
    (hQueued : ∀ row ∈ s.outbox.rows, goneQueued row = true → lost row.2.clientUuid)
    (hHeld : ∀ row ∈ s.rejected.rows, goneHeld row = true → lost row.2.clientUuid) :
    (holdings ⟨s.outbox.deleteWhere goneQueued, s.synced, s.rejected.deleteWhere goneHeld,
        undone⟩).Sublist (holdings s) ∧
      ∀ row ∈ holdings s, row ∈ holdings ⟨s.outbox.deleteWhere goneQueued, s.synced,
        s.rejected.deleteWhere goneHeld, undone⟩ ∨ lost row.1 := by
  have hOutbox : (s.outbox.deleteWhere goneQueued).rows.Sublist s.outbox.rows :=
    List.filter_sublist
  have hRejected : (s.rejected.deleteWhere goneHeld).rows.Sublist s.rejected.rows :=
    List.filter_sublist
  refine ⟨(hOutbox.map _).append ((hRejected.map _).append (List.Sublist.refl _)), ?_⟩
  intro row hRow
  simp only [holdings, List.mem_append, List.mem_map] at hRow ⊢
  rcases hRow with ⟨queued, hIn, rfl⟩ | ⟨held, hIn, rfl⟩ | hFiled
  · cases hGone : goneQueued queued with
    | true => exact Or.inr (hQueued queued hIn hGone)
    | false => exact Or.inl (Or.inl ⟨queued, Table.mem_deleteWhere.mpr ⟨hIn, hGone⟩, rfl⟩)
  · cases hGone : goneHeld held with
    | true => exact Or.inr (hHeld held hIn hGone)
    | false =>
      exact Or.inl (Or.inr (Or.inl ⟨held, Table.mem_deleteWhere.mpr ⟨hIn, hGone⟩, rfl⟩))
  · exact Or.inl (Or.inr (Or.inr hFiled))

/-! ## What no act of the referee touches -/

structure SameFiled (s s' : Store β υ (Option υ)) : Prop where
  synced : s'.synced = s.synced
  undone : s'.undone = s.undone

theorem sameFiled_requeueEntries {entries : List (ℕ × RejectedEntry β υ)}
    {nextByMatch : β → Option ℕ} (h : requeueEntries entries nextByMatch s = some s') :
    SameFiled s s' := by
  induction entries generalizing s nextByMatch with
  | nil =>
    obtain rfl := Option.some.inj h
    exact ⟨rfl, rfl⟩
  | cons e entries ih =>
    simp only [requeueEntries] at h
    split at h
    · exact ih h
    · split at h
      · cases h
      · obtain ⟨hSynced, hUndone⟩ := ih h
        exact ⟨hSynced, hUndone⟩

theorem sameFiled_transaction {call : RetryCall β υ} (h : call.transaction s = some s') :
    SameFiled s s' := by
  cases call with
  | all entries unread nextByMatch =>
    cases unread with
    | cons => exact absurd h nofun
    | nil =>
      obtain rfl := Option.some.inj h
      cases hLoop : requeueEntries entries nextByMatch s with
      | none => exact ⟨rfl, rfl⟩
      | some after => exact sameFiled_requeueEntries hLoop
  | found => exact absurd h nofun
  | numbered id matchId sequence =>
    obtain rfl := Option.some.inj h
    cases hWrite : requeueEntry s id sequence with
    | none => exact ⟨rfl, rfl⟩
    | some after =>
      unfold requeueEntry at hWrite
      split at hWrite
      · obtain rfl := Option.some.inj hWrite
        exact ⟨rfl, rfl⟩
      · obtain ⟨outbox, -, rfl⟩ := Option.map_eq_some_iff.mp hWrite
        exact ⟨rfl, rfl⟩

theorem sameFiled_act {t t' : Tablet β υ (Option υ)} {act : RefereeAct β υ}
    (h : act.apply t = some t') : SameFiled t.store t'.store := by
  cases act with
  | enqueue | press | roundPress | levelPress | discard =>
    obtain rfl := Option.some.inj h
    exact ⟨rfl, rfl⟩
  | listHeld | findHeld =>
    simp only [RefereeAct.apply] at h
    split at h <;> obtain rfl := Option.some.inj h <;> exact ⟨rfl, rfl⟩
  | readNext call =>
    obtain ⟨asked, -, h⟩ := Option.bind_eq_some_iff.mp h
    obtain ⟨read, -, rfl⟩ := Option.map_eq_some_iff.mp h
    exact ⟨rfl, rfl⟩
  | requeue call =>
    obtain ⟨asked, -, h⟩ := Option.bind_eq_some_iff.mp h
    obtain ⟨store, hStore, rfl⟩ := Option.map_eq_some_iff.mp h
    exact sameFiled_transaction hStore
  | discardBout heldId =>
    obtain rfl := Option.some.inj h
    unfold discardBoutOf
    split <;> exact ⟨rfl, rfl⟩

end Transactions

/-! ## The books -/

/-- What the referee put on the sheet against what the tablet holds. -/
structure Books (held : List (υ × Bool)) (undone used made discarded : List υ) : Prop where
  apart : (held.map Prod.fst).Nodup
  given : ∀ row ∈ held, row.1 ∈ used
  taps : ∀ row ∈ held, row.2 = true → row.1 ∉ made
  madeGiven : ∀ clientUuid ∈ made, clientUuid ∈ used
  undoneGiven : ∀ clientUuid ∈ undone, clientUuid ∈ used
  kept : ∀ clientUuid ∈ made, clientUuid ∉ undone → clientUuid ∉ discarded →
    clientUuid ∈ held.map Prod.fst
  gone : ∀ clientUuid ∈ undone, clientUuid ∉ held.map Prod.fst

section Books

variable {held held' : List (υ × Bool)} {undone used made discarded lost : List υ}
  {clientUuid : υ} {tap : Bool}

theorem Books.of_perm (books : Books held undone used made discarded) (hPerm : held'.Perm held) :
    Books held' undone used made discarded where
  apart := (hPerm.map Prod.fst).nodup_iff.mpr books.apart
  given row hRow := books.given row (hPerm.mem_iff.mp hRow)
  taps row hRow := books.taps row (hPerm.mem_iff.mp hRow)
  madeGiven := books.madeGiven
  undoneGiven := books.undoneGiven
  kept u hMade hUndone hDiscarded :=
    (hPerm.map Prod.fst).mem_iff.mpr (books.kept u hMade hUndone hDiscarded)
  gone u hUndone hIn := books.gone u hUndone ((hPerm.map Prod.fst).mem_iff.mp hIn)

/-- A new row, under a uuid of its own. -/
theorem Books.new (books : Books held undone used made discarded)
    (hPerm : held'.Perm ((clientUuid, tap) :: held)) (hNew : clientUuid ∉ used) :
    Books held' undone (clientUuid :: used) ((if tap then [] else [clientUuid]) ++ made)
      discarded := by
  refine Books.of_perm ?_ hPerm
  have hFresh : clientUuid ∉ held.map Prod.fst := by
    intro hIn
    obtain ⟨row, hRow, rfl⟩ := List.mem_map.mp hIn
    exact hNew (books.given row hRow)
  have hMade : ∀ u ∈ (if tap then [] else [clientUuid]) ++ made, u = clientUuid ∨ u ∈ made := by
    intro u hu
    cases tap with
    | true => exact Or.inr hu
    | false => exact List.mem_cons.mp hu
  refine ⟨List.nodup_cons.mpr ⟨hFresh, books.apart⟩, ?_, ?_, ?_, ?_, ?_, ?_⟩
  · intro row hRow
    rcases List.mem_cons.mp hRow with rfl | hRow
    · exact List.mem_cons_self
    · exact List.mem_cons_of_mem _ (books.given row hRow)
  · intro row hRow hTap hIn
    rcases List.mem_cons.mp hRow with rfl | hRow
    · obtain rfl : tap = true := hTap
      exact hNew (books.madeGiven _ hIn)
    · rcases hMade _ hIn with hSame | hIn
      · exact hNew (hSame ▸ books.given row hRow)
      · exact books.taps row hRow hTap hIn
  · intro u hu
    rcases hMade u hu with rfl | hu
    · exact List.mem_cons_self
    · exact List.mem_cons_of_mem _ (books.madeGiven u hu)
  · exact fun u hu => List.mem_cons_of_mem _ (books.undoneGiven u hu)
  · intro u hu hUndone hDiscarded
    rcases hMade u hu with rfl | hu
    · exact List.mem_cons_self
    · exact List.mem_cons_of_mem _ (books.kept u hu hUndone hDiscarded)
  · intro u hUndone hIn
    rcases List.mem_cons.mp hIn with rfl | hIn
    · exact hNew (books.undoneGiven _ hUndone)
    · exact books.gone u hUndone hIn

/-- Rows that left by a Discard. -/
theorem Books.discard (books : Books held undone used made discarded)
    (hSub : held'.Sublist held) (hLost : ∀ row ∈ held, row ∈ held' ∨ row.1 ∈ lost) :
    Books held' undone used made (lost ++ discarded) where
  apart := (hSub.map Prod.fst).nodup books.apart
  given row hRow := books.given row (hSub.subset hRow)
  taps row hRow := books.taps row (hSub.subset hRow)
  madeGiven := books.madeGiven
  undoneGiven := books.undoneGiven
  kept u hMade hUndone hDiscarded := by
    obtain ⟨hNotLost, hDiscarded⟩ := not_or.mp (mt List.mem_append.mpr hDiscarded)
    obtain ⟨row, hRow, rfl⟩ := List.mem_map.mp (books.kept u hMade hUndone hDiscarded)
    exact List.mem_map_of_mem ((hLost row hRow).resolve_right hNotLost)
  gone u hUndone hIn := books.gone u hUndone ((hSub.map Prod.fst).subset hIn)

/-- The row of one uuid left by the undo. -/
theorem Books.undo [DecidableEq υ] (books : Books held undone used made discarded)
    (hSub : held'.Sublist held) (hLost : ∀ row ∈ held, row ∈ held' ∨ row.1 = clientUuid)
    (hGone : clientUuid ∉ held'.map Prod.fst) (hUsed : clientUuid ∈ used) :
    Books held' (clientUuid :: undone.filter (· ≠ clientUuid)) used made discarded where
  apart := (hSub.map Prod.fst).nodup books.apart
  given row hRow := books.given row (hSub.subset hRow)
  taps row hRow := books.taps row (hSub.subset hRow)
  madeGiven := books.madeGiven
  undoneGiven u hUndone := by
    rcases List.mem_cons.mp hUndone with rfl | hUndone
    · exact hUsed
    · exact books.undoneGiven u (List.mem_filter.mp hUndone).1
  kept u hMade hUndone hDiscarded := by
    obtain ⟨hNe, hUndone⟩ := not_or.mp (mt List.mem_cons.mpr hUndone)
    have hOld : u ∉ undone := fun hIn => hUndone (List.mem_filter.mpr ⟨hIn, decide_eq_true hNe⟩)
    obtain ⟨row, hRow, rfl⟩ := List.mem_map.mp (books.kept u hMade hOld hDiscarded)
    exact List.mem_map_of_mem ((hLost row hRow).resolve_right hNe)
  gone u hUndone hIn := by
    rcases List.mem_cons.mp hUndone with rfl | hUndone
    · exact hGone hIn
    · exact books.gone u (List.mem_filter.mp hUndone).1 ((hSub.map Prod.fst).subset hIn)

/-- A tap the server took leaves nothing behind. -/
theorem Books.dropTap (books : Books held undone used made discarded)
    (hPerm : held.Perm ((clientUuid, true) :: held')) :
    Books held' undone used made discarded := by
  have hOld := books.of_perm hPerm.symm
  refine ⟨(List.nodup_cons.mp hOld.apart).2, fun row hRow => ?_, fun row hRow => ?_,
    books.madeGiven, books.undoneGiven, fun u hMade hUndone hDiscarded => ?_,
    fun u hUndone hIn => ?_⟩
  · exact hOld.given row (List.mem_cons_of_mem _ hRow)
  · exact hOld.taps row (List.mem_cons_of_mem _ hRow)
  · rcases List.mem_cons.mp (hOld.kept u hMade hUndone hDiscarded) with rfl | hIn
    · exact absurd hMade (hOld.taps _ List.mem_cons_self rfl)
    · exact hIn
  · exact hOld.gone u hUndone (List.mem_cons_of_mem _ hIn)

/-- A row filed as taken stays the same uuid. -/
theorem Books.file {rest : List (υ × Bool)} (books : Books held undone used made discarded)
    (hPerm : held.Perm ((clientUuid, tap) :: rest))
    (hPerm' : held'.Perm ((clientUuid, false) :: rest)) :
    Books held' undone used made discarded := by
  have hOld := books.of_perm hPerm.symm
  refine Books.of_perm ?_ hPerm'
  refine ⟨hOld.apart, fun row hRow => ?_, fun row hRow hRowTap => ?_, books.madeGiven,
    books.undoneGiven, hOld.kept, hOld.gone⟩
  · rcases List.mem_cons.mp hRow with rfl | hRow
    · exact hOld.given (clientUuid, tap) List.mem_cons_self
    · exact hOld.given row (List.mem_cons_of_mem _ hRow)
  · rcases List.mem_cons.mp hRow with rfl | hRow
    · exact absurd hRowTap nofun
    · exact hOld.taps row (List.mem_cons_of_mem _ hRow) hRowTap

end Books

end MyClash.Offline
