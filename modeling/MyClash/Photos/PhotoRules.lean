import MyClash.Photos.PhotoLedger

/-!
# The rules of the photo stores

What the ledger allows each party, what a stray call relies on, and how a single call that any
program makes keeps to the rules.
-/

namespace MyClash.Photos

open LossyCalls Relation

/-! ## What a deletion queues -/

/-- Only tombstones are added, each of a key that `named` holds of. -/
structure Queues (named : String → Prop) (s s' : World) : Prop where
  same : s' = { s with tombstones := s'.tombstones }
  kept : ∀ tombstone ∈ s.tombstones, tombstone ∈ s'.tombstones
  queued : ∀ tombstone ∈ s'.tombstones, tombstone ∈ s.tombstones ∨ named tombstone.objectKey

section Queue

variable {named : String → Prop} {s s' s'' : World}

theorem Queues.refl (s : World) : Queues named s s :=
  ⟨rfl, fun _ h => h, fun _ h => Or.inl h⟩

theorem Queues.trans (h : Queues named s s') (h' : Queues named s' s'') : Queues named s s'' := by
  refine ⟨?_, fun t ht => h'.kept t (h.kept t ht), fun t ht => ?_⟩
  · rw [h'.same, h.same]
  · exact (h'.queued t ht).elim (h.queued t) Or.inr

theorem queue_queues {key : String} (h : named key) : Queues named s (s.queue key) := by
  rw [World.queue]
  split
  · exact Queues.refl s
  · refine ⟨rfl, fun t ht => List.mem_append_left _ ht, fun t ht => ?_⟩
    rcases List.mem_append.mp ht with ht | ht
    · exact Or.inl ht
    · rw [List.mem_singleton.mp ht]
      exact Or.inr h

theorem Queues.foldl {β : Type} {f : World → β → World} {l : List β}
    (h : ∀ b ∈ l, ∀ s, Queues named s (f s b)) : Queues named s (l.foldl f s) := by
  induction l generalizing s with
  | nil => exact Queues.refl s
  | cons b l ih =>
    exact (h b List.mem_cons_self s).trans (ih fun b' hb' => h b' (List.mem_cons_of_mem _ hb'))

theorem eventPhotoTombstoneRow_queues {row : PhotoRow}
    (h : ∀ key, row.keys.Names key → named key) : Queues named s (s.eventPhotoTombstoneRow row) :=
  (queue_queues (h _ (Or.inl rfl))).trans (queue_queues (h _ (Or.inr rfl)))

theorem Queues.change (h : Queues named s s') {g : Ledger} {o : Option Uuid}
    {events : List EventRow} {photos : List PhotoRow} (hPhotos : photos.Sublist s.photos)
    (hNamed : ∀ key, named key → ∃ row ∈ s.photos, row ∉ photos ∧ row.keys.Names key) :
    Change o (s, g) ({ s' with photos := photos, events := events }, g) := by
  refine Change.delete ?_ hPhotos h.kept (fun t ht => ?_) ?_ ?_ ?_
  · exact (congrArg World.clock h.same : s'.clock = _)
  · exact (h.queued t ht).imp_right (hNamed _)
  · exact (congrArg World.bucket h.same : s'.bucket = _)
  · exact (congrArg World.puts h.same : s'.puts = _)
  · exact (congrArg World.drawn h.same : s'.drawn = _)

theorem deletePhotos_change (s : World) (gone : PhotoRow → Bool) (events : List EventRow)
    (g : Ledger) (o : Option Uuid) :
    Change o (s, g) ({ s.deletePhotos gone with events := events }, g) := by
  have hQueues : Queues (fun key => ∃ row ∈ s.photos.filter gone, row.keys.Names key) s
      ((s.photos.filter gone).foldl World.eventPhotoTombstoneRow s) :=
    Queues.foldl fun row hRow s => eventPhotoTombstoneRow_queues fun key hKey => ⟨row, hRow, hKey⟩
  refine hQueues.change (List.filter_sublist) ?_
  rintro key ⟨row, hRow, hKey⟩
  obtain ⟨hMem, hGone⟩ := List.mem_filter.mp hRow
  refine ⟨row, hMem, fun hKept => ?_, hKey⟩
  have hNot := (List.mem_filter.mp hKept).2
  rw [hGone] at hNot
  cases hNot

theorem truncatePhotos_change (s : World) (g : Ledger) (o : Option Uuid) :
    Change o (s, g) (s.truncatePhotos, g) := by
  have hQueues : Queues (fun key => ∃ row ∈ s.photos, row.keys.Names key) s
      s.eventPhotoTombstoneAll := by
    refine Queues.foldl fun key hKey s => queue_queues ?_
    rcases List.mem_append.mp hKey with hKey | hKey
    · obtain ⟨row, hRow, rfl⟩ := List.mem_map.mp hKey
      exact ⟨row, hRow, Or.inl rfl⟩
    · obtain ⟨row, hRow, rfl⟩ := List.mem_map.mp hKey
      exact ⟨row, hRow, Or.inr rfl⟩
  refine hQueues.change (List.nil_sublist _) ?_
  rintro key ⟨row, hRow, hKey⟩
  exact ⟨row, hRow, List.not_mem_nil, hKey⟩

theorem elsewhere_change (x : Elsewhere) (s : World) (g : Ledger) (o : Option Uuid) :
    Change o (s, g) (x.apply s, g) := by
  cases x with
  | tick ms =>
    have hClock : s.clock ≤ ((Elsewhere.tick ms).apply s).clock :=
      Int.le_add_of_nonneg_right (Int.natCast_nonneg ms)
    exact Change.world hClock rfl rfl rfl rfl rfl
  | deletePhotos ids =>
    exact deletePhotos_change s (fun row => ids.contains row.id) _ g o
  | deleteEvents ids => exact deletePhotos_change s (fun row => ids.contains row.eventId) _ g o
  | truncatePhotos => exact truncatePhotos_change s g o
  | saveEvent event => exact Change.world (le_refl _) rfl rfl rfl rfl rfl

end Queue

/-! ## The rules -/

def Relied : Call → World × Ledger → Prop
  | .put key, e => ∃ upload ∈ e.1.drawn,
    (photoObjectKeys upload.eventId upload.photoId).Names key ∧ e.2 upload.photoId = .failed
  | .remove key, e => ∃ id, ownerOf key = some id ∧ Doomed id e
  | .forget keys, e => ∀ key ∈ keys, Gone key e
  | _, _ => True

def Call.IsInsert : Call → Prop
  | .insertPhoto _ => True
  | _ => False

/-- A row is written within the grace of every put of its photo. -/
def Timely : Call → World → Prop
  | .insertPhoto row, s => ∀ object ∈ s.puts, ownerOf object.key = some row.id →
    s.clock < object.lastModified + PHOTO_ORPHAN_GRACE_MS
  | _, _ => True

instance : (c : Call) → Decidable c.IsInsert
  | .insertPhoto _ => isTrue trivial
  | .put _ | .remove _ | .list _ _ | .deletePhotosOf _ | .photoEvents | .tombstones | .forget _
  | .knownEvents _ | .knownPhotos _ => isFalse nofun

instance : (c : Call) → (s : World) → Decidable (Timely c s)
  | .insertPhoto row, s => inferInstanceAs (Decidable (∀ object ∈ s.puts,
      ownerOf object.key = some row.id →
        s.clock < object.lastModified + PHOTO_ORPHAN_GRACE_MS))
  | .put _, _ | .remove _, _ | .list _ _, _ | .deletePhotosOf _, _ | .photoEvents, _
  | .tombstones, _ | .forget _, _ | .knownEvents _, _ | .knownPhotos _, _ => isTrue trivial

def photoRules : Rules World Call Ledger Uuid where
  Inv := Held
  Change := Change
  Begun id e := ∃ upload ∈ e.1.drawn, upload.photoId = id
  Stray := Relied
  Clean := Call.IsInsert
  Timely := Timely

/-- The program keeps to the rules for the party `o`, and ends in `Q`. -/
abbrev Keeps {α : Type} (photoDeletionInstant : EventRow → Option ℤ) (o : Option Uuid)
    (Q : α → World × Ledger → Prop) (p : Program α) (e : World × Ledger) : Prop :=
  photoRules.Safe (photoSystem photoDeletionInstant) o Q p e

/-! ## The calls -/

section Calls

variable {photoDeletionInstant : EventRow → Option ℤ} {α : Type} {o : Option Uuid}
  {Q : α → World × Ledger → Prop} {e : World × Ledger}

/-- What no change undoes. -/
def Lasting (P : World × Ledger → Prop) : Prop :=
  ∀ o a b, Change o a b → P a → P b

theorem Lasting.keep {P : World × Ledger → Prop} (hP : Lasting P) {o : Option Uuid}
    {a b : World × Ledger} (hChange : Change o a b) (h : P a) : P b :=
  hP o a b hChange h

theorem Lasting.rely {P : World × Ledger → Prop} (hP : Lasting P) {a b : World × Ledger}
    (hRely : photoRules.Rely o a b) (h : P a) : P b :=
  Rules.Rely.stable hRely (fun _ _ hChange => hP.keep hChange) h

theorem Lasting.and {P P' : World × Ledger → Prop} (hP : Lasting P) (hP' : Lasting P') :
    Lasting fun e => P e ∧ P' e :=
  fun _ _ _ hChange h => ⟨hP.keep hChange h.1, hP'.keep hChange h.2⟩

theorem Lasting.forall_mem {β : Type} {P : β → World × Ledger → Prop} (hP : ∀ b, Lasting (P b))
    (l : List β) : Lasting fun e => ∀ b ∈ l, P b e :=
  fun _ _ _ hChange h b hb => (hP b).keep hChange (h b hb)

/-- A call that any party may make at any time. -/
theorem safe_free {c : Call} {next : Except String c.Answer → Program α}
    {C : World × Ledger → Prop} (hC : Lasting C) (hNow : C e)
    (P : Except String c.Answer → World × Ledger → Prop) (hRelied : ∀ e, Relied c e)
    (hChange : ∀ hint s g, Change o (s, g) ((land c hint s).2, g))
    (hP : ∀ hint s g, Held (s, g) → C (s, g) → P (land c hint s).1 ((land c hint s).2, g))
    (hLasting : ∀ r, Lasting (P r))
    (hAnswer : ∀ r a, C a → P r a →
      Keeps photoDeletionInstant o Q (next r) a)
    (hFail : ∀ a message, C a →
      Keeps photoDeletionInstant o Q (next (.error message)) a) :
    Keeps photoDeletionInstant o Q (.call c next) e := by
  refine Rules.Safe.call (F := C) (P := fun r a => C a ∧ P r a) hNow (fun _ => hC.keep)
    (fun _ hOther h => ⟨hC.keep hOther h.1, (hLasting _).keep hOther h.2⟩) ?_ ?_ ?_ ?_
  · intro a hint hHeld hThen _
    exact ⟨a.2, hChange hint a.1 a.2, hC.keep (hChange hint a.1 a.2) hThen,
      hP hint a.1 a.2 hHeld hThen⟩
  · exact fun r a _ h => hAnswer r a h.1 h.2
  · exact fun r a _ h _ message => ⟨a.2, Change.refl o a, hFail a message h.1⟩
  · exact fun a _ hThen message =>
      ⟨a.2, Change.refl o a, fun _ => hRelied a, hFail a message hThen⟩

def Removable (key : String) (e : World × Ledger) : Prop :=
  ∃ id, ownerOf key = some id ∧ Doomed id e

def Spent (key : String) (e : World × Ledger) : Prop :=
  ∃ id, ownerOf key = some id ∧ e.2 id = .written ∧ NoRow id e.1

/-- Keys that `D` holds of may be removed, and `G` holds of them from then on. -/
structure Removing (D G : String → World × Ledger → Prop) : Prop where
  removable {key : String} {e : World × Ledger} (h : D key e) : Removable key e
  lasting (key : String) : Lasting (D key)
  removed {key : String} {s : World} {g : Ledger} (h : D key (s, g)) : G key (s.remove key, g)
  goneLasting (key : String) : Lasting (G key)

theorem removable_lasting (key : String) : Lasting (Removable key) := by
  rintro _ a b hChange ⟨id, hOwner, hDoomed⟩
  exact ⟨id, hOwner, hChange.doomed hDoomed⟩

theorem not_stands_remove (s : World) (key : String) : ¬Stands key (s.remove key) := by
  rintro ⟨object, hMem, rfl⟩
  simpa using (List.mem_filter.mp hMem).2

theorem removing_removable : Removing Removable fun _ _ => True where
  removable h := h
  lasting := removable_lasting
  removed _ := trivial
  goneLasting _ := fun _ _ _ _ _ => trivial

theorem removing_spent : Removing Spent Gone where
  removable := by
    rintro key e ⟨id, hOwner, hStage, hNoRow⟩
    exact ⟨id, hOwner, hNoRow, Or.inl (by rw [hStage]; decide)⟩
  lasting := by
    rintro key _ a b hChange ⟨id, hOwner, hStage, hNoRow⟩
    have hSettled : a.2 id ≠ .sending := by rw [hStage]; decide
    exact ⟨id, hOwner, (hChange.settled hSettled).trans hStage,
      (hChange.doomed ⟨hNoRow, Or.inl hSettled⟩).1⟩
  removed := by
    rintro key s g ⟨id, hOwner, hStage, _⟩
    exact ⟨⟨id, hOwner, hStage⟩, not_stands_remove s key⟩
  goneLasting _ := fun _ _ _ hChange hGone => hChange.gone hGone

theorem safe_remove {D G : String → World × Ledger → Prop} (hRemoving : Removing D G)
    {C : World × Ledger → Prop} (hC : Lasting C) (hNow : C e) {key : String}
    {next : Except String Unit → Program α} (hD : D key e)
    (hOk : ∀ a, C a → G key a →
      Keeps photoDeletionInstant o Q (next (.ok ())) a)
    (hError : ∀ a message, C a →
      Keeps photoDeletionInstant o Q (next (.error message)) a) :
    Keeps photoDeletionInstant o Q (.call (Call.remove key) next) e := by
  refine Rules.Safe.call (F := fun a => C a ∧ D key a) (P := fun r a => r = .ok () ∧ C a ∧ G key a)
    ⟨hNow, hD⟩ (fun _ hOther h => ⟨hC.keep hOther h.1, (hRemoving.lasting key).keep hOther h.2⟩)
    (fun _ hOther h => ⟨h.1, hC.keep hOther h.2.1,
      (hRemoving.goneLasting key).keep hOther h.2.2⟩) ?_ ?_ ?_ ?_
  · rintro a hint _ ⟨hThen, hKey⟩ _
    obtain ⟨id, hOwner, hDoomed⟩ := hRemoving.removable hKey
    have hChange : Change o a (a.1.remove key, a.2) := Change.remove hOwner hDoomed
    exact ⟨a.2, hChange, rfl, hC.keep hChange hThen, hRemoving.removed hKey⟩
  · rintro r a _ ⟨rfl, hThen, hG⟩
    exact hOk a hThen hG
  · exact fun r a _ h _ message => ⟨a.2, Change.refl o a, hError a message h.2.1⟩
  · exact fun a _ h message =>
      ⟨a.2, Change.refl o a, fun _ => hRemoving.removable h.2, hError a message h.1⟩

theorem safe_removeQuietly {keys : List String} (hKeys : ∀ key ∈ keys, Removable key e) :
    Keeps photoDeletionInstant o (fun _ _ => True) (removeQuietly keys)
      e := by
  induction keys generalizing e with
  | nil => exact trivial
  | cons key keys ih =>
    have hRest : ∀ key ∈ keys, Removable key e := fun k hk => hKeys k (List.mem_cons_of_mem _ hk)
    exact safe_remove removing_removable (Lasting.forall_mem removable_lasting keys) hRest
      (hKeys key List.mem_cons_self) (fun a hThen _ => ih hThen) fun a _ hThen => ih hThen

/-- The keys that were removed are gone, and stay so. -/
theorem safe_removeAll {D G : String → World × Ledger → Prop} (hRemoving : Removing D G)
    {deadline : ℤ} {step : String} {removed keys : List String} (hKeys : ∀ key ∈ keys, D key e)
    (hRemoved : ∀ key ∈ removed, G key e) :
    Keeps photoDeletionInstant o
      (fun removal a => ∀ key ∈ removal.removed, G key a) (removeAll deadline step removed keys)
      e := by
  induction keys generalizing removed e with
  | nil => exact hRemoved
  | cons key keys ih =>
    have hLasting := (Lasting.forall_mem hRemoving.lasting (key :: keys)).and
      (Lasting.forall_mem hRemoving.goneLasting removed)
    intro a hHeld hRely
    have hNow := hLasting.rely hRely ⟨hKeys, hRemoved⟩
    change photoRules.Safe _ o _ (if (!decide (a.1.clock < deadline)) = true then _ else _) a
    split
    · exact hNow.2
    · refine safe_remove hRemoving hLasting hNow (hNow.1 key List.mem_cons_self) ?_ ?_
      · intro b hThen hGone
        refine ih (fun k hk => hThen.1 k (List.mem_cons_of_mem _ hk)) fun k hk => ?_
        rcases List.mem_append.mp hk with hk | hk
        · exact hThen.2 k hk
        · rwa [List.mem_singleton.mp hk]
      · exact fun b message hThen => hThen.2

end Calls

end MyClash.Photos
