import MyClash.Photos.PhotoStore
import Mathlib.Logic.Function.Basic
import Mathlib.Tactic.Common

/-!
# What each party may do to the photo stores

A ledger notes of every photo id whether its row may still come, was written, or never comes.
An object is removed only when its row is gone or never comes, and forgotten only when gone.
-/

namespace MyClash.Photos

open LossyCalls

inductive Stage where
  | sending
  | written
  | failed
  deriving DecidableEq

abbrev Ledger := Uuid → Stage

/-- The photo whose image a key names. -/
def ownerOf (key : String) : Option Uuid := (photoKeyParts key).map (·.photoId)

theorem ownerOf_of_names {eventId photoId : Uuid} {key : String}
    (h : (photoObjectKeys eventId photoId).Names key) : ownerOf key = some photoId := by
  rw [ownerOf, photoKeyParts_of_names h, Option.map_some]

def NoRow (id : Uuid) (s : World) : Prop := ∀ row ∈ s.photos, row.id ≠ id

/-- A put of the photo landed a grace ago or earlier. -/
def Late (id : Uuid) (s : World) : Prop :=
  ∃ object ∈ s.puts, ownerOf object.key = some id ∧
    object.lastModified + PHOTO_ORPHAN_GRACE_MS ≤ s.clock

/-- The photo has no row and never gets one again. -/
def Doomed (id : Uuid) (e : World × Ledger) : Prop :=
  NoRow id e.1 ∧ (e.2 id ≠ .sending ∨ Late id e.1)

def Stands (key : String) (s : World) : Prop := ∃ object ∈ s.bucket, object.key = key

/-- The object is gone and no put brings it back. -/
def Gone (key : String) (e : World × Ledger) : Prop :=
  (∃ id, ownerOf key = some id ∧ e.2 id = .written) ∧ ¬Stands key e.1

structure Held (e : World × Ledger) : Prop where
  row : ∀ row ∈ e.1.photos, ⟨row.eventId, row.id⟩ ∈ e.1.drawn ∧ e.2 row.id = .written ∧
    row.keys = photoObjectKeys row.eventId row.id
  stands : ∀ row ∈ e.1.photos, ∀ key, row.keys.Names key → Stands key e.1
  apart : e.1.photos.Pairwise fun row other => row.id ≠ other.id
  listed : ∀ object ∈ e.1.bucket, object ∈ e.1.puts
  sent : ∀ object ∈ e.1.puts, ∃ upload ∈ e.1.drawn,
    (photoObjectKeys upload.eventId upload.photoId).Names object.key
  tombstone : ∀ tombstone ∈ e.1.tombstones, ∃ id, ownerOf tombstone.objectKey = some id ∧
    e.2 id = .written ∧ NoRow id e.1
  drawnOnce : ∀ upload ∈ e.1.drawn, ∀ other ∈ e.1.drawn, upload.photoId = other.photoId →
    upload = other
  fresh : ∀ id, (∀ upload ∈ e.1.drawn, upload.photoId ≠ id) → e.2 id = .sending

inductive Change : Option Uuid → World × Ledger → World × Ledger → Prop
  | refl (o : Option Uuid) (e : World × Ledger) : Change o e e
  | world {o : Option Uuid} {s s' : World} {g : Ledger} (hClock : s.clock ≤ s'.clock)
      (hPhotos : s'.photos = s.photos) (hTombstones : s'.tombstones = s.tombstones)
      (hBucket : s'.bucket = s.bucket) (hPuts : s'.puts = s.puts) (hDrawn : s'.drawn = s.drawn) :
      Change o (s, g) (s', g)
  | draw {o : Option Uuid} {s : World} {g : Ledger} {upload : PhotoKeyParts}
      (hFresh : ∀ other ∈ s.drawn, other.photoId ≠ upload.photoId) :
      Change o (s, g) ({ s with drawn := upload :: s.drawn }, g)
  | put {o : Option Uuid} {s : World} {g : Ledger} {upload : PhotoKeyParts} {key : String}
      (hDrawn : upload ∈ s.drawn)
      (hNames : (photoObjectKeys upload.eventId upload.photoId).Names key)
      (hStage : g upload.photoId ≠ .written) : Change o (s, g) (s.put key, g)
  | remove {o : Option Uuid} {s : World} {g : Ledger} {key : String} {id : Uuid}
      (hOwner : ownerOf key = some id) (hDoomed : Doomed id (s, g)) :
      Change o (s, g) (s.remove key, g)
  | insert {s : World} {g : Ledger} {row : PhotoRow} (hDrawn : ⟨row.eventId, row.id⟩ ∈ s.drawn)
      (hKeys : row.keys = photoObjectKeys row.eventId row.id) (hStage : g row.id = .sending)
      (hTimely : ¬Late row.id s) (hStands : ∀ key, row.keys.Names key → Stands key s) :
      Change (some row.id) (s, g)
        ({ s with photos := s.photos ++ [row] }, Function.update g row.id .written)
  | delete {o : Option Uuid} {s s' : World} {g : Ledger} (hClock : s'.clock = s.clock)
      (hPhotos : s'.photos.Sublist s.photos)
      (hKept : ∀ tombstone ∈ s.tombstones, tombstone ∈ s'.tombstones)
      (hQueued : ∀ tombstone ∈ s'.tombstones, tombstone ∈ s.tombstones ∨
        ∃ row ∈ s.photos, row ∉ s'.photos ∧ row.keys.Names tombstone.objectKey)
      (hBucket : s'.bucket = s.bucket) (hPuts : s'.puts = s.puts) (hDrawn : s'.drawn = s.drawn) :
      Change o (s, g) (s', g)
  | forget {o : Option Uuid} {s : World} {g : Ledger} {keys : List String}
      (hGone : ∀ key ∈ keys, Gone key (s, g)) : Change o (s, g) (s.forget keys, g)
  | fail {s : World} {g : Ledger} {id : Uuid} (hStage : g id = .sending)
      (hDrawn : ∃ upload ∈ s.drawn, upload.photoId = id) :
      Change (some id) (s, g) (s, Function.update g id .failed)

/-! ## What a change leaves as it is -/

section Kept

variable {o : Option Uuid} {e e' : World × Ledger} {id : Uuid} {key : String}

theorem Change.clock_le (h : Change o e e') : e.1.clock ≤ e'.1.clock := by
  cases h with
  | world hClock => exact hClock
  | delete hClock => exact Int.le_of_eq hClock.symm
  | _ => exact le_refl _

theorem Change.puts (h : Change o e e') {object : PhotoObject} (hMem : object ∈ e.1.puts) :
    object ∈ e'.1.puts := by
  cases h with
  | world _ _ _ _ hPuts => exact hPuts ▸ hMem
  | delete _ _ _ _ _ hPuts => exact hPuts ▸ hMem
  | put => exact List.mem_append_left _ hMem
  | _ => exact hMem

theorem Change.drawn (h : Change o e e') {upload : PhotoKeyParts} (hMem : upload ∈ e.1.drawn) :
    upload ∈ e'.1.drawn := by
  cases h with
  | world _ _ _ _ _ hDrawn => exact hDrawn ▸ hMem
  | delete _ _ _ _ _ _ hDrawn => exact hDrawn ▸ hMem
  | draw => exact List.mem_cons_of_mem _ hMem
  | _ => exact hMem

theorem Change.settled (h : Change o e e') (hStage : e.2 id ≠ .sending) : e'.2 id = e.2 id := by
  cases h with
  | @insert s g row _ _ hSending =>
    refine Function.update_of_ne ?_ _ _
    rintro rfl
    exact hStage hSending
  | @fail s g other hSending =>
    refine Function.update_of_ne ?_ _ _
    rintro rfl
    exact hStage hSending
  | _ => rfl

/-- Only its own upload moves an id from sending on. -/
theorem Change.sending (h : Change o e e') (hOther : o ≠ some id) (hStage : e.2 id = .sending) :
    e'.2 id = .sending := by
  cases h with
  | insert =>
    have hNe := fun hEq => hOther (congrArg some (Eq.symm hEq))
    exact (Function.update_of_ne hNe _ _).trans hStage
  | fail =>
    have hNe := fun hEq => hOther (congrArg some (Eq.symm hEq))
    exact (Function.update_of_ne hNe _ _).trans hStage
  | _ => exact hStage

theorem Change.late (h : Change o e e') (hLate : Late id e.1) : Late id e'.1 := by
  obtain ⟨object, hMem, hOwner, hOld⟩ := hLate
  exact ⟨object, h.puts hMem, hOwner, Int.le_trans hOld h.clock_le⟩

theorem Change.doomed (h : Change o e e') (hDoomed : Doomed id e) : Doomed id e' := by
  refine ⟨?_, ?_⟩
  · cases h with
    | world _ hPhotos => exact fun row hRow => hDoomed.1 row (hPhotos ▸ hRow)
    | delete _ hPhotos => exact fun row hRow => hDoomed.1 row (hPhotos.subset hRow)
    | @insert s g row _ _ hSending hTimely =>
      intro other hMem hEq
      rcases List.mem_append.mp hMem with hMem | hMem
      · exact hDoomed.1 other hMem hEq
      · rw [List.mem_singleton.mp hMem] at hEq
        subst hEq
        exact hDoomed.2.elim (fun hNot => hNot hSending) hTimely
    | _ => exact hDoomed.1
  · rcases hDoomed.2 with hStage | hLate
    · exact Or.inl ((h.settled hStage).trans_ne hStage)
    · exact Or.inr (h.late hLate)

theorem stands_put (s : World) (hKey : Stands key s) (other : String) :
    Stands key (s.put other) := by
  by_cases hEq : key = other
  · exact ⟨⟨other, s.clock⟩, List.mem_append_right _ (List.mem_singleton.mpr rfl), hEq.symm⟩
  · obtain ⟨object, hMem, rfl⟩ := hKey
    exact ⟨object, List.mem_append_left _ (List.mem_filter.mpr ⟨hMem, by simpa using hEq⟩), rfl⟩

/-- An object stays as long as its photo may have a row. -/
theorem Change.stands (h : Change o e e') (hOwner : ownerOf key = some id)
    (hStands : Stands key e.1 ∨ Doomed id e) : Stands key e'.1 ∨ Doomed id e' := by
  rcases hStands with hStands | hDoomed
  · cases h with
    | world _ _ _ hBucket => exact Or.inl (by rwa [Stands, hBucket])
    | delete _ _ _ _ hBucket => exact Or.inl (by rwa [Stands, hBucket])
    | put => exact Or.inl (stands_put _ hStands _)
    | @remove o s g other owner hOther hDoomed =>
      by_cases hEq : key = other
      · subst hEq
        obtain rfl := Option.some.inj (hOwner.symm.trans hOther)
        exact Or.inr hDoomed
      · obtain ⟨object, hMem, rfl⟩ := hStands
        exact Or.inl ⟨object, List.mem_filter.mpr ⟨hMem, by simpa using hEq⟩, rfl⟩
    | _ => exact Or.inl hStands
  · exact Or.inr (h.doomed hDoomed)

theorem Change.gone (h : Change o e e') (hGone : Gone key e) : Gone key e' := by
  obtain ⟨⟨id, hOwner, hStage⟩, hNot⟩ := hGone
  refine ⟨⟨id, hOwner, (h.settled (by rw [hStage]; decide)).trans hStage⟩, ?_⟩
  cases h with
  | world _ _ _ hBucket => rwa [Stands, hBucket]
  | delete _ _ _ _ hBucket => rwa [Stands, hBucket]
  | @put o s g upload other _ hNames hOther =>
    rintro ⟨object, hMem, rfl⟩
    rcases List.mem_append.mp hMem with hMem | hMem
    · exact hNot ⟨object, (List.mem_filter.mp hMem).1, rfl⟩
    · rw [List.mem_singleton.mp hMem] at hOwner
      obtain rfl := Option.some.inj (hOwner.symm.trans (ownerOf_of_names hNames))
      exact hOther hStage
  | remove =>
    rintro ⟨object, hMem, rfl⟩
    exact hNot ⟨object, (List.mem_filter.mp hMem).1, rfl⟩
  | _ => exact hNot

/-! ## What every change keeps -/

theorem Held.eq_of_id (hHeld : Held e) {row other : PhotoRow} (hRow : row ∈ e.1.photos)
    (hOther : other ∈ e.1.photos) (hEq : row.id = other.id) : row = other := by
  by_contra hNe
  have hSymm : Std.Symm fun row other : PhotoRow => row.id ≠ other.id := ⟨fun _ _ h => h.symm⟩
  exact hHeld.apart.forall hRow hOther hNe hEq

theorem Held.noRow (hHeld : Held e) (hStage : e.2 id ≠ .written) : NoRow id e.1 := by
  rintro row hRow rfl
  exact hStage (hHeld.row row hRow).2.1

theorem Change.row_of_row (hHeld : Held e) (h : Change o e e') {row : PhotoRow}
    (hRow : row ∈ e'.1.photos) :
    ⟨row.eventId, row.id⟩ ∈ e'.1.drawn ∧ e'.2 row.id = .written ∧
      row.keys = photoObjectKeys row.eventId row.id := by
  have hOld : row ∈ e.1.photos → ⟨row.eventId, row.id⟩ ∈ e'.1.drawn ∧ e'.2 row.id = .written ∧
      row.keys = photoObjectKeys row.eventId row.id := by
    intro hMem
    obtain ⟨hDrawn, hStage, hKeys⟩ := hHeld.row row hMem
    exact ⟨h.drawn hDrawn, (h.settled (by rw [hStage]; decide)).trans hStage, hKeys⟩
  cases h with
  | world _ hPhotos => exact hOld (hPhotos ▸ hRow)
  | delete _ hPhotos => exact hOld (hPhotos.subset hRow)
  | @insert s g new hDrawn hKeys =>
    rcases List.mem_append.mp hRow with hMem | hMem
    · exact hOld hMem
    · obtain rfl := List.mem_singleton.mp hMem
      exact ⟨hDrawn, Function.update_self .., hKeys⟩
  | _ => exact hOld hRow

theorem Change.stands_of_row (hHeld : Held e) (h : Change o e e') {row : PhotoRow}
    (hRow : row ∈ e'.1.photos) (hKey : row.keys.Names key) : Stands key e'.1 := by
  have hOld : row ∈ e.1.photos → Stands key e'.1 := by
    intro hMem
    have hOwner : ownerOf key = some row.id := by
      rw [(hHeld.row row hMem).2.2] at hKey
      exact ownerOf_of_names hKey
    exact (h.stands hOwner (Or.inl (hHeld.stands row hMem key hKey))).resolve_right
      fun hDoomed => hDoomed.1 row hRow rfl
  cases h with
  | world _ hPhotos => exact hOld (hPhotos ▸ hRow)
  | delete _ hPhotos => exact hOld (hPhotos.subset hRow)
  | @insert s g new _ _ _ _ hStands =>
    rcases List.mem_append.mp hRow with hMem | hMem
    · exact hOld hMem
    · obtain rfl := List.mem_singleton.mp hMem
      exact hStands key hKey
  | _ => exact hOld hRow

theorem Change.apart (hHeld : Held e) (h : Change o e e') :
    e'.1.photos.Pairwise fun row other => row.id ≠ other.id := by
  cases h with
  | world _ hPhotos => exact hPhotos ▸ hHeld.apart
  | delete _ hPhotos => exact hHeld.apart.sublist hPhotos
  | @insert s g new _ _ hStage =>
    refine List.pairwise_append.mpr ⟨hHeld.apart, List.pairwise_singleton _ _, ?_⟩
    intro row hRow other hOther
    rw [List.mem_singleton.mp hOther]
    exact hHeld.noRow (fun h => absurd (hStage.symm.trans h) (by decide)) row hRow
  | _ => exact hHeld.apart

theorem Change.sent (hHeld : Held e) (h : Change o e e') {object : PhotoObject}
    (hMem : object ∈ e'.1.puts) : ∃ upload ∈ e'.1.drawn,
      (photoObjectKeys upload.eventId upload.photoId).Names object.key := by
  have hOld : object ∈ e.1.puts → ∃ upload ∈ e'.1.drawn,
      (photoObjectKeys upload.eventId upload.photoId).Names object.key := by
    intro hMem
    obtain ⟨upload, hDrawn, hNames⟩ := hHeld.sent object hMem
    exact ⟨upload, h.drawn hDrawn, hNames⟩
  cases h with
  | world _ _ _ _ hPuts => exact hOld (hPuts ▸ hMem)
  | delete _ _ _ _ _ hPuts => exact hOld (hPuts ▸ hMem)
  | put hDrawn hNames =>
    rcases List.mem_append.mp hMem with hMem | hMem
    · exact hOld hMem
    · rw [List.mem_singleton.mp hMem]
      exact ⟨_, hDrawn, hNames⟩
  | _ => exact hOld hMem

theorem Change.listed (hHeld : Held e) (h : Change o e e') {object : PhotoObject}
    (hMem : object ∈ e'.1.bucket) : object ∈ e'.1.puts := by
  cases h with
  | world _ _ _ hBucket hPuts => exact hPuts ▸ hHeld.listed object (hBucket ▸ hMem)
  | delete _ _ _ _ hBucket hPuts => exact hPuts ▸ hHeld.listed object (hBucket ▸ hMem)
  | put =>
    rcases List.mem_append.mp hMem with hMem | hMem
    · exact List.mem_append_left _ (hHeld.listed object (List.mem_filter.mp hMem).1)
    · exact List.mem_append_right _ hMem
  | remove => exact hHeld.listed object (List.mem_filter.mp hMem).1
  | _ => exact hHeld.listed object hMem

theorem Change.tombstone (hHeld : Held e) (h : Change o e e') {tombstone : Tombstone}
    (hMem : tombstone ∈ e'.1.tombstones) : ∃ id, ownerOf tombstone.objectKey = some id ∧
      e'.2 id = .written ∧ NoRow id e'.1 := by
  have hOld : tombstone ∈ e.1.tombstones → ∃ id, ownerOf tombstone.objectKey = some id ∧
      e'.2 id = .written ∧ NoRow id e'.1 := by
    intro hMem
    obtain ⟨id, hOwner, hStage, hNoRow⟩ := hHeld.tombstone tombstone hMem
    have hSettled : e.2 id ≠ .sending := by rw [hStage]; decide
    exact ⟨id, hOwner, (h.settled hSettled).trans hStage,
      (h.doomed ⟨hNoRow, Or.inl hSettled⟩).1⟩
  cases h with
  | world _ _ hTombstones => exact hOld (hTombstones ▸ hMem)
  | @delete o s s' g _ hPhotos _ hQueued =>
    rcases hQueued tombstone hMem with hMem | ⟨row, hRow, hGone, hNames⟩
    · exact hOld hMem
    · obtain ⟨_, hStage, hKeys⟩ := hHeld.row row hRow
      rw [hKeys] at hNames
      refine ⟨row.id, ownerOf_of_names hNames, hStage, fun other hOther hEq => hGone ?_⟩
      rwa [hHeld.eq_of_id hRow (hPhotos.subset hOther) hEq.symm]
  | forget => exact hOld (List.mem_filter.mp hMem).1
  | _ => exact hOld hMem

theorem Change.drawnOnce (hHeld : Held e) (h : Change o e e') {upload other : PhotoKeyParts}
    (hUpload : upload ∈ e'.1.drawn) (hOther : other ∈ e'.1.drawn)
    (hEq : upload.photoId = other.photoId) : upload = other := by
  cases h with
  | world _ _ _ _ _ hDrawn =>
    exact hHeld.drawnOnce upload (hDrawn ▸ hUpload) other (hDrawn ▸ hOther) hEq
  | delete _ _ _ _ _ _ hDrawn =>
    exact hHeld.drawnOnce upload (hDrawn ▸ hUpload) other (hDrawn ▸ hOther) hEq
  | @draw o s g new hFresh =>
    rcases List.mem_cons.mp hUpload with hNew | hOld
    · rcases List.mem_cons.mp hOther with hNew' | hOld'
      · exact hNew.trans hNew'.symm
      · exact absurd (hEq.symm.trans (congrArg _ hNew)) (hFresh other hOld')
    · rcases List.mem_cons.mp hOther with hNew' | hOld'
      · exact absurd (hEq.trans (congrArg _ hNew')) (hFresh upload hOld)
      · exact hHeld.drawnOnce upload hOld other hOld' hEq
  | _ => exact hHeld.drawnOnce upload hUpload other hOther hEq

theorem Change.fresh (hHeld : Held e) (h : Change o e e')
    (hFresh : ∀ upload ∈ e'.1.drawn, upload.photoId ≠ id) : e'.2 id = .sending := by
  have hOld := hHeld.fresh id fun upload hUpload => hFresh upload (h.drawn hUpload)
  cases h with
  | insert hDrawn => exact (Function.update_of_ne (hFresh _ hDrawn).symm _ _).trans hOld
  | fail _ hDrawn =>
    obtain ⟨upload, hUpload, rfl⟩ := hDrawn
    exact (Function.update_of_ne (hFresh upload hUpload).symm _ _).trans hOld
  | _ => exact hOld

theorem Held.change (hHeld : Held e) (h : Change o e e') : Held e' where
  row _ hRow := h.row_of_row hHeld hRow
  stands _ hRow _ hKey := h.stands_of_row hHeld hRow hKey
  apart := h.apart hHeld
  listed _ hMem := h.listed hHeld hMem
  sent _ hMem := h.sent hHeld hMem
  tombstone _ hMem := h.tombstone hHeld hMem
  drawnOnce _ hUpload _ hOther hEq := h.drawnOnce hHeld hUpload hOther hEq
  fresh _ hFresh := h.fresh hHeld hFresh

end Kept

end MyClash.Photos
