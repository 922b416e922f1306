import MyClash.Photos.PhotoUpload

/-!
# Rows keep their images, and images are not left behind

However uploads, deletions and clean-up runs interleave, with every call failing before or after
it took effect: a row's images stand, a tombstone goes only after its object, and every object
that no row names is found by the sweep. An insert that takes effect although its upload was
told a failure breaks the first.
-/

namespace MyClash.Photos

open LossyCalls Runs

/-- No row stands without both its images. -/
def World.ImagesStand (s : World) : Prop :=
  ∀ row ∈ s.photos, ∀ key, row.keys.Names key → Stands key s

/-- What no row names, of an Event that is known, is tombstoned, young or found by the sweep. -/
def World.OrphansFound (photoDeletionInstant : EventRow → Option ℤ) (s : World) : Prop :=
  ∀ object ∈ s.bucket, ∃ parts, photoKeyParts object.key = some parts ∧
    ((∃ event ∈ s.events, event.id = parts.eventId) →
      (∀ row ∈ s.photos, ¬row.keys.Names object.key) →
      (∃ tombstone ∈ s.tombstones, tombstone.objectKey = object.key) ∨
      s.clock - object.lastModified < PHOTO_ORPHAN_GRACE_MS ∨
      ∀ keys hint, object.key ∈ keys → ∃ orphans,
        ((photoSystem photoDeletionInstant).alone hint (orphansOf keys) s).1 = .ok orphans ∧
          object.key ∈ orphans)

/-- Every tombstone that a move removes is of an object that is gone. -/
def RemovesOnlyGone (m : Move (Pool World Call ℤ Call.Answer Uuid)
    (Event PageHint Job Elsewhere)) : Prop :=
  ∀ tombstone ∈ m.before.state.tombstones, tombstone ∉ m.after.state.tombstones →
    ¬Stands tombstone.objectKey m.before.state ∧ ¬Stands tombstone.objectKey m.after.state

/-! ## The sweep finds what no row names -/

section Alone

variable {photoDeletionInstant : EventRow → Option ℤ} {s : World} {hint : PageHint}

theorem alone_readChunks {what : String} {read : List Uuid → Program (Except String (List Uuid))}
    (table : List Uuid) (hRead : ∀ chunk,
      (photoSystem photoDeletionInstant).alone hint (read chunk) s =
        (.ok (table.filter chunk.contains), s)) (chunks : List (List Uuid)) (known : List Uuid) :
    (photoSystem photoDeletionInstant).alone hint (readChunks what read chunks known) s =
      (.ok (known ++ chunks.flatMap fun chunk => table.filter chunk.contains), s) := by
  induction chunks generalizing known with
  | nil => simp [readChunks, System.alone]
  | cons chunk chunks ih =>
    rw [readChunks, Prog.bind_eq, System.alone_bind, hRead, List.flatMap_cons,
      ← List.append_assoc]
    exact ih _

theorem mem_knownIds {table ids : List Uuid} {id : Uuid} :
    id ∈ [] ++ (inListChunks ids.eraseDups).flatMap (fun chunk => table.filter chunk.contains) ↔
      id ∈ table ∧ id ∈ ids := by
  rw [List.nil_append, List.mem_flatMap]
  constructor
  · rintro ⟨chunk, hChunk, hMem⟩
    obtain ⟨hTable, hIn⟩ := List.mem_filter.mp hMem
    exact ⟨hTable, List.mem_eraseDups.mp
      (mem_of_mem_inListChunks hChunk (List.contains_iff_mem.mp hIn))⟩
  · rintro ⟨hTable, hIds⟩
    obtain ⟨chunk, hChunk, hIn⟩ := exists_mem_inListChunks (List.mem_eraseDups.mpr hIds)
    exact ⟨chunk, hChunk, List.mem_filter.mpr ⟨hTable, List.contains_iff_mem.mpr hIn⟩⟩

/-- The key of a known Event whose photo has no row is an orphan. -/
theorem alone_orphansOf {keys : List String} {key : String} {parts : PhotoKeyParts}
    (hKey : key ∈ keys) (hParts : photoKeyParts key = some parts)
    (hEvent : ∃ event ∈ s.events, event.id = parts.eventId) (hRow : NoRow parts.photoId s) :
    ∃ orphans, ((photoSystem photoDeletionInstant).alone hint (orphansOf keys) s).1 =
      .ok orphans ∧ key ∈ orphans := by
  have hParsed : (key, parts) ∈ keys.filterMap fun key =>
      (photoKeyParts key).map fun parts => (key, parts) :=
    List.mem_filterMap.mpr ⟨key, hKey, by rw [hParts, Option.map_some]⟩
  rw [orphansOf, knownIds, Prog.bind_eq, System.alone_bind,
    alone_readChunks (s.events.map (·.id)) fun chunk => rfl]
  dsimp only
  rw [knownIds, Prog.bind_eq, System.alone_bind,
    alone_readChunks (s.photos.map (·.id)) fun chunk => rfl]
  refine ⟨_, rfl, List.mem_map.mpr ⟨(key, parts), List.mem_filter.mpr ⟨?_, ?_⟩, rfl⟩⟩
  · refine List.mem_filter.mpr ⟨hParsed, List.contains_iff_mem.mpr (mem_knownIds.mpr ⟨?_, ?_⟩)⟩
    · obtain ⟨event, hMem, hEq⟩ := hEvent
      exact hEq ▸ List.mem_map_of_mem hMem
    · exact List.mem_map_of_mem (f := (·.2.eventId)) hParsed
  · rw [Bool.not_eq_true', ← Bool.not_eq_true]
    intro hKnown
    obtain ⟨row, hMem, hEq⟩ := List.mem_map.mp
      (mem_knownIds.mp (List.contains_iff_mem.mp hKnown)).1
    exact hRow row hMem hEq

end Alone

/-! ## The law -/

section Law

variable {photoDeletionInstant : EventRow → Option ℤ} {e e' : World × Ledger} {o : Option Uuid}

theorem Held.noRow_of_unnamed (hHeld : Held e) {upload : PhotoKeyParts} {key : String}
    (hDrawn : upload ∈ e.1.drawn)
    (hNames : (photoObjectKeys upload.eventId upload.photoId).Names key)
    (hUnnamed : ∀ row ∈ e.1.photos, ¬row.keys.Names key) : NoRow upload.photoId e.1 := by
  rintro row hRow hEq
  obtain ⟨hRowDrawn, -, hKeys⟩ := hHeld.row row hRow
  have hSame := hHeld.drawnOnce _ hRowDrawn upload hDrawn hEq
  refine hUnnamed row hRow ?_
  rw [hKeys]
  rwa [← hSame] at hNames

theorem Held.orphansFound (hHeld : Held e) : e.1.OrphansFound photoDeletionInstant := by
  intro object hMem
  obtain ⟨upload, hDrawn, hNames⟩ := hHeld.sent object (hHeld.listed object hMem)
  have hParts := photoKeyParts_of_names hNames
  refine ⟨upload, hParts, fun hEvent hUnnamed => Or.inr (Or.inr fun keys hint hKey => ?_)⟩
  exact alone_orphansOf hKey hParts hEvent (hHeld.noRow_of_unnamed hDrawn hNames hUnnamed)

theorem Change.removesOnlyGone (h : Change o e e') {tombstone : Tombstone}
    (hMem : tombstone ∈ e.1.tombstones) (hGone : tombstone ∉ e'.1.tombstones) :
    ¬Stands tombstone.objectKey e.1 ∧ ¬Stands tombstone.objectKey e'.1 := by
  cases h with
  | world _ _ hTombstones => exact absurd (hTombstones ▸ hMem) hGone
  | delete _ _ hKept => exact absurd (hKept tombstone hMem) hGone
  | @forget o s g keys hKeys =>
    have hKey : tombstone.objectKey ∈ keys := by
      by_contra hNot
      refine hGone (List.mem_filter.mpr ⟨hMem, ?_⟩)
      simpa using hNot
    exact ⟨(hKeys _ hKey).2, (hKeys _ hKey).2⟩
  | _ => exact absurd hMem hGone

end Law

/-- The stores before any upload. -/
def emptyPool (clock : ℤ) (events : List EventRow) : Pool World Call ℤ Call.Answer Uuid :=
  ⟨⟨clock, events, [], [], [], [], []⟩, [], []⟩

theorem emptyPool_sound (photoDeletionInstant : EventRow → Option ℤ) (clock : ℤ)
    (events : List EventRow) :
    photoRules.Sound (photoSystem photoDeletionInstant) (emptyPool clock events)
      fun _ => .sending where
  inv := ⟨nofun, nofun, List.Pairwise.nil, nofun, nofun, nofun, nofun, fun _ _ => rfl⟩
  tasks := nofun
  apart := List.Pairwise.nil
  begun := nofun
  strays := nofun

/-- While no insert of a photo row takes effect that its upload was told to have failed, rows keep
their images, tombstones outlive their objects, and no image is left where the sweep misses it. -/
theorem photoStores_law (photoDeletionInstant : EventRow → Option ℤ) (clock : ℤ)
    (events : List EventRow) {moves : List (Move _ _)} {w : Pool World Call ℤ Call.Answer Uuid}
    (hRun : (photoSystem photoDeletionInstant).PoolRun (emptyPool clock events) moves w)
    (hTimely : ∀ m ∈ moves, ∀ c, m.before.landing m.event = some c → Timely c m.before.state)
    (hTold : ∀ m ∈ moves, ∀ c,
      (photoSystem photoDeletionInstant).failedInEffect m.before m.event = some c →
        ¬c.IsInsert) :
    (w.state.ImagesStand ∧ w.state.OrphansFound photoDeletionInstant) ∧
      ∀ m ∈ moves, (m.before.state.ImagesStand ∧
        m.before.state.OrphansFound photoDeletionInstant) ∧ RemovesOnlyGone m := by
  obtain ⟨⟨g, hLast⟩, hMoves⟩ := Rules.Sound.run photoRules_kept
    (emptyPool_sound photoDeletionInstant clock events) hRun fun m hm =>
      ⟨hTimely m hm, hTold m hm⟩
  refine ⟨⟨hLast.inv.stands, hLast.inv.orphansFound⟩, fun m hm => ?_⟩
  obtain ⟨o, g, g', hBefore, hChange⟩ := hMoves m hm
  exact ⟨⟨hBefore.inv.stands, hBefore.inv.orphansFound⟩, fun tombstone hMem hGone =>
    hChange.removesOnlyGone hMem hGone⟩

/-! ## Two runs -/

section Runs

def neverExpires : EventRow → Option ℤ := fun _ => none

def eventId : Uuid := ⟨"0b6f3a52-8c1d-4e7a-9f20-5d3c1a7e4b68".toList, by decide⟩

def photoId : Uuid := ⟨"e4d2c7f1-3a9b-4c58-b0d6-92f8a1c5073e".toList, by decide⟩

def openEvent : EventRow := ⟨eventId, "2026-05-02", "Europe/Paris"⟩

def noHint : PageHint := ⟨[], none, 0⟩

/-- The first task's call lands and is answered. -/
def done (i : ℕ) : List (Event PageHint Job Elsewhere) := [.land i noHint, .answer i]

def fairMove (m : Move (Pool World Call ℤ Call.Answer Uuid) (Event PageHint Job Elsewhere)) :
    Bool :=
  (m.before.landing m.event).all fun c => decide (Timely c m.before.state)

theorem fairMove_timely
    {m : Move (Pool World Call ℤ Call.Answer Uuid) (Event PageHint Job Elsewhere)}
    (h : fairMove m = true) (c : Call) (hLands : m.before.landing m.event = some c) :
    Timely c m.before.state := by
  rw [fairMove, hLands, Option.all_some] at h
  exact of_decide_eq_true h

/-- The row is written, but its upload is told the connection broke and removes both images. -/
def lostInsert : List (Event PageHint Job Elsewhere) :=
  [.start (.upload eventId photoId)] ++ done 0 ++ done 0 ++
    [.land 0 noHint, .lose 0 "fetch failed"] ++ done 0 ++ done 0

theorem lostInsert_strands_row : ∃ moves w,
    (photoSystem neverExpires).PoolRun (emptyPool 0 [openEvent]) moves w ∧
      (∀ m ∈ moves, ∀ c, m.before.landing m.event = some c → Timely c m.before.state) ∧
      ∃ row ∈ w.state.photos, ∀ key, ¬Stands key w.state := by
  have hReplay : ((replay (photoSystem neverExpires).step (emptyPool 0 [openEvent]) lostInsert).map
      fun r => r.1.all fairMove && r.2.state.photos.length == 1 && r.2.state.bucket == []) =
        some true := by
    decide +kernel
  obtain ⟨⟨moves, w⟩, hRun, hCheck⟩ := Option.map_eq_some_iff.mp hReplay
  simp only [Bool.and_eq_true, List.all_eq_true, beq_iff_eq] at hCheck
  obtain ⟨⟨hFair, hRow⟩, hBucket⟩ := hCheck
  refine ⟨moves, w, run_of_replay hRun, fun m hm c => fairMove_timely (hFair m hm) c, ?_⟩
  obtain ⟨row, hPhotos⟩ := List.length_eq_one_iff.mp hRow
  refine ⟨row, by rw [hPhotos]; exact List.mem_cons_self, fun key hStands => ?_⟩
  obtain ⟨object, hMem, -⟩ := hStands
  rw [hBucket] at hMem
  cases hMem

/-- A photo is sent and deleted, and a drain removes its images and their tombstones. -/
def sentAndDrained : List (Event PageHint Job Elsewhere) :=
  [.start (.upload eventId photoId)] ++ done 0 ++ done 0 ++ done 0 ++
    [.elsewhere (.deletePhotos [photoId]), .start (.drain true 1), .look 1] ++ done 1 ++
    [.look 1] ++ done 1 ++ [.look 1] ++ done 1 ++ done 1

theorem photoStores_law_drained : ∃ moves w,
    (photoSystem neverExpires).PoolRun (emptyPool 0 [openEvent]) moves w ∧
      (moves.length = 20 ∧ w.state.bucket = [] ∧ w.state.tombstones = []) ∧
      (w.state.ImagesStand ∧ w.state.OrphansFound neverExpires) ∧
      ∀ m ∈ moves, (m.before.state.ImagesStand ∧ m.before.state.OrphansFound neverExpires) ∧
        RemovesOnlyGone m := by
  have hReplay : ((replay (photoSystem neverExpires).step (emptyPool 0 [openEvent])
      sentAndDrained).map fun r => (r.1.all fun m => fairMove m &&
        ((photoSystem neverExpires).failedInEffect m.before m.event).isNone) &&
          r.1.length == 20 && r.2.state.bucket == [] && r.2.state.tombstones == []) =
        some true := by
    decide +kernel
  obtain ⟨⟨moves, w⟩, hRun, hCheck⟩ := Option.map_eq_some_iff.mp hReplay
  simp only [Bool.and_eq_true, List.all_eq_true, beq_iff_eq, Option.isNone_iff_eq_none] at hCheck
  obtain ⟨⟨⟨hFair, hLength⟩, hBucket⟩, hTombstones⟩ := hCheck
  refine ⟨moves, w, run_of_replay hRun, ⟨hLength, hBucket, hTombstones⟩, ?_⟩
  exact photoStores_law neverExpires 0 [openEvent] (run_of_replay hRun)
    (fun m hm c => fairMove_timely (hFair m hm).1 c) fun m hm c hLost => by
      rw [(hFair m hm).2] at hLost
      cases hLost

end Runs

end MyClash.Photos
