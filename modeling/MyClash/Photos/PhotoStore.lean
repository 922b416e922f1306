import MyClash.Library.LossyCalls
import MyClash.Photos.InListChunks
import MyClash.Photos.PhotoKeys
import Mathlib.Data.Int.Order.Basic
import Mathlib.Data.List.Sort

/-!
# Photo rows and their images

Photo rows lie in the database and their images in a bucket, with no common transaction. An
upload puts both images and then writes its row. A row that goes queues its keys as
tombstones, whose objects the drain removes, and the sweep removes what no row names.
-/

namespace MyClash.Photos

open LossyCalls

def PHOTO_ORPHAN_GRACE_MS : ℤ := 60 * 60000

def PHOTO_DRAIN_BATCH : ℕ := 75

def PHOTO_CLEANUP_RUN_MS : ℤ := 4 * 60000

/-! ## The two stores -/

structure EventRow where
  id : Uuid
  endDate : String
  timezone : String

structure PhotoRow where
  id : Uuid
  eventId : Uuid
  keys : PhotoKeys
  deriving DecidableEq

structure Tombstone where
  objectKey : String
  queuedAt : ℤ
  deriving DecidableEq

structure PhotoObject where
  key : String
  lastModified : ℤ
  deriving DecidableEq

structure PhotoPage where
  objects : List PhotoObject
  next : Option String
  undated : ℕ

/-- Both stores, with the uploads begun and the puts the bucket carried out so far. -/
structure World where
  clock : ℤ
  events : List EventRow
  photos : List PhotoRow
  tombstones : List Tombstone
  bucket : List PhotoObject
  drawn : List PhotoKeyParts
  puts : List PhotoObject

namespace World

def queue (s : World) (key : String) : World :=
  if s.tombstones.any (·.objectKey = key) then s
  else { s with tombstones := s.tombstones ++ [⟨key, s.clock⟩] }

def eventPhotoTombstoneRow (s : World) (old : PhotoRow) : World :=
  (s.queue old.keys.originalKey).queue old.keys.previewKey

def eventPhotoTombstoneAll (s : World) : World :=
  (s.photos.map (·.keys.originalKey) ++ s.photos.map (·.keys.previewKey)).foldl queue s

/-- The rows `gone` names are deleted, by hand or by a cascade: the row trigger runs for each. -/
def deletePhotos (s : World) (gone : PhotoRow → Bool) : World :=
  { (s.photos.filter gone).foldl eventPhotoTombstoneRow s with
    photos := s.photos.filter fun row => !gone row }

def truncatePhotos (s : World) : World :=
  { s.eventPhotoTombstoneAll with photos := [] }

def deleteEvents (s : World) (ids : List Uuid) : World :=
  { s.deletePhotos fun row => ids.contains row.eventId with
    events := s.events.filter fun event => !ids.contains event.id }

def saveEvent (s : World) (event : EventRow) : World :=
  { s with events := event :: s.events.filter fun other => other.id ≠ event.id }

end World

inductive Elsewhere where
  | tick (ms : ℕ)
  | deletePhotos (ids : List Uuid)
  | deleteEvents (ids : List Uuid)
  | truncatePhotos
  | saveEvent (event : EventRow)

def Elsewhere.apply : Elsewhere → World → World
  | .tick ms, s => { s with clock := s.clock + ms }
  | .deletePhotos ids, s => s.deletePhotos fun row => ids.contains row.id
  | .deleteEvents ids, s => s.deleteEvents ids
  | .truncatePhotos, s => s.truncatePhotos
  | .saveEvent event, s => s.saveEvent event

/-! ## Calls -/

inductive Call where
  | put (key : String)
  | remove (key : String)
  | list (root : String) (next : Option String)
  | insertPhoto (row : PhotoRow)
  | deletePhotosOf (eventId : Uuid)
  | photoEvents
  | tombstones
  | forget (keys : List String)
  | knownEvents (ids : List Uuid)
  | knownPhotos (ids : List Uuid)

def Call.Answer : Call → Type
  | .put _ => Unit
  | .remove _ => Unit
  | .list _ _ => PhotoPage
  | .insertPhoto _ => Unit
  | .deletePhotosOf _ => List Uuid
  | .photoEvents => List EventRow
  | .tombstones => List String
  | .forget _ => Unit
  | .knownEvents _ => List Uuid
  | .knownPhotos _ => List Uuid

/-- The page the bucket answers a listing with: which of its keys, and what follows. -/
structure PageHint where
  keys : List String
  next : Option String
  undated : ℕ

namespace World

def put (s : World) (key : String) : World :=
  { s with
    bucket := (s.bucket.filter fun object => object.key ≠ key) ++ [⟨key, s.clock⟩]
    puts := s.puts ++ [⟨key, s.clock⟩] }

def remove (s : World) (key : String) : World :=
  { s with bucket := s.bucket.filter fun object => object.key ≠ key }

def page (s : World) (root : String) (hint : PageHint) : PhotoPage where
  objects := s.bucket.filter fun object =>
    root.toList.isPrefixOf object.key.toList && hint.keys.contains object.key
  next := hint.next
  undated := hint.undated

/-- An Event must stand for its photo, and the id and both keys must be new. -/
def insertPhoto (s : World) (row : PhotoRow) : Except String Unit × World :=
  if s.events.all fun event => event.id ≠ row.eventId then
    (.error "insert or update on table \"event_photos\" violates foreign key constraint", s)
  else if s.photos.any fun other => other.id = row.id ∨
      other.keys.originalKey = row.keys.originalKey ∨
      other.keys.previewKey = row.keys.previewKey then
    (.error "duplicate key value violates unique constraint", s)
  else (.ok (), { s with photos := s.photos ++ [row] })

def eventPhotoEvents (s : World) : List EventRow :=
  s.events.filter fun event => s.photos.any fun row => row.eventId = event.id

def oldestTombstones (s : World) : List String :=
  ((s.tombstones.insertionSort fun a b => a.queuedAt ≤ b.queuedAt).take
    PHOTO_DRAIN_BATCH).map (·.objectKey)

def forget (s : World) (keys : List String) : World :=
  { s with tombstones := s.tombstones.filter fun tombstone => !keys.contains tombstone.objectKey }

end World

/-- What a service does when it carries a call out, and what it answers. -/
def land : (c : Call) → PageHint → World → Except String c.Answer × World
  | .put key, _, s => (.ok (), s.put key)
  | .remove key, _, s => (.ok (), s.remove key)
  | .list root _, hint, s => (.ok (s.page root hint), s)
  | .insertPhoto row, _, s => s.insertPhoto row
  | .deletePhotosOf eventId, _, s =>
    (.ok ((s.photos.filter fun row => row.eventId = eventId).map (·.id)),
      s.deletePhotos fun row => row.eventId = eventId)
  | .photoEvents, _, s => (.ok s.eventPhotoEvents, s)
  | .tombstones, _, s => (.ok s.oldestTombstones, s)
  | .forget keys, _, s => (.ok (), s.forget keys)
  | .knownEvents ids, _, s => (.ok ((s.events.map (·.id)).filter ids.contains), s)
  | .knownPhotos ids, _, s => (.ok ((s.photos.map (·.id)).filter ids.contains), s)

abbrev Program := Prog Call ℤ Call.Answer

abbrev put (key : String) : Program (Except String Unit) := Prog.ask (Call.put key)

abbrev remove (key : String) : Program (Except String Unit) := Prog.ask (Call.remove key)

abbrev list (root : String) (next : Option String) : Program (Except String PhotoPage) :=
  Prog.ask (Call.list root next)

abbrev insertPhoto (row : PhotoRow) : Program (Except String Unit) :=
  Prog.ask (Call.insertPhoto row)

abbrev deletePhotosOf (eventId : Uuid) : Program (Except String (List Uuid)) :=
  Prog.ask (Call.deletePhotosOf eventId)

abbrev knownEvents (ids : List Uuid) : Program (Except String (List Uuid)) :=
  Prog.ask (Call.knownEvents ids)

abbrev knownPhotos (ids : List Uuid) : Program (Except String (List Uuid)) :=
  Prog.ask (Call.knownPhotos ids)

/-! ## The upload -/

/-- Best effort: a removal that fails is let go. -/
def removeQuietly : List String → Program Unit
  | [] => pure ()
  | key :: keys => do
    let _ ← remove key
    removeQuietly keys

def photosUnavailable : String := "Photos are unavailable right now, try again."

def storeBoth (keys : PhotoKeys) : Program (Except String Unit) := do
  match ← put keys.originalKey with
  | .error _ => do
    removeQuietly [keys.originalKey, keys.previewKey]
    pure (.error photosUnavailable)
  | .ok _ =>
    match ← put keys.previewKey with
    | .error _ => do
      removeQuietly [keys.originalKey, keys.previewKey]
      pure (.error photosUnavailable)
    | .ok _ => pure (.ok ())

def receive (eventId id : Uuid) : Program (Except String Uuid) := do
  let keys := photoObjectKeys eventId id
  match ← storeBoth keys with
  | .error refusal => pure (.error refusal)
  | .ok _ =>
    match ← insertPhoto ⟨id, eventId, keys⟩ with
    | .error message => do
      removeQuietly [keys.originalKey, keys.previewKey]
      pure (.error ("Photo row not written: " ++ message))
    | .ok _ => pure (.ok id)

/-! ## The clean-up -/

def photoEvents (what : String) : Program (Except String (List EventRow)) := do
  match ← (Prog.ask Call.photoEvents : Program (Except String (List EventRow))) with
  | .error message => pure (.error (what ++ ": " ++ message))
  | .ok rows => pure (.ok rows)

structure Expired where
  events : List Uuid
  photos : ℕ
  failures : List String

section Expire

variable (photoDeletionInstant : EventRow → Option ℤ)

def expireEach (now : ℤ) : List EventRow → Expired → Program Expired
  | [], expired => pure expired
  | row :: rows, expired =>
    match photoDeletionInstant row with
    | none => expireEach now rows expired
    | some instant =>
      if now < instant then expireEach now rows expired
      else do
        match ← deletePhotosOf row.id with
        | .error message =>
          expireEach now rows { expired with
            failures := expired.failures ++
              ["Photos of Event " ++ String.ofList row.id.text ++ " not expired: " ++ message] }
        | .ok gone =>
          expireEach now rows { expired with
            events := expired.events ++ [row.id]
            photos := expired.photos + gone.length }

def expire : Program (Except String (List Uuid × ℕ)) := do
  let now ← Prog.clock
  match ← photoEvents "Photo expiry not read" with
  | .error message => pure (.error message)
  | .ok rows => do
    let expired ← expireEach photoDeletionInstant now rows ⟨[], 0, []⟩
    if expired.failures.isEmpty then pure (.ok (expired.events, expired.photos))
    else pure (.error (String.intercalate "; " expired.failures))

end Expire

def pastDeadline (deadline : ℤ) : Program Bool := do
  let now ← Prog.clock
  pure (!decide (now < deadline))

structure Removal where
  removed : List String
  failure : Option String
  stopped : Bool

/-- Removes the keys in order until one fails or the deadline passes. -/
def removeAll (deadline : ℤ) (step : String) : List String → List String → Program Removal
  | removed, [] => pure ⟨removed, none, false⟩
  | removed, key :: keys => do
    if ← pastDeadline deadline then pure ⟨removed, none, true⟩
    else
      match ← remove key with
      | .error message =>
        pure ⟨removed, some ("Photo " ++ step ++ " stopped at " ++ key ++ ": " ++ message), false⟩
      | .ok _ => removeAll deadline step (removed ++ [key]) keys

def tombstones : Program (Except String (List String)) := do
  match ← (Prog.ask Call.tombstones : Program (Except String (List String))) with
  | .error message => pure (.error ("Photo tombstones not read: " ++ message))
  | .ok keys => pure (.ok keys)

def forget (keys : List String) : Program (Except String Unit) :=
  if keys.isEmpty then pure (.ok ())
  else do
    match ← (Prog.ask (Call.forget keys) : Program (Except String Unit)) with
    | .error message =>
      pure (.error ("Photo tombstones not cleared (their objects are gone): " ++ message))
    | .ok _ => pure (.ok ())

/-- The loop of the drain, cut after the given number of rounds. -/
@[grind =] def drainRounds (store : Bool) (deadline : ℤ) : ℕ → List String → Program (Except String ℕ)
  | 0, done => pure (.ok done.length)
  | rounds + 1, done => do
    match ← tombstones with
    | .error message => pure (.error message)
    | .ok keys =>
      if keys.isEmpty then pure (.ok done.length)
      else if !store then pure (.ok done.length)
      else
        match keys.find? done.contains with
        | some again =>
          pure (.error ("Photo tombstone " ++ again ++ " was cleared but is still there"))
        | none => do
          let removal ← removeAll deadline "drain" [] keys
          match ← forget removal.removed with
          | .error message => pure (.error message)
          | .ok _ =>
            let done := removal.removed.foldl (fun done key => done.insert key) done
            match removal.failure with
            | some failure => pure (.error failure)
            | none =>
              if removal.stopped || decide (keys.length < PHOTO_DRAIN_BATCH) then
                pure (.ok done.length)
              else drainRounds store deadline rounds done

def drain (store : Bool) (rounds : ℕ) : Program (Except String ℕ) := do
  let now ← Prog.clock
  drainRounds store (now + PHOTO_CLEANUP_RUN_MS) rounds []

def readChunks (what : String) (read : List Uuid → Program (Except String (List Uuid))) :
    List (List Uuid) → List Uuid → Program (Except String (List Uuid))
  | [], known => pure (.ok known)
  | chunk :: chunks, known => do
    match ← read chunk with
    | .error message => pure (.error (what ++ " not read for the orphan sweep: " ++ message))
    | .ok ids => readChunks what read chunks (known ++ ids)

/-- Which of the ids the read finds. -/
def knownIds (what : String) (ids : List Uuid)
    (read : List Uuid → Program (Except String (List Uuid))) : Program (Except String (List Uuid)) :=
  readChunks what read (inListChunks ids.eraseDups) []

/-- The keys of an Event this database holds that no photo row names. -/
def orphansOf (keys : List String) : Program (Except String (List String)) := do
  let parsed := keys.filterMap fun key => (photoKeyParts key).map fun parts => (key, parts)
  match ← knownIds "Events" (parsed.map (·.2.eventId)) knownEvents with
  | .error message => pure (.error message)
  | .ok events =>
    let ours := parsed.filter fun p => events.contains p.2.eventId
    match ← knownIds "Photo rows" (ours.map (·.2.photoId)) knownPhotos with
    | .error message => pure (.error message)
    | .ok photos => pure (.ok ((ours.filter fun p => !photos.contains p.2.photoId).map (·.1)))

/-- The loop over the pages of the bucket, cut after the given number of rounds. -/
@[grind =] def sweepRounds (deadline : ℤ) : ℕ → ℕ → Option String → Program (Except String ℕ)
  | 0, deleted, _ => pure (.ok deleted)
  | rounds + 1, deleted, next => do
    if ← pastDeadline deadline then pure (.ok deleted)
    else
      match ← list "events/" next with
      | .error message => pure (.error message)
      | .ok page => do
        let now ← Prog.clock
        let old := page.objects.filter fun object =>
          decide (PHOTO_ORPHAN_GRACE_MS ≤ now - object.lastModified)
        match ← orphansOf (old.map (·.key)) with
        | .error message => pure (.error message)
        | .ok orphans => do
          let removal ← removeAll deadline "orphan sweep" [] orphans
          let deleted := deleted + removal.removed.length
          match removal.failure with
          | some failure => pure (.error failure)
          | none =>
            -- an empty continuation ends the loop as a missing one does
            if removal.stopped || page.next.getD "" = "" then pure (.ok deleted)
            else sweepRounds deadline rounds deleted page.next

def sweep (store : Bool) (rounds : ℕ) : Program (Except String ℕ) :=
  if !store then pure (.ok 0)
  else do
    match ← photoEvents "Orphan sweep refused: the photo rows cannot be read as the service role" with
    | .error message => pure (.error message)
    | .ok _ => do
      let now ← Prog.clock
      sweepRounds (now + PHOTO_CLEANUP_RUN_MS) rounds 0 none

/-! ## All of it at once -/

inductive Job where
  | upload (eventId id : Uuid)
  | expire
  | drain (store : Bool) (rounds : ℕ)
  | sweep (store : Bool) (rounds : ℕ)

def Job.program (photoDeletionInstant : EventRow → Option ℤ) : Job → Program Unit
  | .upload eventId id => do
    let _ ← receive eventId id
    pure ()
  | .expire => do
    let _ ← Photos.expire photoDeletionInstant
    pure ()
  | .drain store rounds => do
    let _ ← Photos.drain store rounds
    pure ()
  | .sweep store rounds => do
    let _ ← Photos.sweep store rounds
    pure ()

/-- An upload draws an id that was never drawn before. -/
def Job.start : Job → World → Option World
  | .upload eventId id, s =>
    if s.drawn.any (·.photoId = id) then none
    else some { s with drawn := ⟨eventId, id⟩ :: s.drawn }
  | _, s => some s

def Job.party : Job → Option Uuid
  | .upload _ id => some id
  | _ => none

def photoSystem (photoDeletionInstant : EventRow → Option ℤ) :
    System World Call ℤ Call.Answer PageHint Job Elsewhere Uuid where
  land := land
  look := World.clock
  start := Job.start
  program := Job.program photoDeletionInstant
  party := Job.party
  elsewhere x s := some (x.apply s)

end MyClash.Photos
