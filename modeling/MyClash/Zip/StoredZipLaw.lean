import Mathlib.Algebra.BigOperators.Group.List.Basic
import MyClash.Zip.StoredZipDirectory

/-!
# The law of the stored zips

Both writers make one zip, the walk and the directory read it back, and its length is the one known
beforehand while no Zip64 record is asked for.
-/

namespace MyClash.Zip

open ByteFields

/-! ## The sizes -/

def entrySizes (entries : List ZipStreamEntry) : List (String × ℕ) :=
  entries.map fun entry => (entry.name, entry.bytes.length)

/-- The local headers with their bytes. -/
def bodyLength (sizes : List (String × ℕ)) : ℕ :=
  (sizes.map fun size => 30 + (utf8 size.1).length + size.2).sum

/-- The directory records without their Zip64 fields. -/
def directoryLength (sizes : List (String × ℕ)) : ℕ :=
  (sizes.map fun size => 46 + (utf8 size.1).length).sum

theorem bodyLength_cons (name : String) (size : ℕ) (sizes : List (String × ℕ)) :
    bodyLength ((name, size) :: sizes) = 30 + (utf8 name).length + size + bodyLength sizes :=
  List.sum_cons

theorem directoryLength_cons (name : String) (size : ℕ) (sizes : List (String × ℕ)) :
    directoryLength ((name, size) :: sizes) = 46 + (utf8 name).length + directoryLength sizes :=
  List.sum_cons

theorem storedZipBytes_eq (sizes : List (String × ℕ)) :
    storedZipBytes sizes = 22 + bodyLength sizes + directoryLength sizes := by
  have hFold : ∀ total, sizes.foldl (fun total entry =>
      total + (30 + 46 + 2 * (utf8 entry.1).length + entry.2)) total =
        total + bodyLength sizes + directoryLength sizes := by
    induction sizes with
    | nil => exact fun _ => rfl
    | cons size sizes ih =>
      intro total
      obtain ⟨name, length⟩ := size
      rw [List.foldl_cons, ih, bodyLength_cons, directoryLength_cons]
      dsimp only
      omega
  exact hFold 22

section Writers

variable {crc32 : List UInt8 → UInt32} {offset : ℕ} {entries : List ZipStreamEntry}
  {parts : List (List UInt8)} {records : List EntryRecord}

theorem length_laid (hLaid : Laid crc32 offset entries parts records) :
    parts.flatten.length = bodyLength (entrySizes entries) := by
  induction hLaid with
  | nil => rfl
  | @cons offset entry entries header parts records hHeader _ ih =>
    have hLength : header.length = 30 + (utf8 entry.name).length :=
      (headerOf_localHeader hHeader).length
    have hSize : bodyLength (entrySizes (entry :: entries)) =
        30 + (utf8 entry.name).length + entry.bytes.length + bodyLength (entrySizes entries) :=
      bodyLength_cons entry.name entry.bytes.length (entrySizes entries)
    rw [List.flatten_cons, List.flatten_cons, List.length_append, List.length_append, ih, hLength,
      hSize]
    omega

theorem records_laid (hLaid : Laid crc32 offset entries parts records) :
    records.map (fun record => (record.name, record.size)) =
      entries.map fun entry => (utf8 entry.name, entry.bytes.length) := by
  induction hLaid with
  | nil => rfl
  | cons _ _ ih => rw [List.map_cons, List.map_cons, ih]; rfl

theorem length_records (hLaid : Laid crc32 offset entries parts records) :
    records.length = entries.length := by
  rw [← List.length_map (f := fun record : EntryRecord => (record.name, record.size)),
    records_laid hLaid, List.length_map]

theorem offset_le_of_laid (hLaid : Laid crc32 offset entries parts records) :
    ∀ record ∈ records, record.offset ≤ offset + parts.flatten.length := by
  induction hLaid with
  | nil => exact fun _ h => absurd h List.not_mem_nil
  | @cons offset entry entries header parts records _ _ ih =>
    intro record hRecord
    rw [List.flatten_cons, List.flatten_cons, List.length_append, List.length_append]
    rcases List.mem_cons.mp hRecord with rfl | hRecord
    · exact Nat.le_add_right _ _
    · have hRest := ih record hRecord
      omega

/-! ## What the writers accept -/

/-- A name, a content and a stamp whose fields hold them. -/
structure EntryFits (entry : ZipStreamEntry) : Prop where
  name : (utf8 entry.name).length < 2 ^ 16
  bytes : entry.bytes.length < 2 ^ 32
  stamp : (dosStamp entry.modifiedAt).1 < 2 ^ 16 ∧ (dosStamp entry.modifiedAt).2 < 2 ^ 16

theorem laid_of_fits (crc32 : List UInt8 → UInt32) (offset : ℕ)
    (h : ∀ entry ∈ entries, EntryFits entry) :
    ∃ parts records, Laid crc32 offset entries parts records := by
  induction entries generalizing offset with
  | nil => exact ⟨[], [], .nil⟩
  | cons entry entries ih =>
    have hFits := h entry List.mem_cons_self
    have hSome : (localHeader (recordOf crc32 entry offset)).isSome :=
      localHeader_isSome hFits.name (UInt32.toNat_lt _) hFits.bytes hFits.stamp.1 hFits.stamp.2
    obtain ⟨header, hHeader⟩ := Option.isSome_iff_exists.mp hSome
    obtain ⟨parts, records, hRest⟩ := ih (offset + header.length + entry.bytes.length)
      fun other hOther => h other (List.mem_cons_of_mem entry hOther)
    exact ⟨_, _, .cons hHeader hRest⟩

theorem foldlM_of_laid (hLaid : Laid crc32 offset entries parts records) (w : Written)
    (hOffset : w.offset = offset) :
    entries.foldlM (Written.add crc32) w =
      some ⟨w.parts ++ parts, w.records ++ records, w.offset + parts.flatten.length⟩ := by
  induction hLaid generalizing w with
  | nil =>
    rw [List.append_nil, List.append_nil]
    rfl
  | @cons offset entry entries header parts records hHeader _ ih =>
    subst hOffset
    have hAdd : Written.add crc32 w entry =
        some ⟨w.parts ++ [header, entry.bytes], w.records ++ [recordOf crc32 entry w.offset],
          w.offset + header.length + entry.bytes.length⟩ := by
      rw [Written.add, hHeader, Option.map_some]
    rw [List.foldlM_cons, hAdd, Option.bind_eq_bind, Option.bind_some, ih _ rfl]
    simp only [List.append_assoc, List.cons_append, List.nil_append, List.flatten_cons,
      List.length_append, Nat.add_assoc]

theorem writeEntries_of_laid (hLaid : Laid crc32 0 entries parts records) :
    writeEntries crc32 entries = some ⟨parts, records, parts.flatten.length⟩ := by
  rw [writeEntries, foldlM_of_laid hLaid ⟨[], [], 0⟩ rfl, List.nil_append, List.nil_append,
    Nat.zero_add]

/-! ## The directory -/

theorem centralRecord_isSome {record : EntryRecord} (hName : record.name.length < 2 ^ 16)
    (hCrc : record.crc < 2 ^ 32) (hSize : record.size < 2 ^ 32) (hTime : record.time < 2 ^ 16)
    (hDate : record.date < 2 ^ 16) (hOffset : record.offset < 2 ^ 64) :
    (centralRecord record).isSome := by
  have hFixed : ∀ zip64 : Bool, (zip64 = false → record.offset < ALL32) →
      (writeFields (centralFields record zip64) (alloc 46)).isSome := by
    intro zip64 hClassic
    refine writeFields_isSome fun f hf => ?_
    simp only [centralFields, List.mem_cons, List.not_mem_nil, or_false] at hf
    cases zip64 with
    | true =>
      rcases hf with rfl | rfl | rfl | rfl | rfl | rfl | rfl | rfl | rfl | rfl <;>
        simp [Field.Fits, ZIP64, ALL32] <;> omega
    | false =>
      have hSmall := hClassic rfl
      simp only [ALL32] at hSmall
      rcases hf with rfl | rfl | rfl | rfl | rfl | rfl | rfl | rfl | rfl | rfl <;>
        simp [Field.Fits, PLAIN] <;> omega
  rw [centralRecord]
  by_cases h64 : ALL32 ≤ record.offset
  · obtain ⟨fixed, hWritten⟩ := Option.isSome_iff_exists.mp (hFixed true (by rintro ⟨⟩))
    have hExtra : (writeFields (extraFields record) (alloc 12)).isSome := by
      refine writeFields_isSome fun f hf => ?_
      simp only [extraFields, List.mem_cons, List.not_mem_nil, or_false] at hf
      rcases hf with rfl | rfl | rfl
      · simp [Field.Fits]
      · simp [Field.Fits]
      · exact ⟨by simpa using hOffset, by simp⟩
    obtain ⟨extra, hExtra⟩ := Option.isSome_iff_exists.mp hExtra
    have hLength : fixed.length = 46 := (central_fixed hWritten).1
    have hTwelve : extra.length = 12 := (length_writeFields hExtra).trans (length_alloc 12)
    have hFits : Field.Fits ⟨2, 30, extra.length⟩ fixed.length := by
      rw [hTwelve, hLength]
      decide
    simp only [decide_eq_true h64, hWritten, Option.bind_some, if_true, hExtra, writeField,
      if_pos hFits, Option.map_some, Option.isSome_some]
  · obtain ⟨fixed, hWritten⟩ :=
      Option.isSome_iff_exists.mp (hFixed false fun _ => Nat.lt_of_not_le h64)
    simp only [decide_eq_false h64, hWritten, Option.bind_some, Bool.false_eq_true, if_false,
      Option.isSome_some]

theorem mapM_isSome {α β : Type} {f : α → Option β} {l : List α} (h : ∀ a ∈ l, (f a).isSome) :
    (l.mapM f).isSome := by
  induction l with
  | nil => rfl
  | cons a l ih =>
    obtain ⟨b, hb⟩ := Option.isSome_iff_exists.mp (h a List.mem_cons_self)
    obtain ⟨bs, hbs⟩ := Option.isSome_iff_exists.mp
      (ih fun other hOther => h other (List.mem_cons_of_mem a hOther))
    rw [List.mapM_cons, hb, hbs]
    rfl

/-- The directory is its plain records and the Zip64 fields of the records past 32 bits. -/
theorem length_central {records : List EntryRecord} {central : List (List UInt8)}
    (h : records.mapM centralRecord = some central) :
    central.flatten.length =
      (records.map fun record => 46 + record.name.length + extraLength record).sum := by
  induction records generalizing central with
  | nil =>
    obtain rfl := Option.some.inj h
    rfl
  | cons record records ih =>
    rw [List.mapM_cons] at h
    obtain ⟨bytes, hBytes, hMap⟩ := Option.bind_eq_some_iff.mp h
    obtain ⟨others, hOthers, hParts⟩ := Option.bind_eq_some_iff.mp hMap
    obtain rfl := Option.some.inj hParts
    rw [List.flatten_cons, List.length_append, ih hOthers, List.map_cons, List.sum_cons,
      (centralOf_centralRecord hBytes).length]

theorem length_plainRecords (hLaid : Laid crc32 offset entries parts records) :
    (records.map fun record => 46 + record.name.length).sum =
      directoryLength (entrySizes entries) := by
  have hMap : records.map (fun record => 46 + record.name.length) =
      (records.map fun record => (record.name, record.size)).map fun pair => 46 + pair.1.length := by
    rw [List.map_map]
    rfl
  rw [hMap, records_laid hLaid, directoryLength, entrySizes, List.map_map, List.map_map]
  rfl

/-- What the two writers put after the entries. -/
structure Closed (records : List EntryRecord) (offset : ℕ) (central end_ : List UInt8) : Prop where
  directory : ∃ found, records.mapM centralRecord = some found ∧ central = found.flatten
  ends : endRecords records.length offset central.length = some end_

theorem closed_iff {central end_ : List UInt8} :
    closing records offset = some (central, end_) ↔ Closed records offset central end_ := by
  constructor
  · intro h
    obtain ⟨found, hFound, hMap⟩ := Option.bind_eq_some_iff.mp h
    obtain ⟨ends, hEnds, hPair⟩ := Option.map_eq_some_iff.mp hMap
    obtain ⟨rfl, rfl⟩ := Prod.mk.inj hPair
    exact ⟨⟨found, hFound, rfl⟩, hEnds⟩
  · rintro ⟨⟨found, hFound, rfl⟩, hEnds⟩
    simp only [closing, hFound, Option.bind_some, hEnds, Option.map_some]

/-- The zip of `entries`: their parts, the directory and the end records. -/
structure ZipOf (crc32 : List UInt8 → UInt32) (entries : List ZipStreamEntry)
    (parts : List (List UInt8)) (records : List EntryRecord) (central end_ : List UInt8) :
    Prop where
  laid : Laid crc32 0 entries parts records
  closed : Closed records parts.flatten.length central end_

theorem zipStream_iff {chunks : List (List UInt8)} :
    zipStream crc32 entries = some chunks ↔ ∃ parts records central end_,
      ZipOf crc32 entries parts records central end_ ∧ chunks = parts ++ [central, end_] := by
  constructor
  · intro h
    obtain ⟨w, hWritten, hMap⟩ := Option.bind_eq_some_iff.mp h
    obtain ⟨⟨central, end_⟩, hClosing, rfl⟩ := Option.map_eq_some_iff.mp hMap
    obtain ⟨hLaid, hOffset⟩ := laid_of_writeEntries hWritten
    rw [hOffset] at hClosing
    exact ⟨_, _, _, _, ⟨hLaid, closed_iff.mp hClosing⟩, rfl⟩
  · rintro ⟨parts, records, central, end_, ⟨hLaid, hClosed⟩, rfl⟩
    rw [zipStream, writeEntries_of_laid hLaid, Option.bind_some, closed_iff.mpr hClosed]
    rfl

theorem createStoredZip_iff {files : ZipFiles} {zip : List UInt8} :
    createStoredZip crc32 files = some zip ↔ ∃ parts records central end_,
      ZipOf crc32 (files.entries.map fileEntry) parts records central end_ ∧
        zip = parts.flatten ++ central ++ end_ := by
  constructor
  · intro h
    obtain ⟨w, hWritten, hMap⟩ := Option.bind_eq_some_iff.mp h
    obtain ⟨⟨central, end_⟩, hClosing, rfl⟩ := Option.map_eq_some_iff.mp hMap
    obtain ⟨hLaid, hOffset⟩ := laid_of_writeEntries hWritten
    rw [hOffset] at hClosing
    exact ⟨_, _, _, _, ⟨hLaid, closed_iff.mp hClosing⟩, rfl⟩
  · rintro ⟨parts, records, central, end_, ⟨hLaid, hClosed⟩, rfl⟩
    rw [createStoredZip, writeEntries_of_laid hLaid, Option.bind_some, closed_iff.mpr hClosed]
    rfl

section Made

variable {central end_ : List UInt8}

theorem extra_sum_le (records : List EntryRecord) :
    (records.map fun record => 46 + record.name.length + extraLength record).sum ≤
      (records.map fun record => 46 + record.name.length).sum + 12 * records.length := by
  induction records with
  | nil => exact Nat.le_refl _
  | cons record records ih =>
    have hExtra : extraLength record ≤ 12 := by
      rw [extraLength]
      split <;> omega
    rw [List.map_cons, List.map_cons, List.sum_cons, List.sum_cons, List.length_cons]
    omega

/-- Entries that fit their fields are written, up to places of 64 bits. -/
theorem zipOf_of_fits (crc32 : List UInt8 → UInt32) (hFits : ∀ entry ∈ entries, EntryFits entry)
    (hPlaces : storedZipBytes (entrySizes entries) + 12 * entries.length < 2 ^ 64) :
    ∃ parts records central end_, ZipOf crc32 entries parts records central end_ := by
  obtain ⟨parts, records, hLaid⟩ := laid_of_fits crc32 0 hFits
  have hBody := length_laid hLaid
  have hCount := length_records hLaid
  rw [storedZipBytes_eq] at hPlaces
  have hRecords : ∀ record ∈ records, (centralRecord record).isSome := by
    have hAll : ∀ {offset parts records} {entries : List ZipStreamEntry},
        Laid crc32 offset entries parts records → (∀ entry ∈ entries, EntryFits entry) →
        offset + parts.flatten.length < 2 ^ 64 →
        ∀ record ∈ records, (centralRecord record).isSome := by
      intro offset parts records entries hLaid
      induction hLaid with
      | nil => exact fun _ _ _ h => absurd h List.not_mem_nil
      | @cons offset entry entries header parts records _ _ ih =>
        intro hFits hPlace record hRecord
        rw [List.flatten_cons, List.flatten_cons, List.length_append, List.length_append] at hPlace
        rcases List.mem_cons.mp hRecord with rfl | hRecord
        · have hEntry := hFits entry List.mem_cons_self
          have hOffset : offset < 2 ^ 64 := by omega
          exact centralRecord_isSome hEntry.name (UInt32.toNat_lt _) hEntry.bytes hEntry.stamp.1
            hEntry.stamp.2 hOffset
        · exact ih (fun other hOther => hFits other (List.mem_cons_of_mem entry hOther))
            (by omega) record hRecord
    exact hAll hLaid hFits (by omega)
  obtain ⟨found, hFound⟩ := Option.isSome_iff_exists.mp (mapM_isSome hRecords)
  have hCentral : found.flatten.length ≤
      directoryLength (entrySizes entries) + 12 * entries.length := by
    rw [length_central hFound, ← length_plainRecords hLaid, ← hCount]
    exact extra_sum_le records
  have hEnds : (endRecords records.length parts.flatten.length found.flatten.length).isSome :=
    endRecords_isSome (by omega) (by omega)
  obtain ⟨end_, hEnd⟩ := Option.isSome_iff_exists.mp hEnds
  exact ⟨parts, records, found.flatten, end_, hLaid, ⟨found, hFound, rfl⟩, hEnd⟩

/-- The length of a zip, its Zip64 fields and records counted. -/
theorem length_zipOf (h : ZipOf crc32 entries parts records central end_) :
    (parts.flatten ++ central ++ end_).length =
      storedZipBytes (entrySizes entries) + (records.map extraLength).sum +
        if needsZip64 entries.length parts.flatten.length central.length then 76 else 0 := by
  obtain ⟨found, hFound, rfl⟩ := h.closed.directory
  have hSplit : (records.map fun record => 46 + record.name.length + extraLength record).sum =
      (records.map fun record => 46 + record.name.length).sum + (records.map extraLength).sum :=
    List.sum_map_add
  rw [List.length_append, List.length_append, length_endRecords h.closed.ends,
    length_records h.laid, storedZipBytes_eq, length_laid h.laid, length_central hFound, hSplit,
    length_plainRecords h.laid]
  omega

/-! ## The zip is read back -/

theorem stops_endRecords {count centralOffset centralSize : ℕ} {ends : List UInt8}
    (h : endRecords count centralOffset centralSize = some ends) : Stops ends := by
  have hLength := length_endRecords h
  obtain ⟨end_, hEnd, hRest⟩ := Option.bind_eq_some_iff.mp h
  cases hNeeds : needsZip64 count centralOffset centralSize with
  | false =>
    rw [hNeeds, if_neg Bool.false_ne_true] at hLength
    exact Or.inl (by omega)
  | true =>
    rw [hNeeds, if_pos rfl] at hRest
    obtain ⟨zip64End, hZip64, hMap⟩ := Option.bind_eq_some_iff.mp hRest
    obtain ⟨locator, _, rfl⟩ := Option.map_eq_some_iff.mp hMap
    have hSignature : readLE 4 zip64End 0 = some 0x06064b50 :=
      readLE_writeFields (by simp [zip64EndFields, Field.Apart]) hZip64 (f := ⟨4, 0, 0x06064b50⟩)
        (by simp [zip64EndFields])
    refine Or.inr ⟨0x06064b50, ?_, by decide⟩
    rw [List.append_assoc]
    exact readLE_append_of_some hSignature _

/-- The directory, or the end records alone, end the walk. -/
theorem stops_closed (h : Closed records offset central end_) : Stops (central ++ end_) := by
  obtain ⟨found, hFound, rfl⟩ := h.directory
  cases records with
  | nil =>
    obtain rfl := Option.some.inj hFound
    exact stops_endRecords h.ends
  | cons record records =>
    rw [List.mapM_cons] at hFound
    obtain ⟨bytes, hBytes, hMap⟩ := Option.bind_eq_some_iff.mp hFound
    obtain ⟨others, hOthers, hParts⟩ := Option.bind_eq_some_iff.mp hMap
    obtain rfl := Option.some.inj hParts
    have hSignature : readLE 4 bytes 0 = some 0x02014b50 :=
      (centralOf_centralRecord hBytes).fields ⟨4, 0, 0x02014b50⟩ (by simp [centralFields])
    refine Or.inr ⟨0x02014b50, ?_, by decide⟩
    rw [List.flatten_cons, List.append_assoc]
    exact readLE_append_of_some hSignature _

/-- The reader answers the entries by name, each a view of its own bytes. -/
def ReadsBack (text : TextOfBytes) (zip : List UInt8) (files : List (String × List UInt8)) : Prop :=
  ∃ found, readStoredZip text zip = .ok found ∧
    found.map (fun entry => (entry.1, View.bytes zip entry.2)) = files

theorem readsBack_zipOf (text : TextOfBytes) (h : ZipOf crc32 entries parts records central end_)
    (hNames : (entries.map (·.name)).Nodup) :
    ReadsBack text (parts.flatten ++ central ++ end_)
      (entries.map fun entry => (entry.name, entry.bytes)) := by
  have hRead : readFrom text ([] ++ (parts.flatten ++ (central ++ end_))) 0 [] =
      .ok ([] ++ entryViews 0 entries) :=
    readFrom_laid h.laid rfl (stops_closed h.closed) hNames
  have hBytes : (entryViews 0 entries).map (fun found =>
      (found.1, View.bytes ([] ++ (parts.flatten ++ (central ++ end_))) found.2)) =
        entries.map fun entry => (entry.name, entry.bytes) :=
    entryViews_bytes h.laid rfl
  rw [List.nil_append, ← List.append_assoc] at hRead hBytes
  exact ⟨_, hRead, hBytes⟩

/-- The directory, found from the end of the zip, lists each entry with the place of its own local
header, which is followed by its own bytes. -/
def Directs (zip : List UInt8) (files : List (String × List UInt8)) : Prop :=
  ∃ directory listed, directoryOf zip = some directory ∧ directory.count = files.length ∧
    listing zip directory.count directory.offset = some listed ∧
    List.Forall₂ (fun (listed : Listed) (file : String × List UInt8) =>
      listed.name = utf8 file.1 ∧ localAt zip listed.offset = some (listed, file.2)) listed files

theorem directs_zipOf (h : ZipOf crc32 entries parts records central end_) :
    Directs (parts.flatten ++ central ++ end_)
      (entries.map fun entry => (entry.name, entry.bytes)) := by
  obtain ⟨found, hFound, rfl⟩ := h.closed.directory
  have hCount := length_records h.laid
  have hDirectory : directoryOf (parts.flatten ++ found.flatten ++ end_) =
      some ⟨records.length, found.flatten.length, parts.flatten.length⟩ :=
    directoryOf_endRecords h.closed.ends List.length_append
  have hListing := listing_records hFound parts.flatten end_
  have hLocal : List.Forall₂ (fun record entry => record.name = utf8 entry.name ∧
      localAt ([] ++ (parts.flatten ++ (found.flatten ++ end_))) record.offset =
        some (record.listed, entry.bytes)) records entries :=
    localAt_laid h.laid rfl (found.flatten ++ end_)
  rw [List.nil_append, ← List.append_assoc] at hLocal
  rw [← List.append_assoc] at hListing
  refine ⟨_, _, hDirectory, ?_, hListing, ?_⟩
  · rw [hCount, List.length_map]
  · rw [List.forall₂_map_left_iff, List.forall₂_map_right_iff]
    exact hLocal

end Made

end Writers

/-! ## The law -/

def ZipFiles.contents (files : ZipFiles) : List (String × List UInt8) :=
  files.entries.map fun file => (file.1, file.2.bytes)

def ZipFiles.sizes (files : ZipFiles) : List (String × ℕ) :=
  files.entries.map fun file => (file.1, file.2.bytes.length)

/-- The same entries without a time; a checksum that is given is the right one. -/
def SameEntries (crc32 : List UInt8 → UInt32) (entries : List ZipStreamEntry) (files : ZipFiles) :
    Prop :=
  entries.map (fun entry => (entry.name, entry.bytes)) = files.contents ∧
    ∀ entry ∈ entries, entry.modifiedAt = none ∧
      ∀ crc ∈ entry.crc32, crc = crc32 entry.bytes

/-- Names, contents, offsets and count in the width of the classic records; the last offset is the
directory's own. -/
structure WithinLimits (files : ZipFiles) : Prop where
  names : ∀ file ∈ files.entries, (utf8 file.1).length < 65536
  contents : ∀ file ∈ files.entries, file.2.bytes.length < 2 ^ 32
  offsets : bodyLength files.sizes < 2 ^ 32
  count : files.entries.length < ALL16

/-- What the limits are meant to give: both writers, the reader and the predictor agree. -/
structure Agrees (crc32 : List UInt8 → UInt32) (text : TextOfBytes) (files : ZipFiles)
    (zip : List UInt8) : Prop where
  created : createStoredZip crc32 files = some zip
  reads : ReadsBack text zip files.contents
  length : zip.length = storedZipBytes files.sizes
  streams : ∀ entries, SameEntries crc32 entries files →
    ∃ chunks, zipStream crc32 entries = some chunks ∧ chunks.flatten = zip

structure StoredZipLaw (crc32 : List UInt8 → UInt32) (text : TextOfBytes) : Prop where
  /-- Under the limits, with the directory's offset and length under the mark of a Zip64 field. -/
  within : ∀ files, WithinLimits files → bodyLength files.sizes < ALL32 →
    directoryLength files.sizes < ALL32 → ∃ zip, Agrees crc32 text files zip
  /-- Past them, every zip of the two writers still names each place. -/
  created : ∀ files zip, createStoredZip crc32 files = some zip →
    ReadsBack text zip files.contents ∧ Directs zip files.contents
  streamed : ∀ entries chunks, zipStream crc32 entries = some chunks →
    Directs chunks.flatten (entries.map fun entry => (entry.name, entry.bytes))
  /-- Nothing but the width of a field stops the writers. -/
  written : ∀ entries, (∀ entry ∈ entries, EntryFits entry) →
    storedZipBytes (entrySizes entries) + 12 * entries.length < 2 ^ 64 →
    (zipStream crc32 entries).isSome
  /-- The reader ends on every buffer. -/
  safe : ∀ buffer, readStoredZip text buffer = .error .storedZip ∨
    ∃ found, readStoredZip text buffer = .ok found ∧ ∀ entry ∈ found, entry.2.Inside buffer

section Law

variable {crc32 : List UInt8 → UInt32}

theorem entrySizes_files (files : ZipFiles) :
    entrySizes (files.entries.map fileEntry) = files.sizes := by
  rw [entrySizes, List.map_map]
  rfl

theorem contents_files (files : ZipFiles) :
    (files.entries.map fileEntry).map (fun entry => (entry.name, entry.bytes)) = files.contents := by
  rw [List.map_map]
  rfl

theorem names_files (files : ZipFiles) :
    ((files.entries.map fileEntry).map (·.name)).Nodup := by
  rw [List.map_map]
  exact files.nodup

theorem fits_files {files : ZipFiles} (h : WithinLimits files) :
    ∀ entry ∈ files.entries.map fileEntry, EntryFits entry := by
  intro entry hEntry
  obtain ⟨file, hFile, rfl⟩ := List.mem_map.mp hEntry
  exact ⟨h.names file hFile, h.contents file hFile, by show 0 < 2 ^ 16; decide,
    by show 0 < 2 ^ 16; decide⟩

theorem add_same {w : Written} {entry : ZipStreamEntry} (hTime : entry.modifiedAt = none)
    (hCrc : ∀ crc ∈ entry.crc32, crc = crc32 entry.bytes) :
    Written.add crc32 w entry = Written.add crc32 w ⟨entry.name, entry.bytes, none, none⟩ := by
  have hRecord : recordOf crc32 entry w.offset =
      recordOf crc32 ⟨entry.name, entry.bytes, none, none⟩ w.offset := by
    cases hGiven : entry.crc32 with
    | none => simp only [recordOf, hGiven, hTime]
    | some crc =>
      simp only [recordOf, hGiven, hTime, hCrc crc hGiven, Option.getD_some, Option.getD_none]
  rw [Written.add, Written.add, hRecord]

/-- The loop sees no more of an entry than its name, its bytes, its time and its checksum. -/
theorem foldlM_same {entries : List ZipStreamEntry}
    (h : ∀ entry ∈ entries, entry.modifiedAt = none ∧
      ∀ crc ∈ entry.crc32, crc = crc32 entry.bytes) (w : Written) :
    entries.foldlM (Written.add crc32) w =
      (entries.map fun entry => (⟨entry.name, entry.bytes, none, none⟩ : ZipStreamEntry)).foldlM
        (Written.add crc32) w := by
  induction entries generalizing w with
  | nil => rfl
  | cons entry entries ih =>
    obtain ⟨hTime, hCrc⟩ := h entry List.mem_cons_self
    rw [List.map_cons, List.foldlM_cons, List.foldlM_cons, add_same hTime hCrc]
    exact congrArg _ (funext fun w => ih (fun other hOther =>
      h other (List.mem_cons_of_mem entry hOther)) w)

theorem plain_same {entries : List ZipStreamEntry} {files : ZipFiles}
    (h : SameEntries crc32 entries files) :
    (entries.map fun entry => (⟨entry.name, entry.bytes, none, none⟩ : ZipStreamEntry)) =
      files.entries.map fileEntry := by
  have hPairs := congrArg (List.map fun pair : String × List UInt8 =>
    (⟨pair.1, pair.2, none, none⟩ : ZipStreamEntry)) h.1
  rw [ZipFiles.contents, List.map_map, List.map_map] at hPairs
  exact hPairs

theorem writeEntries_same {entries : List ZipStreamEntry} {files : ZipFiles}
    (h : SameEntries crc32 entries files) :
    writeEntries crc32 entries = writeEntries crc32 (files.entries.map fileEntry) := by
  rw [writeEntries, writeEntries, foldlM_same h.2, plain_same h]

theorem zipStream_same {entries : List ZipStreamEntry} {files : ZipFiles} {zip : List UInt8}
    (h : SameEntries crc32 entries files) (hZip : createStoredZip crc32 files = some zip) :
    ∃ chunks, zipStream crc32 entries = some chunks ∧ chunks.flatten = zip := by
  obtain ⟨w, hWritten, hMap⟩ := Option.bind_eq_some_iff.mp hZip
  obtain ⟨⟨central, end_⟩, hClosing, rfl⟩ := Option.map_eq_some_iff.mp hMap
  refine ⟨w.parts ++ [central, end_], ?_, ?_⟩
  · rw [zipStream, writeEntries_same h, hWritten, Option.bind_some, hClosing, Option.map_some]
  · simp only [List.flatten_append, List.flatten_cons, List.flatten_nil, List.append_nil,
      List.append_assoc]

/-! ## Within the limits -/

theorem storedZipBytes_lt {files : ZipFiles} (hBody : bodyLength files.sizes < ALL32)
    (hDirectory : directoryLength files.sizes < ALL32) (hCount : files.entries.length < ALL16) :
    storedZipBytes (entrySizes (files.entries.map fileEntry)) +
      12 * (files.entries.map fileEntry).length < 2 ^ 64 := by
  rw [entrySizes_files, storedZipBytes_eq, List.length_map]
  simp only [ALL32, ALL16] at hBody hDirectory hCount
  omega

/-- No record's place is past the directory. -/
theorem extraLength_sum_of_lt {records : List EntryRecord} {limit : ℕ} (hLimit : limit < ALL32)
    (h : ∀ record ∈ records, record.offset ≤ limit) : (records.map extraLength).sum = 0 := by
  refine List.sum_eq_zero fun length hLength => ?_
  obtain ⟨record, hRecord, rfl⟩ := List.mem_map.mp hLength
  exact if_neg (Nat.not_le_of_lt ((h record hRecord).trans_lt hLimit))

theorem agrees_of_within (text : TextOfBytes) {files : ZipFiles} (h : WithinLimits files)
    (hBody : bodyLength files.sizes < ALL32) (hDirectory : directoryLength files.sizes < ALL32) :
    ∃ zip, Agrees crc32 text files zip := by
  obtain ⟨parts, records, central, end_, hZip⟩ :=
    zipOf_of_fits crc32 (fits_files h) (storedZipBytes_lt hBody hDirectory h.count)
  have hCreated : createStoredZip crc32 files = some (parts.flatten ++ central ++ end_) :=
    createStoredZip_iff.mpr ⟨_, _, _, _, hZip, rfl⟩
  have hReads := readsBack_zipOf text hZip (names_files files)
  rw [contents_files] at hReads
  have hParts : parts.flatten.length = bodyLength files.sizes := by
    rw [length_laid hZip.laid, entrySizes_files]
  have hExtra : (records.map extraLength).sum = 0 := by
    refine extraLength_sum_of_lt hBody fun record hRecord => ?_
    have hOffset := offset_le_of_laid hZip.laid record hRecord
    omega
  have hCentral : central.length = directoryLength files.sizes := by
    obtain ⟨found, hFound, rfl⟩ := hZip.closed.directory
    have hSplit : (records.map fun record => 46 + record.name.length + extraLength record).sum =
        (records.map fun record => 46 + record.name.length).sum + (records.map extraLength).sum :=
      List.sum_map_add
    rw [length_central hFound, hSplit, hExtra, length_plainRecords hZip.laid, entrySizes_files,
      Nat.add_zero]
  have hPlain : needsZip64 (files.entries.map fileEntry).length parts.flatten.length
      central.length = false := by
    have hCount := h.count
    simp only [needsZip64, hParts, hCentral, List.length_map, Bool.or_eq_false_iff,
      decide_eq_false_iff_not, Nat.not_le]
    exact ⟨⟨hCount, hBody⟩, hDirectory⟩
  have hLength := length_zipOf hZip
  rw [hExtra, hPlain, if_neg Bool.false_ne_true, Nat.add_zero, entrySizes_files] at hLength
  exact ⟨_, hCreated, hReads, hLength, fun entries hSame => zipStream_same hSame hCreated⟩

/-- Under limits that the directory keeps too, the writers, the reader and the predictor agree; past
them every place is named; and no buffer leads the reader outside it. -/
theorem storedZip_law (crc32 : List UInt8 → UInt32) (text : TextOfBytes) :
    StoredZipLaw crc32 text where
  within := fun _ h hBody hDirectory => agrees_of_within text h hBody hDirectory
  created := by
    intro files zip hZip
    obtain ⟨parts, records, central, end_, hMade, rfl⟩ := createStoredZip_iff.mp hZip
    have hReads := readsBack_zipOf text hMade (names_files files)
    have hDirects := directs_zipOf hMade
    rw [contents_files] at hReads hDirects
    exact ⟨hReads, hDirects⟩
  streamed := by
    intro entries chunks hChunks
    obtain ⟨parts, records, central, end_, hMade, rfl⟩ := zipStream_iff.mp hChunks
    have hDirects := directs_zipOf hMade
    rw [List.flatten_append, show [central, end_].flatten = central ++ end_ by simp,
      ← List.append_assoc]
    exact hDirects
  written := by
    intro entries hFits hPlaces
    obtain ⟨parts, records, central, end_, hMade⟩ := zipOf_of_fits crc32 hFits hPlaces
    rw [zipStream_iff.mpr ⟨_, _, _, _, hMade, rfl⟩]
    rfl
  safe := fun buffer => readFrom_inside 0 [] fun _ h => absurd h List.not_mem_nil

/-! ## At the mark -/

/-- One file of zeros with one letter's name. -/
def zerosFile (length : ℕ) : ZipFiles where
  entries := [("a", .buffer (List.replicate length 0))]
  nodup := by simp only [List.map_cons, List.map_nil, List.nodup_cons, List.not_mem_nil,
    not_false_eq_true, List.nodup_nil, and_self]

theorem sizes_zerosFile (length : ℕ) : (zerosFile length).sizes = [("a", length)] := by
  simp only [ZipFiles.sizes, zerosFile, List.map_cons, List.map_nil, ZipContent.bytes,
    List.length_replicate]

theorem body_zerosFile (length : ℕ) : bodyLength (zerosFile length).sizes = 31 + length := by
  have hName : (utf8 "a").length = 1 := by decide
  rw [sizes_zerosFile, bodyLength_cons, hName]
  rfl

theorem within_zerosFile {length : ℕ} (h : 31 + length < 2 ^ 32) :
    WithinLimits (zerosFile length) where
  names := by
    intro file hFile
    obtain rfl := List.mem_singleton.mp hFile
    show (utf8 "a").length < 65536
    decide
  contents := by
    intro file hFile
    obtain rfl := List.mem_singleton.mp hFile
    simp only [ZipContent.bytes, List.length_replicate]
    omega
  offsets := by rwa [body_zerosFile]
  count := by
    show 1 < ALL16
    decide

/-- A directory that starts at the mark has the Zip64 end records before the classic one. -/
theorem length_zerosFile {length : ℕ} (h : 31 + length = ALL32) :
    ∃ zip, createStoredZip crc32 (zerosFile length) = some zip ∧
      zip.length = storedZipBytes (zerosFile length).sizes + 76 := by
  have hWithin : 31 + length < 2 ^ 32 := h ▸ by decide
  have hDirectory : directoryLength (zerosFile length).sizes = 47 := by
    have hName : (utf8 "a").length = 1 := by decide
    rw [sizes_zerosFile, directoryLength_cons, hName]
    rfl
  have hPlaces : storedZipBytes (entrySizes ((zerosFile length).entries.map fileEntry)) +
      12 * ((zerosFile length).entries.map fileEntry).length < 2 ^ 64 := by
    have hOne : ((zerosFile length).entries.map fileEntry).length = 1 := rfl
    rw [entrySizes_files, storedZipBytes_eq, body_zerosFile, hDirectory, hOne]
    omega
  obtain ⟨parts, records, central, end_, hZip⟩ :=
    zipOf_of_fits crc32 (fits_files (within_zerosFile hWithin)) hPlaces
  have hParts : parts.flatten.length = ALL32 := by
    rw [length_laid hZip.laid, entrySizes_files, body_zerosFile, h]
  have hNeeds : needsZip64 ((zerosFile length).entries.map fileEntry).length parts.flatten.length
      central.length = true := by
    simp only [needsZip64, hParts, Nat.le_refl, decide_true, Bool.or_true, Bool.true_or]
  have hExtra : (records.map extraLength).sum = 0 := by
    rcases hZip.laid with _ | ⟨_, hRest⟩
    cases hRest
    rfl
  have hLength := length_zipOf hZip
  rw [hExtra, hNeeds, if_pos rfl, Nat.add_zero, entrySizes_files] at hLength
  exact ⟨_, createStoredZip_iff.mpr ⟨_, _, _, _, hZip, rfl⟩, hLength⟩

/-- At `0xffffffff` the directory is within 4 GiB, but its zip is longer than it was known to be. -/
theorem zerosFile_longer : WithinLimits (zerosFile (2 ^ 32 - 32)) ∧
    ∃ zip, createStoredZip (fun _ => 0) (zerosFile (2 ^ 32 - 32)) = some zip ∧
      zip.length ≠ storedZipBytes (zerosFile (2 ^ 32 - 32)).sizes := by
  refine ⟨within_zerosFile (by decide), ?_⟩
  have hMark : 31 + (2 ^ 32 - 32) = ALL32 := by decide
  obtain ⟨zip, hZip, hLength⟩ := length_zerosFile hMark
  exact ⟨zip, hZip, fun h => absurd (hLength.symm.trans h) (by omega)⟩

end Law

end MyClash.Zip
