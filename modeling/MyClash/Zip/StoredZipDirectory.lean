import MyClash.Zip.StoredZipRead

/-!
# The directory of a stored zip

How an unzip tool finds the entries: from the end record, and the Zip64 records where a classic
field is full, to the directory, and from there to each local header. In every zip the writers make,
past every limit, these places are right.
-/

namespace MyClash.Zip

open ByteFields

/-! ## What an unzip tool reads -/

structure Listed where
  name : List UInt8
  crc : ℕ
  size : ℕ
  offset : ℕ

def EntryRecord.listed (record : EntryRecord) : Listed :=
  ⟨record.name, record.crc, record.size, record.offset⟩

section Tool

variable (buffer : List UInt8)

/-- The offset of the record at `pos`: the classic field, or the Zip64 one where that is full. -/
def listedOffset (pos nameLength : ℕ) : Option ℕ :=
  (readLE 4 buffer (pos + 42)).bind fun offset =>
    if offset = ALL32 then readLE 8 buffer (pos + (46 + nameLength + 4)) else some offset

/-- The directory record at `pos`, and where the next one is. -/
def listedAt (pos : ℕ) : Option (Listed × ℕ) := do
  let signature ← readLE 4 buffer pos
  let nameLength ← readLE 2 buffer (pos + 28)
  let extraLength ← readLE 2 buffer (pos + 30)
  let commentLength ← readLE 2 buffer (pos + 32)
  let crc ← readLE 4 buffer (pos + 16)
  let size ← readLE 4 buffer (pos + 24)
  let offset ← listedOffset buffer pos nameLength
  if signature = 0x02014b50 then
    some (⟨(buffer.drop (pos + 46)).take nameLength, crc, size, offset⟩,
      pos + (46 + nameLength + extraLength + commentLength))
  else none

def listing : (count pos : ℕ) → Option (List Listed)
  | 0, _ => some []
  | count + 1, pos => do
    let (listed, next) ← listedAt buffer pos
    let rest ← listing count next
    some (listed :: rest)

structure Directory where
  count : ℕ
  size : ℕ
  offset : ℕ

/-- The Zip64 end record that the locator before the end record names. -/
def zip64Directory (endAt : ℕ) : Option Directory := do
  let locator ← readLE 4 buffer (endAt - 20)
  let pos ← readLE 8 buffer (endAt - 20 + 8)
  let signature ← readLE 4 buffer pos
  let count ← readLE 8 buffer (pos + 32)
  let size ← readLE 8 buffer (pos + 40)
  let offset ← readLE 8 buffer (pos + 48)
  if locator = 0x07064b50 ∧ signature = 0x06064b50 then some ⟨count, size, offset⟩ else none

/-- The directory that the last 22 bytes name. -/
def directoryOf : Option Directory := do
  let endAt := buffer.length - 22
  let signature ← readLE 4 buffer endAt
  let count ← readLE 2 buffer (endAt + 10)
  let size ← readLE 4 buffer (endAt + 12)
  let offset ← readLE 4 buffer (endAt + 16)
  if signature = 0x06054b50 then
    if count = ALL16 ∨ size = ALL32 ∨ offset = ALL32 then zip64Directory buffer endAt
    else some ⟨count, size, offset⟩
  else none

/-- The entry whose local header is at `pos`, and its bytes. -/
def localAt (pos : ℕ) : Option (Listed × List UInt8) := do
  let signature ← readLE 4 buffer pos
  let crc ← readLE 4 buffer (pos + 14)
  let (size, nameLength, extraLength) ← headerLengths buffer pos
  if signature = 0x04034b50 then
    some (⟨(buffer.drop (pos + 30)).take nameLength, crc, size, pos⟩,
      (buffer.drop (pos + 30 + nameLength + extraLength)).take size)
  else none

end Tool

/-! ## A directory record -/

section Central

variable {record : EntryRecord} {bytes : List UInt8}

theorem centralFields_apart (record : EntryRecord) (zip64 : Bool) :
    (centralFields record zip64).Pairwise Field.Apart := by
  simp [centralFields, Field.Apart]

/-- The extra field of a record past 32 bits. -/
def extraLength (record : EntryRecord) : ℕ := if ALL32 ≤ record.offset then 12 else 0

/-- What a directory record says of its entry. -/
structure CentralOf (record : EntryRecord) (bytes : List UInt8) : Prop where
  length : bytes.length = 46 + record.name.length + extraLength record
  name : (bytes.drop 46).take record.name.length = record.name
  fields : ∀ f ∈ centralFields record (ALL32 ≤ record.offset),
    readLE f.width bytes f.pos = some f.value
  extra : readLE 2 bytes 30 = some (extraLength record)
  noComment : readLE 2 bytes 32 = some 0
  offset64 : ALL32 ≤ record.offset →
    readLE 8 bytes (46 + record.name.length + 4) = some record.offset

/-- The fixed part of a record, before its extra length. -/
theorem central_fixed {zip64 : Bool} {fixed : List UInt8}
    (h : writeFields (centralFields record zip64) (alloc 46) = some fixed) :
    fixed.length = 46 ∧
      (∀ f ∈ centralFields record zip64, readLE f.width fixed f.pos = some f.value) ∧
      readLE 2 fixed 30 = some 0 ∧ readLE 2 fixed 32 = some 0 := by
  refine ⟨(length_writeFields h).trans (length_alloc 46),
    fun f hf => readLE_writeFields (centralFields_apart record zip64) h hf, ?_, ?_⟩
  · rw [readLE_writeFields_of_apart ?_ h, readLE_alloc (by omega)]
    simp [centralFields]
  · rw [readLE_writeFields_of_apart ?_ h, readLE_alloc (by omega)]
    simp [centralFields]

theorem centralFields_apart_extra {zip64 : Bool} :
    ∀ f ∈ centralFields record zip64, f.pos + f.width ≤ 30 ∨ 30 + 2 ≤ f.pos := by
  simp [centralFields]

theorem centralOf_plain (hPlain : ¬ALL32 ≤ record.offset) {fixed : List UInt8}
    (h : writeFields (centralFields record false) (alloc 46) = some fixed) :
    CentralOf record (fixed ++ record.name) := by
  obtain ⟨hLength, hFields, hExtra, hComment⟩ := central_fixed h
  have hNoExtra : extraLength record = 0 := if_neg hPlain
  refine ⟨?_, ?_, fun f hf => ?_, ?_, readLE_append_of_some hComment _, fun h64 => absurd h64 hPlain⟩
  · rw [List.length_append, hLength, hNoExtra, Nat.add_zero]
  · rw [List.drop_append_of_le_length hLength.ge, List.drop_of_length_le hLength.le,
      List.nil_append, List.take_length]
  · rw [decide_eq_false hPlain] at hf
    exact readLE_append_of_some (hFields f hf) _
  · rw [hNoExtra]
    exact readLE_append_of_some hExtra _

theorem centralOf_zip64 (h64 : ALL32 ≤ record.offset) {fixed extra written : List UInt8}
    (h : writeFields (centralFields record true) (alloc 46) = some fixed)
    (hExtra : writeFields (extraFields record) (alloc 12) = some extra)
    (hWritten : writeField fixed ⟨2, 30, extra.length⟩ = some written) :
    CentralOf record (written ++ record.name ++ extra) := by
  obtain ⟨hLength, hFields, -, hComment⟩ := central_fixed h
  have hTwelve : extra.length = 12 := (length_writeFields hExtra).trans (length_alloc 12)
  have hSome : extraLength record = 12 := if_pos h64
  have hFits : Field.Fits ⟨2, 30, extra.length⟩ fixed.length := by
    rw [hTwelve, hLength]
    decide
  have hPut : written = Field.put ⟨2, 30, extra.length⟩ fixed := by
    rw [writeField, if_pos hFits] at hWritten
    exact (Option.some.inj hWritten).symm
  have hWrittenLength : written.length = 46 := by
    rw [hPut, length_put hFits.2, hLength]
  have hKept : ∀ width pos, (pos + width ≤ 30 ∨ 30 + 2 ≤ pos) →
      readLE width written pos = readLE width fixed pos := by
    intro width pos hApart
    rw [hPut]
    exact readLE_put_of_apart hFits.2 hApart
  refine ⟨?_, ?_, fun f hf => ?_, ?_, ?_, fun _ => ?_⟩
  · rw [List.length_append, List.length_append, hWrittenLength, hTwelve, hSome]
  · rw [List.append_assoc, List.drop_append_of_le_length hWrittenLength.ge,
      List.drop_of_length_le hWrittenLength.le, List.nil_append, List.take_left]
  · rw [decide_eq_true h64] at hf
    rw [List.append_assoc]
    refine readLE_append_of_some ?_ _
    rw [hKept _ _ (centralFields_apart_extra f hf)]
    exact hFields f hf
  · rw [List.append_assoc, hSome]
    refine readLE_append_of_some ?_ _
    rw [hPut, ← hTwelve]
    exact readLE_put_self hFits
  · rw [List.append_assoc]
    refine readLE_append_of_some ?_ _
    rw [hKept 2 32 (by omega), hComment]
  · have hBefore : (written ++ record.name).length = 46 + record.name.length := by
      rw [List.length_append, hWrittenLength]
    rw [← hBefore, readLE_append_right]
    exact readLE_writeFields (by simp [extraFields, Field.Apart]) hExtra
      (f := ⟨8, 4, record.offset⟩) (by simp [extraFields])

theorem centralOf_centralRecord (h : centralRecord record = some bytes) :
    CentralOf record bytes := by
  obtain ⟨fixed, hFixed, hRest⟩ := Option.bind_eq_some_iff.mp h
  by_cases h64 : ALL32 ≤ record.offset
  · rw [if_pos (decide_eq_true h64)] at hRest
    obtain ⟨extra, hExtra, hMap⟩ := Option.bind_eq_some_iff.mp hRest
    obtain ⟨written, hWritten, rfl⟩ := Option.map_eq_some_iff.mp hMap
    rw [decide_eq_true h64] at hFixed
    exact centralOf_zip64 h64 hFixed hExtra hWritten
  · rw [if_neg (by simpa using h64)] at hRest
    obtain rfl := Option.some.inj hRest
    rw [decide_eq_false h64] at hFixed
    exact centralOf_plain h64 hFixed

/-- An unzip tool finds the record's own offset in it. -/
theorem listedAt_record (h : CentralOf record bytes) (before rest : List UInt8) :
    listedAt (before ++ (bytes ++ rest)) before.length =
      some (record.listed, before.length + bytes.length) := by
  have hRead : ∀ {width pos value : ℕ}, readLE width bytes pos = some value →
      readLE width (before ++ (bytes ++ rest)) (before.length + pos) = some value := by
    intro width pos value hValue
    rw [readLE_append_right]
    exact readLE_append_of_some hValue _
  have hField : ∀ f ∈ centralFields record (ALL32 ≤ record.offset),
      readLE f.width (before ++ (bytes ++ rest)) (before.length + f.pos) = some f.value :=
    fun f hf => hRead (h.fields f hf)
  have hSignature : readLE 4 (before ++ (bytes ++ rest)) before.length = some 0x02014b50 :=
    hField ⟨4, 0, 0x02014b50⟩ (by simp [centralFields])
  have hCrc := hField ⟨4, 16, record.crc⟩ (by simp [centralFields])
  have hSize := hField ⟨4, 24, record.size⟩ (by simp [centralFields])
  have hNameLength := hField ⟨2, 28, record.name.length⟩ (by simp [centralFields])
  have hOffset : listedOffset (before ++ (bytes ++ rest)) before.length record.name.length =
      some record.offset := by
    have hClassic := hField ⟨4, 42, if ALL32 ≤ record.offset then ALL32 else record.offset⟩
      (by simp [centralFields])
    rw [listedOffset, hClassic, Option.bind_some]
    by_cases h64 : ALL32 ≤ record.offset
    · rw [if_pos h64, if_pos rfl]
      exact hRead (h.offset64 h64)
    · rw [if_neg h64, if_neg fun hFull => h64 hFull.ge]
  have hName : ((before ++ (bytes ++ rest)).drop (before.length + 46)).take record.name.length =
      record.name := by
    have hLong : 46 + record.name.length ≤ bytes.length := by
      rw [h.length]
      exact Nat.le_add_right _ _
    rw [List.drop_append, List.drop_of_length_le (Nat.le_add_right _ _), Nat.add_sub_cancel_left,
      List.nil_append, List.drop_append_of_le_length (by omega),
      List.take_append_of_le_length (by rw [List.length_drop]; omega), h.name]
  simp only [listedAt, hSignature, hNameLength, hRead h.extra, hRead h.noComment, hCrc, hSize,
    hOffset, hName, Option.bind_eq_bind, Option.bind_some, if_true, h.length, Nat.add_zero]
  rfl

/-- The whole directory is listed, each record from the end of the one before. -/
theorem listing_records {records : List EntryRecord} {parts : List (List UInt8)}
    (h : records.mapM centralRecord = some parts) (before rest : List UInt8) :
    listing (before ++ (parts.flatten ++ rest)) records.length before.length =
      some (records.map EntryRecord.listed) := by
  induction records generalizing before parts with
  | nil => rfl
  | cons record records ih =>
    rw [List.mapM_cons] at h
    obtain ⟨bytes, hBytes, hMap⟩ := Option.bind_eq_some_iff.mp h
    obtain ⟨others, hOthers, hParts⟩ := Option.bind_eq_some_iff.mp hMap
    obtain rfl := Option.some.inj hParts
    have hCentral := centralOf_centralRecord hBytes
    have hFlat : before ++ ((bytes :: others).flatten ++ rest) =
        before ++ (bytes ++ (others.flatten ++ rest)) := by
      rw [List.flatten_cons, List.append_assoc]
    have hNext := ih hOthers (before ++ bytes)
    rw [List.length_append, List.append_assoc] at hNext
    rw [List.length_cons, listing, hFlat, listedAt_record hCentral]
    simp only [Option.bind_eq_bind, Option.bind_some, hNext, List.map_cons]

end Central

/-! ## The local headers -/

section Local

variable {crc32 : List UInt8 → UInt32}

theorem localAt_header {offset : ℕ} {entry : ZipStreamEntry} {header before : List UInt8}
    (hOffset : before.length = offset)
    (hHeader : localHeader (recordOf crc32 entry offset) = some header) (rest : List UInt8) :
    localAt (before ++ (header ++ entry.bytes ++ rest)) offset =
      some ((recordOf crc32 entry offset).listed, entry.bytes) := by
  subst hOffset
  have hOf := headerOf_localHeader hHeader
  have hSignature : readLE 4 (before ++ (header ++ entry.bytes ++ rest)) before.length =
      some 0x04034b50 :=
    readLE_header (hOf.fields ⟨4, 0, 0x04034b50⟩ (by simp [localFields])) before rest
  have hCrc : readLE 4 (before ++ (header ++ entry.bytes ++ rest)) (before.length + 14) =
      some (recordOf crc32 entry before.length).crc :=
    readLE_header (hOf.fields ⟨4, 14, _⟩ (by simp [localFields])) before rest
  have hLengths := headerLengths_header hHeader rest
  have hLength : header.length = 30 + (utf8 entry.name).length := hOf.length
  have hName : ((before ++ (header ++ entry.bytes ++ rest)).drop (before.length + 30)).take
      (utf8 entry.name).length = utf8 entry.name := by
    rw [List.drop_append, List.drop_of_length_le (Nat.le_add_right _ _), Nat.add_sub_cancel_left,
      List.nil_append, List.append_assoc, List.drop_append_of_le_length (by omega), hOf.name]
    exact List.take_left
  have hBytes : ((before ++ (header ++ entry.bytes ++ rest)).drop
      (before.length + 30 + (utf8 entry.name).length + 0)).take entry.bytes.length =
        entry.bytes := by
    have hAt : before.length + 30 + (utf8 entry.name).length + 0 = (before ++ header).length := by
      rw [List.length_append, hLength]
      omega
    rw [hAt, ← List.append_assoc, ← List.append_assoc, List.append_assoc (before ++ header),
      List.drop_left, List.take_left]
  simp only [localAt, hSignature, hCrc, hLengths, Option.bind_eq_bind, Option.bind_some, if_true,
    hName, hBytes]
  rfl

/-- Each record's offset is where its own local header is, before its own bytes. -/
theorem localAt_laid {offset : ℕ} {entries : List ZipStreamEntry} {parts : List (List UInt8)}
    {records : List EntryRecord} (hLaid : Laid crc32 offset entries parts records)
    {before : List UInt8} (hOffset : before.length = offset) (rest : List UInt8) :
    List.Forall₂ (fun record entry => record.name = utf8 entry.name ∧
        localAt (before ++ (parts.flatten ++ rest)) record.offset =
          some (record.listed, entry.bytes)) records entries := by
  induction hLaid generalizing before with
  | nil => exact .nil
  | @cons offset entry entries header parts records hHeader _ ih =>
    have hFlat : before ++ ((header :: entry.bytes :: parts).flatten ++ rest) =
        before ++ (header ++ entry.bytes ++ (parts.flatten ++ rest)) := by
      simp only [List.flatten_cons, List.append_assoc]
    have hBefore : before ++ (header ++ entry.bytes ++ (parts.flatten ++ rest)) =
        (before ++ header ++ entry.bytes) ++ (parts.flatten ++ rest) := by
      simp only [List.append_assoc]
    have hNext : (before ++ header ++ entry.bytes).length =
        offset + header.length + entry.bytes.length := by
      rw [List.length_append, List.length_append, hOffset]
    rw [hFlat]
    refine .cons ⟨rfl, localAt_header hOffset hHeader _⟩ ?_
    rw [hBefore]
    exact ih hNext

end Local

/-! ## The end records -/

section End

variable {count centralOffset centralSize : ℕ} {end_ ends : List UInt8}

theorem endRecord_read (h : writeFields (endFields count centralOffset centralSize) (alloc 22) =
      some end_) :
    end_.length = 22 ∧ ∀ f ∈ endFields count centralOffset centralSize,
      readLE f.width end_ f.pos = some f.value :=
  ⟨(length_writeFields h).trans (length_alloc 22), fun _ hf =>
    readLE_writeFields (by simp [endFields, Field.Apart]) h hf⟩

/-- The classic record alone, where nothing asks for Zip64. -/
theorem directoryOf_plain (h : writeFields (endFields count centralOffset centralSize) (alloc 22) =
      some end_) (hPlain : needsZip64 count centralOffset centralSize = false)
    (before : List UInt8) :
    directoryOf (before ++ end_) = some ⟨count, centralSize, centralOffset⟩ := by
  obtain ⟨hLength, hFields⟩ := endRecord_read h
  simp only [needsZip64, Bool.or_eq_false_iff, decide_eq_false_iff_not, Nat.not_le] at hPlain
  obtain ⟨⟨hCount, hOffset⟩, hSize⟩ := hPlain
  have hEndAt : (before ++ end_).length - 22 = before.length := by
    rw [List.length_append, hLength, Nat.add_sub_cancel]
  have hRead : ∀ f ∈ endFields count centralOffset centralSize,
      readLE f.width (before ++ end_) (before.length + f.pos) = some f.value := by
    intro f hf
    rw [readLE_append_right]
    exact hFields f hf
  have hSignature : readLE 4 (before ++ end_) before.length = some 0x06054b50 :=
    hRead ⟨4, 0, 0x06054b50⟩ (by simp [endFields])
  have hReadCount := hRead ⟨2, 10, min count ALL16⟩ (by simp [endFields])
  have hReadSize := hRead ⟨4, 12, min centralSize ALL32⟩ (by simp [endFields])
  have hReadOffset := hRead ⟨4, 16, min centralOffset ALL32⟩ (by simp [endFields])
  rw [Nat.min_eq_left hCount.le] at hReadCount
  rw [Nat.min_eq_left hSize.le] at hReadSize
  rw [Nat.min_eq_left hOffset.le] at hReadOffset
  simp only [directoryOf, hEndAt, hSignature, hReadCount, hReadSize, hReadOffset,
    Option.bind_eq_bind, Option.bind_some, if_true, hCount.ne, hSize.ne, hOffset.ne, or_false,
    if_false]

/-- The Zip64 end record, its locator and the classic record, one of whose fields is full. -/
theorem directoryOf_zip64 {zip64End locator : List UInt8}
    (h : writeFields (endFields count centralOffset centralSize) (alloc 22) = some end_)
    (hZip64 : writeFields (zip64EndFields count centralOffset centralSize) (alloc 56) =
      some zip64End)
    (hLocator : writeFields (locatorFields centralOffset centralSize) (alloc 20) = some locator)
    (hNeeds : needsZip64 count centralOffset centralSize = true) {before : List UInt8}
    (hBefore : before.length = centralOffset + centralSize) :
    directoryOf (before ++ (zip64End ++ locator ++ end_)) =
      some ⟨count, centralSize, centralOffset⟩ := by
  obtain ⟨hLength, hFields⟩ := endRecord_read h
  have hZip64Length : zip64End.length = 56 := (length_writeFields hZip64).trans (length_alloc 56)
  have hLocatorLength : locator.length = 20 := (length_writeFields hLocator).trans (length_alloc 20)
  have hEndAt : (before ++ (zip64End ++ locator ++ end_)).length - 22 =
      (before ++ zip64End ++ locator).length := by
    simp only [List.length_append]
    omega
  have hLocatorAt : (before ++ zip64End ++ locator).length - 20 = (before ++ zip64End).length := by
    simp only [List.length_append]
    omega
  have hRead : ∀ f ∈ endFields count centralOffset centralSize,
      readLE f.width (before ++ (zip64End ++ locator ++ end_))
        ((before ++ zip64End ++ locator).length + f.pos) = some f.value := by
    intro f hf
    rw [← List.append_assoc, ← List.append_assoc, readLE_append_right]
    exact hFields f hf
  have hReadLocator : ∀ f ∈ locatorFields centralOffset centralSize,
      readLE f.width (before ++ (zip64End ++ locator ++ end_))
        ((before ++ zip64End).length + f.pos) = some f.value := by
    intro f hf
    rw [List.append_assoc, ← List.append_assoc before, readLE_append_right]
    exact readLE_append_of_some (readLE_writeFields (by simp [locatorFields, Field.Apart])
      hLocator hf) _
  have hReadZip64 : ∀ f ∈ zip64EndFields count centralOffset centralSize,
      readLE f.width (before ++ (zip64End ++ locator ++ end_))
        (centralOffset + centralSize + f.pos) = some f.value := by
    intro f hf
    rw [← hBefore, List.append_assoc, readLE_append_right]
    exact readLE_append_of_some (readLE_writeFields (by simp [zip64EndFields, Field.Apart])
      hZip64 hf) _
  have hSignature : readLE 4 (before ++ (zip64End ++ locator ++ end_))
      (before ++ zip64End ++ locator).length = some 0x06054b50 :=
    hRead ⟨4, 0, 0x06054b50⟩ (by simp [endFields])
  have hReadCount := hRead ⟨2, 10, min count ALL16⟩ (by simp [endFields])
  have hReadSize := hRead ⟨4, 12, min centralSize ALL32⟩ (by simp [endFields])
  have hReadOffset := hRead ⟨4, 16, min centralOffset ALL32⟩ (by simp [endFields])
  have hFull : min count ALL16 = ALL16 ∨ min centralSize ALL32 = ALL32 ∨
      min centralOffset ALL32 = ALL32 := by
    simp only [needsZip64, Bool.or_eq_true, decide_eq_true_eq] at hNeeds
    omega
  have hLocatorSignature : readLE 4 (before ++ (zip64End ++ locator ++ end_))
      (before ++ zip64End).length = some 0x07064b50 :=
    hReadLocator ⟨4, 0, 0x07064b50⟩ (by simp [locatorFields])
  have hPos := hReadLocator ⟨8, 8, centralOffset + centralSize⟩ (by simp [locatorFields])
  have hZip64Signature : readLE 4 (before ++ (zip64End ++ locator ++ end_))
      (centralOffset + centralSize) = some 0x06064b50 :=
    hReadZip64 ⟨4, 0, 0x06064b50⟩ (by simp [zip64EndFields])
  have hCount := hReadZip64 ⟨8, 32, count⟩ (by simp [zip64EndFields])
  have hSize := hReadZip64 ⟨8, 40, centralSize⟩ (by simp [zip64EndFields])
  have hOffset := hReadZip64 ⟨8, 48, centralOffset⟩ (by simp [zip64EndFields])
  have hFound : zip64Directory (before ++ (zip64End ++ locator ++ end_))
      (before ++ zip64End ++ locator).length = some ⟨count, centralSize, centralOffset⟩ := by
    simp only [zip64Directory, hLocatorAt, hLocatorSignature, hPos, hZip64Signature, hCount, hSize,
      hOffset, Option.bind_eq_bind, Option.bind_some, and_self, if_true]
  simp only [directoryOf, hEndAt, hSignature, hReadCount, hReadSize, hReadOffset,
    Option.bind_eq_bind, Option.bind_some, if_true, if_pos hFull, hFound]

/-- The end records name the directory before them, whatever its count, size and place. -/
theorem directoryOf_endRecords (h : endRecords count centralOffset centralSize = some ends)
    {before : List UInt8} (hBefore : before.length = centralOffset + centralSize) :
    directoryOf (before ++ ends) = some ⟨count, centralSize, centralOffset⟩ := by
  obtain ⟨end_, hEnd, hRest⟩ := Option.bind_eq_some_iff.mp h
  cases hNeeds : needsZip64 count centralOffset centralSize with
  | false =>
    rw [hNeeds, if_neg Bool.false_ne_true] at hRest
    obtain rfl := Option.some.inj hRest
    exact directoryOf_plain hEnd hNeeds before
  | true =>
    rw [hNeeds, if_pos rfl] at hRest
    obtain ⟨zip64End, hZip64, hMap⟩ := Option.bind_eq_some_iff.mp hRest
    obtain ⟨locator, hLocator, rfl⟩ := Option.map_eq_some_iff.mp hMap
    exact directoryOf_zip64 hEnd hZip64 hLocator hNeeds hBefore

theorem length_endRecords (h : endRecords count centralOffset centralSize = some ends) :
    ends.length = 22 + if needsZip64 count centralOffset centralSize then 76 else 0 := by
  obtain ⟨end_, hEnd, hRest⟩ := Option.bind_eq_some_iff.mp h
  have hLength := (endRecord_read hEnd).1
  cases hNeeds : needsZip64 count centralOffset centralSize with
  | false =>
    rw [hNeeds, if_neg Bool.false_ne_true] at hRest
    rw [← Option.some.inj hRest, hLength]
    rfl
  | true =>
    rw [hNeeds, if_pos rfl] at hRest
    obtain ⟨zip64End, hZip64, hMap⟩ := Option.bind_eq_some_iff.mp hRest
    obtain ⟨locator, hLocator, rfl⟩ := Option.map_eq_some_iff.mp hMap
    rw [List.length_append, List.length_append, length_writeFields hZip64,
      length_writeFields hLocator, hLength, length_alloc, length_alloc]
    rfl

theorem endRecords_isSome (hCount : count < 2 ^ 64) (hPlace : centralOffset + centralSize < 2 ^ 64) :
    (endRecords count centralOffset centralSize).isSome := by
  have hEnd : (writeFields (endFields count centralOffset centralSize) (alloc 22)).isSome := by
    refine writeFields_isSome fun f hf => ?_
    simp only [endFields, List.mem_cons, List.not_mem_nil, or_false] at hf
    rcases hf with rfl | rfl | rfl | rfl | rfl <;> simp [Field.Fits, ALL16, ALL32]
  have hZip64 : (writeFields (zip64EndFields count centralOffset centralSize) (alloc 56)).isSome := by
    refine writeFields_isSome fun f hf => ?_
    simp only [zip64EndFields, List.mem_cons, List.not_mem_nil, or_false] at hf
    rcases hf with rfl | rfl | rfl | rfl | rfl | rfl | rfl | rfl <;>
      simp [Field.Fits, ZIP64] <;> omega
  have hLocator : (writeFields (locatorFields centralOffset centralSize) (alloc 20)).isSome := by
    refine writeFields_isSome fun f hf => ?_
    simp only [locatorFields, List.mem_cons, List.not_mem_nil, or_false] at hf
    rcases hf with rfl | rfl | rfl
    · simp [Field.Fits]
    · exact ⟨by simpa using hPlace, by simp⟩
    · simp [Field.Fits]
  obtain ⟨end_, hEnd⟩ := Option.isSome_iff_exists.mp hEnd
  obtain ⟨zip64End, hZip64⟩ := Option.isSome_iff_exists.mp hZip64
  obtain ⟨locator, hLocator⟩ := Option.isSome_iff_exists.mp hLocator
  rw [endRecords, hEnd, Option.bind_some]
  split
  · rw [hZip64, Option.bind_some, hLocator, Option.map_some]
    rfl
  · rfl

end End

end MyClash.Zip
