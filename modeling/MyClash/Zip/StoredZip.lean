import MyClash.Library.ByteFields

/-!
# Stored zips

The writer in memory, the writer in chunks, the size known beforehand and the reader, each with
its own offsets. A buffer is a list of bytes; a write of a number too wide for its field throws.
-/

namespace MyClash.Zip

open ByteFields

def ALL16 : ℕ := 0xffff
def ALL32 : ℕ := 0xffffffff
/-- Version 2.0 reads a plain stored entry; 4.5 is the first that reads Zip64. -/
def PLAIN : ℕ := 20
def ZIP64 : ℕ := 45

/-! ## The records -/

/-- A wall time as its numbers; MS-DOS has no year before 1980. -/
structure WallTime where
  year : ℕ
  month : ℕ
  day : ℕ
  hour : ℕ
  minute : ℕ
  year_ge : 1980 ≤ year

structure ZipStreamEntry where
  name : String
  bytes : List UInt8
  /-- The CRC32 of `bytes`, when the caller has already checked it; computed otherwise. -/
  crc32 : Option UInt32
  modifiedAt : Option WallTime

structure EntryRecord where
  name : List UInt8
  crc : ℕ
  size : ℕ
  offset : ℕ
  time : ℕ
  date : ℕ

def utf8 (name : String) : List UInt8 := name.toByteArray.data.toList

/-- The time and the date; none is 0/0. -/
def dosStamp : Option WallTime → ℕ × ℕ
  | none => (0, 0)
  | some at_ =>
    ((at_.hour <<< 11) ||| (at_.minute <<< 5),
      ((at_.year - 1980) <<< 9) ||| (at_.month <<< 5) ||| at_.day)

section Writer

-- The checksum of the platform's zlib.
variable (crc32 : List UInt8 → UInt32)

def recordOf (entry : ZipStreamEntry) (offset : ℕ) : EntryRecord where
  name := utf8 entry.name
  crc := (entry.crc32.getD (crc32 entry.bytes)).toNat
  size := entry.bytes.length
  offset := offset
  time := (dosStamp entry.modifiedAt).1
  date := (dosStamp entry.modifiedAt).2

/-- Each field by its width in bytes, its place and its value. -/
def localFields (record : EntryRecord) : List Field :=
  [⟨4, 0, 0x04034b50⟩, ⟨2, 4, PLAIN⟩, ⟨2, 10, record.time⟩, ⟨2, 12, record.date⟩,
    ⟨4, 14, record.crc⟩, ⟨4, 18, record.size⟩, ⟨4, 22, record.size⟩, ⟨2, 26, record.name.length⟩]

def localHeader (record : EntryRecord) : Option (List UInt8) :=
  (writeFields (localFields record) (alloc 30)).map (· ++ record.name)

def centralFields (record : EntryRecord) (zip64 : Bool) : List Field :=
  let version := if zip64 then ZIP64 else PLAIN
  [⟨4, 0, 0x02014b50⟩, ⟨2, 4, version⟩, ⟨2, 6, version⟩, ⟨2, 12, record.time⟩,
    ⟨2, 14, record.date⟩, ⟨4, 16, record.crc⟩, ⟨4, 20, record.size⟩, ⟨4, 24, record.size⟩,
    ⟨2, 28, record.name.length⟩, ⟨4, 42, if zip64 then ALL32 else record.offset⟩]

def extraFields (record : EntryRecord) : List Field := [⟨2, 0, 1⟩, ⟨2, 2, 8⟩, ⟨8, 4, record.offset⟩]

/-- The entry's directory record; an offset past 32 bits goes in a Zip64 extra field. -/
def centralRecord (record : EntryRecord) : Option (List UInt8) :=
  let zip64 := decide (ALL32 ≤ record.offset)
  (writeFields (centralFields record zip64) (alloc 46)).bind fun central =>
    if zip64 then
      (writeFields (extraFields record) (alloc 12)).bind fun extra =>
        (writeField central ⟨2, 30, extra.length⟩).map fun central => central ++ record.name ++ extra
    else some (central ++ record.name)

def endFields (count centralOffset centralSize : ℕ) : List Field :=
  [⟨4, 0, 0x06054b50⟩, ⟨2, 8, min count ALL16⟩, ⟨2, 10, min count ALL16⟩,
    ⟨4, 12, min centralSize ALL32⟩, ⟨4, 16, min centralOffset ALL32⟩]

def zip64EndFields (count centralOffset centralSize : ℕ) : List Field :=
  [⟨4, 0, 0x06064b50⟩, ⟨8, 4, 44⟩, ⟨2, 12, ZIP64⟩, ⟨2, 14, ZIP64⟩, ⟨8, 24, count⟩, ⟨8, 32, count⟩,
    ⟨8, 40, centralSize⟩, ⟨8, 48, centralOffset⟩]

def locatorFields (centralOffset centralSize : ℕ) : List Field :=
  [⟨4, 0, 0x07064b50⟩, ⟨8, 8, centralOffset + centralSize⟩, ⟨4, 16, 1⟩]

/-- The count, the directory's size or its offset does not fit the classic fields. -/
def needsZip64 (count centralOffset centralSize : ℕ) : Bool :=
  ALL16 ≤ count || ALL32 ≤ centralOffset || ALL32 ≤ centralSize

def endRecords (count centralOffset centralSize : ℕ) : Option (List UInt8) :=
  (writeFields (endFields count centralOffset centralSize) (alloc 22)).bind fun end_ =>
    if needsZip64 count centralOffset centralSize then
      (writeFields (zip64EndFields count centralOffset centralSize) (alloc 56)).bind fun zip64End =>
        (writeFields (locatorFields centralOffset centralSize) (alloc 20)).map fun locator =>
          zip64End ++ locator ++ end_
    else some end_

/-! ## The two writers -/

/-- What the loop over the entries has written so far. -/
structure Written where
  parts : List (List UInt8)
  records : List EntryRecord
  offset : ℕ

def Written.add (w : Written) (entry : ZipStreamEntry) : Option Written :=
  let record := recordOf crc32 entry w.offset
  (localHeader record).map fun header =>
    { parts := w.parts ++ [header, entry.bytes]
      records := w.records ++ [record]
      offset := w.offset + header.length + entry.bytes.length }

def writeEntries (entries : List ZipStreamEntry) : Option Written :=
  entries.foldlM (Written.add crc32) ⟨[], [], 0⟩

/-- The directory and the end records. -/
def closing (records : List EntryRecord) (offset : ℕ) : Option (List UInt8 × List UInt8) :=
  (records.mapM centralRecord).bind fun parts =>
    let central := parts.flatten
    (endRecords records.length offset central.length).map fun end_ => (central, end_)

inductive ZipContent where
  | text (s : String)
  | buffer (bytes : List UInt8)

def ZipContent.bytes : ZipContent → List UInt8
  | .text s => utf8 s
  | .buffer bytes => bytes

/-- A record of files by name, in the order its entries are enumerated. -/
structure ZipFiles where
  entries : List (String × ZipContent)
  nodup : (entries.map Prod.fst).Nodup

def fileEntry (file : String × ZipContent) : ZipStreamEntry where
  name := file.1
  bytes := file.2.bytes
  crc32 := none
  modifiedAt := none

def createStoredZip (files : ZipFiles) : Option (List UInt8) :=
  (writeEntries crc32 (files.entries.map fileEntry)).bind fun w =>
    (closing w.records w.offset).map fun (central, end_) => w.parts.flatten ++ central ++ end_

/-- The chunks, each entry's header and then its bytes. -/
def zipStream (entries : List ZipStreamEntry) : Option (List (List UInt8)) :=
  (writeEntries crc32 entries).bind fun w =>
    (closing w.records w.offset).map fun (central, end_) => w.parts ++ [central, end_]

end Writer

/-- The length `createStoredZip` gives entries of these names and content lengths. -/
def storedZipBytes (entries : List (String × ℕ)) : ℕ :=
  entries.foldl (fun total entry => total + (30 + 46 + 2 * (utf8 entry.1).length + entry.2)) 22

/-! ## The reader -/

/-- A view into the buffer that was read. -/
structure View where
  start : ℕ
  stop : ℕ

def View.bytes (buffer : List UInt8) (view : View) : List UInt8 :=
  (buffer.take view.stop).drop view.start

inductive ReadFault where
  | storedZip
  | outOfRange

/-- `Buffer.toString('utf8')`, which gives a text back from its bytes. -/
structure TextOfBytes where
  toText : List UInt8 → String
  toText_utf8 : ∀ s, toText (utf8 s) = s

example : Nonempty TextOfBytes := by
  refine ⟨⟨fun bytes => (String.fromUTF8? ⟨bytes.toArray⟩).getD "", fun s => ?_⟩⟩
  have hBytes : (⟨(utf8 s).toArray⟩ : ByteArray) = s.toByteArray := by rw [utf8]
  rw [hBytes, String.fromUTF8?, dif_pos s.isValidUTF8]
  rfl

/-- `Map.set`: a key that is there keeps its place. -/
def setEntry (entries : List (String × View)) (name : String) (view : View) :
    List (String × View) :=
  if name ∈ entries.map Prod.fst then
    entries.map fun entry => if entry.1 = name then (name, view) else entry
  else entries ++ [(name, view)]

section Reader

variable (text : TextOfBytes) (buffer : List UInt8)

/-- The three lengths of the local header at `offset`. -/
def headerLengths (offset : ℕ) : Option (ℕ × ℕ × ℕ) :=
  (readLE 4 buffer (offset + 18)).bind fun size =>
    (readLE 2 buffer (offset + 26)).bind fun nameLength =>
      (readLE 2 buffer (offset + 28)).map fun extraLength => (size, nameLength, extraLength)

/-- The walk over the local headers from `offset`. -/
def readFrom (offset : ℕ) (entries : List (String × View)) :
    Except ReadFault (List (String × View)) :=
  if _hHeader : offset + 30 ≤ buffer.length then
    match readLE 4 buffer offset with
    | none => .error .outOfRange
    | some signature =>
      if signature = 0x04034b50 then
        match headerLengths buffer offset with
        | none => .error .outOfRange
        | some (size, nameLength, extraLength) =>
          let nameStart := offset + 30
          let dataStart := nameStart + nameLength + extraLength
          let dataEnd := dataStart + size
          if buffer.length < dataEnd then .error .storedZip
          else
            let name := text.toText (View.bytes buffer ⟨nameStart, nameStart + nameLength⟩)
            readFrom dataEnd (setEntry entries name ⟨dataStart, dataEnd⟩)
      else .ok entries
  else .ok entries
termination_by buffer.length - offset

def readStoredZip : Except ReadFault (List (String × View)) := readFrom text buffer 0 []

end Reader

end MyClash.Zip
