import MyClash.Zip.StoredZip

/-!
# Reading a stored zip

The reader ends on every buffer, refuses it or answers views inside it. On what the writers wrote
it walks the local headers entry by entry, and stops at the directory.
-/

namespace MyClash.Zip

open ByteFields

/-! ## Any buffer -/

section Safe

variable {text : TextOfBytes} {buffer : List UInt8}

theorem headerLengths_isSome {offset : ℕ} (h : offset + 30 ≤ buffer.length) :
    (headerLengths buffer offset).isSome := by
  rw [headerLengths, readLE_isSome (by omega), Option.bind_some, readLE_isSome (by omega),
    Option.bind_some, readLE_isSome (by omega)]
  rfl

def View.Inside (buffer : List UInt8) (view : View) : Prop :=
  view.start ≤ view.stop ∧ view.stop ≤ buffer.length

theorem setEntry_inside {entries : List (String × View)} {name : String} {view : View}
    (hEntries : ∀ entry ∈ entries, entry.2.Inside buffer) (hView : view.Inside buffer) :
    ∀ entry ∈ setEntry entries name view, entry.2.Inside buffer := by
  rw [setEntry]
  split
  · intro entry hEntry
    obtain ⟨old, hOld, rfl⟩ := List.mem_map.mp hEntry
    split
    · exact hView
    · exact hEntries old hOld
  · intro entry hEntry
    rcases List.mem_append.mp hEntry with hOld | hNew
    · exact hEntries entry hOld
    · rw [List.mem_singleton.mp hNew]
      exact hView

theorem readFrom_inside (offset : ℕ) (entries : List (String × View))
    (hEntries : ∀ entry ∈ entries, entry.2.Inside buffer) :
    readFrom text buffer offset entries = .error .storedZip ∨
      ∃ found, readFrom text buffer offset entries = .ok found ∧
        ∀ entry ∈ found, entry.2.Inside buffer := by
  fun_induction readFrom text buffer offset entries with
  | case1 offset entries hHeader hRead =>
    rw [readLE_isSome (by omega)] at hRead
    cases hRead
  | case2 offset entries hHeader hLengths hRead =>
    have hSome := headerLengths_isSome hHeader
    rw [hLengths] at hSome
    cases hSome
  | case3 => exact Or.inl rfl
  | case4 offset entries hHeader size nameLength extraLength hLengths nameStart dataStart dataEnd
      hIn name hRead ih =>
    exact ih (setEntry_inside hEntries ⟨Nat.le_add_right _ _, Nat.le_of_not_lt hIn⟩)
  | case5 => exact Or.inr ⟨_, rfl, hEntries⟩
  | case6 => exact Or.inr ⟨_, rfl, hEntries⟩

end Safe

/-! ## A local header -/

section Header

variable {crc32 : List UInt8 → UInt32} {record : EntryRecord} {header : List UInt8}

theorem localFields_apart (record : EntryRecord) :
    (localFields record).Pairwise Field.Apart := by
  simp [localFields, Field.Apart]

/-- What a local header says of its entry. -/
structure HeaderOf (record : EntryRecord) (header : List UInt8) : Prop where
  length : header.length = 30 + record.name.length
  name : header.drop 30 = record.name
  fields : ∀ f ∈ localFields record, readLE f.width header f.pos = some f.value
  noExtra : readLE 2 header 28 = some 0

theorem headerOf_localHeader (h : localHeader record = some header) : HeaderOf record header := by
  obtain ⟨fixed, hFixed, rfl⟩ := Option.map_eq_some_iff.mp h
  have hLength : fixed.length = 30 := (length_writeFields hFixed).trans (length_alloc 30)
  refine ⟨?_, ?_, fun f hf => ?_, ?_⟩
  · rw [List.length_append, hLength]
  · rw [List.drop_append_of_le_length hLength.ge, List.drop_of_length_le hLength.le,
      List.nil_append]
  · have hFits := (fits_of_writeFields hFixed f hf).2
    rw [length_alloc, ← hLength] at hFits
    rw [readLE_append_left hFits]
    exact readLE_writeFields (localFields_apart record) hFixed hf
  · rw [readLE_append_left (by omega), readLE_writeFields_of_apart ?_ hFixed,
      readLE_alloc (by omega)]
    simp [localFields]

theorem localHeader_isSome (hName : record.name.length < 2 ^ 16) (hCrc : record.crc < 2 ^ 32)
    (hSize : record.size < 2 ^ 32) (hTime : record.time < 2 ^ 16) (hDate : record.date < 2 ^ 16) :
    (localHeader record).isSome := by
  rw [localHeader, Option.isSome_map]
  refine writeFields_isSome fun f hf => ?_
  simp only [localFields, List.mem_cons, List.not_mem_nil, or_false] at hf
  rcases hf with rfl | rfl | rfl | rfl | rfl | rfl | rfl | rfl <;>
    simp [Field.Fits, PLAIN] <;> omega

end Header

/-! ## The loop over the entries -/

section Laid

variable {crc32 : List UInt8 → UInt32}

/-- The parts and the records of `entries`, laid one after the other from `offset`. -/
inductive Laid (crc32 : List UInt8 → UInt32) :
    ℕ → List ZipStreamEntry → List (List UInt8) → List EntryRecord → Prop
  | nil {offset : ℕ} : Laid crc32 offset [] [] []
  | cons {offset : ℕ} {entry : ZipStreamEntry} {entries : List ZipStreamEntry}
      {header : List UInt8} {parts : List (List UInt8)} {records : List EntryRecord}
      (hHeader : localHeader (recordOf crc32 entry offset) = some header)
      (hRest : Laid crc32 (offset + header.length + entry.bytes.length) entries parts records) :
      Laid crc32 offset (entry :: entries) (header :: entry.bytes :: parts)
        (recordOf crc32 entry offset :: records)

theorem laid_of_foldlM {entries : List ZipStreamEntry} {w w' : Written}
    (h : entries.foldlM (Written.add crc32) w = some w') :
    ∃ parts records, Laid crc32 w.offset entries parts records ∧ w'.parts = w.parts ++ parts ∧
      w'.records = w.records ++ records ∧ w'.offset = w.offset + parts.flatten.length := by
  induction entries generalizing w with
  | nil =>
    obtain rfl := Option.some.inj h
    exact ⟨[], [], .nil, (List.append_nil _).symm, (List.append_nil _).symm, rfl⟩
  | cons entry entries ih =>
    obtain ⟨next, hNext, hRest⟩ := Option.bind_eq_some_iff.mp h
    obtain ⟨header, hHeader, rfl⟩ := Option.map_eq_some_iff.mp hNext
    obtain ⟨parts, records, hLaid, hParts, hRecords, hOffset⟩ := ih hRest
    refine ⟨_, _, .cons hHeader hLaid, ?_, ?_, ?_⟩
    · rw [hParts, List.append_assoc]
      rfl
    · rw [hRecords, List.append_assoc]
      rfl
    · rw [hOffset, List.flatten_cons, List.flatten_cons, List.length_append, List.length_append]
      change w.offset + header.length + entry.bytes.length + parts.flatten.length = _
      omega

theorem laid_of_writeEntries {entries : List ZipStreamEntry} {w : Written}
    (h : writeEntries crc32 entries = some w) :
    Laid crc32 0 entries w.parts w.records ∧ w.offset = w.parts.flatten.length := by
  obtain ⟨parts, records, hLaid, hParts, hRecords, hOffset⟩ := laid_of_foldlM h
  rw [hParts, hRecords, hOffset, List.nil_append, List.nil_append, Nat.zero_add]
  exact ⟨hLaid, rfl⟩

/-! ## The walk -/

variable {text : TextOfBytes} {buffer : List UInt8}

/-- The walk steps over an entry whose header it finds, and keeps the view of its bytes. -/
theorem readFrom_header {offset size nameLength extraLength : ℕ} {entries : List (String × View)}
    (hHeader : offset + 30 ≤ buffer.length) (hSignature : readLE 4 buffer offset = some 0x04034b50)
    (hLengths : headerLengths buffer offset = some (size, nameLength, extraLength))
    (hEnd : offset + 30 + nameLength + extraLength + size ≤ buffer.length) :
    readFrom text buffer offset entries =
      readFrom text buffer (offset + 30 + nameLength + extraLength + size)
        (setEntry entries
          (text.toText (View.bytes buffer ⟨offset + 30, offset + 30 + nameLength⟩))
          ⟨offset + 30 + nameLength + extraLength,
            offset + 30 + nameLength + extraLength + size⟩) := by
  rw [readFrom]
  simp only [hHeader, dite_true, hSignature, if_true, hLengths, if_neg (Nat.not_lt.mpr hEnd)]

/-- What ends the walk: too few bytes, or another signature. -/
def Stops (tail : List UInt8) : Prop :=
  tail.length < 30 ∨ ∃ signature, readLE 4 tail 0 = some signature ∧ signature ≠ 0x04034b50

theorem readFrom_stops {before tail : List UInt8} {entries : List (String × View)}
    (h : Stops tail) : readFrom text (before ++ tail) before.length entries = .ok entries := by
  rw [readFrom]
  rcases h with hShort | ⟨signature, hSignature, hOther⟩
  · rw [dif_neg]
    rw [List.length_append]
    omega
  · have hRead : readLE 4 (before ++ tail) before.length = some signature := by
      rw [← hSignature]
      exact readLE_append_right 4 0 before tail
    split
    · simp only [hRead, if_neg hOther]
    · rfl

/-- The view of each entry's bytes, the first header at `offset`. -/
def entryViews : ℕ → List ZipStreamEntry → List (String × View)
  | _, [] => []
  | offset, entry :: entries =>
    let start := offset + 30 + (utf8 entry.name).length
    let stop := start + entry.bytes.length
    (entry.name, ⟨start, stop⟩) :: entryViews stop entries

theorem view_bytes_append (before bytes rest : List UInt8) :
    View.bytes (before ++ bytes ++ rest) ⟨before.length, before.length + bytes.length⟩ = bytes := by
  rw [View.bytes, ← List.length_append, List.take_left, List.drop_left]

theorem setEntry_new {entries : List (String × View)} {name : String} {view : View}
    (h : name ∉ entries.map Prod.fst) : setEntry entries name view = entries ++ [(name, view)] :=
  if_neg h

theorem readLE_header {entry : ZipStreamEntry} {header : List UInt8} {width pos value : ℕ}
    (h : readLE width header pos = some value) (before rest : List UInt8) :
    readLE width (before ++ (header ++ entry.bytes ++ rest)) (before.length + pos) =
      some value := by
  rw [readLE_append_right, List.append_assoc]
  exact readLE_append_of_some h _

theorem headerLengths_header {entry : ZipStreamEntry} {header before : List UInt8}
    (hHeader : localHeader (recordOf crc32 entry before.length) = some header)
    (rest : List UInt8) :
    headerLengths (before ++ (header ++ entry.bytes ++ rest)) before.length =
      some (entry.bytes.length, (utf8 entry.name).length, 0) := by
  have hOf := headerOf_localHeader hHeader
  have hSize : readLE 4 header 18 = some entry.bytes.length :=
    hOf.fields ⟨4, 18, entry.bytes.length⟩ (by simp [localFields, recordOf])
  have hName : readLE 2 header 26 = some (utf8 entry.name).length :=
    hOf.fields ⟨2, 26, (utf8 entry.name).length⟩ (by simp [localFields, recordOf])
  rw [headerLengths, readLE_header hSize, Option.bind_some, readLE_header hName, Option.bind_some,
    readLE_header hOf.noExtra, Option.map_some]

/-- The step of the walk over one entry of the writers. -/
theorem readFrom_entry {offset : ℕ} {entry : ZipStreamEntry} {header before rest : List UInt8}
    {entries : List (String × View)} (hOffset : before.length = offset)
    (hHeader : localHeader (recordOf crc32 entry offset) = some header) :
    readFrom text (before ++ (header ++ entry.bytes ++ rest)) offset entries =
      readFrom text (before ++ (header ++ entry.bytes ++ rest))
        (offset + 30 + (utf8 entry.name).length + entry.bytes.length)
        (setEntry entries entry.name
          ⟨offset + 30 + (utf8 entry.name).length,
            offset + 30 + (utf8 entry.name).length + entry.bytes.length⟩) := by
  subst hOffset
  have hOf := headerOf_localHeader hHeader
  have hSignature : readLE 4 (before ++ (header ++ entry.bytes ++ rest)) before.length =
      some 0x04034b50 :=
    readLE_header (hOf.fields ⟨4, 0, 0x04034b50⟩ (by simp [localFields])) before rest
  have hLength : header.length = 30 + (utf8 entry.name).length := hOf.length
  have hName : View.bytes (before ++ (header ++ entry.bytes ++ rest))
      ⟨before.length + 30, before.length + 30 + (utf8 entry.name).length⟩ = utf8 entry.name := by
    have hSplit : before ++ (header ++ entry.bytes ++ rest) =
        (before ++ header.take 30) ++ utf8 entry.name ++ (entry.bytes ++ rest) := by
      have hHead : header = header.take 30 ++ utf8 entry.name := by
        rw [← show header.drop 30 = utf8 entry.name from hOf.name, List.take_append_drop]
      simp only [List.append_assoc]
      rw [← List.append_assoc (header.take 30), ← hHead]
    have hBefore : (before ++ header.take 30).length = before.length + 30 := by
      rw [List.length_append, List.length_take_of_le (by omega)]
    rw [hSplit, ← hBefore, view_bytes_append]
  have hEnd : before.length + 30 + (utf8 entry.name).length + 0 + entry.bytes.length ≤
      (before ++ (header ++ entry.bytes ++ rest)).length := by
    simp only [List.length_append]
    omega
  rw [readFrom_header (by simp only [List.length_append]; omega) hSignature
    (headerLengths_header hHeader rest) hEnd, hName,
    text.toText_utf8]
  rfl

/-- The walk reads back what was laid, from the first header to what ends it. -/
theorem readFrom_laid {offset : ℕ} {entries : List ZipStreamEntry} {parts : List (List UInt8)}
    {records : List EntryRecord} (hLaid : Laid crc32 offset entries parts records)
    {before tail : List UInt8} (hOffset : before.length = offset) (hStops : Stops tail)
    {found : List (String × View)} (hNames : (found.map Prod.fst ++ entries.map (·.name)).Nodup) :
    readFrom text (before ++ (parts.flatten ++ tail)) offset found =
      .ok (found ++ entryViews offset entries) := by
  induction hLaid generalizing before found with
  | nil =>
    subst hOffset
    rw [entryViews, List.append_nil]
    exact readFrom_stops hStops
  | @cons offset entry entries header parts records hHeader _ ih =>
    have hLength := (headerOf_localHeader hHeader).length
    have hNew : entry.name ∉ found.map Prod.fst := by
      intro hOld
      exact (List.nodup_append.mp hNames).2.2 _ hOld _ List.mem_cons_self rfl
    have hFlat : (header :: entry.bytes :: parts).flatten ++ tail =
        header ++ entry.bytes ++ (parts.flatten ++ tail) := by
      simp only [List.flatten_cons, List.append_assoc]
    have hBefore : before ++ (header ++ entry.bytes ++ (parts.flatten ++ tail)) =
        (before ++ header ++ entry.bytes) ++ (parts.flatten ++ tail) := by
      simp only [List.append_assoc]
    have hNext : (before ++ header ++ entry.bytes).length =
        offset + header.length + entry.bytes.length := by
      rw [List.length_append, List.length_append, hOffset]
    have hAt : offset + 30 + (utf8 entry.name).length + entry.bytes.length =
        offset + header.length + entry.bytes.length := by
      rw [hLength]
      simp only [recordOf]
      omega
    rw [hFlat, readFrom_entry hOffset hHeader, setEntry_new hNew, hAt, hBefore, ih hNext ?_,
      entryViews, List.append_assoc, List.singleton_append, hAt]
    rw [List.map_append, List.append_assoc]
    exact hNames

/-- Each view holds the bytes of its entry. -/
theorem entryViews_bytes {offset : ℕ} {entries : List ZipStreamEntry} {parts : List (List UInt8)}
    {records : List EntryRecord} (hLaid : Laid crc32 offset entries parts records)
    {before tail : List UInt8} (hOffset : before.length = offset) :
    (entryViews offset entries).map
        (fun found => (found.1, View.bytes (before ++ (parts.flatten ++ tail)) found.2)) =
      entries.map fun entry => (entry.name, entry.bytes) := by
  induction hLaid generalizing before with
  | nil => rfl
  | @cons offset entry entries header parts records hHeader _ ih =>
    have hLength : header.length = 30 + (utf8 entry.name).length :=
      (headerOf_localHeader hHeader).length
    have hHead : before ++ ((header :: entry.bytes :: parts).flatten ++ tail) =
        (before ++ header) ++ entry.bytes ++ (parts.flatten ++ tail) := by
      simp only [List.flatten_cons, List.append_assoc]
    have hStart : offset + 30 + (utf8 entry.name).length = (before ++ header).length := by
      rw [List.length_append, hOffset, hLength]
      omega
    have hNext : (before ++ header ++ entry.bytes).length =
        offset + header.length + entry.bytes.length := by
      rw [List.length_append, List.length_append, hOffset]
    have hAt : (before ++ header).length + entry.bytes.length =
        offset + header.length + entry.bytes.length := by
      rw [List.length_append, hOffset]
    rw [entryViews, List.map_cons, List.map_cons, hHead, hStart, view_bytes_append, hAt, ih hNext]

end Laid

end MyClash.Zip
