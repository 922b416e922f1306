import MyClash.Photos.JpegStrip

/-!
# The layout of a JPEG

A photo as segments with fill before them, one scan, an end marker and what trails it. Each reader
of the walk takes exactly one such piece off its bytes.
-/

namespace MyClash.Photos

open ByteFields

theorem bind_eq_ok {ε α β : Type} {x : Except ε α} {f : α → Except ε β} {b : β} :
    x >>= f = .ok b ↔ ∃ a, x = .ok a ∧ f a = .ok b := by
  cases x with
  | error e => exact ⟨nofun, fun ⟨_, h, _⟩ => nomatch h⟩
  | ok a => exact ⟨fun h => ⟨a, rfl, h⟩, fun ⟨_, h, hf⟩ => Except.ok.inj h ▸ hf⟩

/-! ## Numbers -/

@[simp] theorem length_beBytes (width value : ℕ) : (beBytes width value).length = width := by
  rw [beBytes, List.length_reverse, length_leBytes]

theorem readUInt_ok (order : ByteOrder) {width : ℕ} {buffer : Buffer} {pos : ℕ}
    (h : pos + width ≤ buffer.length) : ∃ value, readUInt order width buffer pos = .ok value := by
  rw [readUInt, if_pos h]
  cases order
  · exact ⟨_, rfl⟩
  · exact ⟨_, rfl⟩

theorem readUInt16BE_append {s t : Buffer} {value : ℕ} (h : value < 65536) :
    readUInt16BE (s ++ beBytes 2 value ++ t) s.length = .ok value := by
  have hLength : s.length + 2 ≤ (s ++ beBytes 2 value ++ t).length := by
    rw [List.length_append, List.length_append, length_beBytes]
    omega
  have hField : ((s ++ beBytes 2 value ++ t).drop s.length).take 2 = beBytes 2 value := by
    rw [List.append_assoc, List.drop_left, List.take_left' (length_beBytes 2 value)]
  rw [readUInt16BE, readUInt, if_pos hLength, hField]
  dsimp only
  rw [beBytes, List.reverse_reverse, leValue_leBytes h]

/-! ## Segments -/

structure Segment where
  marker : UInt8
  payload : Buffer

def Segment.bytes (s : Segment) : Buffer :=
  [0xff, s.marker] ++ beBytes 2 (s.payload.length + 2) ++ s.payload

def Segment.Sized (s : Segment) : Prop := s.payload.length + 2 < 65536

theorem Segment.length_bytes (s : Segment) : s.bytes.length = s.payload.length + 4 := by
  rw [Segment.bytes, List.length_append, List.length_append, length_beBytes, List.length_cons,
    List.length_singleton]
  omega

theorem Segment.drop_bytes (s : Segment) : s.bytes.drop 4 = s.payload :=
  List.drop_left' (by rw [List.length_append, length_beBytes]; rfl)

theorem segmentEnd_append {s : Segment} (hSized : s.Sized) (rest : Buffer) :
    segmentEnd (s.bytes ++ rest) = .ok (s.bytes, rest) := by
  have hLength : (s.bytes ++ rest).length = s.payload.length + 4 + rest.length := by
    rw [List.length_append, s.length_bytes]
  have hRead : readUInt16BE (s.bytes ++ rest) 2 = .ok (s.payload.length + 2) := by
    rw [Segment.bytes, List.append_assoc _ s.payload rest]
    exact readUInt16BE_append hSized
  have hTotal : s.bytes.length = 2 + (s.payload.length + 2) := by
    rw [s.length_bytes]
    omega
  rw [segmentEnd, if_neg (by omega), hRead]
  dsimp only [Except.bind, bind]
  rw [if_neg (by omega), List.take_left' hTotal, List.drop_left' hTotal]

/-- The length field of a segment is what it says. -/
theorem readUInt16BE_two (a b hi lo : UInt8) (tail : Buffer) :
    ∃ length, readUInt16BE (a :: b :: hi :: lo :: tail) 2 = .ok length ∧ length < 65536 ∧
      beBytes 2 length = [hi, lo] := by
  have hLt : leValue [lo, hi] < 256 ^ 2 := leValue_lt [lo, hi]
  refine ⟨leValue [lo, hi], ?_, hLt, ?_⟩
  · rw [readUInt16BE, readUInt, if_pos (by simp)]
    rfl
  · exact congrArg List.reverse (leBytes_leValue [lo, hi])

theorem segmentEnd_ok {marker : UInt8} {after segment rest : Buffer}
    (h : segmentEnd (0xff :: marker :: after) = .ok (segment, rest)) :
    ∃ payload, (Segment.mk marker payload).Sized ∧ segment = (Segment.mk marker payload).bytes ∧
      0xff :: marker :: after = segment ++ rest := by
  rw [segmentEnd] at h
  split at h
  next => cases h
  next hLong =>
    obtain ⟨length, hRead, h⟩ := bind_eq_ok.mp h
    match after with
    | [] => simp at hLong
    | [_] => simp at hLong
    | hi :: lo :: tail =>
      obtain ⟨length', hRead', hLt, hField⟩ := readUInt16BE_two 0xff marker hi lo tail
      obtain rfl := Except.ok.inj (hRead.symm.trans hRead')
      split at h
      next => cases h
      next hFits =>
        obtain ⟨rfl, rfl⟩ := Prod.mk.inj (Except.ok.inj h)
        simp only [List.length_cons] at hFits
        have hPayload : (tail.take (length - 2)).length + 2 = length := by
          rw [List.length_take]
          omega
        refine ⟨tail.take (length - 2), ?_, ?_, (List.take_append_drop _ _).symm⟩
        · rwa [Segment.Sized, hPayload]
        · rw [Segment.bytes, hPayload, hField]
          obtain ⟨k, rfl⟩ : ∃ k, length = k + 2 := ⟨length - 2, by omega⟩
          rw [Nat.add_sub_cancel, show 2 + (k + 2) = k + 4 by omega]
          rfl

/-! ## Markers -/

def fill (n : ℕ) : Buffer := List.replicate n 0xff

theorem dropWhile_fill (n : ℕ) {b : UInt8} (h : b ≠ 0xff) (rest : Buffer) :
    (fill n ++ b :: rest).dropWhile (· = 0xff) = b :: rest := by
  induction n with
  | zero => exact List.dropWhile_cons_of_neg (by simpa using h)
  | succ n ih =>
    rw [fill, List.replicate_succ, List.cons_append, List.dropWhile_cons_of_pos (by simp)]
    exact ih

theorem markerAt_fill (n : ℕ) {marker : UInt8} (h : marker ≠ 0xff) (after : Buffer) :
    markerAt (fill n ++ 0xff :: marker :: after) = .ok (marker, 0xff :: marker :: after) := by
  cases n with
  | zero =>
    rw [fill, List.replicate_zero, List.nil_append, markerAt,
      List.dropWhile_cons_of_neg (by simpa using h)]
  | succ n =>
    have hFill : fill n ++ 0xff :: marker :: after = fill (n + 1) ++ marker :: after := by
      rw [fill, fill, List.replicate_succ', List.append_assoc]
      rfl
    rw [fill, List.replicate_succ, List.cons_append, markerAt, ← fill, hFill,
      dropWhile_fill _ h]

theorem eq_fill_of_dropWhile {rest : Buffer} {b : UInt8} {after : Buffer}
    (h : rest.dropWhile (· = 0xff) = b :: after) : ∃ n, rest = fill n ++ b :: after ∧ b ≠ 0xff := by
  induction rest with
  | nil => cases h
  | cons c rest ih =>
    by_cases hc : c = 0xff
    · subst hc
      rw [List.dropWhile_cons_of_pos (by simp)] at h
      obtain ⟨n, rfl, hb⟩ := ih h
      exact ⟨n + 1, by rw [fill, fill, List.replicate_succ, List.cons_append], hb⟩
    · rw [List.dropWhile_cons_of_neg (by simpa using hc)] at h
      obtain ⟨rfl, rfl⟩ := List.cons.inj h
      exact ⟨0, rfl, hc⟩

theorem markerAt_ok {rest : Buffer} {marker : UInt8} {found : Buffer}
    (h : markerAt rest = .ok (marker, found)) :
    ∃ n after, rest = fill n ++ found ∧ found = 0xff :: marker :: after ∧ marker ≠ 0xff := by
  rw [markerAt.eq_def] at h
  split at h
  next more =>
    split at h
    next => cases h
    next first after hDrop =>
      obtain ⟨rfl, rfl⟩ := Prod.mk.inj (Except.ok.inj h)
      obtain ⟨n, rfl, hFirst⟩ := eq_fill_of_dropWhile hDrop
      refine ⟨n, after, ?_, rfl, hFirst⟩
      have hFill : 0xff :: fill n = fill n ++ [0xff] := by
        rw [fill, ← List.replicate_succ, List.replicate_succ']
      rw [← List.cons_append, hFill, List.append_assoc]
      rfl
  next => cases h

/-! ## The coded data of the scan -/

/-- A marker that ends the coded data. -/
def EndsScan (marker : UInt8) : Prop := marker ≠ 0x00 ∧ isRestart marker = false ∧ marker ≠ 0xff

/-- Data in which no marker stands: every `0xFF` is stuffed, a restart marker's, or fill. -/
inductive Coded : Buffer → Prop
  | nil : Coded []
  | plain {b : UInt8} {data : Buffer} (hb : b ≠ 0xff) (hData : Coded data) : Coded (b :: data)
  | stuffed {next : UInt8} {data : Buffer} (hNext : next = 0x00 ∨ isRestart next)
      (hData : Coded data) : Coded (0xff :: next :: data)
  | fill {data : Buffer} (hNext : data.head? = none ∨ data.head? = some 0xff)
      (hData : Coded data) : Coded (0xff :: data)

theorem endOfScan_plain {b : UInt8} (hb : b ≠ 0xff) {rest data found : Buffer}
    (h : endOfScan rest = .ok (data, found)) : endOfScan (b :: rest) = .ok (b :: data, found) := by
  cases rest with
  | nil => cases h
  | cons next rest =>
    rw [endOfScan, if_pos hb, h]
    rfl

theorem endOfScan_coded {data : Buffer} (hData : Coded data) {marker : UInt8}
    (hEnds : EndsScan marker) (after : Buffer) :
    endOfScan (data ++ 0xff :: marker :: after) = .ok (data, 0xff :: marker :: after) := by
  induction hData with
  | nil => simp [endOfScan, hEnds.1, hEnds.2.1, hEnds.2.2]
  | plain hb _ ih => exact endOfScan_plain hb ih
  | @stuffed next data hNext _ ih =>
    rw [List.cons_append, List.cons_append, endOfScan, if_neg (by simp), if_pos hNext, ih]
    rfl
  | @fill data hNext _ ih =>
    -- the byte after a fill byte is the next one, or the `0xFF` of the marker
    have hFill : ∃ rest, data ++ 0xff :: marker :: after = 0xff :: rest := by
      cases data with
      | nil => exact ⟨_, rfl⟩
      | cons next data =>
        rcases hNext with hNone | hSome
        · cases hNone
        · obtain rfl := Option.some.inj hSome
          exact ⟨_, rfl⟩
    obtain ⟨rest, hRest⟩ := hFill
    rw [List.cons_append, hRest, endOfScan, if_neg (by simp), if_neg (by decide), if_pos rfl,
      ← hRest, ih]
    rfl

theorem endOfScan_ok {rest data found : Buffer} (h : endOfScan rest = .ok (data, found)) :
    rest = data ++ found ∧ Coded data ∧
      ∃ marker after, found = 0xff :: marker :: after ∧ EndsScan marker := by
  induction rest using endOfScan.induct generalizing data with
  | case1 => cases h
  | case2 b => cases h
  | case3 b next rest hb ih =>
    rw [endOfScan, if_pos hb] at h
    obtain ⟨⟨data', found'⟩, hRest, h⟩ := bind_eq_ok.mp h
    obtain ⟨rfl, rfl⟩ := Prod.mk.inj (Except.ok.inj h)
    obtain ⟨hSplit, hData, hFound⟩ := ih hRest
    exact ⟨by rw [hSplit, List.cons_append], .plain hb hData, hFound⟩
  | case4 b next rest hb hNext ih =>
    obtain rfl := not_not.mp hb
    rw [endOfScan, if_neg hb, if_pos hNext] at h
    obtain ⟨⟨data', found'⟩, hRest, h⟩ := bind_eq_ok.mp h
    obtain ⟨rfl, rfl⟩ := Prod.mk.inj (Except.ok.inj h)
    obtain ⟨hSplit, hData, hFound⟩ := ih hRest
    exact ⟨by rw [hSplit, List.cons_append, List.cons_append], .stuffed hNext hData, hFound⟩
  | case5 b rest hb hNext ih =>
    obtain rfl := not_not.mp hb
    rw [endOfScan, if_neg hb, if_neg hNext, if_pos rfl] at h
    obtain ⟨⟨data', found'⟩, hRest, h⟩ := bind_eq_ok.mp h
    obtain ⟨rfl, rfl⟩ := Prod.mk.inj (Except.ok.inj h)
    obtain ⟨hSplit, hData, hFound⟩ := ih hRest
    refine ⟨by rw [hSplit, List.cons_append], .fill ?_ hData, hFound⟩
    cases data' with
    | nil => exact .inl rfl
    | cons first data' => exact .inr (congrArg some (List.cons.inj hSplit).1.symm)
  | case6 b next rest hb hNext hFill =>
    obtain rfl := not_not.mp hb
    rw [endOfScan, if_neg hb, if_neg hNext, if_neg hFill] at h
    obtain ⟨rfl, rfl⟩ := Prod.mk.inj (Except.ok.inj h)
    rw [not_or, Bool.not_eq_true] at hNext
    exact ⟨rfl, .nil, next, rest, rfl, hNext.1, hNext.2, hFill⟩

/-! ## What a segment does to the walk -/

def isTableMarker (marker : UInt8) : Bool := marker == DQT || marker == DHT || marker == DRI

def isAdobe (payload : Buffer) : Bool :=
  payload.length == 12 && latin1 (payload.take 5) == "Adobe"

/-- An application block or a comment. -/
def isExtra (marker : UInt8) : Bool := (0xe0 ≤ marker && marker ≤ 0xef) || marker == 0xfe

/-- What an accepted segment is, and what the walk takes from it. -/
inductive Kept (walk : Walk) (marker : UInt8) (payload : Buffer) : Walk → Bool → Prop
  | frame (hMarker : isFrameMarker marker) (hFirst : walk.frame = none) {frame : Frame}
      (hFrame : readFrame marker payload = .ok frame) :
      Kept walk marker payload { walk with frame := some frame } true
  | table (hMarker : isFrameMarker marker = false) (hTable : isTableMarker marker)
      (hCheck : checkTable marker payload = .ok ()) : Kept walk marker payload walk true
  | adobe (hMarker : marker = APP14) : Kept walk marker payload walk (isAdobe payload)
  | exif (hMarker : marker = APP1) (hFirst : walk.orientation = none) (hExif : isExif payload)
      {orientation : ℕ} (hRead : readOrientation (payload.drop 6) = .ok orientation) :
      Kept walk marker payload { walk with orientation := some orientation } false
  | extra (hMarker : isExtra marker) (hAdobe : marker ≠ APP14)
      (hExif : ¬(marker = APP1 ∧ walk.orientation = none ∧ isExif payload)) :
      Kept walk marker payload walk false

theorem isExtra_not {marker : UInt8} (h : isExtra marker) :
    isFrameMarker marker = false ∧ isTableMarker marker = false := by
  grind [isExtra, isFrameMarker, isTableMarker, DQT, DHT, DRI]

theorem isTableMarker_iff {marker : UInt8} :
    isTableMarker marker ↔ marker = DQT ∨ marker = DHT ∨ marker = DRI := by
  rw [isTableMarker, Bool.or_eq_true, Bool.or_eq_true, beq_iff_eq, beq_iff_eq, beq_iff_eq, or_assoc]

theorem isExtra_iff {marker : UInt8} :
    isExtra marker ↔ (0xe0 ≤ marker ∧ marker ≤ 0xef) ∨ marker = 0xfe := by
  rw [isExtra, Bool.or_eq_true, Bool.and_eq_true, decide_eq_true_eq, decide_eq_true_eq, beq_iff_eq]

theorem kept_of_keepSegment {walk walk' : Walk} {marker : UInt8} {payload : Buffer} {keep : Bool}
    (h : keepSegment walk marker payload = .ok (walk', keep)) :
    Kept walk marker payload walk' keep := by
  rw [keepSegment] at h
  split at h
  next hMarker =>
    split at h
    next => cases h
    next hFirst =>
      obtain ⟨frame, hFrame, h⟩ := bind_eq_ok.mp h
      obtain ⟨rfl, rfl⟩ := Prod.mk.inj (Except.ok.inj h)
      exact .frame hMarker (Option.not_isSome_iff_eq_none.mp hFirst) hFrame
  next hMarker =>
    rw [Bool.not_eq_true] at hMarker
    split at h
    next hTable =>
      obtain ⟨_, hCheck, h⟩ := bind_eq_ok.mp h
      obtain ⟨rfl, rfl⟩ := Prod.mk.inj (Except.ok.inj h)
      exact .table hMarker (isTableMarker_iff.mpr hTable) hCheck
    next =>
      split at h
      next hAdobe =>
        obtain ⟨rfl, rfl⟩ := Prod.mk.inj (Except.ok.inj h)
        exact .adobe hAdobe
      next hAdobe =>
        split at h
        next hExif =>
          obtain ⟨orientation, hRead, h⟩ := bind_eq_ok.mp h
          obtain ⟨rfl, rfl⟩ := Prod.mk.inj (Except.ok.inj h)
          exact .exif hExif.1 hExif.2.1 hExif.2.2 hRead
        next hExif =>
          split at h
          next hExtra =>
            obtain ⟨rfl, rfl⟩ := Prod.mk.inj (Except.ok.inj h)
            exact .extra (isExtra_iff.mpr hExtra) hAdobe hExif
          next => cases h

theorem keepSegment_of_kept {walk walk' : Walk} {marker : UInt8} {payload : Buffer} {keep : Bool}
    (h : Kept walk marker payload walk' keep) :
    keepSegment walk marker payload = .ok (walk', keep) := by
  cases h with
  | frame hMarker hFirst hFrame =>
    rw [keepSegment, if_pos hMarker, hFirst, hFrame]
    rfl
  | table hMarker hTable hCheck =>
    rw [keepSegment, hMarker, if_neg Bool.false_ne_true, if_pos (isTableMarker_iff.mp hTable),
      hCheck]
    rfl
  | adobe hMarker =>
    subst hMarker
    rfl
  | exif hMarker hFirst hExif hRead =>
    subst hMarker
    rw [keepSegment, if_neg (by decide), if_neg (by decide), if_neg (by decide),
      if_pos ⟨rfl, hFirst, hExif⟩, hRead]
    rfl
  | extra hMarker hAdobe hExif =>
    obtain ⟨hFrame, hTable⟩ := isExtra_not hMarker
    rw [keepSegment, hFrame, if_neg Bool.false_ne_true,
      if_neg (fun h => Bool.false_ne_true (hTable.symm.trans (isTableMarker_iff.mpr h))),
      if_neg hAdobe, if_neg hExif, if_pos (isExtra_iff.mp hMarker)]

end MyClash.Photos
