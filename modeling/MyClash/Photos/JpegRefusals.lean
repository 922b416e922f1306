import MyClash.Photos.JpegLayout

/-!
# The refusals of the walk

Every read of the walk stands behind a check of the length, and every turn takes bytes off what is
left: a photo is answered or refused, and nothing else is thrown.
-/

namespace MyClash.Photos

/-- A call that answers or throws a refusal of its own. -/
def Refusing {α : Type} (x : Except Thrown α) : Prop :=
  ∀ e, x = .error e → ∃ code message, e = .refusal code message

section Rules

variable {α β : Type}

theorem Refusing.ok (a : α) : Refusing (.ok a : Except Thrown α) := fun _ h => nomatch h

theorem Refusing.refusal (code : PhotoFileRefusal) (message : String) :
    Refusing (.error (.refusal code message) : Except Thrown α) := fun _ h =>
  ⟨code, message, (Except.error.inj h).symm⟩

theorem Refusing.corrupt (why : String) : Refusing (.error (Photos.corrupt why) : Except Thrown α) :=
  .refusal _ _

theorem Refusing.unsupported (why : String) :
    Refusing (.error (Photos.unsupported why) : Except Thrown α) :=
  .refusal _ _

theorem Refusing.bind {x : Except Thrown α} {f : α → Except Thrown β} (hx : Refusing x)
    (hf : ∀ a, x = .ok a → Refusing (f a)) : Refusing (x >>= f) := by
  cases x with
  | error e =>
    intro e' h
    exact hx e' (Except.error.inj h ▸ rfl)
  | ok a => exact hf a rfl

end Rules

/-! ## The readers -/

theorem refuseOtherFormats_refusing (bytes : Buffer) : Refusing (refuseOtherFormats bytes) := by
  rw [refuseOtherFormats]
  split
  · exact .refusal _ _
  · exact .ok _
  · exact .refusal _ _

theorem markerAt_refusing (rest : Buffer) : Refusing (markerAt rest) := by
  rw [markerAt.eq_def]
  split
  · split
    · exact .corrupt _
    · exact .ok _
  · exact .corrupt _

theorem refusing_readUInt {order : ByteOrder} {width : ℕ} {buffer : Buffer} {pos : ℕ}
    (h : pos + width ≤ buffer.length) : Refusing (readUInt order width buffer pos) := by
  obtain ⟨value, hValue⟩ := readUInt_ok order h
  rw [hValue]
  exact .ok value

theorem segmentEnd_refusing (rest : Buffer) : Refusing (segmentEnd rest) := by
  rw [segmentEnd]
  split
  next => exact .corrupt _
  next hLong =>
    refine (refusing_readUInt (by omega)).bind fun length _ => ?_
    split
    · exact .corrupt _
    · exact .ok _

theorem endOfScan_refusing (rest : Buffer) : Refusing (endOfScan rest) := by
  induction rest using endOfScan.induct with
  | case1 => exact .corrupt _
  | case2 b => exact .corrupt _
  | case3 b next rest hb ih =>
    rw [endOfScan, if_pos hb]
    exact ih.bind fun _ _ => .ok _
  | case4 b next rest hb hNext ih =>
    rw [endOfScan, if_neg hb, if_pos hNext]
    exact ih.bind fun _ _ => .ok _
  | case5 b rest hb hNext ih =>
    rw [endOfScan, if_neg hb, if_neg hNext, if_pos rfl]
    exact ih.bind fun _ _ => .ok _
  | case6 b next rest hb hNext hFill =>
    rw [endOfScan, if_neg hb, if_neg hNext, if_neg hFill]
    exact .ok _

theorem readFrame_refusing (marker : UInt8) (payload : Buffer) :
    Refusing (readFrame marker payload) := by
  rw [readFrame]
  split
  · exact .unsupported _
  split
  · exact .corrupt _
  next hLong =>
    split
    · exact .unsupported _
    refine (refusing_readUInt (by omega)).bind fun height _ => ?_
    refine (refusing_readUInt (by omega)).bind fun width _ => ?_
    dsimp only
    split
    · exact .unsupported _
    split
    · exact .corrupt _
    split
    · exact .corrupt _
    split
    · exact .refusal _ _
    · exact .ok _

theorem checkScanHeader_refusing (payload : Buffer) (frame : Frame) :
    Refusing (checkScanHeader payload frame) := by
  rw [checkScanHeader]
  dsimp only
  split
  · exact .corrupt _
  split
  · exact .unsupported _
  split
  · exact .unsupported _
  · exact .ok _

theorem tablesEnd_refusing {marker : UInt8} {payload : Buffer} {fuel pos : ℕ}
    (h : payload.length - pos < fuel) : Refusing (tablesEnd marker payload fuel pos) := by
  induction fuel generalizing pos with
  | zero => cases h
  | succ fuel ih =>
    rw [tablesEnd]
    split
    next hInside =>
      dsimp only
      split
      · split
        · exact .corrupt _
        · exact ih (by omega)
      · split
        · exact .corrupt _
        · split
          · exact .corrupt _
          · exact ih (by omega)
    next => exact .ok _

theorem checkTable_refusing (marker : UInt8) (payload : Buffer) :
    Refusing (checkTable marker payload) := by
  rw [checkTable]
  split
  · split
    · exact .corrupt _
    · exact .ok _
  · refine (tablesEnd_refusing (by omega)).bind fun pos _ => ?_
    split
    · exact .corrupt _
    · exact .ok _

/-! ## The orientation -/

/-- A read that answers an orientation, whatever the bytes. -/
def Oriented (x : Except Thrown ℕ) : Prop := ∃ orientation, x = .ok orientation ∧
  1 ≤ orientation ∧ orientation ≤ 8

theorem Oriented.upright : Oriented (.ok 1) := ⟨1, rfl, by decide, by decide⟩

theorem Oriented.readUInt {order : ByteOrder} {width : ℕ} {buffer : Buffer} {pos : ℕ}
    (h : pos + width ≤ buffer.length) {f : ℕ → Except Thrown ℕ} (hf : ∀ value, Oriented (f value)) :
    Oriented (Photos.readUInt order width buffer pos >>= f) := by
  obtain ⟨value, hValue⟩ := readUInt_ok order h
  rw [hValue]
  exact hf value

theorem entryOrientation_oriented (order : ByteOrder) (tiff : Buffer) (ifd remaining i : ℕ) :
    Oriented (entryOrientation order tiff ifd remaining i) := by
  induction remaining generalizing i with
  | zero => exact .upright
  | succ remaining ih =>
    rw [entryOrientation]
    split
    next => exact .upright
    next hInside =>
      refine .readUInt (by omega) fun tag => .readUInt (by omega) fun format => ?_
      split
      next =>
        refine .readUInt (by omega) fun value => ?_
        split
        next hRange => exact ⟨value, rfl, hRange.1, hRange.2⟩
        next => exact .upright
      next => exact ih (i + 1)

theorem tiffOrientation_oriented (order : ByteOrder) {tiff : Buffer} (h : 8 ≤ tiff.length) :
    Oriented (tiffOrientation order tiff) := by
  rw [tiffOrientation]
  refine .readUInt (by omega) fun magic => ?_
  split
  next => exact .upright
  next =>
    refine .readUInt (by omega) fun ifd => ?_
    split
    next => exact .upright
    next => exact .readUInt (by omega) fun count => entryOrientation_oriented order tiff ifd count 0

theorem readOrientation_oriented {tiff : Buffer} (h : 8 ≤ tiff.length) :
    Oriented (readOrientation tiff) := by
  rw [readOrientation]
  split
  · exact tiffOrientation_oriented _ h
  split
  · exact tiffOrientation_oriented _ h
  · exact .upright

/-- A block that reads as Exif has room for the reads of its header. -/
theorem readOrientation_of_isExif {payload : Buffer} (h : isExif payload) :
    Oriented (readOrientation (payload.drop 6)) := by
  rw [isExif, Bool.and_eq_true, decide_eq_true_eq] at h
  refine readOrientation_oriented ?_
  rw [List.length_drop]
  omega

/-! ## The walk -/

theorem keepSegment_refusing (walk : Walk) (marker : UInt8) (payload : Buffer) :
    Refusing (keepSegment walk marker payload) := by
  rw [keepSegment]
  split
  · split
    · exact .corrupt _
    · exact (readFrame_refusing marker payload).bind fun _ _ => .ok _
  split
  · exact (checkTable_refusing marker payload).bind fun _ _ => .ok _
  split
  · exact .ok _
  split
  next hExif =>
    obtain ⟨orientation, hRead, -⟩ := readOrientation_of_isExif hExif.2.2
    rw [hRead]
    exact .ok _
  split
  · exact .ok _
  · exact .corrupt _

theorem walkFrom_refusing {fuel : ℕ} {rest : Buffer} {walk : Walk} (h : rest.length < fuel) :
    Refusing (walkFrom fuel rest walk) := by
  induction fuel generalizing rest walk with
  | zero => cases h
  | succ fuel ih =>
    rw [walkFrom]
    refine (markerAt_refusing rest).bind ?_
    rintro ⟨marker, found⟩ hMarker
    obtain ⟨n, after, rfl, rfl, -⟩ := markerAt_ok hMarker
    dsimp only
    split
    · split
      · exact .corrupt _
      · exact .ok _
    split
    · exact .corrupt _
    refine (segmentEnd_refusing _).bind ?_
    rintro ⟨segment, more⟩ hSegment
    obtain ⟨payload, -, hBytes, hSplit⟩ := segmentEnd_ok hSegment
    have hLess : more.length < fuel := by
      rw [hSplit, List.length_append, List.length_append, hBytes, Segment.length_bytes] at h
      omega
    dsimp only
    split
    · exact (keepSegment_refusing _ _ _).bind fun _ _ => ih hLess
    split
    · exact .corrupt _
    split
    · exact .unsupported _
    refine (checkScanHeader_refusing _ _).bind fun _ _ => ?_
    refine (endOfScan_refusing more).bind ?_
    rintro ⟨data, last⟩ hData
    obtain ⟨hSplit, -, -⟩ := endOfScan_ok hData
    refine ih ?_
    rw [hSplit, List.length_append] at hLess
    dsimp only
    omega

end MyClash.Photos
