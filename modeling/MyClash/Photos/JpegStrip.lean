import MyClash.Library.ByteFields

/-!
# Stripping a JPEG

The walk over the segments of an uploaded photo. What draws the picture is kept byte for byte, the
orientation is read and written back fresh, and all else goes. An offset into the buffer is given
by the bytes from there on.
-/

namespace MyClash.Photos

open ByteFields

abbrev Buffer := List UInt8

inductive PhotoFileRefusal where
  | notJpeg
  | heic
  | corrupt
  | unsupportedJpeg
  | tooManyPixels

/-- What a call ends with when it does not answer: its refusal, an error of the runtime, or never. -/
inductive Thrown where
  | refusal (code : PhotoFileRefusal) (message : String)
  | rangeError
  | typeError
  | endless

def corrupt (why : String) : Thrown := .refusal .corrupt ("Damaged JPEG: " ++ why ++ ".")

def unsupported (why : String) : Thrown :=
  .refusal .unsupportedJpeg ("Unsupported JPEG: " ++ why ++ ".")

def MAX_PIXELS : ℕ := 64000000

structure StrippedJpeg where
  bytes : Buffer
  width : ℕ
  height : ℕ
  orientation : ℕ

/-! ## Reads -/

def latin1 (bytes : Buffer) : String := String.ofList (bytes.map fun b => Char.ofNat b.toNat)

def ascii (text : String) : Buffer := text.toList.map fun c => UInt8.ofNat c.toNat

inductive ByteOrder where
  | bigEndian
  | littleEndian

def readUInt (order : ByteOrder) (width : ℕ) (buffer : Buffer) (pos : ℕ) : Except Thrown ℕ :=
  if pos + width ≤ buffer.length then
    let field := (buffer.drop pos).take width
    match order with
    | .littleEndian => .ok (leValue field)
    | .bigEndian => .ok (leValue field.reverse)
  else .error .rangeError

def readUInt16BE (buffer : Buffer) (pos : ℕ) : Except Thrown ℕ := readUInt .bigEndian 2 buffer pos

/-- A number of `width` bytes, the highest first. -/
def beBytes (width value : ℕ) : Buffer := (leBytes width value).reverse

/-! ## The kind of a file -/

inductive PhotoKind where
  | jpeg
  | webp
  | heic
  | unknown

def PHOTO_HEIF_BRANDS : List String :=
  ["heic", "heix", "hevc", "hevx", "heim", "heis", "mif1", "msf1"]

def sniffPhoto (bytes : Buffer) : PhotoKind :=
  if bytes.length ≥ 3 ∧ bytes.take 3 = [0xff, 0xd8, 0xff] then .jpeg
  else if bytes.length ≥ 12 ∧ latin1 (bytes.take 4) = "RIFF" then
    if latin1 ((bytes.drop 8).take 4) = "WEBP" then .webp else .unknown
  else if bytes.length ≥ 12 ∧ latin1 ((bytes.drop 4).take 4) = "ftyp" then
    if latin1 ((bytes.drop 8).take 4) ∈ PHOTO_HEIF_BRANDS then .heic else .unknown
  else .unknown

def refuseOtherFormats (bytes : Buffer) : Except Thrown Unit :=
  match sniffPhoto bytes with
  | .heic => .error (.refusal .heic "HEIC photos are not accepted; send a JPEG.")
  | .jpeg => .ok ()
  | _ => .error (.refusal .notJpeg "Only JPEG photos are accepted.")

/-! ## Markers and segments -/

def SOI : UInt8 := 0xd8
def EOI : UInt8 := 0xd9
def SOS : UInt8 := 0xda
def DQT : UInt8 := 0xdb
def DHT : UInt8 := 0xc4
def DRI : UInt8 := 0xdd
def APP1 : UInt8 := 0xe1
def APP14 : UInt8 := 0xee

def isRestart (marker : UInt8) : Bool := 0xd0 ≤ marker && marker ≤ 0xd7

/-- The marker past any fill bytes, with the bytes from its `0xFF` on. -/
def markerAt (rest : Buffer) : Except Thrown (UInt8 × Buffer) :=
  match rest with
  | 0xff :: more =>
    match more.dropWhile (· = 0xff) with
    | [] => .error (corrupt "no end of image")
    | marker :: after => .ok (marker, 0xff :: marker :: after)
  | _ => .error (corrupt "bytes between segments")

/-- The segment that starts here, and the bytes after it. -/
def segmentEnd (rest : Buffer) : Except Thrown (Buffer × Buffer) :=
  if rest.length < 4 then .error (corrupt "a segment cut short")
  else do
    let length ← readUInt16BE rest 2
    if length < 2 ∨ 2 + length > rest.length then
      .error (corrupt "a segment running past the end")
    else .ok (rest.take (2 + length), rest.drop (2 + length))

/-- The coded data up to the marker that ends it: a stuffed byte, a restart marker and fill are all
part of the data. -/
def endOfScan : Buffer → Except Thrown (Buffer × Buffer)
  | [] => .error (corrupt "no end of image")
  | [_] => .error (corrupt "no end of image")
  | b :: next :: rest =>
    if b ≠ 0xff then do
      let (data, after) ← endOfScan (next :: rest)
      .ok (b :: data, after)
    else if next = 0x00 ∨ isRestart next then do
      let (data, after) ← endOfScan rest
      .ok (b :: next :: data, after)
    else if next = 0xff then do
      let (data, after) ← endOfScan (next :: rest)
      .ok (b :: data, after)
    else .ok ([], b :: next :: rest)

/-! ## Frame, scan and tables -/

structure Frame where
  width : ℕ
  height : ℕ
  ids : List UInt8

def isFrameMarker (marker : UInt8) : Bool :=
  0xc0 ≤ marker && marker ≤ 0xcf && marker != DHT && marker != 0xc8 && marker != 0xcc

def readFrame (marker : UInt8) (payload : Buffer) : Except Thrown Frame :=
  if marker ≠ 0xc0 ∧ marker ≠ 0xc1 then
    .error (unsupported (if marker = 0xc2 ∨ marker = 0xc6 then "progressive" else "not baseline"))
  else if payload.length < 6 then .error (corrupt "a frame header cut short")
  else if payload.getD 0 0 ≠ 8 then
    .error (unsupported (toString (payload.getD 0 0).toNat ++ "-bit samples"))
  else do
    let height ← readUInt16BE payload 1
    let width ← readUInt16BE payload 3
    let components := (payload.getD 5 0).toNat
    if components ≠ 1 ∧ components ≠ 3 then
      .error (unsupported (toString components ++ " components"))
    else if payload.length ≠ 6 + 3 * components then
      .error (corrupt "a frame header of the wrong size")
    else if width = 0 ∨ height = 0 then .error (corrupt "a frame with no size")
    else if width * height > MAX_PIXELS then
      .error (.refusal .tooManyPixels
        ("The photo has more than " ++ toString MAX_PIXELS ++ " pixels."))
    else
      .ok ⟨width, height, (List.range components).map fun i => payload.getD (6 + 3 * i) 0⟩

def checkScanHeader (payload : Buffer) (frame : Frame) : Except Thrown Unit :=
  let components := (payload.getD 0 0).toNat
  if components < 1 ∨ components > 4 ∨ payload.length ≠ 4 + 2 * components then
    .error (corrupt "a scan header of the wrong size")
  else
    let ids := (List.range components).map fun i => payload.getD (1 + 2 * i) 0
    if ids ≠ frame.ids then .error (unsupported "a scan of part of the image")
    else if payload.drop (1 + 2 * components) ≠ [0, 63, 0] then
      .error (unsupported "a partial scan")
    else .ok ()

/-- Where the tables of a segment end, one table after the other. -/
def tablesEnd (marker : UInt8) (payload : Buffer) : ℕ → ℕ → Except Thrown ℕ
  | 0, _ => .error .endless
  | fuel + 1, pos =>
    if pos < payload.length then
      let spec := payload.getD pos 0
      if marker = DQT then
        if spec >>> 4 > 1 ∨ spec &&& 0x0f > 3 then
          .error (corrupt "a malformed quantisation table")
        else tablesEnd marker payload fuel (pos + 1 + 64 * ((spec >>> 4).toNat + 1))
      else if spec >>> 4 > 1 ∨ spec &&& 0x0f > 3 ∨ pos + 17 > payload.length then
        .error (corrupt "a malformed Huffman table")
      else
        let codes := ((List.range' 1 16).map fun i => (payload.getD (pos + i) 0).toNat).sum
        if codes > 256 then .error (corrupt "a malformed Huffman table")
        else tablesEnd marker payload fuel (pos + 17 + codes)
    else .ok pos

def checkTable (marker : UInt8) (payload : Buffer) : Except Thrown Unit :=
  if marker = DRI then
    if payload.length ≠ 2 then .error (corrupt "a restart interval of the wrong size") else .ok ()
  else do
    let pos ← tablesEnd marker payload (payload.length + 1) 0
    if pos ≠ payload.length ∨ payload.length = 0 then
      .error (corrupt "a table of the wrong size")
    else .ok ()

/-! ## The orientation -/

def isExif (payload : Buffer) : Bool :=
  payload.length ≥ 14 && latin1 (payload.take 6) == "Exif\x00\x00"

/-- The entries of the first directory, from entry `i` on. -/
def entryOrientation (order : ByteOrder) (tiff : Buffer) (ifd : ℕ) : ℕ → ℕ → Except Thrown ℕ
  | 0, _ => .ok 1
  | remaining + 1, i =>
    let entry := ifd + 2 + i * 12
    if entry + 12 > tiff.length then .ok 1
    else do
      let tag ← readUInt order 2 tiff entry
      let format ← readUInt order 2 tiff (entry + 2)
      if tag = 0x0112 ∧ format = 3 then
        let value ← readUInt order 2 tiff (entry + 8)
        if 1 ≤ value ∧ value ≤ 8 then .ok value else .ok 1
      else entryOrientation order tiff ifd remaining (i + 1)

def tiffOrientation (order : ByteOrder) (tiff : Buffer) : Except Thrown ℕ := do
  let magic ← readUInt order 2 tiff 2
  if magic ≠ 42 then .ok 1
  else
    let ifd ← readUInt order 4 tiff 4
    if ifd + 2 > tiff.length then .ok 1
    else
      let count ← readUInt order 2 tiff ifd
      entryOrientation order tiff ifd count 0

def readOrientation (tiff : Buffer) : Except Thrown ℕ :=
  if latin1 (tiff.take 2) = "II" then tiffOrientation .littleEndian tiff
  else if latin1 (tiff.take 2) = "MM" then tiffOrientation .bigEndian tiff
  else .ok 1

@[grind =] def orientationApp1 (orientation : ℕ) : Buffer :=
  beBytes 2 0xffe1 ++ beBytes 2 34 ++ ascii "Exif\x00\x00" ++ ascii "MM" ++ beBytes 2 42 ++
    beBytes 4 8 ++ beBytes 2 1 ++ beBytes 2 0x0112 ++ beBytes 2 3 ++ beBytes 4 1 ++
    beBytes 2 orientation ++ [0, 0] ++ beBytes 4 0

/-! ## The walk -/

structure Walk where
  kept : List Buffer
  frame : Option Frame
  orientation : Option ℕ
  scans : ℕ

/-- Whether a segment before or after the scan is part of the picture. -/
def keepSegment (walk : Walk) (marker : UInt8) (payload : Buffer) : Except Thrown (Walk × Bool) :=
  if isFrameMarker marker then
    if walk.frame.isSome then .error (corrupt "a second frame header")
    else do
      let frame ← readFrame marker payload
      .ok ({ walk with frame := some frame }, true)
  else if marker = DQT ∨ marker = DHT ∨ marker = DRI then do
    checkTable marker payload
    .ok (walk, true)
  else if marker = APP14 then
    .ok (walk, payload.length == 12 && latin1 (payload.take 5) == "Adobe")
  else if marker = APP1 ∧ walk.orientation = none ∧ isExif payload then do
    let orientation ← readOrientation (payload.drop 6)
    .ok ({ walk with orientation := some orientation }, false)
  else if (0xe0 ≤ marker ∧ marker ≤ 0xef) ∨ marker = 0xfe then .ok (walk, false)
  else
    .error (corrupt ("an unexpected segment 0x" ++
      String.ofList (Nat.toDigits 16 marker.toNat)))

def Walk.push (walk : Walk) (bytes : Buffer) : Walk := { walk with kept := walk.kept ++ [bytes] }

@[grind =] def walkFrom : ℕ → Buffer → Walk → Except Thrown Walk
  | 0, _, _ => .error .endless
  | fuel + 1, rest, walk => do
    let (marker, rest) ← markerAt rest
    if marker = EOI then
      if walk.scans = 0 then .error (corrupt "no image data before its end")
      else .ok (walk.push (rest.take 2))
    else if marker = SOI ∨ isRestart marker ∨ marker = 0x01 then
      .error (corrupt "a marker out of place")
    else
      let (segment, rest) ← segmentEnd rest
      let payload := segment.drop 4
      if marker ≠ SOS then
        let (walk, keep) ← keepSegment walk marker payload
        walkFrom fuel rest (if keep then walk.push segment else walk)
      else
        match walk.frame with
        | none => .error (corrupt "a scan before its frame header")
        | some frame =>
          if walk.scans > 0 then .error (unsupported "more than one scan")
          else
            checkScanHeader payload frame
            let (data, rest) ← endOfScan rest
            walkFrom fuel rest { walk.push (segment ++ data) with scans := walk.scans + 1 }

/-- The start marker, the fresh orientation where the photo is not upright, and what was kept. -/
def assemble (start : Buffer) (walk : Walk) : Except Thrown StrippedJpeg :=
  let orientation := walk.orientation.getD 1
  let head := if orientation = 1 then [] else [orientationApp1 orientation]
  match walk.frame with
  | none => .error .typeError
  | some frame =>
    .ok ⟨([start] ++ head ++ walk.kept).flatten, frame.width, frame.height, orientation⟩

def stripJpeg (bytes : Buffer) : Except Thrown StrippedJpeg := do
  refuseOtherFormats bytes
  let walk ← walkFrom (bytes.length + 1) (bytes.drop 2) ⟨[], none, none, 0⟩
  assemble (bytes.take 2) walk

/-- One grey pixel behind a comment. -/
def onePixel : Buffer :=
  [0xff, 0xd8, 0xff, 0xfe, 0, 4, 0x68, 0x69, 0xff, 0xc0, 0, 11, 8, 0, 1, 0, 1, 1, 1, 0x11, 0, 0xff,
    0xda, 0, 8, 1, 1, 0, 0, 63, 0, 0x12, 0xff, 0, 0xff, 0xd9, 7]

example : (stripJpeg onePixel).toOption.map (·.bytes) =
    some (onePixel.take 2 ++ (onePixel.drop 8).take 28) := by decide +kernel

end MyClash.Photos
