import MyClash.Photos.JpegRefusals
import Mathlib.Tactic.IntervalCases

/-!
# What a stripped JPEG holds

Every accepted photo has a layout, and the answer is read off it: the segments that draw the
picture and the scan, and one orientation. So a stripped photo strips to itself, and what was
dropped cannot be seen in it.
-/

namespace MyClash.Photos

/-! ## Segment by segment -/

/-- A segment that draws the picture. -/
def Segment.draws (s : Segment) : Bool :=
  isFrameMarker s.marker || isTableMarker s.marker || (s.marker == APP14 && isAdobe s.payload)

/-- An application block other than Adobe's, or a comment. -/
def Segment.hides (s : Segment) : Bool :=
  isExtra s.marker && !(s.marker == APP14 && isAdobe s.payload)

/-- The orientation of a block that reads as Exif. -/
def Segment.orientation (s : Segment) : Option ℕ :=
  if s.marker = APP1 ∧ isExif s.payload then (readOrientation (s.payload.drop 6)).toOption else none

def keepOne (walk : Walk) (s : Segment) : Except Thrown Walk := do
  let (walk, keep) ← keepSegment walk s.marker s.payload
  .ok (if keep then walk.push s.bytes else walk)

def keepAll (walk : Walk) (segments : List Segment) : Except Thrown Walk :=
  segments.foldlM keepOne walk

theorem Segment.orientation_none {s : Segment} (h : s.marker ≠ APP1) : s.orientation = none :=
  if_neg fun hExif => h hExif.1

theorem Kept.draws {walk walk' : Walk} {s : Segment} {keep : Bool}
    (h : Kept walk s.marker s.payload walk' keep) : keep = s.draws ∧ s.draws = !s.hides := by
  rw [Segment.draws, Segment.hides]
  cases h with
  | frame hMarker =>
    have hExtra : isExtra s.marker = false := Bool.eq_false_iff.mpr fun h =>
      Bool.false_ne_true ((isExtra_not h).1.symm.trans hMarker)
    simp [hMarker, hExtra]
  | table hMarker hTable =>
    have hExtra : isExtra s.marker = false := Bool.eq_false_iff.mpr fun h =>
      Bool.false_ne_true ((isExtra_not h).2.symm.trans hTable)
    simp [hTable, hExtra]
  | adobe hMarker =>
    have hFrame : isFrameMarker APP14 = false := by decide
    have hTable : isTableMarker APP14 = false := by decide
    have hExtra : isExtra APP14 = true := by decide
    simp [hMarker, hFrame, hTable, hExtra]
  | exif hMarker =>
    rw [hMarker]
    exact ⟨rfl, rfl⟩
  | extra hMarker hAdobe =>
    obtain ⟨hFrame, hTable⟩ := isExtra_not hMarker
    simp [hMarker, hFrame, hTable, hAdobe]

theorem Kept.orientation {walk walk' : Walk} {s : Segment} {keep : Bool}
    (h : Kept walk s.marker s.payload walk' keep) :
    walk'.orientation = walk.orientation.or s.orientation := by
  cases h with
  | frame hMarker =>
    have hNe : s.marker ≠ APP1 := fun h => absurd (h ▸ hMarker : isFrameMarker APP1) (by decide)
    rw [Segment.orientation_none hNe, Option.or_none]
  | table hMarker hTable =>
    have hNe : s.marker ≠ APP1 := fun h => absurd (h ▸ hTable : isTableMarker APP1) (by decide)
    rw [Segment.orientation_none hNe, Option.or_none]
  | adobe hMarker =>
    have hNe : s.marker ≠ APP1 := fun h => absurd (hMarker.symm.trans h) (by decide)
    rw [Segment.orientation_none hNe, Option.or_none]
  | exif hMarker hFirst hExif hRead =>
    rw [hFirst, Segment.orientation, if_pos ⟨hMarker, hExif⟩, hRead]
    rfl
  | extra hMarker hAdobe hExif =>
    cases hFirst : walk.orientation with
    | some orientation => rfl
    | none =>
      have hNone : ¬(s.marker = APP1 ∧ isExif s.payload) := fun h => hExif ⟨h.1, hFirst, h.2⟩
      rw [Segment.orientation, if_neg hNone]
      rfl

/-- A segment that draws is judged by the frame alone. -/
theorem Kept.again {walk walk' : Walk} {s : Segment} (h : Kept walk s.marker s.payload walk' true)
    {other : Walk} (hFrame : other.frame = walk.frame) :
    Kept other s.marker s.payload { other with frame := walk'.frame } true := by
  generalize hKeep : true = keep at h ⊢
  cases h with
  | frame hMarker hFirst hRead => exact .frame hMarker (hFrame.trans hFirst) hRead
  | table hMarker hTable hCheck =>
    rw [← hFrame]
    exact .table hMarker hTable hCheck
  | adobe hMarker =>
    rw [← hFrame]
    exact .adobe hMarker
  | exif => cases hKeep
  | extra => cases hKeep

theorem Kept.frame_eq {walk walk' : Walk} {s : Segment}
    (h : Kept walk s.marker s.payload walk' false) : walk'.frame = walk.frame := by
  generalize hKeep : false = keep at h
  cases h with
  | frame => cases hKeep
  | table => rfl
  | adobe => rfl
  | exif => rfl
  | extra => rfl

theorem Kept.same {walk walk' : Walk} {marker : UInt8} {payload : Buffer} {keep : Bool}
    (h : Kept walk marker payload walk' keep) :
    walk'.kept = walk.kept ∧ walk'.scans = walk.scans ∧
      ∀ frame, walk.frame = some frame → walk'.frame = some frame := by
  cases h with
  | frame hMarker hFirst =>
    refine ⟨rfl, rfl, fun frame hSome => ?_⟩
    rw [hFirst] at hSome
    cases hSome
  | table => exact ⟨rfl, rfl, fun _ => id⟩
  | adobe => exact ⟨rfl, rfl, fun _ => id⟩
  | exif => exact ⟨rfl, rfl, fun _ => id⟩
  | extra => exact ⟨rfl, rfl, fun _ => id⟩

/-- What segments add to the walk: the bytes of those that draw, and the first orientation. -/
structure Adds (walk : Walk) (segments : List Segment) (walk' : Walk) : Prop where
  kept : walk'.kept = walk.kept ++ (segments.filter Segment.draws).map Segment.bytes
  orientation : walk'.orientation = walk.orientation.or (segments.findSome? Segment.orientation)
  scans : walk'.scans = walk.scans
  sorted : ∀ s ∈ segments, s.draws = !s.hides
  framed : ∀ frame, walk.frame = some frame → walk'.frame = some frame
  -- the segments that draw are accepted again, whatever else the walk has met
  again : ∀ other : Walk, other.frame = walk.frame →
    keepAll other (segments.filter Segment.draws) =
      .ok ⟨other.kept ++ (segments.filter Segment.draws).map Segment.bytes, walk'.frame,
        other.orientation, other.scans⟩

theorem keepOne_ok {walk walk' : Walk} {s : Segment} (h : keepOne walk s = .ok walk') :
    ∃ kept keep, Kept walk s.marker s.payload kept keep ∧
      walk' = if keep then kept.push s.bytes else kept := by
  obtain ⟨⟨kept, keep⟩, hKeep, h⟩ := bind_eq_ok.mp h
  exact ⟨kept, keep, kept_of_keepSegment hKeep, (Except.ok.inj h).symm⟩

theorem keepOne_of_kept {walk walk' : Walk} {s : Segment} {keep : Bool}
    (h : Kept walk s.marker s.payload walk' keep) :
    keepOne walk s = .ok (if keep then walk'.push s.bytes else walk') := by
  rw [keepOne, keepSegment_of_kept h]
  rfl

theorem keepAll_adds {walk walk' : Walk} {segments : List Segment}
    (h : keepAll walk segments = .ok walk') : Adds walk segments walk' := by
  induction segments generalizing walk with
  | nil =>
    obtain rfl := Except.ok.inj h
    exact ⟨(List.append_nil _).symm, (Option.or_none).symm, rfl, List.forall_mem_nil _,
      fun _ => id, fun other hFrame => by rw [← hFrame]; exact congrArg Except.ok (by simp)⟩
  | cons s segments ih =>
    obtain ⟨next, hOne, hRest⟩ := bind_eq_ok.mp h
    obtain ⟨kept, keep, hKept, rfl⟩ := keepOne_ok hOne
    have hAdds := ih hRest
    obtain ⟨hDraws, hSorted⟩ := hKept.draws
    obtain ⟨hSameKept, hSameScans, hFramed⟩ := hKept.same
    have hOrientation := hKept.orientation
    have hSortedAll : ∀ t ∈ s :: segments, t.draws = !t.hides :=
      List.forall_mem_cons.mpr ⟨hSorted, hAdds.sorted⟩
    have hFirst : walk'.orientation =
        walk.orientation.or ((s :: segments).findSome? Segment.orientation) := by
      have hPushed : (if keep then kept.push s.bytes else kept).orientation = kept.orientation := by
        cases keep <;> rfl
      rw [hAdds.orientation, hPushed, hOrientation, List.findSome?_cons, Option.or_assoc]
      cases s.orientation <;> rfl
    cases keep with
    | false =>
      have hFilter : (s :: segments).filter Segment.draws = segments.filter Segment.draws :=
        List.filter_cons_of_neg (by rw [← hDraws]; exact Bool.false_ne_true)
      refine ⟨?_, hFirst, hAdds.scans.trans hSameScans, hSortedAll,
        fun frame h => hAdds.framed frame (hFramed frame h), ?_⟩
      · rw [hFilter, hAdds.kept, if_neg Bool.false_ne_true, hSameKept]
      · rw [hFilter]
        exact fun other hFrame => hAdds.again other (hFrame.trans hKept.frame_eq.symm)
    | true =>
      have hFilter : (s :: segments).filter Segment.draws = s :: segments.filter Segment.draws :=
        List.filter_cons_of_pos hDraws.symm
      refine ⟨?_, hFirst, hAdds.scans.trans hSameScans, hSortedAll,
        fun frame h => hAdds.framed frame (hFramed frame h), fun other hFrame => ?_⟩
      · rw [hFilter, hAdds.kept, if_pos rfl, List.map_cons, Walk.push, hSameKept, List.append_assoc]
        rfl
      · rw [hFilter, keepAll, List.foldlM_cons, keepOne_of_kept (hKept.again hFrame)]
        have hAgain := hAdds.again (Walk.push { other with frame := kept.frame } s.bytes) rfl
        refine hAgain.trans ?_
        rw [Walk.push, List.map_cons, List.append_assoc]
        rfl

/-! ## The layout of a photo -/

/-- A segment whose marker is none of those the walk handles itself. -/
structure Segment.Plain (s : Segment) : Prop where
  sized : s.Sized
  notEnd : s.marker ≠ EOI
  notScan : s.marker ≠ SOS
  placed : ¬(s.marker = SOI ∨ isRestart s.marker ∨ s.marker = 0x01)
  ends : EndsScan s.marker

structure Photo where
  before : List (ℕ × Segment)
  scanFill : ℕ
  header : Buffer
  data : Buffer
  after : List (ℕ × Segment)
  endFill : ℕ
  trailing : Buffer

/-- Segments, each behind its fill bytes. -/
def laidOut (segments : List (ℕ × Segment)) : Buffer :=
  segments.flatMap fun x => fill x.1 ++ x.2.bytes

theorem laidOut_cons (x : ℕ × Segment) (segments : List (ℕ × Segment)) (rest : Buffer) :
    laidOut (x :: segments) ++ rest = fill x.1 ++ (x.2.bytes ++ (laidOut segments ++ rest)) := by
  rw [laidOut, List.flatMap_cons, List.append_assoc, List.append_assoc, laidOut]

namespace Photo

def scanSegment (p : Photo) : Segment := ⟨SOS, p.header⟩

def scan (p : Photo) : Buffer := p.scanSegment.bytes ++ p.data

/-- What stands behind the scan. -/
def tail (p : Photo) : Buffer :=
  laidOut p.after ++ (fill p.endFill ++ 0xff :: EOI :: p.trailing)

def bytes (p : Photo) : Buffer :=
  0xff :: SOI :: (laidOut p.before ++ (fill p.scanFill ++ (p.scan ++ p.tail)))

structure Valid (p : Photo) : Prop where
  plain : ∀ x ∈ p.before ++ p.after, x.2.Plain
  sized : p.scanSegment.Sized
  coded : Coded p.data
  -- fill right behind the coded data is part of it
  tight : (p.after.map Prod.fst ++ [p.endFill]).head? = some 0

def segmentsBefore (p : Photo) : List Segment := p.before.map Prod.snd

def segmentsAfter (p : Photo) : List Segment := p.after.map Prod.snd

def walked (p : Photo) : Except Thrown Walk := do
  let walk ← keepAll ⟨[], none, none, 0⟩ p.segmentsBefore
  match walk.frame with
  | none => .error (corrupt "a scan before its frame header")
  | some frame =>
    checkScanHeader p.header frame
    let walk ← keepAll { walk.push p.scan with scans := walk.scans + 1 } p.segmentsAfter
    .ok (walk.push [0xff, EOI])

end Photo

/-! ## The walk over a layout -/

theorem walkFrom_segment {s : Segment} (hPlain : s.Plain) (fuel n : ℕ) (rest : Buffer)
    (walk : Walk) :
    walkFrom (fuel + 1) (fill n ++ (s.bytes ++ rest)) walk = keepOne walk s >>= walkFrom fuel rest := by
  have hMarker : markerAt (fill n ++ (s.bytes ++ rest)) = .ok (s.marker, s.bytes ++ rest) :=
    markerAt_fill n hPlain.ends.2.2 _
  rw [walkFrom, hMarker]
  dsimp only [bind, Except.bind]
  rw [if_neg hPlain.notEnd, if_neg hPlain.placed, segmentEnd_append hPlain.sized]
  dsimp only
  rw [if_pos hPlain.notScan, s.drop_bytes, keepOne]
  cases keepSegment walk s.marker s.payload <;> rfl

theorem walkFrom_laidOut {segments : List (ℕ × Segment)} (hPlain : ∀ x ∈ segments, x.2.Plain)
    (fuel : ℕ) (rest : Buffer) (walk : Walk) :
    walkFrom (fuel + segments.length) (laidOut segments ++ rest) walk =
      keepAll walk (segments.map Prod.snd) >>= walkFrom fuel rest := by
  induction segments generalizing walk with
  | nil => rfl
  | cons x segments ih =>
    obtain ⟨hHead, hTail⟩ := List.forall_mem_cons.mp hPlain
    rw [laidOut_cons, List.length_cons, ← Nat.add_assoc, walkFrom_segment hHead, List.map_cons, keepAll,
      List.foldlM_cons]
    cases keepOne walk x.2 with
    | error e => rfl
    | ok next => exact ih hTail next

theorem walkFrom_scan {p : Photo} (hSized : p.scanSegment.Sized) (hCoded : Coded p.data)
    {marker : UInt8} (hEnds : EndsScan marker) {after : Buffer} (fuel : ℕ) {walk : Walk}
    (hScans : walk.scans = 0) :
    walkFrom (fuel + 1) (fill p.scanFill ++ (p.scan ++ 0xff :: marker :: after)) walk =
      match walk.frame with
      | none => .error (corrupt "a scan before its frame header")
      | some frame => checkScanHeader p.header frame >>= fun _ =>
        walkFrom fuel (0xff :: marker :: after)
          { walk.push p.scan with scans := walk.scans + 1 } := by
  have hMarker : markerAt (fill p.scanFill ++ (p.scan ++ 0xff :: marker :: after)) =
      .ok (SOS, p.scan ++ 0xff :: marker :: after) :=
    markerAt_fill p.scanFill (show SOS ≠ 0xff by decide) _
  rw [walkFrom, hMarker]
  dsimp only [bind, Except.bind]
  rw [if_neg (by decide), if_neg (by decide), Photo.scan, List.append_assoc,
    segmentEnd_append hSized]
  dsimp only
  rw [if_neg (by decide), p.scanSegment.drop_bytes]
  cases walk.frame with
  | none => rfl
  | some frame =>
    dsimp only
    rw [if_neg (by omega), endOfScan_coded hCoded hEnds]
    rfl

theorem walkFrom_end (fuel n : ℕ) (trailing : Buffer) {walk : Walk} (hScans : 0 < walk.scans) :
    walkFrom (fuel + 1) (fill n ++ 0xff :: EOI :: trailing) walk =
      .ok (walk.push [0xff, EOI]) := by
  rw [walkFrom, markerAt_fill n (by decide)]
  dsimp only [bind, Except.bind]
  rw [if_pos rfl, if_neg (by omega)]
  rfl

theorem Photo.Valid.tail_eq {p : Photo} (h : p.Valid) :
    ∃ marker after, p.tail = 0xff :: marker :: after ∧ EndsScan marker := by
  have hTight := h.tight
  have hPlain := h.plain
  rw [Photo.tail]
  cases hAfter : p.after with
  | nil =>
    rw [hAfter] at hTight
    obtain hFill : p.endFill = 0 := Option.some.inj hTight
    rw [hFill]
    exact ⟨EOI, p.trailing, rfl, by decide, by decide, by decide⟩
  | cons x after =>
    rw [hAfter] at hTight
    obtain hFill : x.1 = 0 := Option.some.inj hTight
    have hEnds := (hPlain x (List.mem_append_right _ (hAfter ▸ List.mem_cons_self))).ends
    rw [laidOut_cons, hFill]
    exact ⟨x.2.marker, _, rfl, hEnds⟩

theorem length_laidOut (segments : List (ℕ × Segment)) :
    segments.length ≤ (laidOut segments).length := by
  induction segments with
  | nil => exact Nat.zero_le _
  | cons x segments ih =>
    rw [laidOut, List.flatMap_cons, List.length_append, List.length_append, x.2.length_bytes,
      List.length_cons, ← laidOut]
    omega

/-- Photos start as a JPEG does. -/
theorem Photo.refuseOtherFormats_bytes (p : Photo) : refuseOtherFormats p.bytes = .ok () := by
  have hFill : ∀ n (s : Segment) (more : Buffer), ∃ rest, fill n ++ (s.bytes ++ more) = 0xff :: rest := by
    intro n s more
    cases n with
    | zero => exact ⟨_, rfl⟩
    | succ n => exact ⟨_, rfl⟩
  have hStart : ∃ rest, p.bytes = 0xff :: SOI :: 0xff :: rest := by
    rw [Photo.bytes]
    cases p.before with
    | nil =>
      obtain ⟨rest, hRest⟩ := hFill p.scanFill p.scanSegment (p.data ++ p.tail)
      rw [Photo.scan, List.append_assoc, laidOut, List.flatMap_nil, List.nil_append, hRest]
      exact ⟨rest, rfl⟩
    | cons x before =>
      obtain ⟨rest, hRest⟩ := hFill x.1 x.2 (laidOut before ++ (fill p.scanFill ++ (p.scan ++ p.tail)))
      rw [laidOut_cons, hRest]
      exact ⟨rest, rfl⟩
  obtain ⟨rest, hRest⟩ := hStart
  have hSniff : sniffPhoto p.bytes = .jpeg := by
    rw [hRest, sniffPhoto, if_pos ⟨Nat.le_add_left 3 _, rfl⟩]
  rw [refuseOtherFormats, hSniff]

/-- The walk over a photo is the walk over its pieces. -/
theorem stripJpeg_bytes {p : Photo} (h : p.Valid) :
    stripJpeg p.bytes = p.walked >>= assemble [0xff, SOI] := by
  obtain ⟨marker, after, hTail, hEnds⟩ := h.tail_eq
  have hBefore : ∀ x ∈ p.before, x.2.Plain := fun x hx => h.plain x (List.mem_append_left _ hx)
  have hAfter : ∀ x ∈ p.after, x.2.Plain := fun x hx => h.plain x (List.mem_append_right _ hx)
  have hScanLength : 4 ≤ p.scan.length := by
    rw [Photo.scan, List.length_append, p.scanSegment.length_bytes]
    omega
  obtain ⟨fuel, hFuel⟩ : ∃ fuel, p.bytes.length + 1 =
      fuel + 1 + p.after.length + 1 + p.before.length := by
    have hLength : p.bytes.length = (laidOut p.before).length + (fill p.scanFill).length +
        p.scan.length + (laidOut p.after).length + (fill p.endFill).length +
        p.trailing.length + 4 := by
      rw [Photo.bytes, Photo.tail]
      simp only [List.length_cons, List.length_append]
      omega
    have hLe := length_laidOut p.before
    have hLe' := length_laidOut p.after
    exact ⟨p.bytes.length + 1 - (p.after.length + p.before.length + 2), by omega⟩
  rw [stripJpeg, p.refuseOtherFormats_bytes, hFuel]
  have hDrop : p.bytes.drop 2 = laidOut p.before ++ (fill p.scanFill ++ (p.scan ++ p.tail)) := rfl
  have hTake : p.bytes.take 2 = [0xff, SOI] := rfl
  have hWalk : walkFrom (fuel + 1 + p.after.length + 1 + p.before.length) (p.bytes.drop 2)
      ⟨[], none, none, 0⟩ = p.walked := by
    rw [hDrop, walkFrom_laidOut hBefore, Photo.walked]
    cases hKeep : keepAll ⟨[], none, none, 0⟩ p.segmentsBefore with
    | error e =>
      rw [Photo.segmentsBefore] at hKeep
      rw [hKeep]
      rfl
    | ok walk =>
      have hScans : walk.scans = 0 := (keepAll_adds hKeep).scans
      rw [Photo.segmentsBefore] at hKeep
      rw [hKeep]
      refine (congrArg (fun tail => walkFrom _ (fill p.scanFill ++ (p.scan ++ tail)) walk)
        hTail).trans ((walkFrom_scan h.sized h.coded hEnds _ hScans).trans ?_)
      dsimp only [bind, Except.bind]
      cases walk.frame with
      | none => rfl
      | some frame =>
        dsimp only
        cases checkScanHeader p.header frame with
        | error e => rfl
        | ok _ =>
          dsimp only
          rw [← hTail, Photo.tail, walkFrom_laidOut hAfter]
          cases hKeepAfter : keepAll { walk.push p.scan with scans := walk.scans + 1 }
              p.segmentsAfter with
          | error e =>
            rw [Photo.segmentsAfter] at hKeepAfter
            rw [hKeepAfter]
            rfl
          | ok walk' =>
            have hScans' : walk'.scans = walk.scans + 1 := (keepAll_adds hKeepAfter).scans
            rw [Photo.segmentsAfter] at hKeepAfter
            rw [hKeepAfter]
            exact walkFrom_end fuel p.endFill p.trailing (by omega)
  rw [hWalk, hTake]
  rfl

/-! ## Every accepted photo has a layout -/

theorem Kept.marker_ne_zero {walk walk' : Walk} {marker : UInt8} {payload : Buffer} {keep : Bool}
    (h : Kept walk marker payload walk' keep) : marker ≠ 0x00 := by
  rintro rfl
  cases h with
  | frame hMarker => exact absurd hMarker (by decide)
  | table hMarker hTable => exact absurd hTable (by decide)
  | adobe hMarker => exact absurd hMarker (by decide)
  | exif hMarker => exact absurd hMarker (by decide)
  | extra hMarker => exact absurd hMarker (by decide)

/-- One turn of the walk takes a plain segment off the bytes, reaches the end, or takes the scan. -/
theorem walkFrom_ok {fuel : ℕ} {rest : Buffer} {walk walk' : Walk}
    (h : walkFrom (fuel + 1) rest walk = .ok walk') :
    (∃ n trailing, rest = fill n ++ 0xff :: EOI :: trailing ∧ 0 < walk.scans ∧
        walk'.frame = walk.frame) ∨
      (∃ n, ∃ s : Segment, ∃ more next, rest = fill n ++ (s.bytes ++ more) ∧ s.Plain ∧
        next.scans = walk.scans ∧ (walk.frame.isSome → next.frame.isSome) ∧
        walkFrom fuel more next = .ok walk') ∨
      ∃ n header data marker after next, walk.scans = 0 ∧
        rest = fill n ++ ((Segment.mk SOS header).bytes ++ (data ++ 0xff :: marker :: after)) ∧
        (Segment.mk SOS header).Sized ∧ Coded data ∧ EndsScan marker ∧ 0 < next.scans ∧
        next.frame.isSome ∧ walkFrom fuel (0xff :: marker :: after) next = .ok walk' := by
  rw [walkFrom] at h
  obtain ⟨⟨marker, found⟩, hMarker, hTurn⟩ := bind_eq_ok.mp h
  clear h
  obtain ⟨n, after, rfl, rfl, hFill⟩ := markerAt_ok hMarker
  dsimp only at hTurn
  split at hTurn
  next hEnd =>
    subst hEnd
    split at hTurn
    next => cases hTurn
    next hScans =>
      obtain rfl := Except.ok.inj hTurn
      exact .inl ⟨n, after, rfl, Nat.pos_of_ne_zero hScans, rfl⟩
  next hEnd =>
    split at hTurn
    next => cases hTurn
    next hPlaced =>
      obtain ⟨⟨segment, more⟩, hSegment, hTurn⟩ := bind_eq_ok.mp hTurn
      obtain ⟨payload, hSized, rfl, hSplit⟩ := segmentEnd_ok hSegment
      dsimp only at hTurn
      rw [Segment.drop_bytes] at hTurn
      split at hTurn
      next hScan =>
        obtain ⟨⟨next, keep⟩, hKeep, hTurn⟩ := bind_eq_ok.mp hTurn
        have hKept := kept_of_keepSegment hKeep
        have hEnds : EndsScan marker := by
          rw [not_or, not_or, Bool.not_eq_true] at hPlaced
          exact ⟨hKept.marker_ne_zero, hPlaced.2.1, hFill⟩
        obtain ⟨-, hScans, hFramed⟩ := hKept.same
        have hSome : walk.frame.isSome → next.frame.isSome := fun h => by
          obtain ⟨frame, hFrame⟩ := Option.isSome_iff_exists.mp h
          rw [hFramed frame hFrame]
          rfl
        refine .inr (.inl ⟨n, ⟨marker, payload⟩, more, _, by rw [hSplit],
          ⟨hSized, hEnd, hScan, hPlaced, hEnds⟩, ?_, ?_, hTurn⟩)
        · cases keep <;> exact hScans
        · cases keep <;> exact hSome
      next hScan =>
        obtain rfl := not_not.mp hScan
        split at hTurn
        next => cases hTurn
        next frame hFrame =>
          split at hTurn
          next => cases hTurn
          next hScans =>
            obtain ⟨_, hHeader, hTurn⟩ := bind_eq_ok.mp hTurn
            obtain ⟨⟨data, last⟩, hData, hLast⟩ := bind_eq_ok.mp hTurn
            clear hTurn
            obtain ⟨rfl, hCoded, marker, after', rfl, hEnds⟩ := endOfScan_ok hData
            refine .inr (.inr ⟨n, payload, data, marker, after', _, by omega, by rw [hSplit], hSized,
              hCoded, hEnds, Nat.succ_pos _, ?_, hLast⟩)
            exact Option.isSome_iff_exists.mpr ⟨frame, hFrame⟩

/-- Once the scan is kept the frame is known. -/
theorem walkFrom_framed {fuel : ℕ} {rest : Buffer} {walk walk' : Walk}
    (hFramed : 0 < walk.scans → walk.frame.isSome) (h : walkFrom fuel rest walk = .ok walk') :
    walk'.frame.isSome := by
  induction fuel generalizing rest walk with
  | zero => cases h
  | succ fuel ih =>
    rcases walkFrom_ok h with ⟨-, -, -, hScans, hSame⟩ |
      ⟨-, -, more, next, -, -, hSame, hSome, hNext⟩ |
      ⟨-, -, -, marker, after, next, -, -, -, -, -, -, hSome, hNext⟩
    · exact hSame ▸ hFramed hScans
    · exact ih (fun hScans => hSome (hFramed (hSame ▸ hScans))) hNext
    · exact ih (fun _ => hSome) hNext

theorem exists_tail_of_walkFrom {fuel : ℕ} {rest : Buffer} {walk walk' : Walk}
    (hScans : 0 < walk.scans) (h : walkFrom fuel rest walk = .ok walk') :
    ∃ after endFill trailing, rest = laidOut after ++ (fill endFill ++ 0xff :: EOI :: trailing) ∧
      ∀ x ∈ after, x.2.Plain := by
  induction fuel generalizing rest walk with
  | zero => cases h
  | succ fuel ih =>
    rcases walkFrom_ok h with ⟨n, trailing, rfl, -⟩ |
      ⟨n, s, more, next, rfl, hPlain, hSame, -, hNext⟩ |
      ⟨n, header, data, marker, after, next, hNone, -⟩
    · exact ⟨[], n, trailing, rfl, List.forall_mem_nil _⟩
    · obtain ⟨after, endFill, trailing, rfl, hAfter⟩ := ih (hSame ▸ hScans) hNext
      refine ⟨(n, s) :: after, endFill, trailing, ?_, List.forall_mem_cons.mpr ⟨hPlain, hAfter⟩⟩
      rw [laidOut_cons]
    · omega

theorem fill_tight {n : ℕ} {more : Buffer} {marker : UInt8} {after : Buffer}
    (h : fill n ++ 0xff :: more = 0xff :: marker :: after) (hMarker : marker ≠ 0xff) : n = 0 := by
  cases n with
  | zero => rfl
  | succ n =>
    obtain ⟨-, hTail⟩ := List.cons.inj (h : 0xff :: (fill n ++ 0xff :: more) = _)
    cases n with
    | zero => exact absurd (List.cons.inj hTail).1.symm hMarker
    | succ n => exact absurd (List.cons.inj hTail).1.symm hMarker

theorem exists_photo_of_walkFrom {fuel : ℕ} {rest : Buffer} {walk walk' : Walk}
    (hScans : walk.scans = 0) (h : walkFrom fuel rest walk = .ok walk') :
    ∃ p : Photo, p.Valid ∧ 0xff :: SOI :: rest = p.bytes := by
  induction fuel generalizing rest walk with
  | zero => cases h
  | succ fuel ih =>
    rcases walkFrom_ok h with ⟨n, trailing, -, hSome, -⟩ |
      ⟨n, s, more, next, rfl, hPlain, hSame, -, hNext⟩ |
      ⟨n, header, data, marker, found, next, -, rfl, hSized, hCoded, hEnds, hNext, -, hRest⟩
    · omega
    · obtain ⟨p, hValid, hBytes⟩ := ih (hSame.trans hScans) hNext
      refine ⟨{ p with before := (n, s) :: p.before }, ⟨?_, hValid.sized, hValid.coded,
        hValid.tight⟩, ?_⟩
      · exact List.forall_mem_cons.mpr ⟨hPlain, hValid.plain⟩
      · obtain ⟨-, hBytes⟩ := List.cons.inj hBytes
        obtain ⟨-, rfl⟩ := List.cons.inj hBytes
        rw [Photo.bytes]
        dsimp only
        rw [laidOut_cons]
        rfl
    · obtain ⟨after, endFill, trailing, hFound, hAfter⟩ := exists_tail_of_walkFrom hNext hRest
      refine ⟨⟨[], n, header, data, after, endFill, trailing⟩, ⟨hAfter, hSized, hCoded, ?_⟩, ?_⟩
      · cases after with
        | nil => exact congrArg some (fill_tight hFound.symm hEnds.2.2)
        | cons x after =>
          rw [laidOut_cons] at hFound
          exact congrArg some (fill_tight hFound.symm hEnds.2.2)
      · rw [hFound, Photo.bytes, Photo.scan, List.append_assoc]
        rfl

theorem exists_photo {bytes : Buffer} {out : StrippedJpeg} (h : stripJpeg bytes = .ok out) :
    ∃ p : Photo, p.Valid ∧ bytes = p.bytes := by
  rw [stripJpeg] at h
  obtain ⟨_, hKind, h⟩ := bind_eq_ok.mp h
  obtain ⟨walk, hWalk, -⟩ := bind_eq_ok.mp h
  obtain ⟨p, hValid, hBytes⟩ := exists_photo_of_walkFrom rfl hWalk
  refine ⟨p, hValid, ?_⟩
  have hStart : bytes.take 2 = [0xff, SOI] := by
    rw [refuseOtherFormats] at hKind
    split at hKind
    next => cases hKind
    next hJpeg =>
      rw [sniffPhoto] at hJpeg
      split at hJpeg
      next hSigned =>
        have hTwo : bytes.take 2 = (bytes.take 3).take 2 := by rw [List.take_take]; rfl
        rw [hTwo, hSigned.2]
        rfl
      next =>
        split at hJpeg
        · split at hJpeg <;> cases hJpeg
        · split at hJpeg
          · split at hJpeg <;> cases hJpeg
          · cases hJpeg
    next => cases hKind
  rw [← hBytes, ← List.take_append_drop 2 bytes, hStart]
  rfl

/-! ## The answer -/

namespace Photo

def drawnBefore (p : Photo) : List Segment := p.segmentsBefore.filter Segment.draws

def drawnAfter (p : Photo) : List Segment := p.segmentsAfter.filter Segment.draws

/-- What the first block that reads as Exif says; upright where there is none. -/
def orientation (p : Photo) : ℕ :=
  ((p.segmentsBefore ++ p.segmentsAfter).findSome? Segment.orientation).getD 1

/-- The fresh block of a photo that is not upright. -/
def fresh (orientation : ℕ) : Buffer :=
  if orientation = 1 then [] else orientationApp1 orientation

/-- The picture, byte for byte. -/
def picture (p : Photo) : Buffer :=
  p.drawnBefore.flatMap Segment.bytes ++ p.scan ++ p.drawnAfter.flatMap Segment.bytes

def strippedBytes (p : Photo) : Buffer :=
  [0xff, SOI] ++ fresh p.orientation ++ p.picture ++ [0xff, EOI]

/-- What an accepted photo was found to be. -/
structure Read (p : Photo) (frame : Frame) : Prop where
  before : ∀ other : Walk, other.frame = none → keepAll other p.drawnBefore =
    .ok ⟨other.kept ++ p.drawnBefore.map Segment.bytes, some frame, other.orientation, other.scans⟩
  header : checkScanHeader p.header frame = .ok ()
  after : ∀ other : Walk, other.frame = some frame → keepAll other p.drawnAfter =
    .ok ⟨other.kept ++ p.drawnAfter.map Segment.bytes, some frame, other.orientation, other.scans⟩
  sorted : ∀ s ∈ p.segmentsBefore ++ p.segmentsAfter, s.draws = !s.hides

end Photo

theorem flatten_head (orientation : ℕ) :
    (if orientation = 1 then [] else [orientationApp1 orientation]).flatten =
      Photo.fresh orientation := by
  rw [Photo.fresh]
  split
  · rfl
  · exact List.append_nil _

theorem assemble_eq {walk : Walk} {frame : Frame} (hFrame : walk.frame = some frame) {p : Photo}
    (hOrientation : walk.orientation.getD 1 = p.orientation)
    (hKept : walk.kept = p.drawnBefore.map Segment.bytes ++ [p.scan] ++
      p.drawnAfter.map Segment.bytes ++ [[0xff, EOI]]) :
    assemble [0xff, SOI] walk =
      .ok ⟨p.strippedBytes, frame.width, frame.height, p.orientation⟩ := by
  rw [assemble, hFrame, hOrientation, hKept]
  refine congrArg (fun bytes => Except.ok (StrippedJpeg.mk bytes _ _ _)) ?_
  simp only [List.flatten_append, flatten_head, Photo.strippedBytes, Photo.picture,
    List.flatMap_def, List.flatten_singleton, List.append_assoc]

theorem read_of_stripJpeg {p : Photo} (hValid : p.Valid) {out : StrippedJpeg}
    (h : stripJpeg p.bytes = .ok out) :
    ∃ frame, p.Read frame ∧ out = ⟨p.strippedBytes, frame.width, frame.height, p.orientation⟩ := by
  rw [stripJpeg_bytes hValid] at h
  obtain ⟨last, hWalked, hOut⟩ := bind_eq_ok.mp h
  rw [Photo.walked] at hWalked
  obtain ⟨walk, hBefore, hWalked⟩ := bind_eq_ok.mp hWalked
  split at hWalked
  next => cases hWalked
  next frame hFrame =>
    obtain ⟨_, hHeader, hWalked⟩ := bind_eq_ok.mp hWalked
    obtain ⟨walk', hAfter, hLast⟩ := bind_eq_ok.mp hWalked
    obtain rfl := Except.ok.inj hLast
    have hAdds := keepAll_adds hBefore
    have hAdds' := keepAll_adds hAfter
    have hFrame' : walk'.frame = some frame := hAdds'.framed frame hFrame
    refine ⟨frame, ⟨fun other hNone => ?_, hHeader, fun other hSome => ?_, ?_⟩, ?_⟩
    · rw [← hFrame]
      exact hAdds.again other hNone
    · rw [← hFrame']
      exact hAdds'.again other (hSome.trans hFrame.symm)
    · exact List.forall_mem_append.mpr ⟨hAdds.sorted, hAdds'.sorted⟩
    · have hOrientation : (walk'.push [0xff, EOI]).orientation.getD 1 = p.orientation := by
        have hFound := hAdds'.orientation
        rw [show (Walk.orientation { walk.push p.scan with scans := walk.scans + 1 }) =
          walk.orientation from rfl, hAdds.orientation, Option.none_or] at hFound
        rw [Photo.orientation, List.findSome?_append, ← hFound]
        rfl
      have hKept : (walk'.push [0xff, EOI]).kept = p.drawnBefore.map Segment.bytes ++ [p.scan] ++
          p.drawnAfter.map Segment.bytes ++ [[0xff, EOI]] := by
        have hFound := hAdds'.kept
        rw [show (Walk.kept { walk.push p.scan with scans := walk.scans + 1 }) =
          walk.kept ++ [p.scan] from rfl, hAdds.kept, List.nil_append] at hFound
        rw [Walk.push, hFound]
        rfl
      rw [assemble_eq (show (walk'.push [0xff, EOI]).frame = some frame from hFrame') hOrientation
        hKept] at hOut
      exact (Except.ok.inj hOut).symm

/-! ## A stripped photo strips to itself -/

namespace Photo

def exifSegment (orientation : ℕ) : Segment :=
  ⟨APP1, (orientationApp1 orientation).drop 4⟩

/-- The layout of the answer. -/
def stripped (p : Photo) : Photo where
  before := ((if p.orientation = 1 then [] else [exifSegment p.orientation]) ++ p.drawnBefore).map
    fun s => (0, s)
  scanFill := 0
  header := p.header
  data := p.data
  after := p.drawnAfter.map fun s => (0, s)
  endFill := 0
  trailing := []

theorem bytes_exifSegment (orientation : ℕ) :
    (exifSegment orientation).bytes = orientationApp1 orientation := rfl

theorem readOrientation_exifSegment {orientation : ℕ} (hLow : 1 ≤ orientation)
    (hHigh : orientation ≤ 8) :
    readOrientation ((exifSegment orientation).payload.drop 6) = .ok orientation := by
  interval_cases orientation <;> rfl

/-- The fresh block is read and not kept. -/
theorem keepAll_fresh {orientation : ℕ} (hLow : 1 ≤ orientation) (hHigh : orientation ≤ 8) :
    ∃ found, found.getD 1 = orientation ∧
      keepAll ⟨[], none, none, 0⟩ (if orientation = 1 then [] else [exifSegment orientation]) =
        .ok ⟨[], none, found, 0⟩ := by
  split
  next hUpright => exact ⟨none, hUpright.symm, rfl⟩
  next =>
    have hExif : isExif (exifSegment orientation).payload := rfl
    have hKept : Kept ⟨[], none, none, 0⟩ (exifSegment orientation).marker
        (exifSegment orientation).payload ⟨[], none, some orientation, 0⟩ false :=
      .exif rfl rfl hExif (readOrientation_exifSegment hLow hHigh)
    refine ⟨some orientation, rfl, ?_⟩
    rw [keepAll, List.foldlM_cons, keepOne_of_kept hKept]
    rfl

theorem orientation_range (p : Photo) : 1 ≤ p.orientation ∧ p.orientation ≤ 8 := by
  rw [orientation]
  cases hFound : (p.segmentsBefore ++ p.segmentsAfter).findSome? Segment.orientation with
  | none => exact ⟨by decide, by decide⟩
  | some o =>
    obtain ⟨s, -, hRead⟩ := List.exists_of_findSome?_eq_some hFound
    rw [Segment.orientation] at hRead
    split at hRead
    next hExif =>
      obtain ⟨value, hValue, hRange⟩ := readOrientation_of_isExif hExif.2
      rw [hValue] at hRead
      obtain rfl := Option.some.inj hRead
      exact hRange
    next => cases hRead

theorem laidOut_map (segments : List Segment) :
    laidOut (segments.map fun s => (0, s)) = segments.flatMap Segment.bytes := by
  rw [laidOut, List.flatMap_map]
  rfl

theorem bytes_stripped (p : Photo) : p.stripped.bytes = p.strippedBytes := by
  have hFresh : (if p.orientation = 1 then [] else [exifSegment p.orientation]).flatMap
      Segment.bytes = fresh p.orientation := by
    rw [fresh]
    split
    · rfl
    · rw [List.flatMap_singleton, bytes_exifSegment]
  have hBefore : laidOut p.stripped.before =
      fresh p.orientation ++ p.drawnBefore.flatMap Segment.bytes := by
    rw [stripped, laidOut_map, List.flatMap_append, hFresh]
  have hTail : p.stripped.tail = p.drawnAfter.flatMap Segment.bytes ++ [0xff, EOI] := by
    rw [tail, stripped, laidOut_map]
    rfl
  have hScan : p.stripped.scan = p.scan := rfl
  rw [bytes, hBefore, hTail, hScan, strippedBytes, picture, show p.stripped.scanFill = 0 from rfl]
  simp only [fill, List.replicate_zero, List.nil_append, List.append_assoc, List.cons_append]

/-- The segments of the answer are the fresh block and those that draw. -/
theorem segmentsBefore_stripped (p : Photo) :
    p.stripped.segmentsBefore =
      (if p.orientation = 1 then [] else [exifSegment p.orientation]) ++ p.drawnBefore := by
  rw [segmentsBefore, stripped, List.map_map]
  exact List.map_id _

theorem segmentsAfter_stripped (p : Photo) : p.stripped.segmentsAfter = p.drawnAfter := by
  rw [segmentsAfter, stripped, List.map_map]
  exact List.map_id _

theorem Valid.plain_segments {p : Photo} (h : p.Valid) :
    ∀ s ∈ p.segmentsBefore ++ p.segmentsAfter, s.Plain := by
  rw [segmentsBefore, segmentsAfter, ← List.map_append]
  intro s hs
  obtain ⟨x, hx, rfl⟩ := List.mem_map.mp hs
  exact h.plain x hx

theorem plain_exifSegment (orientation : ℕ) : (exifSegment orientation).Plain where
  sized := by
    have hLength : (exifSegment orientation).payload.length = 32 := rfl
    rw [Segment.Sized, hLength]
    decide
  notEnd := show APP1 ≠ EOI by decide
  notScan := show APP1 ≠ SOS by decide
  placed := show ¬(APP1 = SOI ∨ isRestart APP1 ∨ APP1 = 0x01) by decide
  ends := ⟨show APP1 ≠ 0x00 by decide, show isRestart APP1 = false by decide,
    show APP1 ≠ 0xff by decide⟩

theorem Valid.stripped {p : Photo} (h : p.Valid) : p.stripped.Valid where
  plain := by
    have hDrawn : ∀ s ∈ p.drawnBefore ++ p.drawnAfter, s.Plain := by
      intro s hs
      refine h.plain_segments s ?_
      rcases List.mem_append.mp hs with hs | hs
      · exact List.mem_append_left _ ((List.mem_filter.mp hs).1)
      · exact List.mem_append_right _ ((List.mem_filter.mp hs).1)
    intro x hx
    have hSegment : x.2 ∈ p.stripped.segmentsBefore ++ p.stripped.segmentsAfter := by
      rw [segmentsBefore, segmentsAfter, ← List.map_append]
      exact List.mem_map_of_mem hx
    rw [segmentsBefore_stripped, segmentsAfter_stripped, List.append_assoc,
      List.mem_append] at hSegment
    rcases hSegment with hFresh | hSegment
    · split at hFresh
      · cases hFresh
      · rw [List.mem_singleton.mp hFresh]
        exact plain_exifSegment _
    · exact hDrawn _ hSegment
  sized := h.sized
  coded := h.coded
  tight := by
    rw [Photo.stripped]
    dsimp only
    cases p.drawnAfter with
    | nil => rfl
    | cons s segments => rfl

end Photo

theorem stripJpeg_strippedBytes {p : Photo} (hValid : p.Valid) {frame : Frame} (h : p.Read frame) :
    stripJpeg p.strippedBytes =
      .ok ⟨p.strippedBytes, frame.width, frame.height, p.orientation⟩ := by
  obtain ⟨found, hFound, hFresh⟩ :=
    Photo.keepAll_fresh p.orientation_range.1 p.orientation_range.2
  have hBefore : keepAll ⟨[], none, none, 0⟩ p.stripped.segmentsBefore =
      .ok ⟨p.drawnBefore.map Segment.bytes, some frame, found, 0⟩ := by
    rw [p.segmentsBefore_stripped, keepAll, List.foldlM_append, ← keepAll, hFresh]
    exact h.before _ rfl
  have hWalked : p.stripped.walked =
      .ok (Walk.push ⟨p.drawnBefore.map Segment.bytes ++ [p.scan] ++
        p.drawnAfter.map Segment.bytes, some frame, found, 1⟩ [0xff, EOI]) := by
    rw [Photo.walked, hBefore, p.segmentsAfter_stripped]
    dsimp only [bind, Except.bind]
    rw [show p.stripped.header = p.header from rfl, h.header]
    dsimp only
    rw [h.after _ rfl]
    rfl
  rw [← p.bytes_stripped, stripJpeg_bytes hValid.stripped, hWalked, p.bytes_stripped]
  dsimp only [bind, Except.bind]
  refine assemble_eq ?_ ?_ ?_
  · rfl
  · exact hFound
  · rfl

/-! ## The law of the strip -/

namespace Photo

/-- What is left of a photo without the blocks that hide something, the fill and what trails. -/
def shown (p : Photo) : List Segment × Buffer × Buffer × List Segment :=
  (p.segmentsBefore.filter fun s => !s.hides, p.header, p.data,
    p.segmentsAfter.filter fun s => !s.hides)

end Photo

theorem shown_of_read {p : Photo} {frame : Frame} (h : p.Read frame) :
    p.shown = (p.drawnBefore, p.header, p.data, p.drawnAfter) := by
  obtain ⟨hBefore, hAfter⟩ := List.forall_mem_append.mp h.sorted
  rw [Photo.shown, Photo.drawnBefore, Photo.drawnAfter, ← List.filter_congr hBefore,
    ← List.filter_congr hAfter]

theorem stripJpeg_refuses (bytes : Buffer) :
    (∃ out, stripJpeg bytes = .ok out) ∨
      ∃ code message, stripJpeg bytes = .error (.refusal code message) := by
  have hRefusing : Refusing (stripJpeg bytes) := by
    refine (refuseOtherFormats_refusing bytes).bind fun _ _ => ?_
    refine (walkFrom_refusing ?_).bind fun walk hWalk => ?_
    · rw [List.length_drop]
      omega
    · obtain ⟨frame, hFrame⟩ := Option.isSome_iff_exists.mp
        (walkFrom_framed (fun h => absurd h (Nat.lt_irrefl 0)) hWalk)
      rw [assemble, hFrame]
      exact .ok _
  cases hStrip : stripJpeg bytes with
  | ok out => exact .inl ⟨out, rfl⟩
  | error e =>
    obtain ⟨code, message, rfl⟩ := hRefusing e hStrip
    exact .inr ⟨code, message, rfl⟩

theorem stripJpeg_law :
    (∀ bytes, (∃ out, stripJpeg bytes = .ok out) ∨
      ∃ code message, stripJpeg bytes = .error (.refusal code message)) ∧
    (∀ bytes out, stripJpeg bytes = .ok out → ∃ p : Photo, p.Valid ∧ bytes = p.bytes ∧
      out.bytes = [0xff, SOI] ++ Photo.fresh out.orientation ++ p.picture ++ [0xff, EOI] ∧
      out.orientation = p.orientation ∧ stripJpeg out.bytes = .ok out) ∧
    ∀ p q : Photo, p.Valid → q.Valid → ∀ out out', stripJpeg p.bytes = .ok out →
      stripJpeg q.bytes = .ok out' → p.shown = q.shown → p.orientation = q.orientation →
        out = out' := by
  refine ⟨stripJpeg_refuses, fun bytes out h => ?_, fun p q hp hq out out' h h' hShown hSame => ?_⟩
  · obtain ⟨p, hValid, rfl⟩ := exists_photo h
    obtain ⟨frame, hRead, rfl⟩ := read_of_stripJpeg hValid h
    exact ⟨p, hValid, rfl, rfl, rfl, stripJpeg_strippedBytes hValid hRead⟩
  · obtain ⟨frame, hRead, rfl⟩ := read_of_stripJpeg hp h
    obtain ⟨frame', hRead', rfl⟩ := read_of_stripJpeg hq h'
    rw [shown_of_read hRead, shown_of_read hRead'] at hShown
    obtain ⟨hBefore, hShown⟩ := Prod.mk.inj hShown
    obtain ⟨hHeader, hShown⟩ := Prod.mk.inj hShown
    obtain ⟨hData, hAfter⟩ := Prod.mk.inj hShown
    have hFrame : frame = frame' := by
      have hFound := hRead.before ⟨[], none, none, 0⟩ rfl
      rw [hBefore, hRead'.before ⟨[], none, none, 0⟩ rfl] at hFound
      exact (Option.some.inj (Walk.mk.inj (Except.ok.inj hFound)).2.1).symm
    have hBytes : p.strippedBytes = q.strippedBytes := by
      rw [Photo.strippedBytes, Photo.strippedBytes, Photo.picture, Photo.picture, Photo.scan,
        Photo.scan, Photo.scanSegment, Photo.scanSegment, hBefore, hHeader, hData, hAfter, hSame]
    rw [hFrame, hBytes, hSame]

end MyClash.Photos
