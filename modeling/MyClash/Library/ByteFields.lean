import Mathlib.Algebra.Order.Ring.Nat
import Mathlib.Data.Nat.Notation

/-!
# Fixed fields of a byte buffer

Little-endian numbers at fixed places of a buffer. A write refuses a value too wide for its field
and a place past the end; fields that do not overlap are read back as they were written.
-/

namespace ByteFields

/-! ## Little-endian numbers -/

@[grind =] def leBytes : ℕ → ℕ → List UInt8
  | 0, _ => []
  | width + 1, value => UInt8.ofNat (value % 256) :: leBytes width (value / 256)

@[grind =] def leValue : List UInt8 → ℕ
  | [] => 0
  | b :: bs => b.toNat + 256 * leValue bs

@[simp] theorem length_leBytes (width value : ℕ) : (leBytes width value).length = width := by
  induction width generalizing value with
  | zero => rfl
  | succ width ih => rw [leBytes, List.length_cons, ih]

theorem leValue_leBytes {width value : ℕ} (h : value < 256 ^ width) :
    leValue (leBytes width value) = value := by
  induction width generalizing value with
  | zero =>
    rw [Nat.pow_zero] at h
    rw [leBytes, leValue]
    omega
  | succ width ih =>
    have hDiv : value / 256 < 256 ^ width := by
      rw [Nat.pow_succ] at h
      exact Nat.div_lt_of_lt_mul (by rwa [Nat.mul_comm] at h)
    have hByte : (UInt8.ofNat (value % 256)).toNat = value % 256 :=
      UInt8.toNat_ofNat_of_lt' (Nat.mod_lt value (by decide))
    rw [leBytes, leValue, ih hDiv, hByte]
    omega

theorem leBytes_leValue (bytes : List UInt8) : leBytes bytes.length (leValue bytes) = bytes := by
  induction bytes with
  | nil => rfl
  | cons b bs ih =>
    have hByte := b.toNat_lt
    have hMod : (b.toNat + 256 * leValue bs) % 256 = b.toNat := by omega
    have hDiv : (b.toNat + 256 * leValue bs) / 256 = leValue bs := by omega
    rw [List.length_cons, leValue, leBytes, hMod, hDiv, ih, UInt8.ofNat_toNat]

theorem leValue_lt (bytes : List UInt8) : leValue bytes < 256 ^ bytes.length := by
  induction bytes with
  | nil => exact Nat.one_pos
  | cons b bs ih =>
    have hByte := b.toNat_lt
    rw [leValue, List.length_cons, Nat.pow_succ]
    omega

theorem leValue_replicate_zero (n : ℕ) : leValue (List.replicate n 0) = 0 := by
  induction n with
  | zero => rfl
  | succ n ih => rw [List.replicate_succ, leValue, ih]; rfl

/-! ## Reads and writes -/

def readLE (width : ℕ) (buffer : List UInt8) (pos : ℕ) : Option ℕ :=
  if pos + width ≤ buffer.length then some (leValue ((buffer.drop pos).take width)) else none

structure Field where
  width : ℕ
  pos : ℕ
  value : ℕ

/-- Two fields that share no byte. -/
def Field.Apart (f g : Field) : Prop := f.pos + f.width ≤ g.pos ∨ g.pos + g.width ≤ f.pos

instance (f g : Field) : Decidable (f.Apart g) := inferInstanceAs (Decidable (_ ∨ _))

def Field.Fits (f : Field) (length : ℕ) : Prop := f.value < 256 ^ f.width ∧ f.pos + f.width ≤ length

instance (f : Field) (length : ℕ) : Decidable (f.Fits length) := inferInstanceAs (Decidable (_ ∧ _))

def Field.put (f : Field) (buffer : List UInt8) : List UInt8 :=
  buffer.take f.pos ++ leBytes f.width f.value ++ buffer.drop (f.pos + f.width)

def writeField (buffer : List UInt8) (f : Field) : Option (List UInt8) :=
  if f.Fits buffer.length then some (f.put buffer) else none

def writeFields (fields : List Field) (buffer : List UInt8) : Option (List UInt8) :=
  fields.foldlM writeField buffer

variable {buffer buffer' : List UInt8} {f g : Field} {fields : List Field}

theorem readLE_isSome {width pos : ℕ} (h : pos + width ≤ buffer.length) :
    readLE width buffer pos = some (leValue ((buffer.drop pos).take width)) := if_pos h

theorem readLE_append_left {width pos : ℕ} (h : pos + width ≤ buffer.length)
    (rest : List UInt8) : readLE width (buffer ++ rest) pos = readLE width buffer pos := by
  have hLong : pos + width ≤ (buffer ++ rest).length := by
    rw [List.length_append]
    omega
  rw [readLE_isSome hLong, readLE_isSome h, List.drop_append_of_le_length (by omega),
    List.take_append_of_le_length (by rw [List.length_drop]; omega)]

theorem le_of_readLE {width pos value : ℕ} (h : readLE width buffer pos = some value) :
    pos + width ≤ buffer.length := by
  rw [readLE] at h
  split at h
  · assumption
  · cases h

/-- A number read is read in every longer buffer. -/
theorem readLE_append_of_some {width pos value : ℕ} (h : readLE width buffer pos = some value)
    (rest : List UInt8) : readLE width (buffer ++ rest) pos = some value := by
  rw [readLE_append_left (le_of_readLE h), h]

theorem readLE_append_right (width pos : ℕ) (before rest : List UInt8) :
    readLE width (before ++ rest) (before.length + pos) = readLE width rest pos := by
  have hDrop : (before ++ rest).drop (before.length + pos) = rest.drop pos := by
    rw [List.drop_append, List.drop_of_length_le (Nat.le_add_right _ _), Nat.add_sub_cancel_left,
      List.nil_append]
  rw [readLE, readLE, hDrop]
  refine if_congr ?_ rfl rfl
  rw [List.length_append]
  omega

theorem length_put (h : f.pos + f.width ≤ buffer.length) :
    (f.put buffer).length = buffer.length := by
  rw [Field.put, List.length_append, List.length_append, List.length_take, List.length_drop,
    length_leBytes]
  omega

theorem getElem?_put (h : f.pos + f.width ≤ buffer.length) {i : ℕ}
    (hApart : i < f.pos ∨ f.pos + f.width ≤ i) : (f.put buffer)[i]? = buffer[i]? := by
  have hTake : (buffer.take f.pos).length = f.pos := List.length_take_of_le (by omega)
  have hStart : (buffer.take f.pos ++ leBytes f.width f.value).length = f.pos + f.width := by
    rw [List.length_append, hTake, length_leBytes]
  rw [Field.put]
  rcases hApart with hBefore | hAfter
  · rw [List.append_assoc, List.getElem?_append_left (by omega), List.getElem?_take,
      if_pos hBefore]
  · rw [List.getElem?_append_right (by omega), hStart, List.getElem?_drop]
    congr 1
    omega

theorem readLE_put_self (h : f.Fits buffer.length) :
    readLE f.width (f.put buffer) f.pos = some f.value := by
  obtain ⟨hValue, hPos⟩ := h
  have hTake : (buffer.take f.pos).length = f.pos := List.length_take_of_le (by omega)
  rw [readLE_isSome (by rw [length_put hPos]; exact hPos), Field.put, List.append_assoc,
    List.drop_append, List.drop_of_length_le (by omega), hTake, Nat.sub_self, List.drop_zero,
    List.nil_append, List.take_append_of_le_length (by rw [length_leBytes]),
    List.take_of_length_le (by rw [length_leBytes]), leValue_leBytes hValue]

theorem readLE_put_of_apart (h : f.pos + f.width ≤ buffer.length) {width pos : ℕ}
    (hApart : pos + width ≤ f.pos ∨ f.pos + f.width ≤ pos) :
    readLE width (f.put buffer) pos = readLE width buffer pos := by
  have hBytes : ((f.put buffer).drop pos).take width = (buffer.drop pos).take width := by
    refine List.ext_getElem? fun i => ?_
    rw [List.getElem?_take, List.getElem?_take]
    split
    · rw [List.getElem?_drop, List.getElem?_drop]
      exact getElem?_put h (by omega)
    · rfl
  rw [readLE, readLE, length_put h, hBytes]

/-! ## Many fields -/

theorem writeFields_cons (h : writeFields (f :: fields) buffer = some buffer') :
    f.Fits buffer.length ∧ writeFields fields (f.put buffer) = some buffer' := by
  obtain ⟨next, hNext, hRest⟩ := Option.bind_eq_some_iff.mp h
  rw [writeField] at hNext
  split at hNext
  · rename_i hFits
    rw [← Option.some.inj hNext] at hRest
    exact ⟨hFits, hRest⟩
  · cases hNext

theorem length_writeFields (h : writeFields fields buffer = some buffer') :
    buffer'.length = buffer.length := by
  induction fields generalizing buffer with
  | nil => rw [← Option.some.inj h]
  | cons f fields ih =>
    obtain ⟨hFits, hRest⟩ := writeFields_cons h
    rw [ih hRest, length_put hFits.2]

/-- What no field touches is as it was. -/
theorem readLE_writeFields_of_apart {width pos : ℕ}
    (hApart : ∀ f ∈ fields, pos + width ≤ f.pos ∨ f.pos + f.width ≤ pos)
    (h : writeFields fields buffer = some buffer') :
    readLE width buffer' pos = readLE width buffer pos := by
  induction fields generalizing buffer with
  | nil => rw [← Option.some.inj h]
  | cons f fields ih =>
    obtain ⟨hFits, hRest⟩ := writeFields_cons h
    rw [ih (fun g hg => hApart g (List.mem_cons_of_mem f hg)) hRest,
      readLE_put_of_apart hFits.2 (hApart f List.mem_cons_self)]

/-- Fields apart from one another are read back as they were written. -/
theorem readLE_writeFields (hApart : fields.Pairwise Field.Apart)
    (h : writeFields fields buffer = some buffer') (hf : f ∈ fields) :
    readLE f.width buffer' f.pos = some f.value := by
  induction fields generalizing buffer with
  | nil => cases hf
  | cons g fields ih =>
    obtain ⟨hHead, hTail⟩ := List.pairwise_cons.mp hApart
    obtain ⟨hFits, hRest⟩ := writeFields_cons h
    rcases List.mem_cons.mp hf with rfl | hf
    · rw [readLE_writeFields_of_apart hHead hRest, readLE_put_self hFits]
    · exact ih hTail hRest hf

theorem writeFields_isSome (h : ∀ f ∈ fields, f.Fits buffer.length) :
    (writeFields fields buffer).isSome := by
  induction fields generalizing buffer with
  | nil => rfl
  | cons f fields ih =>
    have hFits := h f List.mem_cons_self
    have hWrite : writeField buffer f = some (f.put buffer) := if_pos hFits
    rw [writeFields, List.foldlM_cons, hWrite]
    refine ih fun g hg => ?_
    rw [length_put hFits.2]
    exact h g (List.mem_cons_of_mem f hg)

theorem fits_of_writeFields (h : writeFields fields buffer = some buffer') :
    ∀ f ∈ fields, f.Fits buffer.length := by
  induction fields generalizing buffer with
  | nil => exact fun f hf => absurd hf List.not_mem_nil
  | cons g fields ih =>
    obtain ⟨hFits, hRest⟩ := writeFields_cons h
    intro f hf
    rcases List.mem_cons.mp hf with rfl | hf
    · exact hFits
    · rw [← length_put hFits.2]
      exact ih hRest f hf

/-- A buffer of zeros, `Buffer.alloc`. -/
def alloc (n : ℕ) : List UInt8 := List.replicate n 0

@[simp] theorem length_alloc (n : ℕ) : (alloc n).length = n := List.length_replicate

theorem readLE_alloc {n width pos : ℕ} (h : pos + width ≤ n) :
    readLE width (alloc n) pos = some 0 := by
  rw [readLE_isSome (by rwa [length_alloc]), alloc, List.drop_replicate, List.take_replicate,
    leValue_replicate_zero]

end ByteFields
