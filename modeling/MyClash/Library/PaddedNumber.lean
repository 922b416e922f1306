import Mathlib.Algebra.Group.Nat.Defs
import Mathlib.Data.List.Basic
import Mathlib.Order.Lattice

/-!
# Numbers written in a fixed width

Decimal numbers filled up with zeros in front to one width sort as texts as they do as numbers.
-/

namespace PaddedNumber

def padStart (width : ℕ) (fill : Char) (text : List Char) : List Char :=
  List.replicate (width - text.length) fill ++ text

def padded (width n : ℕ) : List Char := padStart width '0' (Nat.toDigits 10 n)

theorem length_padded {width n : ℕ} (hWidth : 0 < width) (h : n < 10 ^ width) :
    (padded width n).length = width := by
  have hDigits := (Nat.length_toDigits_le_iff (by decide) hWidth).mpr h
  rw [padded, padStart, List.length_append, List.length_replicate]
  omega

theorem padded_one {n : ℕ} (h : n < 10) : padded 1 n = [n.digitChar] := by
  rw [padded, Nat.toDigits_of_lt_base h]
  rfl

/-- The last digit of a number that is filled up. -/
theorem padded_succ {width : ℕ} (hWidth : 0 < width) (n : ℕ) :
    padded (width + 1) n = padded width (n / 10) ++ [(n % 10).digitChar] := by
  rw [padded, padded, padStart, padStart]
  by_cases hSmall : n < 10
  · obtain ⟨width, rfl⟩ := Nat.exists_eq_succ_of_ne_zero hWidth.ne'
    rw [Nat.toDigits_of_lt_base hSmall, Nat.div_eq_of_lt hSmall, Nat.mod_eq_of_lt hSmall,
      Nat.toDigits_zero, List.length_singleton, List.length_singleton, Nat.add_sub_cancel,
      Nat.succ_eq_add_one, Nat.add_sub_cancel, List.replicate_succ']
  · rw [Nat.toDigits_of_base_le (by decide) (by omega), List.length_append, List.length_singleton,
      Nat.add_sub_add_right, List.append_assoc]

theorem digitChar_lt {m n : ℕ} (h : m < n) (hn : n < 10) : m.digitChar < n.digitChar := by
  have hAll : ∀ n < 10, ∀ m < n, m.digitChar < n.digitChar := by decide
  exact hAll n hn m h

theorem append_lt_append_of_lt {s t u v : List Char} (hLength : s.length = t.length) (h : s < t) :
    s ++ u < t ++ v := by
  induction s generalizing t with
  | nil =>
    cases t with
    | nil => cases h
    | cons d t => cases hLength
  | cons c s ih =>
    cases t with
    | nil => cases hLength
    | cons d t =>
      rw [List.cons_append, List.cons_append, List.cons_lt_cons_iff]
      rcases List.cons_lt_cons_iff.mp h with hLt | ⟨rfl, hLt⟩
      · exact .inl hLt
      · exact .inr ⟨rfl, ih (Nat.succ.inj hLength) hLt⟩

theorem padded_lt_padded {width m n : ℕ} (hWidth : 0 < width) (hLt : m < n)
    (hn : n < 10 ^ width) : padded width m < padded width n := by
  induction width, hWidth using Nat.le_induction generalizing m n with
  | base =>
    have hTen : n < 10 := hn
    rw [Nat.succ_eq_add_one, Nat.zero_add, padded_one hTen, padded_one (hLt.trans hTen),
      List.cons_lt_cons_iff]
    exact .inl (digitChar_lt hLt hTen)
  | succ width hWidth ih =>
    have hPow : 10 ^ (width + 1) = 10 * 10 ^ width := by rw [Nat.pow_succ, Nat.mul_comm]
    rw [padded_succ hWidth, padded_succ hWidth]
    rcases Nat.lt_or_ge (m / 10) (n / 10) with hHead | hHead
    · have hBound : n / 10 < 10 ^ width := by omega
      refine append_lt_append_of_lt ?_ (ih hHead hBound)
      rw [length_padded hWidth hBound, length_padded hWidth (hHead.trans hBound)]
    · have hEq : m / 10 = n / 10 := by omega
      rw [hEq]
      refine List.append_left_lt (List.cons_lt_cons_iff.mpr (.inl (digitChar_lt ?_ ?_))) <;> omega

end PaddedNumber
