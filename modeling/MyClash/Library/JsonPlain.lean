import MyClash.Library.JsonText
import Mathlib.Data.String.Basic
import Mathlib.Data.Rat.Lemmas
import Mathlib.Data.List.TakeWhile

/-!
# A plain language

Keys in the order of their code points and integers in decimals: a `Language` to evaluate texts in.
-/

namespace Json

def intText : ℤ → List Char
  | .ofNat n => Nat.toDigits 10 n
  | .negSucc n => '-' :: Nat.toDigits 10 (n + 1)

/-- An integer in decimals; else numerator and denominator. -/
def ratText (q : ℚ) : List Char :=
  intText q.num ++ if q.den = 1 then [] else 'e' :: Nat.toDigits 10 q.den

theorem toDigits_injective : Function.Injective (Nat.toDigits 10) := by
  intro m n h
  have hRead := congrArg (Nat.ofDigitChars 10 · 0) h
  simpa using hRead

theorem isDigit_numeric {c : Char} (h : c.isDigit) : c ∈ numeric ∧ c ≠ 'e' ∧ c ≠ '-' := by
  have hCode : 48 ≤ c.toNat ∧ c.toNat ≤ 57 := Char.isDigit_iff_toNat.mp h
  have hChars : ∀ n < 10, Char.ofNat (48 + n) ∈ numeric ∧ Char.ofNat (48 + n) ≠ 'e' ∧
      Char.ofNat (48 + n) ≠ '-' := by
    decide
  have hSelf := hChars (c.toNat - 48) (by omega)
  rwa [show 48 + (c.toNat - 48) = c.toNat by omega, Char.ofNat_toNat] at hSelf

theorem toDigits_numeric {n : ℕ} : ∀ c ∈ Nat.toDigits 10 n, c ∈ numeric ∧ c ≠ 'e' ∧ c ≠ '-' :=
  fun _ hc => isDigit_numeric (Nat.isDigit_of_mem_toDigits (by decide) (by decide) hc)

theorem intText_numeric (z : ℤ) : ∀ c ∈ intText z, c ∈ numeric ∧ c ≠ 'e' := by
  cases z with
  | ofNat n => exact fun c hc => ⟨(toDigits_numeric c hc).1, (toDigits_numeric c hc).2.1⟩
  | negSucc n =>
    intro c hc
    rcases List.mem_cons.mp hc with rfl | hc
    · decide
    · exact ⟨(toDigits_numeric c hc).1, (toDigits_numeric c hc).2.1⟩

theorem intText_ne_nil (z : ℤ) : intText z ≠ [] := by
  cases z with
  | ofNat n => exact Nat.toDigits_ne_nil
  | negSucc n => exact List.cons_ne_nil _ _

theorem toDigits_ne_minus {n : ℕ} {rest : List Char} : Nat.toDigits 10 n ≠ '-' :: rest := by
  intro h
  exact (toDigits_numeric '-' (h ▸ List.mem_cons_self)).2.2 rfl

theorem intText_injective : Function.Injective intText := by
  intro y z h
  cases y with
  | ofNat m =>
    cases z with
    | ofNat n => exact congrArg Int.ofNat (toDigits_injective h)
    | negSucc n => exact absurd h toDigits_ne_minus
  | negSucc m =>
    cases z with
    | ofNat n => exact absurd h.symm toDigits_ne_minus
    | negSucc n =>
      have hDigits := toDigits_injective (List.cons.inj h).2
      rw [Nat.succ.inj hDigits]

theorem takeWhile_intText (z : ℤ) (rest : List Char) :
    (intText z ++ 'e' :: rest).takeWhile (· ≠ 'e') = intText z := by
  rw [List.takeWhile_append_of_pos]
  · simp
  · exact fun c hc => by simpa using (intText_numeric z c hc).2

theorem takeWhile_ratText (q : ℚ) : (ratText q).takeWhile (· ≠ 'e') = intText q.num := by
  rw [ratText]
  split
  · rw [List.append_nil, List.takeWhile_eq_self_iff]
    exact fun c hc => by simpa using (intText_numeric q.num c hc).2
  · exact takeWhile_intText q.num _

theorem ratText_injective : Function.Injective ratText := by
  intro p q h
  have hNum : p.num = q.num :=
    intText_injective (by rw [← takeWhile_ratText p, h, takeWhile_ratText q])
  refine Rat.ext hNum ?_
  rw [ratText, ratText, hNum] at h
  have hDen := List.append_cancel_left h
  split_ifs at hDen with hp hq hq
  · rw [hp, hq]
  · exact toDigits_injective (List.cons.inj hDen).2

/-- Keys by code points, integers in decimals. -/
def Language.plain : Language where
  keyLe a b := decide (a ≤ b)
  keyLe_total a b := by simpa using le_total a b
  keyLe_trans a b c := by simpa using le_trans
  keyLe_antisymm a b := by simpa using le_antisymm
  numberText := ratText
  numberText_ne_nil q := by
    rw [ratText]
    exact List.append_ne_nil_of_left_ne_nil (intText_ne_nil q.num) _
  numberText_numeric q := by
    intro c hc
    rw [ratText] at hc
    split at hc
    · rw [List.append_nil] at hc
      exact (intText_numeric q.num c hc).1
    · rcases List.mem_append.mp hc with hc | hc
      · exact (intText_numeric q.num c hc).1
      · rcases List.mem_cons.mp hc with rfl | hc
        · decide
        · exact (toDigits_numeric c hc).1
  numberText_injective := ratText_injective

end Json
