import MyClash.Library.Knockout
import Mathlib.Data.List.Basic

/-!
# The texts of the sources

A slot names where a side comes from by a text, and advancement is driven by matching
these texts. The model keeps the value; no two values share a text, so a match of texts
is a match of values.
-/

namespace MyClash.Bracket

open Knockout

universe u

inductive SourceType where
  | seed
  | winner_of
  | loser_of
  | bye
  deriving DecidableEq

variable {κ : Type u}

def sourceType : Feed κ → SourceType
  | .seed _ => .seed
  | .bye => .bye
  | .winnerOf _ => .winner_of
  | .loserOf _ => .loser_of

def sourceSeed : Feed κ → Option ℕ
  | .seed n => some n
  | _ => none

@[grind =] def sourceText (selfRef : κ → String) : Feed κ → String
  | .seed n => "seed " ++ toString n
  | .bye => "bye"
  | .winnerOf k => "winner of " ++ selfRef k
  | .loserOf k => "loser of " ++ selfRef k

/-- `R3P1`, for round 3 and position 1. -/
def roundPositionText (round position : ℕ) : String :=
  "R" ++ toString round ++ "P" ++ toString position

theorem toString_nat_inj {m n : ℕ} (h : toString m = toString n) : m = n := by
  have hDigits : Nat.toDigits 10 m = Nat.toDigits 10 n := by
    rw [← Nat.toList_repr, ← Nat.toList_repr]
    exact congrArg String.toList h
  rw [← Nat.ofDigitChars_ten_toDigits (n := m), hDigits, Nat.ofDigitChars_ten_toDigits]

theorem not_mem_toDigits {c : Char} (hc : c.isDigit = false) (n : ℕ) :
    c ∉ Nat.toDigits 10 n := by
  intro hMem
  have hDigit := Nat.isDigit_of_mem_toDigits (by decide) (by decide) hMem
  rw [hc] at hDigit
  cases hDigit

theorem roundPositionText_inj {round position round' position' : ℕ}
    (h : roundPositionText round position = roundPositionText round' position') :
    round = round' ∧ position = position' := by
  have hDigits : ∀ n : ℕ, 'P' ∉ (toString n).toList := by
    intro n
    rw [Nat.toString_eq_repr, Nat.toList_repr]
    exact not_mem_toDigits rfl n
  have hChars := congrArg String.toList h
  simp only [roundPositionText, String.toList_append, List.append_assoc] at hChars
  obtain ⟨hRound, -, hPosition⟩ :=
    (List.append_cons_inj_of_notMem (hDigits round) (hDigits position)).mp
      (List.append_cancel_left hChars)
  exact ⟨toString_nat_inj (String.toList_inj.mp hRound),
    toString_nat_inj (String.toList_inj.mp hPosition)⟩

theorem append_text_cancel {p s t : String} (h : p ++ s = p ++ t) : s = t := by
  have hChars := congrArg String.toList h
  rw [String.toList_append, String.toList_append] at hChars
  exact String.toList_inj.mp (List.append_cancel_left hChars)

theorem sourceText_injective {selfRef : κ → String} (hRef : Function.Injective selfRef) :
    Function.Injective (sourceText selfRef) := by
  intro x y h
  have hChars := congrArg String.toList h
  cases x <;> cases y
  case seed.seed => exact congrArg Feed.seed (toString_nat_inj (append_text_cancel h))
  case bye.bye => rfl
  case winnerOf.winnerOf => exact congrArg Feed.winnerOf (hRef (append_text_cancel h))
  case loserOf.loserOf => exact congrArg Feed.loserOf (hRef (append_text_cancel h))
  all_goals simp [sourceText] at hChars

end MyClash.Bracket
