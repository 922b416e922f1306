import Mathlib.Algebra.Order.Group.Defs
import Mathlib.Algebra.BigOperators.Group.List.Basic
import Mathlib.Data.List.Induction
import Mathlib.Order.Lattice

/-!
# Sums that stop at zero

A running total that every entry moves and that never goes below zero. Where no prefix sums
below zero it is the plain sum.
-/

namespace Floored

universe u

variable {α : Type u} [AddCommGroup α] [LinearOrder α]

def sum (l : List α) : α := l.foldl (fun total x => max 0 (total + x)) 0

@[simp] theorem sum_nil : sum ([] : List α) = 0 := rfl

theorem sum_concat (l : List α) (x : α) : sum (l ++ [x]) = max 0 (sum l + x) := by
  simp [sum, List.foldl_append]

theorem sum_nonneg (l : List α) : 0 ≤ sum l := by
  induction l using List.reverseRecOn with
  | nil => exact le_rfl
  | append_singleton l x _ =>
    rw [sum_concat]
    exact le_max_left 0 _

/-- An entry that is not negative is added in full. -/
theorem sum_concat_of_nonneg [IsOrderedAddMonoid α] (l : List α) {x : α} (hx : 0 ≤ x) :
    sum (l ++ [x]) = sum l + x := by
  rw [sum_concat]
  exact max_eq_right (add_nonneg (sum_nonneg l) hx)

theorem sum_eq_of_prefixes (l : List α) (h : ∀ p, p <+: l → 0 ≤ p.sum) : sum l = l.sum := by
  induction l using List.reverseRecOn with
  | nil => rfl
  | append_singleton l x ih =>
    have hInit := ih fun p hp => h p (hp.trans (List.prefix_append l [x]))
    have hLast := h _ List.prefix_rfl
    rw [List.sum_append, List.sum_singleton] at hLast
    rw [sum_concat, hInit, List.sum_append, List.sum_singleton]
    exact max_eq_right hLast

end Floored
