import Mathlib.Data.List.Nodup
import Mathlib.Data.List.Infix
import Mathlib.Data.List.Range

/-!
# Placing once

A list is filled from the front and takes every element once. What is placed keeps its
place, so whoever is in before someone else stays before them (`Above.of_extends`).
-/

namespace Placing

universe u

variable {α : Type u} {placed xs l : List α} {x a b : α}

/-- Some way in, `a` is placed and `b` is not. -/
def Above (l : List α) (a b : α) : Prop := ∃ placed, placed <+: l ∧ a ∈ placed ∧ b ∉ placed

theorem Above.of_extends (h : Above placed a b) (hPrefix : placed <+: l) : Above l a b := by
  obtain ⟨p, hp, ha, hb⟩ := h
  exact ⟨p, hp.trans hPrefix, ha, hb⟩

/-- Read off numbered rows: the row of `a` has the smaller number. -/
theorem Above.number_lt {ρ : Type*} {key : ρ → α} {number : ρ → ℕ} {rows : List ρ}
    (hNumbers : rows.map number = List.range' 1 rows.length) (hNodup : (rows.map key).Nodup)
    (h : Above (rows.map key) a b) {r s : ρ} (hr : r ∈ rows) (hs : s ∈ rows) (hA : key r = a)
    (hB : key s = b) : number r < number s := by
  obtain ⟨placed, ⟨rest, hSplit⟩, ha, hb⟩ := h
  obtain ⟨front, back, rfl, rfl, -⟩ := List.map_eq_append_iff.mp hSplit.symm
  have hFront : r ∈ front := by
    obtain ⟨r', hr', hKey⟩ := List.mem_map.mp ha
    have hSame := List.inj_on_of_nodup_map hNodup hr (List.mem_append_left back hr')
      (hA.trans hKey.symm)
    rwa [hSame]
  have hBack : s ∈ back := by
    rcases List.mem_append.mp hs with hMem | hMem
    · exact absurd (hB ▸ List.mem_map_of_mem hMem) hb
    · exact hMem
  have hOrder : ((front ++ back).map number).Pairwise (· < ·) := by
    rw [hNumbers]
    exact List.pairwise_lt_range' 1
  rw [List.map_append] at hOrder
  exact (List.pairwise_append.mp hOrder).2.2 _ (List.mem_map_of_mem hFront) _
    (List.mem_map_of_mem hBack)

variable [DecidableEq α]

def add (placed : List α) (x : α) : List α := if x ∈ placed then placed else placed ++ [x]

def addAll (placed xs : List α) : List α := xs.foldl add placed

@[simp] theorem addAll_nil : addAll placed [] = placed := rfl

@[simp] theorem addAll_cons : addAll placed (x :: xs) = addAll (add placed x) xs := rfl

theorem add_of_not_mem (h : x ∉ placed) : add placed x = placed ++ [x] := if_neg h

@[simp] theorem mem_add : a ∈ add placed x ↔ a ∈ placed ∨ a = x := by
  rw [add]
  split
  · rename_i hMem
    constructor
    · exact Or.inl
    · rintro (h | rfl)
      · exact h
      · exact hMem
  · simp

theorem prefix_add (placed : List α) (x : α) : placed <+: add placed x := by
  rw [add]
  split
  · exact List.prefix_rfl
  · exact List.prefix_append placed [x]

theorem mem_addAll : a ∈ addAll placed xs ↔ a ∈ placed ∨ a ∈ xs := by
  induction xs generalizing placed with
  | nil => simp
  | cons x xs ih => rw [addAll_cons, ih, mem_add, List.mem_cons, or_assoc]

theorem prefix_addAll (placed xs : List α) : placed <+: addAll placed xs := by
  induction xs generalizing placed with
  | nil => exact List.prefix_rfl
  | cons x xs ih => exact (prefix_add placed x).trans (ih _)

end Placing
