import Mathlib.Data.List.Chain
import Mathlib.Data.List.Induction
import Mathlib.Data.List.Perm.Basic
import Mathlib.Order.Defs.LinearOrder

/-!
# Blocks of level elements

A sorted list is cut wherever an element is not level with the one before. Each block then holds
everything level with any of its elements.
-/

namespace SortedBlocks

universe u

variable {α : Type u} {joins : α → Bool}

/-- An element that joins goes to the last block, if there is one. -/
def add (joins : α → Bool) (blocks : List (List α)) (a : α) : List (List α) :=
  match blocks.getLast? with
  | none => [[a]]
  | some last => if joins a then blocks.dropLast ++ [last ++ [a]] else blocks ++ [[a]]

def cut (joins : α → Bool) (l : List α) : List (List α) := l.foldl (add joins) []

@[simp] theorem cut_nil : cut joins [] = [] := rfl

theorem cut_concat (l : List α) (a : α) : cut joins (l ++ [a]) = add joins (cut joins l) a := by
  rw [cut, List.foldl_append]
  rfl

theorem add_concat (front : List (List α)) (last : List α) (a : α) :
    add joins (front ++ [last]) a =
      if joins a then front ++ [last ++ [a]] else front ++ [last] ++ [[a]] := by
  simp [add]

variable {cmp : α → α → Ordering}

/-- Each block holds what is level with any of its elements, and nothing else. -/
structure CutInto (cmp : α → α → Ordering) (l : List α) (blocks : List (List α)) : Prop where
  flatten : blocks.flatten = l
  nonempty : [] ∉ blocks
  level : ∀ block ∈ blocks, ∀ a ∈ block, block = l.filter fun b => cmp a b = .eq

section Trans

variable [Std.TransCmp cmp]

theorem eq_congr {a b : α} (h : cmp a b = .eq) (c : α) : cmp a c = .eq ↔ cmp b c = .eq :=
  ⟨Std.TransCmp.eq_trans (Std.OrientedCmp.eq_symm h), Std.TransCmp.eq_trans h⟩

theorem eq_of_between {a b c : α} (hab : (cmp a b).isLE) (hbc : (cmp b c).isLE)
    (hac : cmp a c = .eq) : cmp b c = .eq := by
  have hca : (cmp c a).isLE := by rw [Std.OrientedCmp.eq_symm hac]; rfl
  exact Std.OrientedCmp.isLE_antisymm hbc (Std.TransCmp.isLE_trans hca hab)

variable {l : List α} {front : List (List α)} {last : List α} {a : α}

/-- An element that is level with the last one of the list joins the last block. -/
theorem CutInto.join (h : CutInto cmp (l ++ [a]) (front ++ [last])) {x : α}
    (hLevel : cmp a x = .eq) : CutInto cmp (l ++ [a] ++ [x]) (front ++ [last ++ [x]]) := by
  have hLast : a ∈ last := by
    have hNe : last ≠ [] := fun hNil => h.nonempty (by simp [hNil])
    have hEnd := congrArg List.getLast? h.flatten
    simp only [List.flatten_append, List.flatten_singleton, List.getLast?_append,
      List.getLast?_singleton, List.getLast?_eq_some_getLast hNe, Option.some_or] at hEnd
    exact Option.some.inj hEnd ▸ List.getLast_mem hNe
  have hClass := h.level last (by simp) a hLast
  have hFront : ∀ b ∈ front.flatten, cmp a b ≠ .eq := by
    intro b hb hab
    have hFilter : last = (front.flatten ++ last).filter fun b => cmp a b = .eq := by
      have hFlat := h.flatten
      rw [List.flatten_append, List.flatten_singleton] at hFlat
      rw [hFlat]
      exact hClass
    have hOwn : (last.filter fun b => cmp a b = .eq) = last := by
      rw [List.filter_eq_self]
      intro c hc
      rw [hClass] at hc
      exact (List.mem_filter.mp hc).2
    rw [List.filter_append, hOwn] at hFilter
    have hNil := List.self_eq_append_left.mp hFilter
    exact List.filter_eq_nil_iff.mp hNil b hb (decide_eq_true hab)
  refine ⟨?_, ?_, ?_⟩
  · rw [← h.flatten]
    simp
  · intro hNil
    rcases List.mem_append.mp hNil with hNil | hNil
    · exact h.nonempty (List.mem_append_left _ hNil)
    · simp at hNil
  · intro block hBlock b hb
    rw [List.filter_append]
    rcases List.mem_append.mp hBlock with hBlock | hBlock
    · have hApart : cmp b x ≠ .eq := by
        intro hbx
        have hba := Std.TransCmp.eq_trans hbx (Std.OrientedCmp.eq_symm hLevel)
        exact hFront b (List.mem_flatten_of_mem hBlock hb) (Std.OrientedCmp.eq_symm hba)
      rw [← h.level block (List.mem_append_left _ hBlock) b hb]
      simp [hApart]
    · obtain rfl := List.mem_singleton.mp hBlock
      have hb' : cmp a b = .eq := by
        rcases List.mem_append.mp hb with hb | hb
        · rw [hClass] at hb
          exact of_decide_eq_true (List.mem_filter.mp hb).2
        · exact List.mem_singleton.mp hb ▸ hLevel
      have hSame : ∀ c, (decide (cmp b c = .eq)) = decide (cmp a c = .eq) :=
        fun c => decide_eq_decide.mpr (eq_congr (Std.OrientedCmp.eq_symm hb') c)
      simp only [hSame]
      rw [← hClass]
      simp [hLevel]

/-- An element that is not level with the last one of a sorted list starts a block. -/
theorem CutInto.start {blocks : List (List α)} (h : CutInto cmp l blocks) {x : α}
    (hApart : ∀ b ∈ l, cmp b x ≠ .eq) : CutInto cmp (l ++ [x]) (blocks ++ [[x]]) := by
  refine ⟨by rw [List.flatten_append, h.flatten]; rfl, ?_, ?_⟩
  · intro hNil
    rcases List.mem_append.mp hNil with hNil | hNil
    · exact h.nonempty hNil
    · simp at hNil
  · intro block hBlock b hb
    rw [List.filter_append]
    rcases List.mem_append.mp hBlock with hBlock | hBlock
    · have hb' : b ∈ l := h.flatten ▸ List.mem_flatten_of_mem hBlock hb
      rw [← h.level block hBlock b hb]
      simp [hApart b hb']
    · obtain rfl := List.mem_singleton.mp hBlock
      obtain rfl := List.mem_singleton.mp hb
      have hNil : (l.filter fun c => cmp b c = .eq) = [] := by
        rw [List.filter_eq_nil_iff]
        intro c hc hEq
        exact hApart c hc (Std.OrientedCmp.eq_symm (of_decide_eq_true hEq))
      rw [hNil]
      simp [Std.ReflCmp.compare_self]

theorem cutInto_cut (hSorted : l.Pairwise fun a b => (cmp a b).isLE)
    (hMarks : l.IsChain fun a b => (joins b ↔ cmp a b = .eq)) : CutInto cmp l (cut joins l) := by
  induction l using List.reverseRecOn with
  | nil => exact ⟨rfl, List.not_mem_nil, nofun⟩
  | append_singleton l x ih =>
    obtain ⟨hBefore, _, hLE⟩ := List.pairwise_append.mp hSorted
    obtain ⟨hChain, _, hMark⟩ := List.isChain_append.mp hMarks
    have hCut := ih hBefore hChain
    rw [cut_concat]
    rcases List.eq_nil_or_concat' (cut joins l) with hNil | ⟨front, last, hConcat⟩
    · have hEmpty : l = [] := by rw [← hCut.flatten, hNil]; rfl
      rw [hNil, hEmpty]
      exact CutInto.start ⟨rfl, List.not_mem_nil, nofun⟩ nofun
    · rw [hConcat] at hCut ⊢
      rw [add_concat]
      rcases List.eq_nil_or_concat' l with rfl | ⟨l, a, rfl⟩
      · simp at hConcat
      · have hx := hMark a (by simp) x (by simp)
        split_ifs with hJoins
        · exact hCut.join (hx.mp hJoins)
        · refine hCut.start fun b hb hbx => hJoins (hx.mpr ?_)
          rcases List.mem_append.mp hb with hMem | hMem
          · have hba := (List.pairwise_append.mp hBefore).2.2 b hMem a (by simp)
            exact eq_of_between hba (hLE a (by simp) x (by simp)) hbx
          · exact List.mem_singleton.mp hMem ▸ hbx

end Trans

end SortedBlocks
