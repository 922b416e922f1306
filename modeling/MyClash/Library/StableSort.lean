import Mathlib.Data.List.Sort
import Mathlib.Order.Defs.LinearOrder

/-!
# Stable sorting by a comparator

`sortWith cmp` sorts by a three-way comparator and leaves elements the comparator
calls equal in the order they came in. The comparator need not be total on the
nose: only its transitivity is used.
-/

namespace StableSort

universe u

variable {α : Type u} {cmp : α → α → Ordering}

/-- The equality an order decides; a local instance where a list of its ids is searched. -/
theorem lawfulBEq [LinearOrder α] : LawfulBEq α := inferInstance

def sortWith (cmp : α → α → Ordering) (l : List α) : List α :=
  l.insertionSort (fun a b => (cmp a b).isLE)

@[simp] theorem sortWith_nil : sortWith cmp ([] : List α) = [] := rfl

theorem sortWith_perm (l : List α) : (sortWith cmp l).Perm l := List.perm_insertionSort _ l

@[simp] theorem mem_sortWith {l : List α} {a : α} : a ∈ sortWith cmp l ↔ a ∈ l :=
  List.mem_insertionSort _

@[simp] theorem length_sortWith (l : List α) : (sortWith cmp l).length = l.length :=
  List.length_insertionSort _ l

theorem nodup_map_sortWith {β : Type*} (f : α → β) {l : List α} (h : (l.map f).Nodup) :
    ((sortWith cmp l).map f).Nodup :=
  ((sortWith_perm l).map f).nodup_iff.mpr h

theorem map_sortWith {β : Type*} (f : α → β) (cmp : β → β → Ordering) (l : List α) :
    (sortWith (fun a b => cmp (f a) (f b)) l).map f = sortWith cmp (l.map f) :=
  List.map_insertionSort _ _ f l fun _ _ _ _ => Iff.rfl

theorem sortWith_eq_self {l : List α} (h : l.Pairwise (fun a b => (cmp a b).isLE)) :
    sortWith cmp l = l := h.insertionSort_eq

theorem orderedInsert_concat {r : α → α → Prop} [DecidableRel r] {l : List α} {a b : α}
    (h : r b a) : (l ++ [a]).orderedInsert r b = l.orderedInsert r b ++ [a] := by
  induction l with
  | nil => simp [h]
  | cons c l ih =>
    rw [List.cons_append, List.orderedInsert_cons, List.orderedInsert_cons, ih]
    split_ifs <;> rfl

/-- An element after all the others stays last. -/
theorem sortWith_concat {l : List α} {a : α} (h : ∀ b ∈ l, (cmp b a).isLE) :
    sortWith cmp (l ++ [a]) = sortWith cmp l ++ [a] := by
  induction l with
  | nil => rfl
  | cons b l ih =>
    have hRest := ih fun c hc => h c (List.mem_cons_of_mem b hc)
    rw [sortWith] at hRest ⊢
    rw [List.cons_append, List.insertionSort_cons, hRest]
    exact orderedInsert_concat (h b List.mem_cons_self)

section Trans

variable [Std.TransCmp cmp]

private instance isTransLE : IsTrans α (fun a b => (cmp a b).isLE) :=
  ⟨fun _ _ _ => Std.TransCmp.isLE_trans⟩

private instance totalLE : Std.Total (fun a b => ((cmp a b).isLE : Prop)) where
  total a b := by
    cases h : cmp a b with
    | lt => exact Or.inl rfl
    | eq => exact Or.inl rfl
    | gt => exact Or.inr (by rw [Std.OrientedCmp.gt_iff_lt.mp h]; rfl)

theorem pairwise_sortWith (l : List α) :
    (sortWith cmp l).Pairwise (fun a b => (cmp a b).isLE) :=
  List.pairwise_insertionSort _ l

theorem filter_orderedInsert (p : α → Bool) (a : α) {l : List α}
    (h : l.Pairwise (fun a b => (cmp a b).isLE)) :
    (l.orderedInsert (fun a b => (cmp a b).isLE) a).filter p =
      if p a then (l.filter p).orderedInsert (fun a b => (cmp a b).isLE) a else l.filter p := by
  induction l with
  | nil => simp [List.filter_cons]
  | cons b l ih =>
    obtain ⟨hLE, hRest⟩ := List.pairwise_cons.mp h
    rw [List.orderedInsert_cons]
    by_cases hab : (cmp a b).isLE
    · -- all that stays is after `b`
      have hFront : ∀ c ∈ (b :: l).filter p, (cmp a c).isLE := by
        intro c hc
        rcases List.mem_cons.mp (List.mem_of_mem_filter hc) with rfl | hc
        · exact hab
        · exact Std.TransCmp.isLE_trans hab (hLE c hc)
      rw [if_pos hab, List.filter_cons]
      split_ifs
      · cases hKept : (b :: l).filter p with
        | nil => rfl
        | cons c kept => rw [List.orderedInsert_cons, if_pos (hFront c (by simp [hKept]))]
      · rfl
    · rw [if_neg hab, List.filter_cons, List.filter_cons, ih hRest]
      split_ifs
      · rw [List.orderedInsert_cons, if_neg hab]
      all_goals rfl

/-- What a filter keeps stands in the order it would be sorted in alone. -/
theorem filter_sortWith (p : α → Bool) (l : List α) :
    (sortWith cmp l).filter p = sortWith cmp (l.filter p) := by
  induction l with
  | nil => rfl
  | cons a l ih =>
    rw [sortWith, List.insertionSort_cons, ← sortWith, filter_orderedInsert p a
      (pairwise_sortWith l), ih, List.filter_cons]
    split_ifs <;> rfl

/-- A key that separates the elements makes the order strict. -/
theorem pairwise_lt_sortWith {β : Type*} (key : α → β) {l : List α}
    (hKey : ∀ a b, cmp a b = .eq → key a = key b) (hNodup : (l.map key).Nodup) :
    (sortWith cmp l).Pairwise (fun a b => cmp a b = .lt) := by
  have hNe : (sortWith cmp l).Pairwise (fun a b => key a ≠ key b) :=
    List.pairwise_map.mp (nodup_map_sortWith key hNodup)
  refine ((pairwise_sortWith l).and hNe).imp ?_
  rintro a b ⟨hLE, hDiff⟩
  cases h : cmp a b with
  | lt => rfl
  | eq => exact absurd (hKey a b h) hDiff
  | gt => rw [h] at hLE; cases hLE

/-- Once a key separates the elements, the sort forgets the order they came in. -/
theorem sortWith_eq_of_perm {β : Type*} (key : α → β) {l l' : List α}
    (hKey : ∀ a b, cmp a b = .eq → key a = key b) (hNodup : (l.map key).Nodup)
    (hPerm : l.Perm l') : sortWith cmp l = sortWith cmp l' := by
  have hNodup' : (l'.map key).Nodup := (hPerm.map key).nodup_iff.mp hNodup
  have hPerm' : (sortWith cmp l).Perm (sortWith cmp l') :=
    (sortWith_perm l).trans (hPerm.trans (sortWith_perm l').symm)
  refine hPerm'.eq_of_pairwise ?_ (pairwise_lt_sortWith key hKey hNodup)
    (pairwise_lt_sortWith key hKey hNodup')
  intro a b _ _ hab hba
  exact absurd hba (Std.OrientedCmp.not_lt_of_lt hab)

end Trans

end StableSort
