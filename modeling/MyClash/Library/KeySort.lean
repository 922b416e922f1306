import Mathlib.Data.List.Sort

/-!
# What a stable sort by key forgets

Elements of one key keep the order they came in. A sort by key therefore forgets the order of its
input exactly when no two different elements have one key.
-/

namespace KeySort

universe u v

variable {α : Type u} {β : Type v}

/-- A linear order, as a test. -/
structure LinearTest (le : β → β → Bool) : Prop where
  total : ∀ a b, le a b || le b a
  trans : ∀ a b c, le a b → le b c → le a c
  antisymm : ∀ a b, le a b → le b a → a = b

variable {le : β → β → Bool} {key : α → β}

theorem LinearTest.refl (h : LinearTest le) (b : β) : le b b := by
  simpa using h.total b b

/-- The elements of one key come out as they came in. -/
theorem filter_key_mergeSort [DecidableEq β] (h : LinearTest le) (l : List α) (k : β) :
    (l.mergeSort fun a b => le (key a) (key b)).filter (fun a => key a = k) =
      l.filter fun a => key a = k := by
  have hSorted : (l.filter fun a => key a = k).Pairwise fun a b => le (key a) (key b) := by
    refine List.pairwise_of_forall_mem_list fun a ha b hb => ?_
    have ha' := of_decide_eq_true (List.mem_filter.mp ha).2
    have hb' := of_decide_eq_true (List.mem_filter.mp hb).2
    rw [ha', hb']
    exact h.refl k
  have hSublist := (List.sublist_mergeSort (fun a b c => h.trans (key a) (key b) (key c))
    (fun a b => h.total (key a) (key b)) hSorted List.filter_sublist).filter fun a => key a = k
  rw [List.filter_filter, List.filter_congr fun a _ => Bool.and_self _] at hSublist
  exact (hSublist.eq_of_length (((List.mergeSort_perm l _).filter _).length_eq.symm)).symm

/-- The sort forgets the order exactly when the key separates the elements. -/
theorem mergeSort_forgets_order_iff [DecidableEq α] [DecidableEq β] (h : LinearTest le)
    (l : List α) :
    (∀ l' : List α, l'.Perm l → (l'.mergeSort fun a b => le (key a) (key b)) =
        l.mergeSort fun a b => le (key a) (key b)) ↔
      ∀ a ∈ l, ∀ b ∈ l, key a = key b → a = b := by
  constructor
  · intro hSame a ha b hb hKey
    by_contra hNe
    have hRest : b ∈ l.erase a := (List.mem_erase_of_ne (Ne.symm hNe)).mpr hb
    have hPerm : (a :: b :: (l.erase a).erase b).Perm l :=
      ((List.perm_cons_erase hRest).symm.cons a).trans (List.perm_cons_erase ha).symm
    have hSwapped := (List.Perm.swap a b ((l.erase a).erase b)).trans hPerm
    have hSorted := (hSame _ hPerm).trans (hSame _ hSwapped).symm
    have hKept := congrArg (List.filter fun c => key c = key a) hSorted
    rw [filter_key_mergeSort h, filter_key_mergeSort h] at hKept
    simp only [List.filter_cons, hKey, decide_true, if_true] at hKept
    exact hNe (List.cons.inj hKept).1
  · intro hSeparates l' hPerm
    have hPairwise := fun l : List α => List.pairwise_mergeSort
      (fun a b c => h.trans (key a) (key b) (key c)) (fun a b => h.total (key a) (key b)) l
    refine List.Perm.eq_of_pairwise ?_ (hPairwise l') (hPairwise l)
      ((List.mergeSort_perm l' _).trans (hPerm.trans (List.mergeSort_perm l _).symm))
    intro a b ha hb hab hba
    have ha' := hPerm.mem_iff.mp ((List.mergeSort_perm l' _).mem_iff.mp ha)
    have hb' := (List.mergeSort_perm l _).mem_iff.mp hb
    exact hSeparates a ha' b hb' (h.antisymm _ _ hab hba)

end KeySort
