import Mathlib.Data.List.Perm.Basic
import Mathlib.Data.List.Induction
import Mathlib.Data.List.Nodup

/-!
# Insertion-ordered maps of lists

`collect key l` puts every element of `l` at the end of the bucket of its key; keys
stand in the order they were first met. Reading the buckets over all keys, in any
order, gives back the list up to permutation.
-/

namespace Buckets

universe u v

variable {α : Type u} {κ : Type v} [DecidableEq κ]

@[grind =] def push (k : κ) (a : α) : List (κ × List α) → List (κ × List α)
  | [] => [(k, [a])]
  | (k', as) :: rest => if k' = k then (k', as ++ [a]) :: rest else (k', as) :: push k a rest

@[grind =] def collect (key : α → κ) (l : List α) : List (κ × List α) :=
  l.foldl (fun m a => push (key a) a m) []

def keys (m : List (κ × List α)) : List κ := m.map Prod.fst

@[grind =] def bucket : List (κ × List α) → κ → List α
  | [], _ => []
  | (k', as) :: rest, k => if k' = k then as else bucket rest k

theorem bucket_push (m : List (κ × List α)) (k k' : κ) (a : α) :
    bucket (push k a m) k' = if k = k' then bucket m k' ++ [a] else bucket m k' := by
  induction m with
  | nil => by_cases h : k = k' <;> simp [push, bucket, h]
  | cons entry rest ih =>
    obtain ⟨k'', as⟩ := entry
    rw [push]
    by_cases h : k'' = k
    · subst h
      by_cases h' : k'' = k' <;> simp [bucket, h']
    · by_cases h' : k'' = k'
      · subst h'
        simp [bucket, h, Ne.symm h]
      · simp [bucket, h, h', ih]

theorem mem_keys_push {m : List (κ × List α)} {k k' : κ} {a : α} :
    k' ∈ keys (push k a m) ↔ k' = k ∨ k' ∈ keys m := by
  induction m with
  | nil => simp [push, keys]
  | cons entry rest ih =>
    obtain ⟨k'', as⟩ := entry
    rw [push]
    by_cases h : k'' = k
    · simp [keys, h]
    · simp only [keys, List.map_cons, List.mem_cons, if_neg h] at ih ⊢
      rw [ih]
      exact or_left_comm

theorem nodup_keys_push {m : List (κ × List α)} (h : (keys m).Nodup) (k : κ) (a : α) :
    (keys (push k a m)).Nodup := by
  induction m with
  | nil => simp [push, keys]
  | cons entry rest ih =>
    obtain ⟨k', as⟩ := entry
    obtain ⟨hFresh, hRest⟩ := List.nodup_cons.mp h
    rw [push]
    by_cases hk : k' = k
    · simpa [keys, hk] using h
    · rw [if_neg hk]
      refine List.nodup_cons.mpr ⟨fun hMem => ?_, ih hRest⟩
      rcases mem_keys_push.mp hMem with hEq | hMem
      · exact hk hEq
      · exact hFresh hMem

theorem bucket_collect (key : α → κ) (l : List α) (k : κ) :
    bucket (collect key l) k = l.filter fun a => decide (key a = k) := by
  induction l using List.reverseRecOn with
  | nil => rfl
  | append_singleton l a ih =>
    rw [collect, List.foldl_append, List.foldl_cons, List.foldl_nil, bucket_push, ← collect, ih,
      List.filter_append]
    by_cases h : key a = k <;> simp [h]

theorem mem_keys_collect {key : α → κ} {l : List α} {k : κ} :
    k ∈ keys (collect key l) ↔ ∃ a ∈ l, key a = k := by
  induction l using List.reverseRecOn with
  | nil => simp [collect, keys]
  | append_singleton l a ih =>
    rw [collect, List.foldl_append, List.foldl_cons, List.foldl_nil, mem_keys_push, ← collect, ih]
    constructor
    · rintro (rfl | ⟨b, hb, rfl⟩)
      · exact ⟨a, by simp, rfl⟩
      · exact ⟨b, by simp [hb], rfl⟩
    · rintro ⟨b, hb, rfl⟩
      rcases List.mem_append.mp hb with hb | hb
      · exact Or.inr ⟨b, hb, rfl⟩
      · exact Or.inl (by rw [List.mem_singleton.mp hb])

theorem nodup_keys_collect (key : α → κ) (l : List α) : (keys (collect key l)).Nodup := by
  induction l using List.reverseRecOn with
  | nil => exact List.nodup_nil
  | append_singleton l a ih =>
    rw [collect, List.foldl_append, List.foldl_cons, List.foldl_nil]
    exact nodup_keys_push ih _ _

theorem bucket_of_mem {m : List (κ × List α)} (hNodup : (keys m).Nodup) {k : κ} {as : List α}
    (h : (k, as) ∈ m) : bucket m k = as := by
  induction m with
  | nil => cases h
  | cons first rest ih =>
    obtain ⟨k', as'⟩ := first
    obtain ⟨hFresh, hNodup⟩ := List.nodup_cons.mp hNodup
    rcases List.mem_cons.mp h with hEq | hMem
    · obtain ⟨rfl, rfl⟩ := Prod.mk.inj hEq
      rw [bucket, if_pos rfl]
    · have hKey : k ∈ keys rest := List.mem_map_of_mem hMem
      have hNe : k' ≠ k := fun hEq => hFresh (hEq ▸ hKey)
      rw [bucket, if_neg hNe, ih hNodup hMem]

theorem eq_filter_of_mem_collect {key : α → κ} {l : List α} {k : κ} {as : List α}
    (h : (k, as) ∈ collect key l) : as = l.filter fun a => decide (key a = k) := by
  rw [← bucket_collect, bucket_of_mem (nodup_keys_collect key l) h]

/-- A list splits along any list of keys that names each of its keys once. -/
theorem flatMap_filter_perm (key : α → κ) {ks : List κ} (hNodup : ks.Nodup) :
    ∀ {l : List α}, (∀ a ∈ l, key a ∈ ks) →
      (ks.flatMap fun k => l.filter fun a => decide (key a = k)).Perm l := by
  induction ks with
  | nil =>
    intro l h
    cases l with
    | nil => exact .nil
    | cons a l => cases h a List.mem_cons_self
  | cons k ks ih =>
    intro l h
    obtain ⟨hFresh, hNodup⟩ := List.nodup_cons.mp hNodup
    have hRest := ih hNodup (l := l.filter fun a => !decide (key a = k)) (by
      intro a ha
      obtain ⟨ha, hNe⟩ := List.mem_filter.mp ha
      rcases List.mem_cons.mp (h a ha) with hEq | hMem
      · simp [hEq] at hNe
      · exact hMem)
    have hSame : (ks.flatMap fun k' =>
        (l.filter fun a => !decide (key a = k)).filter fun a => decide (key a = k')) =
        ks.flatMap fun k' => l.filter fun a => decide (key a = k') := by
      refine List.flatMap_congr fun k' hk' => ?_
      rw [List.filter_filter]
      refine List.filter_congr fun a _ => ?_
      by_cases hEq : key a = k'
      · have hNe : k' ≠ k := fun hk => hFresh (hk ▸ hk')
        simp [hEq, hNe]
      · simp [hEq]
    rw [hSame] at hRest
    exact (hRest.append_left _).trans (List.filter_append_perm _ _)

/-- Where the key separates the elements, those with a given key are the one a search finds. -/
theorem filter_eq_toList_find? (key : α → κ) {l : List α} (hNodup : (l.map key).Nodup) (k : κ) :
    (l.filter fun a => decide (key a = k)) = (l.find? fun a => decide (key a = k)).toList := by
  induction l with
  | nil => rfl
  | cons a l ih =>
    obtain ⟨hFresh, hNodup⟩ := List.nodup_cons.mp hNodup
    by_cases hEq : key a = k
    · have hRest : (l.filter fun a => decide (key a = k)) = [] := by
        refine List.filter_eq_nil_iff.mpr fun b hb => ?_
        rw [decide_eq_true_eq]
        intro hKey
        exact hFresh (List.mem_map.mpr ⟨b, hb, hKey.trans hEq.symm⟩)
      simp [hEq, hRest]
    · simp [hEq, ih hNodup]

theorem flatMap_bucket_perm (key : α → κ) (l : List α) {ks : List κ}
    (hKeys : ks.Perm (keys (collect key l))) :
    (ks.flatMap (bucket (collect key l))).Perm l := by
  have hBuckets : ks.flatMap (bucket (collect key l)) =
      ks.flatMap fun k => l.filter fun a => decide (key a = k) :=
    List.flatMap_congr fun k _ => bucket_collect key l k
  rw [hBuckets]
  refine flatMap_filter_perm key (hKeys.nodup_iff.mpr (nodup_keys_collect key l)) fun a ha => ?_
  exact hKeys.mem_iff.mpr (mem_keys_collect.mpr ⟨a, ha, rfl⟩)

theorem flatMap_collect_perm (key : α → κ) (l : List α) :
    ((collect key l).flatMap Prod.snd).Perm l := by
  refine .trans (.of_eq ?_) (flatMap_bucket_perm key l (.refl _))
  rw [keys, List.flatMap_map]
  refine List.flatMap_congr fun entry hEntry => ?_
  exact (bucket_of_mem (nodup_keys_collect key l) hEntry).symm

end Buckets
