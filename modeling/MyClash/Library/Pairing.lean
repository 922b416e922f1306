import Mathlib.Data.List.Perm.Basic
import Mathlib.Data.List.Nodup
import Mathlib.Algebra.Group.Nat.Even

/-!
# Pairings of a list that avoid a relation

A pairing lists couples; `places` are the elements they hold. `Closable met l` says
that some pairing holds every element of `l` once and no couple in `met`. The
question is settled by the head alone: it needs a partner whose removal leaves a
closable rest.
-/

namespace Pairing

universe u v

variable {α : Type u} {β : Type v}

def places (pairs : List (α × α)) : List α := pairs.flatMap fun p => [p.1, p.2]

@[simp] theorem places_nil : places ([] : List (α × α)) = [] := rfl

@[simp] theorem places_cons (p : α × α) (pairs : List (α × α)) :
    places (p :: pairs) = p.1 :: p.2 :: places pairs := rfl

@[simp] theorem places_append (pairs pairs' : List (α × α)) :
    places (pairs ++ pairs') = places pairs ++ places pairs' := List.flatMap_append

theorem length_places (pairs : List (α × α)) : (places pairs).length = 2 * pairs.length := by
  induction pairs with
  | nil => rfl
  | cons p pairs ih =>
    simp only [places_cons, List.length_cons, ih]
    omega

theorem places_map (f : α → β) (pairs : List (α × α)) :
    places (pairs.map (Prod.map f f)) = (places pairs).map f := by
  induction pairs with
  | nil => rfl
  | cons p pairs ih => simp [ih]

theorem mem_places_of_mem {p : α × α} {pairs : List (α × α)} (h : p ∈ pairs) :
    p.1 ∈ places pairs ∧ p.2 ∈ places pairs :=
  ⟨List.mem_flatMap.mpr ⟨p, h, by simp⟩, List.mem_flatMap.mpr ⟨p, h, by simp⟩⟩

def Free (met : α → α → Prop) (pairs : List (α × α)) : Prop := ∀ p ∈ pairs, ¬met p.1 p.2

def Closable (met : α → α → Prop) (l : List α) : Prop :=
  ∃ pairs, (places pairs).Perm l ∧ Free met pairs

variable {met : α → α → Prop}

theorem Closable.perm {l l' : List α} (h : Closable met l) (hPerm : l.Perm l') :
    Closable met l' := by
  obtain ⟨pairs, hPlaces, hFree⟩ := h
  exact ⟨pairs, hPlaces.trans hPerm, hFree⟩

theorem closable_nil : Closable met [] := ⟨[], .nil, by simp [Free]⟩

/-- In a symmetric relation the head of a closable list has a partner in its tail. -/
theorem Closable.exists_partner (hSymm : ∀ a b, met a b → met b a) {a : α} {l : List α}
    (h : Closable met (a :: l)) :
    ∃ c rest, l.Perm (c :: rest) ∧ ¬met a c ∧ Closable met rest := by
  obtain ⟨pairs, hPlaces, hFree⟩ := h
  have hMem : a ∈ places pairs := hPlaces.mem_iff.mpr List.mem_cons_self
  obtain ⟨p, hp, hap⟩ := List.mem_flatMap.mp hMem
  obtain ⟨before, after, rfl⟩ := List.append_of_mem hp
  have hFree' : Free met (before ++ after) := fun q hq => hFree q (by
    rcases List.mem_append.mp hq with hq | hq
    · exact List.mem_append_left _ hq
    · exact List.mem_append_right _ (List.mem_cons_of_mem _ hq))
  have hSplit : (places (before ++ p :: after)).Perm (p.1 :: p.2 :: places (before ++ after)) := by
    rw [places_append, places_cons, places_append]
    exact (List.perm_middle).trans ((List.perm_middle).cons p.1)
  have hAll := hSplit.symm.trans hPlaces
  simp only [List.mem_cons, List.not_mem_nil, or_false] at hap
  rcases hap with hap | hap
  · rw [← hap] at hAll
    exact ⟨p.2, _, (hAll.cons_inv).symm, hap ▸ hFree p hp, _, .rfl, hFree'⟩
  · rw [← hap] at hAll
    have hAll' := (List.Perm.swap a p.1 _).symm.trans hAll
    exact ⟨p.1, _, hAll'.cons_inv.symm, fun hMet => hFree p hp (hap ▸ hSymm _ _ hMet),
      _, .rfl, hFree'⟩

/-- A list of couples over an image comes from a list of couples. -/
theorem exists_places_map (f : α → β) :
    ∀ {pairs : List (β × β)} {l : List α}, places pairs = l.map f →
      ∃ pairs', places pairs' = l ∧ pairs'.map (Prod.map f f) = pairs
  | [], l, h => by
    have hNil : l = [] := List.map_eq_nil_iff.mp h.symm
    exact ⟨[], hNil.symm, rfl⟩
  | p :: pairs, l, h => by
    rw [places_cons] at h
    obtain ⟨a, l', rfl, hap, h'⟩ := List.map_eq_cons_iff.mp h.symm
    obtain ⟨c, rest, rfl, hcp, hRest⟩ := List.map_eq_cons_iff.mp h'
    obtain ⟨pairs', rfl, rfl⟩ := exists_places_map f hRest.symm
    exact ⟨(a, c) :: pairs', rfl, by rw [List.map_cons, Prod.map_apply, hap, hcp]⟩

theorem perm_map_lift (f : α → β) {l : List β} {m : List α} (h : l.Perm (m.map f)) :
    ∃ m' : List α, m'.Perm m ∧ l = m'.map f := by
  have hAll : List.Forall₂ (fun b a => b = f a) (m.map f) m :=
    List.forall₂_map_left_iff.mpr (List.forall₂_same.mpr fun _ _ => rfl)
  obtain ⟨m', hForall, hPerm⟩ := List.perm_comp_forall₂ h hAll
  exact ⟨m', hPerm, List.forall₂_eq_eq_eq ▸ List.forall₂_map_right_iff.mpr hForall⟩

/-- Closing is a matter of names only as far as the relation is. -/
theorem closable_map_iff {met' : β → β → Prop} (f : α → β) {l : List α}
    (hMet : ∀ a ∈ l, ∀ b ∈ l, met' (f a) (f b) ↔ met a b) :
    Closable met' (l.map f) ↔ Closable met l := by
  constructor
  · rintro ⟨pairs, hPlaces, hFree⟩
    obtain ⟨l', hPerm, hPlaces'⟩ := perm_map_lift f hPlaces
    obtain ⟨pairs', rfl, rfl⟩ := exists_places_map f hPlaces'
    refine ⟨pairs', hPerm, ?_⟩
    intro p hp hp'
    obtain ⟨h1, h2⟩ := mem_places_of_mem hp
    exact hFree _ (List.mem_map_of_mem hp)
      ((hMet p.1 (hPerm.mem_iff.mp h1) p.2 (hPerm.mem_iff.mp h2)).mpr hp')
  · rintro ⟨pairs, hPlaces, hFree⟩
    refine ⟨pairs.map (Prod.map f f), places_map f pairs ▸ hPlaces.map f, ?_⟩
    intro q hq
    obtain ⟨p, hp, rfl⟩ := List.mem_map.mp hq
    obtain ⟨h1, h2⟩ := mem_places_of_mem hp
    exact fun h => hFree p hp ((hMet p.1 (hPlaces.mem_iff.mp h1) p.2 (hPlaces.mem_iff.mp h2)).mp h)

end Pairing
