import Mathlib.Data.List.Basic

/-!
# Codes that end where they stop

A word splits from another when what follows it, empty or led by a stop letter, can be told
from it. Words that split pairwise still do between separators and before a closing letter.
-/

namespace PrefixCode

universe u

variable {α : Type u} (stop : α → Prop)

def Stops (r : List α) : Prop := ∀ c ∈ r.head?, stop c

def Splits (x y : List α) : Prop :=
  ∀ r s, Stops stop r → Stops stop s → x ++ r = y ++ s → x = y ∧ r = s

/-- A word that is not empty and starts with no stop letter. -/
def Opens (x : List α) : Prop := ∃ c ∈ x.head?, ¬ stop c

def separated (sep : α) : List (List α) → List α
  | [] => []
  | [x] => x
  | x :: y :: rest => x ++ sep :: separated sep (y :: rest)

variable {stop}

@[simp] theorem stops_nil : Stops stop [] := nofun

@[simp] theorem stops_cons {c : α} {r : List α} : Stops stop (c :: r) ↔ stop c := by
  simp [Stops]

theorem Opens.ne_cons {x r s : List α} {c : α} (h : Opens stop x) (hStop : stop c) :
    x ++ r ≠ c :: s := by
  obtain ⟨d, hd, hNot⟩ := h
  cases x with
  | nil => simp at hd
  | cons e rest =>
    rintro hEq
    obtain ⟨rfl, -⟩ := List.cons.inj hEq
    rw [List.head?_cons, Option.mem_some_iff] at hd
    exact hNot (hd ▸ hStop)

/-- Words over other letters than the stops, read to the first stop. -/
theorem splits_of_forall_not {x y : List α} (hx : ∀ c ∈ x, ¬ stop c) (hy : ∀ c ∈ y, ¬ stop c) :
    Splits stop x y := by
  intro r s hr hs h
  induction x generalizing y with
  | nil =>
    cases y with
    | nil => exact ⟨rfl, h⟩
    | cons d y =>
      rw [List.nil_append] at h
      rw [h, List.cons_append, stops_cons] at hr
      exact absurd hr (hy d List.mem_cons_self)
  | cons c x ih =>
    cases y with
    | nil =>
      rw [List.nil_append] at h
      rw [← h, List.cons_append, stops_cons] at hs
      exact absurd hs (hx c List.mem_cons_self)
    | cons d y =>
      obtain ⟨rfl, hRest⟩ := List.cons.inj h
      obtain ⟨rfl, hTail⟩ := ih (fun e he => hx e (List.mem_cons_of_mem c he))
        (fun e he => hy e (List.mem_cons_of_mem c he)) hRest
      exact ⟨rfl, hTail⟩

/-- Words that start with different letters never meet. -/
theorem splits_of_head_ne {x y : List α} {c d : α} (hx : x.head? = some c)
    (hy : y.head? = some d) (hne : c ≠ d) : Splits stop x y := by
  intro r s _ _ h
  cases x with
  | nil => simp at hx
  | cons e x =>
    cases y with
    | nil => simp at hy
    | cons f y =>
      rw [List.head?_cons, Option.some.injEq] at hx hy
      exact absurd (hx.symm.trans ((List.cons.inj h).1.trans hy)) hne

theorem separated_cons (sep : α) (x : List α) (xs : List (List α)) :
    separated sep (x :: xs) = x ++ (if xs = [] then [] else sep :: separated sep xs) := by
  cases xs with
  | nil => simp [separated]
  | cons y rest => simp [separated]

theorem separated_unique {sep close : α} (hSep : stop sep) (hClose : stop close)
    (hNe : sep ≠ close) {xs ys : List (List α)} {r s : List α}
    (hSplits : ∀ x ∈ xs, ∀ y ∈ ys, Splits stop x y) (hxs : ∀ x ∈ xs, Opens stop x)
    (hys : ∀ y ∈ ys, Opens stop y)
    (h : separated sep xs ++ close :: r = separated sep ys ++ close :: s) :
    xs = ys ∧ r = s := by
  induction xs generalizing ys with
  | nil =>
    cases ys with
    | nil => exact ⟨rfl, (List.cons.inj h).2⟩
    | cons y ys =>
      rw [separated_cons, List.append_assoc] at h
      exact absurd h.symm ((hys y List.mem_cons_self).ne_cons hClose)
  | cons x xs ih =>
    cases ys with
    | nil =>
      rw [separated_cons, List.append_assoc] at h
      exact absurd h ((hxs x List.mem_cons_self).ne_cons hClose)
    | cons y ys =>
      rw [separated_cons, separated_cons, List.append_assoc, List.append_assoc] at h
      obtain ⟨rfl, hTail⟩ := hSplits x List.mem_cons_self y List.mem_cons_self _ _
        (by split <;> simp [hSep, hClose]) (by split <;> simp [hSep, hClose]) h
      by_cases hxsNil : xs = []
      · by_cases hysNil : ys = []
        · subst hxsNil hysNil
          exact ⟨rfl, by simpa using hTail⟩
        · rw [if_pos hxsNil, if_neg hysNil] at hTail
          exact absurd (List.cons.inj hTail).1.symm hNe
      · by_cases hysNil : ys = []
        · rw [if_neg hxsNil, if_pos hysNil] at hTail
          exact absurd (List.cons.inj hTail).1 hNe
        · rw [if_neg hxsNil, if_neg hysNil] at hTail
          obtain ⟨rfl, hEnd⟩ := ih
            (fun a ha b hb => hSplits a (List.mem_cons_of_mem x ha) b (List.mem_cons_of_mem x hb))
            (fun a ha => hxs a (List.mem_cons_of_mem x ha))
            (fun b hb => hys b (List.mem_cons_of_mem x hb)) (List.cons.inj hTail).2
          exact ⟨rfl, hEnd⟩

end PrefixCode
