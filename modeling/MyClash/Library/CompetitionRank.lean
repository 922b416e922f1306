import Mathlib.Data.List.Chain
import Mathlib.Order.Defs.LinearOrder

/-!
# Standard competition numbering

Going down a sorted list, a level element shares the place of the one above and the next one down
skips it. The place is then one more than the number of elements ahead.
-/

namespace CompetitionRank

universe u

variable {α : Type u}

/-- `previous` is the element above with its place, `index` the position of the next element. -/
def numberFrom (tied : α → α → Bool) : Option (α × ℕ) → ℕ → List α → List ℕ
  | _, _, [] => []
  | previous, index, a :: l =>
    let rank :=
      match previous with
      | none => index + 1
      | some (above, previousRank) => if tied above a then previousRank else index + 1
    rank :: numberFrom tied (some (a, rank)) (index + 1) l

def number (tied : α → α → Bool) (l : List α) : List ℕ := numberFrom tied none 0 l

variable {cmp : α → α → Ordering}

/-- One more than the number of elements ahead. -/
def place (cmp : α → α → Ordering) (l : List α) (a : α) : ℕ := 1 + l.countP fun b => cmp b a = .lt

@[simp] theorem length_numberFrom (tied : α → α → Bool) (previous : Option (α × ℕ)) (index : ℕ)
    (l : List α) : (numberFrom tied previous index l).length = l.length := by
  induction l generalizing previous index with
  | nil => rfl
  | cons a l ih => simp only [numberFrom, List.length_cons, ih]

section Trans

variable [Std.TransCmp cmp] {tied : α → α → Bool}

theorem place_congr (l : List α) {a b : α} (h : cmp a b = .eq) : place cmp l a = place cmp l b := by
  rw [place, place]
  congr 2
  funext c
  rw [decide_eq_decide]
  constructor
  · exact fun hca => Std.TransCmp.lt_of_lt_of_eq hca h
  · exact fun hcb => Std.TransCmp.lt_of_lt_of_eq hcb (Std.OrientedCmp.eq_symm h)

theorem place_lt {l : List α} {a b : α} (ha : a ∈ l) (h : cmp a b = .lt) :
    place cmp l a < place cmp l b := by
  have hMono : ∀ l' : List α, l'.countP (fun c => cmp c a = .lt) ≤
      l'.countP (fun c => cmp c b = .lt) := fun l' => List.countP_mono_left fun c _ hca =>
    decide_eq_true (Std.TransCmp.lt_trans (of_decide_eq_true hca) h)
  have hSelf : cmp a a ≠ .lt := by
    rw [(Std.ReflCmp.compare_self : cmp a a = .eq)]
    nofun
  obtain ⟨front, rest, rfl⟩ := List.append_of_mem ha
  have hFront := hMono front
  have hRest := hMono rest
  simp only [place, List.countP_append, List.countP_cons, h, hSelf]
  simp
  omega

/-- Two places are the same exactly for level elements. -/
theorem place_eq_iff {l : List α} {a b : α} (ha : a ∈ l) (hb : b ∈ l) :
    place cmp l a = place cmp l b ↔ cmp a b = .eq := by
  constructor
  · intro h
    cases hCmp : cmp a b with
    | lt => exact absurd h (place_lt ha hCmp).ne
    | eq => rfl
    | gt => exact absurd h (place_lt hb (Std.OrientedCmp.lt_of_gt hCmp)).ne'
  · exact place_congr l

/-- Nothing before is level, nothing after is ahead. -/
theorem place_concat {front rest : List α} {a : α}
    (hSorted : (front ++ a :: rest).Pairwise fun a b => (cmp a b).isLE)
    (hApart : ∀ b ∈ front, cmp b a ≠ .eq) :
    place cmp (front ++ a :: rest) a = front.length + 1 := by
  obtain ⟨_, hBehind, hAhead⟩ := List.pairwise_append.mp hSorted
  have hFront : front.countP (fun b => cmp b a = .lt) = front.length := by
    refine List.countP_eq_length.mpr fun b hb => decide_eq_true ?_
    cases hCmp : cmp b a with
    | lt => rfl
    | eq => exact absurd hCmp (hApart b hb)
    | gt =>
      have hLE := hAhead b hb a List.mem_cons_self
      rw [hCmp] at hLE
      cases hLE
  have hRest : (a :: rest).countP (fun b => cmp b a = .lt) = 0 := by
    refine List.countP_eq_zero.mpr fun b hb hLt => ?_
    have hLt := of_decide_eq_true hLt
    rcases List.mem_cons.mp hb with rfl | hb
    · rw [(Std.ReflCmp.compare_self : cmp b b = .eq)] at hLt
      cases hLt
    · have hLE := (List.pairwise_cons.mp hBehind).1 b hb
      rw [Std.OrientedCmp.gt_of_lt hLt] at hLE
      cases hLE
  rw [place, List.countP_append, hFront, hRest]
  omega

theorem numberFrom_eq (hTied : ∀ a b, tied a b = true ↔ cmp a b = .eq) {front : List α} {above : α}
    {rest : List α} (hSorted : (front ++ [above] ++ rest).Pairwise fun a b => (cmp a b).isLE) :
    numberFrom tied (some (above, place cmp (front ++ [above] ++ rest) above))
        (front ++ [above]).length rest =
      rest.map (place cmp (front ++ [above] ++ rest)) := by
  induction rest generalizing front above with
  | nil => rfl
  | cons a rest ih =>
    have hShift : front ++ [above] ++ a :: rest = front ++ [above] ++ [a] ++ rest := by simp
    have hRank : (if tied above a then place cmp (front ++ [above] ++ a :: rest) above
        else (front ++ [above]).length + 1) = place cmp (front ++ [above] ++ a :: rest) a := by
      split_ifs with h
      · exact place_congr _ ((hTied above a).mp h)
      · refine (place_concat hSorted fun b hb hEq => h ((hTied above a).mpr ?_)).symm
        obtain ⟨hFront, _, hAhead⟩ := List.pairwise_append.mp hSorted
        have hLE : (cmp b above).isLE := by
          rcases List.mem_append.mp hb with hMem | hMem
          · exact (List.pairwise_append.mp hFront).2.2 b hMem above (by simp)
          · rw [List.mem_singleton.mp hMem, (Std.ReflCmp.compare_self : cmp above above = .eq)]
            rfl
        have hBack : (cmp a b).isLE := by rw [Std.OrientedCmp.eq_symm hEq]; rfl
        exact Std.OrientedCmp.isLE_antisymm
          (hAhead above (List.mem_append_right _ List.mem_cons_self) a List.mem_cons_self)
          (Std.TransCmp.isLE_trans hBack hLE)
    rw [numberFrom, List.map_cons, hRank, hShift]
    have hRest := ih (hShift ▸ hSorted)
    rw [List.length_append, List.length_singleton] at hRest
    rw [hRest]

/-- The numbering gives each element its place. -/
theorem number_eq (hTied : ∀ a b, tied a b = true ↔ cmp a b = .eq) {l : List α}
    (hSorted : l.Pairwise fun a b => (cmp a b).isLE) : number tied l = l.map (place cmp l) := by
  cases l with
  | nil => rfl
  | cons a l =>
    have hFirst : place cmp ([] ++ a :: l) a = ([] : List α).length + 1 :=
      place_concat hSorted nofun
    have hRest : numberFrom tied (some (a, place cmp ([] ++ [a] ++ l) a)) ([] ++ [a]).length l =
        l.map (place cmp ([] ++ [a] ++ l)) := numberFrom_eq hTied hSorted
    change 1 :: numberFrom tied (some (a, 1)) 1 l = (a :: l).map (place cmp (a :: l))
    change place cmp (a :: l) a = 1 at hFirst
    change numberFrom tied (some (a, place cmp (a :: l) a)) 1 l = l.map (place cmp (a :: l))
      at hRest
    rw [hFirst] at hRest
    rw [hRest, List.map_cons, hFirst]

end Trans

end CompetitionRank
