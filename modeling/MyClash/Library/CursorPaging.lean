import Mathlib.Data.List.Sort
import Mathlib.Data.List.Perm.Basic

/-!
# Paging by a cursor

Rows are answered in the order of a key, cut by count, and the next page is asked for after the
key of the last row. Rows with one key come in any order, and one that a page has no room for is
never asked for again: nothing is lost just when no page ends between two rows of one key.
-/

namespace CursorPaging

variable {α : Type*} {κ : Type*} [LinearOrder κ] (key : α → κ) (size : ℕ)

/-- The first rows of `rows`, in one of their orders. -/
def IsPage (rows page : List α) : Prop :=
  ∃ ordered : List α, ordered.Perm rows ∧ ordered.Pairwise (fun a b => key a ≤ key b) ∧
    page = ordered.take size

def after (cursor : κ) (rows : List α) : List α := rows.filter fun a => decide (cursor < key a)

/-- Pages are followed until one is short. -/
inductive Follows : List α → List α → Prop
  | last {rows page : List α} (hPage : IsPage key size rows page) (hShort : page.length < size) :
      Follows rows page
  | more {rows page later : List α} {a : α} (hPage : IsPage key size rows page)
      (hFull : page.length = size) (hLast : page.getLast? = some a)
      (hLater : Follows (after key (key a) rows) later) : Follows rows (page ++ later)

def below (cursor : κ) (rows : List α) : ℕ := rows.countP fun a => decide (key a < cursor)

def upTo (cursor : κ) (rows : List α) : ℕ := rows.countP fun a => decide (key a ≤ cursor)

/-- No multiple of the page size lies strictly within the rows of one key. -/
def Separated (rows : List α) : Prop :=
  ∀ cursor k, ¬(below key cursor rows < size * k ∧ size * k < upTo key cursor rows)

variable {key size} {rows page later shown : List α} {a : α}

theorem IsPage.perm_of_short (h : IsPage key size rows page) (hShort : page.length < size) :
    page.Perm rows := by
  obtain ⟨ordered, hPerm, -, rfl⟩ := h
  rw [List.length_take] at hShort
  rw [List.take_of_length_le (by omega)]
  exact hPerm

theorem IsPage.pairwise (h : IsPage key size rows page) :
    page.Pairwise (fun a b => key a ≤ key b) := by
  obtain ⟨ordered, -, hOrdered, rfl⟩ := h
  exact hOrdered.sublist (List.take_sublist _ _)

/-- A full page ends with its greatest key, and what it has no room for comes no earlier. -/
theorem IsPage.split (h : IsPage key size rows page) (hLast : page.getLast? = some a) :
    ∃ rest, (page ++ rest).Perm rows ∧ (∀ b ∈ page, key b ≤ key a) ∧
      ∀ b ∈ rest, key a ≤ key b := by
  obtain ⟨ordered, hPerm, hOrdered, rfl⟩ := h
  refine ⟨ordered.drop size, by rwa [List.take_append_drop], fun b hb => ?_, fun b hb => ?_⟩
  · obtain ⟨front, hFront⟩ := List.getLast?_eq_some_iff.mp hLast
    have hPage := hOrdered.sublist (List.take_sublist size ordered)
    rw [hFront] at hb hPage
    rcases List.mem_append.mp hb with hb | hb
    · exact (List.pairwise_append.mp hPage).2.2 b hb a List.mem_cons_self
    · rw [List.mem_singleton.mp hb]
  · rw [← List.take_append_drop size ordered] at hOrdered
    exact (List.pairwise_append.mp hOrdered).2.2 a (List.mem_of_getLast? hLast) b hb

theorem below_append (cursor : κ) (l l' : List α) :
    below key cursor (l ++ l') = below key cursor l + below key cursor l' := List.countP_append

theorem upTo_append (cursor : κ) (l l' : List α) :
    upTo key cursor (l ++ l') = upTo key cursor l + upTo key cursor l' := List.countP_append

theorem separated_congr (h : shown.Perm rows) : Separated key size shown ↔
    Separated key size rows := by
  simp only [Separated, below, upTo, h.countP_eq]

theorem below_eq_zero {cursor : κ} (h : ∀ b ∈ rows, cursor ≤ key b) : below key cursor rows = 0 :=
  List.countP_eq_zero.mpr fun b hb => by simpa using h b hb

theorem upTo_eq_zero {cursor : κ} (h : ∀ b ∈ rows, cursor < key b) : upTo key cursor rows = 0 :=
  List.countP_eq_zero.mpr fun b hb => by simpa using h b hb

theorem below_eq_length {cursor : κ} (h : ∀ b ∈ rows, key b < cursor) :
    below key cursor rows = rows.length :=
  List.countP_eq_length.mpr fun b hb => by simpa using h b hb

theorem upTo_eq_length {cursor : κ} (h : ∀ b ∈ rows, key b ≤ cursor) :
    upTo key cursor rows = rows.length :=
  List.countP_eq_length.mpr fun b hb => by simpa using h b hb

/-- A short list ends before a page does. -/
theorem separated_of_short (h : rows.length < size) : Separated key size rows := by
  rintro cursor k ⟨hBelow, hUpTo⟩
  have hLe : upTo key cursor rows ≤ rows.length := List.countP_le_length
  have hPos : 0 < k := Nat.pos_of_mul_pos_left (by omega : 0 < size * k)
  have hSize : size * 1 ≤ size * k := Nat.mul_le_mul_left size hPos
  omega

/-- A full page of smaller keys does not matter to where the later ones end. -/
theorem separated_append {cursor : κ} (hFull : page.length = size)
    (hPage : ∀ b ∈ page, key b ≤ cursor) (hLater : ∀ b ∈ later, cursor < key b) :
    Separated key size (page ++ later) ↔ Separated key size later := by
  constructor
  · rintro h t k ⟨hBelow, hUpTo⟩
    have hAfter : cursor < t := by
      by_contra hNot
      rw [upTo_eq_zero fun b hb => (not_lt.mp hNot).trans_lt (hLater b hb)] at hUpTo
      omega
    refine h t (k + 1) ?_
    rw [below_append, upTo_append, below_eq_length fun b hb => (hPage b hb).trans_lt hAfter,
      upTo_eq_length fun b hb => (hPage b hb).trans hAfter.le, hFull, Nat.mul_add_one]
    omega
  · rintro h t k ⟨hBelow, hUpTo⟩
    rw [below_append] at hBelow
    rw [upTo_append] at hUpTo
    have hPos : 0 < k := Nat.pos_of_mul_pos_left (by omega : 0 < size * k)
    obtain ⟨k, rfl⟩ := Nat.exists_eq_add_one.mpr hPos
    rw [Nat.mul_add_one] at hBelow hUpTo
    have hAfter : cursor < t := by
      by_contra hNot
      rw [upTo_eq_zero fun b hb => (not_lt.mp hNot).trans_lt (hLater b hb)] at hUpTo
      have hLe : upTo key t page ≤ page.length := List.countP_le_length
      omega
    rw [below_eq_length fun b hb => (hPage b hb).trans_lt hAfter] at hBelow
    rw [upTo_eq_length fun b hb => (hPage b hb).trans hAfter.le] at hUpTo
    exact h t k (by omega)

/-- The rows after a full page, where it ends between two keys. -/
theorem after_perm {rest : List α} (hPerm : (page ++ rest).Perm rows)
    (hPage : ∀ b ∈ page, key b ≤ key a) : (after key (key a) rest).Perm (after key (key a) rows) := by
  have hNone : after key (key a) page = [] :=
    List.filter_eq_nil_iff.mpr fun b hb => by simpa using hPage b hb
  have hFilter := hPerm.filter fun b => decide (key a < key b)
  rwa [List.filter_append, show page.filter _ = [] from hNone, List.nil_append] at hFilter

/-- One page's end loses no row just when none of its last key is left over. -/
theorem Separated.rest_lt {rest : List α} (h : Separated key size rows)
    (hFull : page.length = size) (hLast : page.getLast? = some a)
    (hPerm : (page ++ rest).Perm rows) (hPage : ∀ b ∈ page, key b ≤ key a)
    (hRest : ∀ b ∈ rest, key a ≤ key b) : ∀ b ∈ rest, key a < key b := by
  have hBelow : below key (key a) page < page.length := by
    refine lt_of_le_of_ne List.countP_le_length fun hAll => ?_
    have hMem := List.countP_eq_length.mp hAll a (List.mem_of_getLast? hLast)
    exact absurd (of_decide_eq_true hMem) (lt_irrefl _)
  have hUpTo : upTo key (key a) rest = 0 := by
    by_contra hSome
    refine (separated_congr hPerm).mpr h (key a) 1 ?_
    rw [below_append, upTo_append, below_eq_zero hRest, upTo_eq_length hPage]
    omega
  intro b hb
  have hNot := List.countP_eq_zero.mp hUpTo b hb
  simpa using hNot

/-- No row is shown twice. -/
theorem Follows.subperm (h : Follows key size rows shown) : List.Subperm shown rows := by
  induction h with
  | last hPage hShort => exact (hPage.perm_of_short hShort).subperm
  | @more rows page later a hPage hFull hLast hLater ih =>
    obtain ⟨rest, hPerm, hBelow, -⟩ := hPage.split hLast
    have hRest : List.Subperm later rest :=
      (ih.trans (after_perm hPerm hBelow).symm.subperm).trans List.filter_sublist.subperm
    exact ((List.subperm_append_left page).mpr hRest).trans hPerm.subperm

/-- The pages show every row once just when none of them ends within the rows of one key. -/
theorem Follows.perm_iff (h : Follows key size rows shown) :
    shown.Perm rows ↔ Separated key size rows := by
  induction h with
  | last hPage hShort =>
    have hPerm := hPage.perm_of_short hShort
    exact iff_of_true hPerm (separated_of_short (hPerm.length_eq ▸ hShort))
  | @more rows page later a hPage hFull hLast hLater ih =>
    obtain ⟨rest, hPerm, hBelow, hAbove⟩ := hPage.split hLast
    have hAfter := after_perm hPerm hBelow
    constructor
    · intro hShown
      have hLaterRest : later.Perm rest :=
        (List.perm_append_left_iff page).mp (hShown.trans hPerm.symm)
      have hLe := hLater.subperm.length_le
      rw [hLaterRest.length_eq, ← hAfter.length_eq] at hLe
      have hSelf : after key (key a) rest = rest :=
        List.filter_eq_self.mpr fun b hb => by
          have hAll := List.length_filter_eq_length_iff.mp
            (le_antisymm (List.length_filter_le _ _) hLe)
          exact hAll b hb
      rw [hSelf] at hAfter
      have hLt : ∀ b ∈ rest, key a < key b := fun b hb =>
        of_decide_eq_true (List.filter_eq_self.mp hSelf b hb)
      rw [← separated_congr hPerm, separated_append hFull hBelow hLt, separated_congr hAfter]
      exact ih.mp (hLaterRest.trans hAfter)
    · intro hSeparated
      have hLt := hSeparated.rest_lt hFull hLast hPerm hBelow hAbove
      have hSelf : after key (key a) rest = rest :=
        List.filter_eq_self.mpr fun b hb => decide_eq_true (hLt b hb)
      rw [hSelf] at hAfter
      rw [← separated_congr hPerm, separated_append hFull hBelow hLt, separated_congr hAfter]
        at hSeparated
      exact (((ih.mpr hSeparated).trans hAfter.symm).append_left page).trans hPerm

/-- The pages show their rows in the order of the key. -/
theorem Follows.pairwise (h : Follows key size rows shown) :
    shown.Pairwise (fun a b => key a ≤ key b) := by
  induction h with
  | last hPage hShort => exact hPage.pairwise
  | more hPage hFull hLast hLater ih =>
    obtain ⟨rest, -, hBelow, -⟩ := hPage.split hLast
    refine List.pairwise_append.mpr ⟨hPage.pairwise, ih, fun b hb c hc => ?_⟩
    have hAfter := (List.mem_filter.mp (hLater.subperm.subset hc)).2
    exact (hBelow b hb).trans (of_decide_eq_true hAfter).le

theorem exists_isPage (key : α → κ) (size : ℕ) (rows : List α) :
    ∃ page, IsPage key size rows page ∧ page.length = min size rows.length := by
  refine ⟨(rows.insertionSort fun a b => key a ≤ key b).take size,
    ⟨_, List.perm_insertionSort _ _, ?_, rfl⟩, ?_⟩
  · exact List.pairwise_insertionSort (fun a b => key a ≤ key b) rows
  · rw [List.length_take, List.length_insertionSort]

/-- Following the pages comes to an end. -/
theorem exists_follows (key : α → κ) (hSize : 0 < size) (rows : List α) :
    ∃ shown, Follows key size rows shown := by
  induction hCount : rows.length using Nat.strong_induction_on generalizing rows with
  | _ n ih =>
    obtain ⟨page, hPage, hLength⟩ := exists_isPage key size rows
    by_cases hShort : page.length < size
    · exact ⟨page, .last hPage hShort⟩
    · obtain ⟨a, hLast⟩ := Option.isSome_iff_exists.mp
        (List.getLast?_isSome.mpr (List.ne_nil_of_length_pos (by omega : 0 < page.length)))
      have hFewer : (after key (key a) rows).length < n := by
        rw [← hCount]
        obtain ⟨rest, hPerm, -, -⟩ := hPage.split hLast
        refine List.length_filter_lt_length_iff_exists.mpr ⟨a, ?_, by simp⟩
        exact hPerm.subset (List.mem_append_left rest (List.mem_of_getLast? hLast))
      obtain ⟨later, hLater⟩ := ih _ hFewer _ rfl
      exact ⟨page ++ later, .more hPage (by omega) hLast hLater⟩

end CursorPaging
