import Mathlib.Data.List.Nodup
import Mathlib.Data.List.Range
import Mathlib.Data.Int.Order.Basic

/-!
# Queues that number their members

Each member of a queue has a number. A queue is numbered when its numbers are `1, 2, 3, …` in the
order it stands in. Members renumber one at a time; where a table keeps the numbers apart and above
zero, a number that is taken or too low is refused and nothing changes.
-/

namespace NumberedQueue

universe u

variable {κ : Type u}

abbrev Queue (κ : Type u) := List (κ × ℤ)

/-- The numbers a queue of the length has, from `start` on. -/
def numbersFrom (start : ℤ) : ℕ → List ℤ
  | 0 => []
  | n + 1 => start :: numbersFrom (start + 1) n

def Numbered (queue : Queue κ) : Prop := queue.map Prod.snd = numbersFrom 1 queue.length

@[simp] theorem length_numbersFrom (start : ℤ) (n : ℕ) : (numbersFrom start n).length = n := by
  induction n generalizing start with
  | zero => rfl
  | succ n ih => rw [numbersFrom, List.length_cons, ih]

theorem mem_numbersFrom {start p : ℤ} {n : ℕ} :
    p ∈ numbersFrom start n ↔ start ≤ p ∧ p < start + n := by
  induction n generalizing start with
  | zero => simp [numbersFrom]
  | succ n ih =>
    rw [numbersFrom, List.mem_cons, ih]
    omega

theorem numbersFrom_append (start : ℤ) (m n : ℕ) :
    numbersFrom start (m + n) = numbersFrom start m ++ numbersFrom (start + m) n := by
  induction m generalizing start with
  | zero => simp [numbersFrom]
  | succ m ih =>
    rw [Nat.add_right_comm, numbersFrom, ih, numbersFrom, List.cons_append]
    congr 3
    push_cast
    omega

theorem pairwise_numbersFrom (start : ℤ) (n : ℕ) : (numbersFrom start n).Pairwise (· < ·) := by
  induction n generalizing start with
  | zero => exact List.Pairwise.nil
  | succ n ih =>
    refine List.pairwise_cons.mpr ⟨fun p hp => ?_, ih _⟩
    have hp := mem_numbersFrom.mp hp
    omega

theorem map_numbersFrom_sub_one (start : ℤ) (n : ℕ) :
    (numbersFrom (start + 1) n).map (· - 1) = numbersFrom start n := by
  induction n generalizing start with
  | zero => rfl
  | succ n ih => rw [numbersFrom, numbersFrom, List.map_cons, ih, Int.add_sub_cancel]

theorem Numbered.nil : Numbered ([] : Queue κ) := rfl

theorem Numbered.pairwise {queue : Queue κ} (h : Numbered queue) :
    queue.Pairwise fun a b => a.2 < b.2 :=
  List.pairwise_map.mp (h.symm ▸ pairwise_numbersFrom 1 queue.length)

theorem Numbered.number_mem {queue : Queue κ} (h : Numbered queue) {x : κ × ℤ} (hx : x ∈ queue) :
    1 ≤ x.2 ∧ x.2 ≤ queue.length := by
  have hMem := List.mem_map_of_mem (f := Prod.snd) hx
  rw [h, mem_numbersFrom] at hMem
  omega

/-- A number up to the length is somebody's. -/
theorem Numbered.exists_of_le {queue : Queue κ} (h : Numbered queue) {p : ℤ} (hFirst : 1 ≤ p)
    (hLast : p ≤ queue.length) : ∃ x ∈ queue, x.2 = p := by
  have hMem : p ∈ queue.map Prod.snd := by
    rw [h, mem_numbersFrom]
    omega
  exact List.mem_map.mp hMem

theorem Numbered.append_last {queue : Queue κ} (h : Numbered queue) (key : κ) :
    Numbered (queue ++ [(key, (queue.length : ℤ) + 1)]) := by
  rw [Numbered, List.map_append, h, List.length_append, List.length_singleton,
    numbersFrom_append, Int.add_comm 1]
  rfl

/-- The last number is the length. -/
theorem Numbered.last {queue : Queue κ} (h : Numbered queue) :
    (queue.getLast?.map Prod.snd).getD 0 = queue.length := by
  rw [← List.getLast?_map, h]
  cases hLength : queue.length with
  | zero => rfl
  | succ n =>
    rw [numbersFrom_append 1 n 1, numbersFrom, List.getLast?_append]
    simp [numbersFrom]
    omega

/-! ## Numbers one at a time -/

section Place

variable [DecidableEq κ]

/-- The member takes the number, where it is free. -/
def place (key : κ) (p : ℤ) (queue : Queue κ) : Queue κ :=
  if 1 ≤ p ∧ ∀ x ∈ queue, x.1 ≠ key → x.2 ≠ p then
    queue.map fun x => if x.1 = key then (x.1, p) else x
  else queue

/-- Each member in turn moves up by one. -/
def moveUp (queue : Queue κ) (members : Queue κ) : Queue κ :=
  members.foldl (fun queue x => place x.1 (x.2 - 1) queue) queue

theorem place_of_lt_one {p : ℤ} (key : κ) (queue : Queue κ) (h : p < 1) :
    place key p queue = queue := if_neg fun hFree => absurd hFree.1 (by omega)

theorem map_place_of_notMem {key : κ} (p : ℤ) {queue : Queue κ} (h : key ∉ queue.map Prod.fst) :
    queue.map (fun x => if x.1 = key then (x.1, p) else x) = queue := by
  refine (List.map_congr_left fun x hx => if_neg ?_).trans (List.map_id' queue)
  rintro rfl
  exact h (List.mem_map_of_mem hx)

theorem place_of_notMem {key : κ} (p : ℤ) {queue : Queue κ} (h : key ∉ queue.map Prod.fst) :
    place key p queue = queue := by
  rw [place, map_place_of_notMem p h, ite_self]

/-- In a numbered queue every number up to the length is taken, so none is given. -/
theorem place_of_numbered {queue : Queue κ} (hKeys : (queue.map Prod.fst).Nodup)
    (hNumbered : Numbered queue) (key : κ) {p : ℤ} (h : p ≤ queue.length) :
    place key p queue = queue := by
  by_cases hLow : p < 1
  · exact place_of_lt_one key queue hLow
  · obtain ⟨holder, hHolder, rfl⟩ := hNumbered.exists_of_le (Int.not_lt.mp hLow) h
    by_cases hOwn : holder.1 = key
    · -- the number is the member's own
      rw [place]
      split_ifs with hFree
      · refine (List.map_congr_left fun x hx => ?_).trans (List.map_id' queue)
        split_ifs with hKey
        · exact (List.inj_on_of_nodup_map hKeys hHolder hx (hOwn.trans hKey.symm)).symm ▸ rfl
        · rfl
      · rfl
    · exact if_neg fun hFree => hFree.2 holder hHolder hOwn rfl

/-- The members behind a gap close up, one after the other. -/
theorem moveUp_behind {before behind : Queue κ}
    (hKeys : ((before ++ behind).map Prod.fst).Nodup) (hBefore : Numbered before)
    (hBehind : behind.map Prod.snd = numbersFrom (before.length + 2) behind.length) :
    moveUp (before ++ behind) behind = before ++ behind.map fun x => (x.1, x.2 - 1) := by
  induction behind generalizing before with
  | nil => rfl
  | cons x behind ih =>
    rw [List.map_cons, List.length_cons, numbersFrom, List.cons.injEq] at hBehind
    obtain ⟨hFirst, hRest⟩ := hBehind
    have hOther : x.1 ∉ before.map Prod.fst ++ behind.map Prod.fst := by
      rw [List.map_append, List.map_cons, List.nodup_middle, List.nodup_cons] at hKeys
      exact hKeys.1
    have hFree : 1 ≤ x.2 - 1 ∧ ∀ y ∈ before ++ x :: behind, y.1 ≠ x.1 → y.2 ≠ x.2 - 1 := by
      refine ⟨by omega, fun y hy hKey => ?_⟩
      rcases List.mem_append.mp hy with hy | hy
      · have hLast := (hBefore.number_mem hy).2
        omega
      · rcases List.mem_cons.mp hy with rfl | hy
        · exact absurd rfl hKey
        · have hMem := List.mem_map_of_mem (f := Prod.snd) hy
          rw [hRest, mem_numbersFrom] at hMem
          omega
    have hPlaced : place x.1 (x.2 - 1) (before ++ x :: behind) =
        (before ++ [(x.1, x.2 - 1)]) ++ behind := by
      rw [place, if_pos hFree, List.map_append, List.map_cons, if_pos rfl, List.append_assoc]
      rw [map_place_of_notMem _ (mt (List.mem_append_left _) hOther),
        map_place_of_notMem _ (mt (List.mem_append_right _) hOther)]
      rfl
    rw [moveUp, List.foldl_cons, hPlaced, ← moveUp, ih]
    · exact List.append_assoc ..
    · simpa using hKeys
    · have hNext : x.2 - 1 = (before.length : ℤ) + 1 := by omega
      rw [hNext]
      exact hBefore.append_last x.1
    · rw [hRest, List.length_append, List.length_singleton]
      congr 1

/-- A numbered queue one of whose members left is numbered again once those behind it moved up. -/
theorem Numbered.moveUp {before behind : Queue κ} {x : κ × ℤ}
    (hKeys : ((before ++ x :: behind).map Prod.fst).Nodup)
    (h : Numbered (before ++ x :: behind)) :
    NumberedQueue.moveUp (before ++ behind) behind =
        before ++ behind.map (fun y => (y.1, y.2 - 1)) ∧
      Numbered (before ++ behind.map fun y => (y.1, y.2 - 1)) := by
  rw [Numbered, List.map_append, List.length_append, numbersFrom_append] at h
  obtain ⟨hBefore, hRest⟩ := List.append_inj h (by simp)
  rw [List.map_cons, List.length_cons, numbersFrom, List.cons.injEq] at hRest
  have hKeys' : ((before ++ behind).map Prod.fst).Nodup := by
    rw [List.map_append, List.map_cons, List.nodup_middle, ← List.map_append,
      List.nodup_cons] at hKeys
    exact hKeys.2
  refine ⟨moveUp_behind hKeys' hBefore ?_, ?_⟩
  · rw [hRest.2]
    congr 1
    omega
  · have hClosed : (behind.map fun y => (y.1, y.2 - 1)).map Prod.snd =
        numbersFrom (1 + before.length) behind.length := by
      rw [List.map_map, ← map_numbersFrom_sub_one, ← hRest.2, List.map_map]
      rfl
    rw [Numbered, List.map_append, hBefore, hClosed, List.length_append, List.length_map,
      numbersFrom_append]

end Place

end NumberedQueue
