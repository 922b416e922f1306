import MyClash.Referees.Checker
import Mathlib.Data.PNat.Basic
import Mathlib.Order.Bounds.Basic

/-!
# A Match's time window, and the hull of a run of Matches

A window is half-open. A run of Matches has no time of its own: it spans from the earliest start
to the latest end, whatever the order of its Matches.
-/

namespace MyClash.Schedule

open Referees (TimeWindowMs)

/-- Timestamps as text, read and written. What is written reads back as the same instant. -/
structure IsoClock (τ : Type*) where
  getTime : τ → ℤ
  toISOString : ℤ → τ
  getTime_toISOString : ∀ ms, getTime (toISOString ms) = ms

attribute [simp] IsoClock.getTime_toISOString

/-- A length that is not a positive number of minutes is refused by the source: here it is none. -/
@[simps]
def matchWindowMs (startMs : ℤ) (plannedDurationMinutes : ℕ+) : TimeWindowMs where
  startMs := startMs
  endMs := startMs + plannedDurationMinutes * 60000

def widen (hull w : TimeWindowMs) : TimeWindowMs where
  startMs := if w.startMs < hull.startMs then w.startMs else hull.startMs
  endMs := if w.endMs > hull.endMs then w.endMs else hull.endMs

/-- Earliest start to latest end; none when there is no window. -/
def hullMs : List TimeWindowMs → Option TimeWindowMs
  | [] => none
  | w :: windows => some (windows.foldl widen w)

/-! ## The hull of a set of windows -/

/-- The window goes from the earliest start to the latest end. -/
structure IsHull (windows : Set TimeWindowMs) (hull : TimeWindowMs) : Prop where
  earliest : IsLeast (TimeWindowMs.startMs '' windows) hull.startMs
  latest : IsGreatest (TimeWindowMs.endMs '' windows) hull.endMs

variable {windows : Set TimeWindowMs} {hull w : TimeWindowMs}

theorem widen_startMs : (widen hull w).startMs = min w.startMs hull.startMs := by
  rw [widen]
  grind

theorem widen_endMs : (widen hull w).endMs = max w.endMs hull.endMs := by
  rw [widen]
  grind

theorem IsHull.widen (h : IsHull windows hull) (w : TimeWindowMs) :
    IsHull (insert w windows) (Schedule.widen hull w) where
  earliest := by
    rw [widen_startMs, Set.image_insert_eq]
    exact h.earliest.insert w.startMs
  latest := by
    rw [widen_endMs, Set.image_insert_eq]
    exact h.latest.insert w.endMs

theorem IsHull.foldl (h : IsHull windows hull) (later : List TimeWindowMs) :
    IsHull (windows ∪ {v | v ∈ later}) (later.foldl Schedule.widen hull) := by
  induction later generalizing windows hull with
  | nil => simpa using h
  | cons w later ih =>
    have hSet : windows ∪ {v | v ∈ w :: later} = insert w windows ∪ {v | v ∈ later} := by
      ext v
      simp only [Set.mem_union, Set.mem_ofPred_eq, List.mem_cons, Set.mem_insert_iff]
      tauto
    rw [hSet]
    exact ih (h.widen w)

theorem isHull_of_hullMs {windows : List TimeWindowMs} (h : hullMs windows = some hull) :
    IsHull {w | w ∈ windows} hull := by
  cases windows with
  | nil => cases h
  | cons w windows =>
    cases h
    have hOne : IsHull {w} w := ⟨by simp, by simp⟩
    have hSet : {v | v ∈ w :: windows} = {w} ∪ {v | v ∈ windows} := by
      ext v
      simp
    rw [hSet]
    exact hOne.foldl windows

@[simp] theorem hullMs_eq_none_iff {windows : List TimeWindowMs} :
    hullMs windows = none ↔ windows = [] := by
  cases windows <;> simp [hullMs]

end MyClash.Schedule
