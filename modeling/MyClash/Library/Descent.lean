import Mathlib.Order.Basic

/-!
# Descent by random proposals

A search that proposes a neighbour of what it holds and takes it only where it costs less. What
every proposal keeps the search keeps, and the cost never rises.
-/

namespace Descent

universe u v w

structure Search (α : Type u) (σ : Type v) (R : Type w) where
  random : σ
  current : α
  currentCost : R

variable {α : Type u} {σ : Type v} {R : Type w}

section Step

variable [LT R] [DecidableLT R]

def attempt (cost : α → R) (propose : σ → α → Option α × σ) (s : Search α σ R) : Search α σ R :=
  match propose s.random s.current with
  | (none, random) => { s with random := random }
  | (some candidate, random) =>
    if cost candidate < s.currentCost then ⟨random, candidate, cost candidate⟩
    else { s with random := random }

def attempts (cost : α → R) (propose : σ → α → Option α × σ) : ℕ → Search α σ R → Search α σ R
  | 0, s => s
  | k + 1, s => attempts cost propose k (attempt cost propose s)

end Step

variable [Preorder R] [DecidableLT R] {cost : α → R} {propose : σ → α → Option α × σ}

theorem attempt_invariant {P : α → Prop}
    (hPropose : ∀ random a candidate, (propose random a).1 = some candidate → P a → P candidate)
    {s : Search α σ R} (h : P s.current) : P (attempt cost propose s).current := by
  rw [attempt]
  split
  next => exact h
  next hProposed =>
    split
    · exact hPropose _ _ _ (congrArg Prod.fst hProposed) h
    · exact h

theorem attempts_invariant {P : α → Prop}
    (hPropose : ∀ random a candidate, (propose random a).1 = some candidate → P a → P candidate)
    (k : ℕ) {s : Search α σ R} (h : P s.current) : P (attempts cost propose k s).current := by
  induction k generalizing s with
  | zero => exact h
  | succ k ih => exact ih (attempt_invariant hPropose h)

/-- The cost held is that of what is held, and no more than at the start. -/
structure Sinks (cost : α → R) (bound : R) (s : Search α σ R) : Prop where
  held : s.currentCost = cost s.current
  notAbove : ¬bound < s.currentCost

theorem Sinks.attempt {bound : R} {s : Search α σ R} (h : Sinks cost bound s) :
    Sinks cost bound (Descent.attempt cost propose s) := by
  rw [Descent.attempt]
  split
  next => exact ⟨h.held, h.notAbove⟩
  next =>
    split
    next hLess => exact ⟨rfl, fun hAbove => h.notAbove (hAbove.trans hLess)⟩
    next => exact ⟨h.held, h.notAbove⟩

theorem Sinks.attempts {bound : R} (k : ℕ) {s : Search α σ R} (h : Sinks cost bound s) :
    Sinks cost bound (Descent.attempts cost propose k s) := by
  induction k generalizing s with
  | zero => exact h
  | succ k ih => exact ih h.attempt

theorem not_cost_lt_attempts (cost : α → R) (propose : σ → α → Option α × σ) (k : ℕ) (random : σ)
    (start : α) :
    ¬cost start < cost (attempts cost propose k ⟨random, start, cost start⟩).current := by
  have hSinks : Sinks cost (cost start) (attempts cost propose k ⟨random, start, cost start⟩) :=
    Sinks.attempts k ⟨rfl, lt_irrefl _⟩
  rw [← hSinks.held]
  exact hSinks.notAbove

end Descent
