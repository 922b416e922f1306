import Mathlib.Data.List.Basic

/-!
# Writes without a transaction

A program reads a state and says which writes it makes, and whether it refuses after them. Cut
short, only the first of its writes are there; sent again, it reads what they left.
-/

namespace CutShort

universe u v w

structure Sent (ω : Type v) (ε : Type w) where
  writes : List ω
  refusal : Option ε

variable {σ : Type u} {ω : Type v} {ε : Type w}

def Sent.nothing : Sent ω ε := ⟨[], none⟩

def Sent.write (writes : List ω) : Sent ω ε := ⟨writes, none⟩

def Sent.refuse (refusal : ε) : Sent ω ε := ⟨[], some refusal⟩

section Run

variable (run : ω → σ → σ)

def runAll (writes : List ω) (s : σ) : σ := writes.foldl (fun s write => run write s) s

/-- The state a program leaves. -/
def Sent.done (sent : Sent ω ε) (s : σ) : σ := runAll run sent.writes s

/-- The state a program leaves that is cut short after `k` writes. -/
def Sent.cut (sent : Sent ω ε) (k : ℕ) (s : σ) : σ := runAll run (sent.writes.take k) s

/-- The rest is asked of what the first writes leave; a refusal ends the program. -/
def Sent.andThen (s : σ) (sent : Sent ω ε) (rest : σ → Sent ω ε) : Sent ω ε :=
  match sent.refusal with
  | some _ => sent
  | none => ⟨sent.writes ++ (rest (sent.done run s)).writes, (rest (sent.done run s)).refusal⟩

end Run

variable {run : ω → σ → σ}

@[simp] theorem runAll_nil (s : σ) : runAll run [] s = s := rfl

@[simp] theorem runAll_cons (write : ω) (writes : List ω) (s : σ) :
    runAll run (write :: writes) s = runAll run writes (run write s) := rfl

theorem runAll_append (first rest : List ω) (s : σ) :
    runAll run (first ++ rest) s = runAll run rest (runAll run first s) := List.foldl_append

@[simp] theorem writes_nothing : (Sent.nothing : Sent ω ε).writes = [] := rfl

@[simp] theorem writes_write (writes : List ω) : (Sent.write writes : Sent ω ε).writes = writes := rfl

@[simp] theorem writes_refuse (refusal : ε) : (Sent.refuse refusal : Sent ω ε).writes = [] := rfl

@[simp] theorem refusal_write (writes : List ω) :
    (Sent.write writes : Sent ω ε).refusal = none := rfl

theorem andThen_write (s : σ) (writes : List ω) (rest : σ → Sent ω ε) :
    (Sent.write writes).andThen run s rest =
      ⟨writes ++ (rest (runAll run writes s)).writes, (rest (runAll run writes s)).refusal⟩ := rfl

/-! ## Writes on keys -/

section Keys

variable {κ : Type*} {β : Type*}

/-- A write is on one key: it changes what is seen there, by what is seen there. -/
structure Framed (run : ω → σ → σ) (on : ω → κ) (view : κ → σ → β) : Prop where
  other : ∀ write s k, on write ≠ k → view k (run write s) = view k s
  own : ∀ write s t, view (on write) s = view (on write) t →
    view (on write) (run write s) = view (on write) (run write t)

variable {on : ω → κ} {view : κ → σ → β} [DecidableEq κ]

theorem Framed.runAll_congr (h : Framed run on view) {k : κ} (writes : List ω) {s t : σ}
    (hSame : view k s = view k t) :
    view k (runAll run writes s) = view k (runAll run (writes.filter (on · = k)) t) := by
  induction writes generalizing s t with
  | nil => exact hSame
  | cons write writes ih =>
    by_cases hOn : on write = k
    · subst hOn
      rw [List.filter_cons_of_pos (by simp)]
      exact ih (h.own write s t hSame)
    · rw [List.filter_cons_of_neg (by simpa using hOn)]
      exact ih ((h.other write s k hOn).trans hSame)

/-- What is seen at a key is what the writes on it make of it. -/
theorem Framed.runAll_view (h : Framed run on view) (k : κ) (writes : List ω) (s : σ) :
    view k (runAll run writes s) = view k (runAll run (writes.filter (on · = k)) s) :=
  h.runAll_congr writes rfl

section Rows

variable {ρ : Type*} (key : ρ → κ) {program : ρ → List ω} {rows : List ρ}

theorem filter_flatMap_on_other (hOn : ∀ row, ∀ write ∈ program row, on write = key row) {k : κ}
    (hOther : ∀ row ∈ rows, key row ≠ k) : (rows.flatMap program).filter (on · = k) = [] := by
  refine List.filter_eq_nil_iff.mpr fun write hWrite hSame => ?_
  obtain ⟨row, hRow, hWrite⟩ := List.mem_flatMap.mp hWrite
  exact hOther row hRow ((hOn row write hWrite).symm.trans (of_decide_eq_true hSame))

/-- The writes on the key of a row are that row's. -/
theorem filter_flatMap_on_self (hOn : ∀ row, ∀ write ∈ program row, on write = key row)
    (hKeys : (rows.map key).Nodup) {row : ρ} (hRow : row ∈ rows) :
    (rows.flatMap program).filter (on · = key row) = program row := by
  induction rows with
  | nil => cases hRow
  | cons first rows ih =>
    obtain ⟨hFresh, hKeys⟩ := List.nodup_cons.mp hKeys
    have hFirst : ∀ write ∈ program first, on write = key first := hOn first
    rw [List.flatMap_cons, List.filter_append]
    rcases List.mem_cons.mp hRow with rfl | hRow
    · rw [List.filter_eq_self.mpr fun write hWrite => decide_eq_true (hFirst write hWrite),
        filter_flatMap_on_other key hOn fun other hOther hSame =>
          hFresh (List.mem_map.mpr ⟨other, hOther, hSame⟩)]
      exact List.append_nil _
    · have hApart : key first ≠ key row := fun hSame =>
        hFresh (List.mem_map.mpr ⟨row, hRow, hSame.symm⟩)
      rw [ih hKeys hRow, List.filter_eq_nil_iff.mpr fun write hWrite hSame =>
        hApart ((hFirst write hWrite).symm.trans (of_decide_eq_true hSame))]
      rfl

end Rows

end Keys

end CutShort
