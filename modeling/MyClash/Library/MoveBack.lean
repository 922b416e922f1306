import Mathlib.Data.List.Basic
import Mathlib.Data.List.Pairwise

/-!
# Moving rows and moving them back

A move takes the rows of one owner to another, but for those whose key is there already, and its
record lists the labels of the rows it took. Moved back in any order in which no move is taken back
while its target has moved on, every row is where it was.
-/

namespace MoveBack

universe u v w x y

/-- How the rows of a table name their owner, what may be there once an owner, and what a record
lists of a row. -/
structure Table (ρ : Type u) (α : Type v) (κ : Type w) (ℓ : Type x) where
  owner : ρ → Option α
  setOwner : α → ρ → ρ
  key : ρ → κ
  label : ρ → ℓ
  owner_setOwner : ∀ a r, owner (setOwner a r) = some a
  key_setOwner : ∀ a r, key (setOwner a r) = key r
  label_setOwner : ∀ a r, label (setOwner a r) = label r
  setOwner_setOwner : ∀ a b r, setOwner a (setOwner b r) = setOwner a r
  setOwner_owner : ∀ {a r}, owner r = some a → setOwner a r = r

attribute [simp] Table.owner_setOwner Table.key_setOwner Table.label_setOwner
  Table.setOwner_setOwner

variable {ρ : Type u} {α : Type v} {κ : Type w} {ℓ : Type x} {γ : Type y}

section Move

variable [DecidableEq α] [DecidableEq κ] (table : Table ρ α κ ℓ)

/-- Is there a row of that owner with that key? -/
def Table.held (rows : List ρ) (a : α) (k : κ) : Bool :=
  rows.any fun r => table.owner r = some a ∧ table.key r = k

def Table.moves (rows : List ρ) (source target : α) (r : ρ) : Bool :=
  table.owner r = some source ∧ !table.held rows target (table.key r)

def Table.move (rows : List ρ) (source target : α) : List ρ :=
  rows.map fun r => if table.moves rows source target r then table.setOwner target r else r

def Table.moved (rows : List ρ) (source target : α) : List ℓ :=
  (rows.filter (table.moves rows source target)).map table.label

variable [DecidableEq ℓ]

def Table.movesBack (rows : List ρ) (source target : α) (labels : List ℓ) (r : ρ) : Bool :=
  table.owner r = some target ∧ labels.contains (table.label r) ∧
    !table.held rows source (table.key r)

def Table.moveBack (rows : List ρ) (source target : α) (labels : List ℓ) : List ρ :=
  rows.map fun r =>
    if table.movesBack rows source target labels r then table.setOwner source r else r

end Move

/-- No two rows of one owner have one key. -/
def Table.Apart (table : Table ρ α κ ℓ) (rows : List ρ) : Prop :=
  rows.Pairwise fun r s => ∀ a, table.owner r = some a → table.owner s = some a →
    table.key r ≠ table.key s

theorem Table.Apart.symm {table : Table ρ α κ ℓ} {r s : ρ}
    (h : ∀ a, table.owner r = some a → table.owner s = some a → table.key r ≠ table.key s) :
    ∀ a, table.owner s = some a → table.owner r = some a → table.key s ≠ table.key r :=
  fun a hs hr hKey => h a hr hs hKey.symm

/-- A row as it was, and the moves it has made since, the latest first. -/
structure Traced (ρ : Type u) (γ : Type y) where
  first : ρ
  trail : List γ

/-- What a record of a move says. -/
structure Record (γ : Type y) (α : Type v) (ℓ : Type x) where
  source : γ → α
  target : γ → α
  labels : γ → List ℓ

section Trace

variable (table : Table ρ α κ ℓ) (record : Record γ α ℓ)

/-- The row as it is now. -/
def Traced.now (x : Traced ρ γ) : ρ :=
  match x.trail with
  | [] => x.first
  | r :: _ => table.setOwner (record.target r) x.first

/-- Each move took the row from where the move before it had put it. -/
def Chained (first : ρ) : List γ → Prop
  | [] => True
  | r :: trail =>
    table.owner (Traced.now table record ⟨first, trail⟩) = some (record.source r) ∧
      Chained first trail

/-- The rows, their moves, and the records that are not taken back yet. -/
structure Traces (standing : List γ) (xs : List (Traced ρ γ)) : Prop where
  keyed : ∀ x ∈ xs, ∀ y ∈ xs, table.label x.first = table.label y.first →
    table.key x.first = table.key y.first
  chained : ∀ x ∈ xs, Chained table record x.first x.trail
  listed : ∀ x ∈ xs, ∀ r ∈ x.trail, r ∈ standing ∧ table.label x.first ∈ record.labels r
  found : ∀ r ∈ standing, ∀ label ∈ record.labels r,
    ∃ x ∈ xs, r ∈ x.trail ∧ table.label x.first = label
  apart : table.Apart (xs.map (Traced.now table record))
  vacated : ∀ x ∈ xs, ∀ r ∈ x.trail, ∀ y ∈ xs, table.key y.first = table.key x.first →
    table.owner (y.now table record) ≠ some (record.source r)

end Trace

section Law

variable {table : Table ρ α κ ℓ} {record : Record γ α ℓ} {standing : List γ}
  {xs : List (Traced ρ γ)} {x : Traced ρ γ}

@[simp] theorem key_now : table.key (x.now table record) = table.key x.first := by
  rw [Traced.now]
  split <;> simp

@[simp] theorem label_now : table.label (x.now table record) = table.label x.first := by
  rw [Traced.now]
  split <;> simp

@[simp] theorem setOwner_now (a : α) :
    table.setOwner a (x.now table record) = table.setOwner a x.first := by
  rw [Traced.now]
  split <;> simp

@[simp] theorem now_cons (first : ρ) (r : γ) (trail : List γ) :
    Traced.now table record ⟨first, r :: trail⟩ = table.setOwner (record.target r) first := rfl

/-- No row has moved yet. -/
theorem traces_start {rows : List ρ} (hApart : table.Apart rows)
    (hKeyed : ∀ r ∈ rows, ∀ s ∈ rows, table.label r = table.label s → table.key r = table.key s) :
    Traces table record [] (rows.map fun r => ⟨r, []⟩) := by
  refine ⟨?_, ?_, ?_, nofun, ?_, ?_⟩
  · intro x hx y hy
    obtain ⟨r, hr, rfl⟩ := List.mem_map.mp hx
    obtain ⟨s, hs, rfl⟩ := List.mem_map.mp hy
    exact hKeyed r hr s hs
  · intro x hx
    obtain ⟨r, -, rfl⟩ := List.mem_map.mp hx
    exact trivial
  · intro x hx r hr
    obtain ⟨_, -, rfl⟩ := List.mem_map.mp hx
    cases hr
  · rw [List.map_map]
    exact (List.map_id rows).symm ▸ hApart
  · intro x hx r hr
    obtain ⟨_, -, rfl⟩ := List.mem_map.mp hx
    cases hr

/-- With no record left, every row is as it was. -/
theorem Traces.rows_of_nil (h : Traces table record [] xs) :
    xs.map (Traced.now table record) = xs.map (·.first) := by
  refine List.map_congr_left fun x hx => ?_
  rcases hTrail : x.trail with _ | ⟨r, trail⟩
  · rw [Traced.now, hTrail]
  · cases (h.listed x hx r (hTrail ▸ List.mem_cons_self)).1

theorem Traces.eq_of_held (h : Traces table record standing xs) {y : Traced ρ γ} {a : α}
    (hx : x ∈ xs) (hy : y ∈ xs) (hOwner : table.owner (x.now table record) = some a)
    (hOwner' : table.owner (y.now table record) = some a)
    (hKey : table.key x.first = table.key y.first) : x = y := by
  by_contra hNe
  have hSymm : Std.Symm fun x y : Traced ρ γ => ∀ a, table.owner (x.now table record) = some a →
      table.owner (y.now table record) = some a →
      table.key (x.now table record) ≠ table.key (y.now table record) :=
    ⟨fun _ _ => Table.Apart.symm⟩
  have hApart := (List.pairwise_map.mp h.apart).forall hx hy hNe
  exact hApart a hOwner hOwner' (by simpa using hKey)

/-- A move on a trail is its last, or the row has left the target of the move since. -/
theorem head_or_left {first : ρ} {trail : List γ} (hChained : Chained table record first trail)
    {r : γ} (hr : r ∈ trail) :
    (∃ rest, trail = r :: rest) ∨ ∃ q ∈ trail, record.source q = record.target r := by
  induction trail with
  | nil => cases hr
  | cons q trail ih =>
    rcases List.mem_cons.mp hr with rfl | hr
    · exact .inl ⟨trail, rfl⟩
    · right
      rcases ih hChained.2 hr with ⟨rest, rfl⟩ | ⟨q', hq', hSource⟩
      · refine ⟨q, List.mem_cons_self, ?_⟩
        have hOwner := hChained.1
        rw [now_cons, table.owner_setOwner] at hOwner
        exact (Option.some.inj hOwner).symm
      · exact ⟨q', List.mem_cons_of_mem _ hq', hSource⟩

/-! ## A move -/

section Move

variable [DecidableEq α] [DecidableEq κ] {new : γ}

theorem held_iff {rows : List ρ} {a : α} {k : κ} :
    table.held rows a k = true ↔ ∃ r ∈ rows, table.owner r = some a ∧ table.key r = k := by
  simp [Table.held]

theorem moves_iff {rows : List ρ} {source target : α} {r : ρ} :
    table.moves rows source target r = true ↔ table.owner r = some source ∧
      ∀ s ∈ rows, table.owner s = some target → table.key s ≠ table.key r := by
  rw [Table.moves, decide_eq_true_eq, Bool.not_eq_true', ← Bool.not_eq_true, held_iff]
  simp

/-- The trail of a row, with the new move where the row makes it. -/
def Traced.go (table : Table ρ α κ ℓ) (record : Record γ α ℓ) (xs : List (Traced ρ γ)) (new : γ)
    (x : Traced ρ γ) : Traced ρ γ :=
  if table.moves (xs.map (Traced.now table record)) (record.source new) (record.target new)
    (x.now table record) then ⟨x.first, new :: x.trail⟩ else x

theorem now_go : (x.go table record xs new).now table record =
    if table.moves (xs.map (Traced.now table record)) (record.source new) (record.target new)
      (x.now table record) then table.setOwner (record.target new) (x.now table record)
    else x.now table record := by
  rw [Traced.go]
  split
  · rw [now_cons, setOwner_now]
  · rfl

theorem move_traced : (xs.map (Traced.go table record xs new)).map (Traced.now table record) =
    table.move (xs.map (Traced.now table record)) (record.source new) (record.target new) := by
  rw [Table.move, List.map_map, List.map_map]
  exact List.map_congr_left fun x _ => now_go

@[simp] theorem first_go : (x.go table record xs new).first = x.first := by
  rw [Traced.go]
  split <;> rfl

/-- The row is at the source, and no row at the target has its key. -/
def Goes (table : Table ρ α κ ℓ) (record : Record γ α ℓ) (xs : List (Traced ρ γ)) (new : γ)
    (x : Traced ρ γ) : Prop :=
  table.owner (x.now table record) = some (record.source new) ∧
    ∀ y ∈ xs, table.owner (y.now table record) = some (record.target new) →
      table.key y.first ≠ table.key x.first

theorem goes_iff : table.moves (xs.map (Traced.now table record)) (record.source new)
    (record.target new) (x.now table record) = true ↔ Goes table record xs new x := by
  rw [moves_iff, Goes]
  simp

theorem go_cases (table : Table ρ α κ ℓ) (record : Record γ α ℓ) (xs : List (Traced ρ γ)) (new : γ)
    (x : Traced ρ γ) :
    (Goes table record xs new x ∧ x.go table record xs new = ⟨x.first, new :: x.trail⟩) ∨
      (¬Goes table record xs new x ∧ x.go table record xs new = x) := by
  rw [Traced.go, ← goes_iff]
  split
  · rename_i hGo
    exact .inl ⟨hGo, rfl⟩
  · rename_i hStay
    exact .inr ⟨hStay, rfl⟩

theorem trail_go_subset {r : γ} (hr : r ∈ x.trail) : r ∈ (x.go table record xs new).trail := by
  rcases go_cases table record xs new x with ⟨-, hGo⟩ | ⟨-, hGo⟩
  · rw [hGo]
    exact List.mem_cons_of_mem _ hr
  · rw [hGo]
    exact hr

/-- A row is where it was, or at the target. -/
theorem owner_go (h : table.owner ((x.go table record xs new).now table record) ≠
    table.owner (x.now table record)) :
    table.owner ((x.go table record xs new).now table record) = some (record.target new) := by
  rcases go_cases table record xs new x with ⟨-, hGo⟩ | ⟨-, hGo⟩
  · rw [hGo, now_cons, table.owner_setOwner]
  · exact (h (by rw [hGo])).elim

theorem Traces.apart_go (h : Traces table record standing xs) :
    table.Apart ((xs.map (Traced.go table record xs new)).map (Traced.now table record)) := by
  rw [List.map_map, Table.Apart, List.pairwise_map]
  refine (List.pairwise_map.mp h.apart).imp_of_mem fun {x y} hx hy hApart a hOwner hOwner' => ?_
  simp only [Function.comp_apply, key_now, first_go] at hOwner hOwner' hApart ⊢
  rcases go_cases table record xs new x with ⟨hGoes, hGo⟩ | ⟨-, hGo⟩ <;>
    rcases go_cases table record xs new y with ⟨hGoes', hGo'⟩ | ⟨-, hGo'⟩ <;>
    rw [hGo] at hOwner <;> rw [hGo'] at hOwner'
  · exact hApart _ hGoes.1 hGoes'.1
  · rw [now_cons, table.owner_setOwner] at hOwner
    exact (hGoes.2 y hy (hOwner'.trans hOwner.symm)).symm
  · rw [now_cons, table.owner_setOwner] at hOwner'
    exact hGoes'.2 x hx (hOwner.trans hOwner'.symm)
  · exact hApart a hOwner hOwner'

/-- A move whose record lists the rows it takes, from and to owners no standing move has left. -/
theorem Traces.move (h : Traces table record standing xs)
    (hNe : record.source new ≠ record.target new)
    (hTarget : ∀ r ∈ standing, record.source r ≠ record.target new)
    (hLabels : ∀ label, label ∈ record.labels new ↔ label ∈ table.moved
      (xs.map (Traced.now table record)) (record.source new) (record.target new)) :
    Traces table record (new :: standing) (xs.map (Traced.go table record xs new)) := by
  have hListed : ∀ label, label ∈ record.labels new ↔
      ∃ x ∈ xs, Goes table record xs new x ∧ table.label x.first = label := by
    intro label
    rw [hLabels label, Table.moved]
    simp only [List.mem_map, List.mem_filter]
    constructor
    · rintro ⟨_, ⟨⟨x, hx, rfl⟩, hGoes⟩, hLabel⟩
      exact ⟨x, hx, goes_iff.mp hGoes, by simpa using hLabel⟩
    · rintro ⟨x, hx, hGoes, hLabel⟩
      exact ⟨_, ⟨⟨x, hx, rfl⟩, goes_iff.mpr hGoes⟩, by simpa using hLabel⟩
  refine ⟨?_, ?_, ?_, ?_, h.apart_go, ?_⟩
  · intro x' hx' y' hy'
    obtain ⟨x, hx, rfl⟩ := List.mem_map.mp hx'
    obtain ⟨y, hy, rfl⟩ := List.mem_map.mp hy'
    simpa using h.keyed x hx y hy
  · intro x' hx'
    obtain ⟨x, hx, rfl⟩ := List.mem_map.mp hx'
    rcases go_cases table record xs new x with ⟨hGoes, hGo⟩ | ⟨-, hGo⟩ <;> rw [hGo]
    · exact ⟨hGoes.1, h.chained x hx⟩
    · exact h.chained x hx
  · intro x' hx' r hr
    obtain ⟨x, hx, rfl⟩ := List.mem_map.mp hx'
    rw [first_go]
    have hOld := h.listed x hx
    rcases go_cases table record xs new x with ⟨hGoes, hGo⟩ | ⟨-, hGo⟩ <;> rw [hGo] at hr
    · rcases List.mem_cons.mp hr with rfl | hr
      · exact ⟨List.mem_cons_self, (hListed _).mpr ⟨x, hx, hGoes, rfl⟩⟩
      · exact (hOld r hr).imp_left (List.mem_cons_of_mem _)
    · exact (hOld r hr).imp_left (List.mem_cons_of_mem _)
  · intro r hr label hLabel
    rcases List.mem_cons.mp hr with rfl | hr
    · obtain ⟨x, hx, hGoes, hLabel⟩ := (hListed label).mp hLabel
      refine ⟨_, List.mem_map_of_mem hx, ?_, by rw [first_go, hLabel]⟩
      rcases go_cases table record xs r x with ⟨-, hGo⟩ | ⟨hNot, -⟩
      · rw [hGo]
        exact List.mem_cons_self
      · exact (hNot hGoes).elim
    · obtain ⟨x, hx, hTrail, hLabel⟩ := h.found r hr label hLabel
      exact ⟨_, List.mem_map_of_mem hx, trail_go_subset hTrail, by rw [first_go, hLabel]⟩
  · intro x' hx' r hr y' hy' hKey hOwner
    obtain ⟨x, hx, rfl⟩ := List.mem_map.mp hx'
    obtain ⟨y, hy, rfl⟩ := List.mem_map.mp hy'
    rw [first_go, first_go] at hKey
    -- what the move before it left is left still: a row goes to the target or stays
    have hOld : r ∈ x.trail → False := by
      intro hTrail
      by_cases hMoved : table.owner ((y.go table record xs new).now table record) =
          table.owner (y.now table record)
      · exact h.vacated x hx r hTrail y hy hKey (hMoved ▸ hOwner)
      · have hEq := (owner_go hMoved).symm.trans hOwner
        exact hTarget r (h.listed x hx r hTrail).1 (Option.some.inj hEq).symm
    rcases go_cases table record xs new x with ⟨hGoes, hGo⟩ | ⟨-, hGo⟩ <;> rw [hGo] at hr
    · rcases List.mem_cons.mp hr with rfl | hr
      · rcases go_cases table record xs r y with ⟨-, hGo'⟩ | ⟨hNot, hGo'⟩ <;> rw [hGo'] at hOwner
        · rw [now_cons, table.owner_setOwner] at hOwner
          exact hNe (Option.some.inj hOwner).symm
        · exact hNot ⟨hOwner, fun z hz hHeld => hKey ▸ hGoes.2 z hz hHeld⟩
      · exact hOld hr
    · exact hOld hr

end Move

/-! ## A move taken back -/

variable {old : γ}

/-- The target of a standing move that no standing move has left since. -/
def Kept (record : Record γ α ℓ) (standing : List γ) (old : γ) : Prop :=
  ∀ r ∈ standing, record.source r ≠ record.target old

theorem Traces.trail_of_mem (h : Traces table record standing xs) (hOld : old ∈ standing)
    (hKept : Kept record standing old) (hx : x ∈ xs) (hTrail : old ∈ x.trail) :
    ∃ rest, x.trail = old :: rest ∧ old ∉ rest := by
  have hLeft : ∀ {q}, q ∈ x.trail → record.source q ≠ record.target old :=
    fun hq => hKept _ (h.listed x hx _ hq).1
  have hChained := h.chained x hx
  rcases head_or_left hChained hTrail with ⟨rest, hEq⟩ | ⟨q, hq, hSource⟩
  · refine ⟨rest, hEq, fun hAgain => ?_⟩
    rw [hEq] at hChained
    rcases head_or_left hChained.2 hAgain with ⟨rest', rfl⟩ | ⟨q, hq, hSource⟩
    · have hOwner := hChained.1
      rw [now_cons, table.owner_setOwner] at hOwner
      exact hKept old hOld (Option.some.inj hOwner).symm
    · exact hLeft (hEq ▸ List.mem_cons_of_mem _ hq) hSource
  · exact (hLeft hq hSource).elim

theorem Traces.owner_of_mem (h : Traces table record standing xs) (hOld : old ∈ standing)
    (hKept : Kept record standing old) (hx : x ∈ xs) (hTrail : old ∈ x.trail) :
    table.owner (x.now table record) = some (record.target old) := by
  obtain ⟨rest, hEq, -⟩ := h.trail_of_mem hOld hKept hx hTrail
  rw [Traced.now, hEq]
  exact table.owner_setOwner ..

/-- A row that moves back stands where it was before the move. -/
theorem now_of_chained {first : ρ} {rest : List γ}
    (hChained : Chained table record first (old :: rest)) :
    Traced.now table record ⟨first, rest⟩ = table.setOwner (record.source old) first := by
  have hOwner := hChained.1
  calc Traced.now table record ⟨first, rest⟩
      = table.setOwner (record.source old) (Traced.now table record ⟨first, rest⟩) :=
        (table.setOwner_owner hOwner).symm
    _ = table.setOwner (record.source old) first := setOwner_now _

section Back

variable [DecidableEq α] [DecidableEq κ] [DecidableEq ℓ] [DecidableEq γ]

def Traced.back (old : γ) (x : Traced ρ γ) : Traced ρ γ :=
  if x.trail.head? = some old then ⟨x.first, x.trail.tail⟩ else x

@[simp] theorem first_back : (x.back old).first = x.first := by
  rw [Traced.back]
  split <;> rfl

omit [DecidableEq α] [DecidableEq κ] [DecidableEq ℓ] in
theorem Traces.back_cases (h : Traces table record standing xs) (hOld : old ∈ standing)
    (hKept : Kept record standing old) (hx : x ∈ xs) :
    (∃ rest, x.trail = old :: rest ∧ old ∉ rest ∧ x.back old = ⟨x.first, rest⟩) ∨
      (old ∉ x.trail ∧ x.back old = x) := by
  by_cases hTrail : old ∈ x.trail
  · obtain ⟨rest, hEq, hNot⟩ := h.trail_of_mem hOld hKept hx hTrail
    exact .inl ⟨rest, hEq, hNot, by simp [Traced.back, hEq]⟩
  · refine .inr ⟨hTrail, ?_⟩
    rw [Traced.back, if_neg fun hHead => hTrail (List.mem_of_head? hHead)]

omit [DecidableEq γ] in
/-- Moved back are the rows that the move took. -/
theorem Traces.movesBack_iff (h : Traces table record standing xs) (hOld : old ∈ standing)
    (hKept : Kept record standing old) (hx : x ∈ xs) :
    table.movesBack (xs.map (Traced.now table record)) (record.source old) (record.target old)
      (record.labels old) (x.now table record) = true ↔ old ∈ x.trail := by
  rw [Table.movesBack, decide_eq_true_eq, Bool.not_eq_true', ← Bool.not_eq_true, held_iff,
    List.contains_iff_mem, label_now, key_now]
  constructor
  · rintro ⟨hOwner, hLabel, -⟩
    obtain ⟨y, hy, hTrail, hLabel⟩ := h.found old hOld _ hLabel
    have hEq := h.eq_of_held hx hy hOwner (h.owner_of_mem hOld hKept hy hTrail)
      (h.keyed x hx y hy hLabel.symm)
    exact hEq ▸ hTrail
  · intro hTrail
    refine ⟨h.owner_of_mem hOld hKept hx hTrail, (h.listed x hx old hTrail).2, ?_⟩
    rintro ⟨_, hRow, hOwner, hKey⟩
    obtain ⟨y, hy, rfl⟩ := List.mem_map.mp hRow
    exact h.vacated x hx old hTrail y hy (key_now.symm.trans hKey) hOwner

omit [DecidableEq α] [DecidableEq κ] [DecidableEq ℓ] in
theorem Traces.now_back (h : Traces table record standing xs) (hOld : old ∈ standing)
    (hKept : Kept record standing old) (hx : x ∈ xs) :
    (x.back old).now table record =
      if old ∈ x.trail then table.setOwner (record.source old) (x.now table record)
      else x.now table record := by
  rcases h.back_cases hOld hKept hx with ⟨rest, hEq, -, hBack⟩ | ⟨hNot, hBack⟩
  · rw [hBack, if_pos (hEq ▸ List.mem_cons_self), setOwner_now]
    have hChained := h.chained x hx
    rw [hEq] at hChained
    exact now_of_chained hChained
  · rw [hBack, if_neg hNot]

theorem Traces.moveBack_traced (h : Traces table record standing xs) (hOld : old ∈ standing)
    (hKept : Kept record standing old) :
    (xs.map (Traced.back old)).map (Traced.now table record) =
      table.moveBack (xs.map (Traced.now table record)) (record.source old) (record.target old)
        (record.labels old) := by
  rw [Table.moveBack, List.map_map, List.map_map]
  refine List.map_congr_left fun x hx => ?_
  rw [Function.comp_apply, Function.comp_apply, h.now_back hOld hKept hx]
  exact if_congr (h.movesBack_iff hOld hKept hx).symm rfl rfl

omit [DecidableEq α] [DecidableEq κ] [DecidableEq ℓ] in
/-- A standing move is taken back whose target no standing move has left. -/
theorem Traces.moveBack (h : Traces table record standing xs) (hOld : old ∈ standing)
    (hKept : Kept record standing old) (hNodup : standing.Nodup)
    (hSources : ∀ r ∈ standing, record.source r = record.source old → r = old) :
    Traces table record (standing.erase old) (xs.map (Traced.back old)) := by
  have hErase : ∀ {r}, r ∈ standing.erase old ↔ r ≠ old ∧ r ∈ standing := hNodup.mem_erase_iff
  -- a trail loses the move that is taken back, and no other
  have hTrails : ∀ {x}, x ∈ xs → ∀ {r}, r ∈ (x.back old).trail ↔ r ≠ old ∧ r ∈ x.trail := by
    intro x hx r
    rcases h.back_cases hOld hKept hx with ⟨rest, hEq, hNot, hBack⟩ | ⟨hNot, hBack⟩
    · rw [hBack, hEq, List.mem_cons]
      exact ⟨fun hr => ⟨fun hSame => hNot (hSame ▸ hr), .inr hr⟩,
        fun ⟨hNe, hr⟩ => hr.resolve_left hNe⟩
    · rw [hBack]
      exact ⟨fun hr => ⟨fun hSame => hNot (hSame ▸ hr), hr⟩, And.right⟩
  -- and its row is at the source of that move again
  have hOwners : ∀ {x}, x ∈ xs → ∀ {a}, table.owner ((x.back old).now table record) = some a →
      old ∈ x.trail ∧ a = record.source old ∨
        old ∉ x.trail ∧ table.owner (x.now table record) = some a := by
    intro x hx a hOwner
    rw [h.now_back hOld hKept hx] at hOwner
    split at hOwner
    · rename_i hTrail
      rw [table.owner_setOwner] at hOwner
      exact .inl ⟨hTrail, (Option.some.inj hOwner).symm⟩
    · rename_i hTrail
      exact .inr ⟨hTrail, hOwner⟩
  refine ⟨?_, ?_, ?_, ?_, ?_, ?_⟩
  · intro x' hx' y' hy'
    obtain ⟨x, hx, rfl⟩ := List.mem_map.mp hx'
    obtain ⟨y, hy, rfl⟩ := List.mem_map.mp hy'
    simpa using h.keyed x hx y hy
  · intro x' hx'
    obtain ⟨x, hx, rfl⟩ := List.mem_map.mp hx'
    have hChained := h.chained x hx
    rcases h.back_cases hOld hKept hx with ⟨rest, hEq, -, hBack⟩ | ⟨-, hBack⟩ <;> rw [hBack]
    · rw [hEq] at hChained
      exact hChained.2
    · exact hChained
  · intro x' hx' r hr
    obtain ⟨x, hx, rfl⟩ := List.mem_map.mp hx'
    obtain ⟨hNe, hr⟩ := (hTrails hx).mp hr
    rw [first_back]
    exact (h.listed x hx r hr).imp_left fun hStanding => hErase.mpr ⟨hNe, hStanding⟩
  · intro r hr label hLabel
    obtain ⟨hNe, hr⟩ := hErase.mp hr
    obtain ⟨x, hx, hTrail, hLabel⟩ := h.found r hr label hLabel
    exact ⟨_, List.mem_map_of_mem hx, (hTrails hx).mpr ⟨hNe, hTrail⟩, by rw [first_back, hLabel]⟩
  · rw [List.map_map, Table.Apart, List.pairwise_map]
    refine (List.pairwise_map.mp h.apart).imp_of_mem fun {x y} hx hy hApart a hAt hAt' hKey => ?_
    simp only [Function.comp_apply, key_now, first_back] at hAt hAt' hApart hKey
    rcases hOwners hx hAt with ⟨hTrail, hEq⟩ | ⟨-, hAt⟩ <;>
      rcases hOwners hy hAt' with ⟨hTrail', hEq'⟩ | ⟨-, hAt'⟩
    · exact hApart _ (h.owner_of_mem hOld hKept hx hTrail) (h.owner_of_mem hOld hKept hy hTrail')
        hKey
    · exact h.vacated x hx old hTrail y hy hKey.symm (hEq ▸ hAt')
    · exact h.vacated y hy old hTrail' x hx hKey (hEq' ▸ hAt)
    · exact hApart a hAt hAt' hKey
  · intro x' hx' r hr y' hy' hKey hOwner
    obtain ⟨x, hx, rfl⟩ := List.mem_map.mp hx'
    obtain ⟨y, hy, rfl⟩ := List.mem_map.mp hy'
    obtain ⟨hNe, hr⟩ := (hTrails hx).mp hr
    rw [first_back, first_back] at hKey
    rcases hOwners hy hOwner with ⟨-, hEq⟩ | ⟨-, hOwner⟩
    · exact hNe (hSources r (h.listed x hx r hr).1 hEq)
    · exact h.vacated x hx r hr y hy hKey hOwner

end Back

/-! ## Rows that can be given back -/

/-- The rows as they were and as they are, with the moves between them that still stand. -/
def Recovers (table : Table ρ α κ ℓ) (record : Record γ α ℓ) (standing : List γ)
    (first now : List ρ) : Prop :=
  ∃ xs : List (Traced ρ γ), xs.map (·.first) = first ∧
    xs.map (Traced.now table record) = now ∧ Traces table record standing xs

variable {first now : List ρ}

theorem Recovers.refl {rows : List ρ} (hApart : table.Apart rows)
    (hKeyed : ∀ r ∈ rows, ∀ s ∈ rows, table.label r = table.label s → table.key r = table.key s) :
    Recovers table record [] rows rows :=
  ⟨_, by rw [List.map_map]; exact List.map_id rows, by rw [List.map_map]; exact List.map_id rows,
    traces_start hApart hKeyed⟩

theorem Recovers.apart (h : Recovers table record standing first now) : table.Apart now := by
  obtain ⟨xs, -, rfl, h⟩ := h
  exact h.apart

theorem Recovers.labels (h : Recovers table record standing first now) :
    now.map table.label = first.map table.label := by
  obtain ⟨xs, rfl, rfl, -⟩ := h
  rw [List.map_map, List.map_map]
  exact List.map_congr_left fun x _ => label_now

theorem Recovers.eq_of_nil (h : Recovers table record [] first now) : now = first := by
  obtain ⟨xs, rfl, rfl, h⟩ := h
  exact h.rows_of_nil

/-- A row that a standing move took, and that is where the move put it, left no row of its key
behind. -/
theorem Recovers.free {old : γ} (h : Recovers table record standing first now)
    (hOld : old ∈ standing) (hKept : Kept record standing old) {r s : ρ} (hr : r ∈ now)
    (hOwner : table.owner r = some (record.target old)) (hLabel : table.label r ∈ record.labels old)
    (hs : s ∈ now) (hKey : table.key s = table.key r) : table.owner s ≠ some (record.source old) := by
  obtain ⟨xs, -, rfl, h⟩ := h
  obtain ⟨x, hx, rfl⟩ := List.mem_map.mp hr
  obtain ⟨y, hy, rfl⟩ := List.mem_map.mp hs
  rw [label_now] at hLabel
  obtain ⟨z, hz, hTrail, hEq⟩ := h.found old hOld _ hLabel
  obtain rfl := h.eq_of_held hx hz hOwner (h.owner_of_mem hOld hKept hz hTrail)
    (h.keyed x hx z hz hEq.symm)
  rw [key_now, key_now] at hKey
  exact h.vacated x hx old hTrail y hy hKey

theorem Recovers.move [DecidableEq α] [DecidableEq κ]
    (h : Recovers table record standing first now) (new : γ) (hNe : record.source new ≠ record.target new)
    (hTarget : ∀ r ∈ standing, record.source r ≠ record.target new)
    (hLabels : ∀ label, label ∈ record.labels new ↔
      label ∈ table.moved now (record.source new) (record.target new)) :
    Recovers table record (new :: standing) first
      (table.move now (record.source new) (record.target new)) := by
  obtain ⟨xs, rfl, rfl, h⟩ := h
  refine ⟨xs.map (Traced.go table record xs new), ?_, move_traced, h.move hNe hTarget hLabels⟩
  rw [List.map_map]
  exact List.map_congr_left fun x _ => first_go

theorem Recovers.moveBack [DecidableEq α] [DecidableEq κ] [DecidableEq ℓ] [DecidableEq γ]
    (h : Recovers table record standing first now) (hOld : old ∈ standing)
    (hKept : Kept record standing old) (hNodup : standing.Nodup)
    (hSources : ∀ r ∈ standing, record.source r = record.source old → r = old) :
    Recovers table record (standing.erase old) first
      (table.moveBack now (record.source old) (record.target old) (record.labels old)) := by
  obtain ⟨xs, rfl, rfl, h⟩ := h
  refine ⟨xs.map (Traced.back old), ?_, h.moveBack_traced hOld hKept,
    h.moveBack hOld hKept hNodup hSources⟩
  rw [List.map_map]
  exact List.map_congr_left fun x _ => first_back

end Law

end MoveBack
