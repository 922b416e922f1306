import Mathlib.Data.List.Nodup
import Mathlib.Data.Nat.Notation

/-!
# Rows under automatic keys

A table numbers its rows in the order they come and lists them in that order. A row
that left may come back under the key it had; no new row is given a key once used.
-/

namespace KeyTable

universe u

structure Table (ρ : Type u) where
  rows : List (ℕ × ρ)
  nextKey : ℕ
  ascending : rows.Pairwise (·.1 < ·.1)
  below : ∀ row ∈ rows, row.1 < nextKey

variable {ρ : Type u}

namespace Table

def empty : Table ρ where
  rows := []
  nextKey := 1
  ascending := List.Pairwise.nil
  below := nofun

def get? (t : Table ρ) (key : ℕ) : Option ρ :=
  (t.rows.find? (·.1 = key)).map (·.2)

/-- A new row, under the next key. -/
def push (t : Table ρ) (row : ρ) : Table ρ where
  rows := t.rows ++ [(t.nextKey, row)]
  nextKey := t.nextKey + 1
  ascending := by
    refine List.pairwise_append.mpr ⟨t.ascending, List.pairwise_singleton _ _, ?_⟩
    intro a ha b hb
    rw [List.mem_singleton.mp hb]
    exact t.below a ha
  below := by
    intro a ha
    rcases List.mem_append.mp ha with ha | ha
    · exact Nat.lt_succ_of_lt (t.below a ha)
    · rw [List.mem_singleton.mp ha]
      exact Nat.lt_succ_self _

/-- A row under a key of its own, where no row has that key. -/
def insert (t : Table ρ) (key : ℕ) (row : ρ) : Table ρ where
  rows := t.rows.filter (·.1 < key) ++ (key, row) :: t.rows.filter (key < ·.1)
  nextKey := max t.nextKey (key + 1)
  ascending := by
    refine List.pairwise_append.mpr ⟨t.ascending.filter _, ?_, ?_⟩
    · refine List.pairwise_cons.mpr ⟨?_, t.ascending.filter _⟩
      intro a ha
      simpa using (List.mem_filter.mp ha).2
    · intro a ha b hb
      have hLeft : a.1 < key := by simpa using (List.mem_filter.mp ha).2
      rcases List.mem_cons.mp hb with rfl | hb
      · exact hLeft
      · have hRight : key < b.1 := by simpa using (List.mem_filter.mp hb).2
        exact Nat.lt_trans hLeft hRight
  below := by
    intro a ha
    rcases List.mem_append.mp ha with ha | ha
    · have := t.below a (List.mem_filter.mp ha).1
      omega
    · rcases List.mem_cons.mp ha with rfl | ha
      · exact Nat.lt_of_lt_of_le (Nat.lt_succ_self _) (Nat.le_max_right _ _)
      · have := t.below a (List.mem_filter.mp ha).1
        omega

/-- A row under the key it asks for, or under the next one. A key in use refuses the write. -/
def add? (t : Table ρ) (key : Option ℕ) (row : ρ) : Option (Table ρ) :=
  match key with
  | none => some (t.push row)
  | some key => if (t.get? key).isSome then none else some (t.insert key row)

def deleteWhere (t : Table ρ) (gone : ℕ × ρ → Bool) : Table ρ where
  rows := t.rows.filter fun row => !gone row
  nextKey := t.nextKey
  ascending := t.ascending.filter _
  below := fun row hRow => t.below row (List.mem_filter.mp hRow).1

def delete (t : Table ρ) (key : ℕ) : Table ρ :=
  t.deleteWhere (·.1 = key)

def modify (t : Table ρ) (key : ℕ) (f : ρ → ρ) : Table ρ where
  rows := t.rows.map fun row => if row.1 = key then (row.1, f row.2) else row
  nextKey := t.nextKey
  ascending := by
    refine List.pairwise_map.mpr (t.ascending.imp ?_)
    intro a b hab
    split <;> split <;> exact hab
  below := by
    intro row hRow
    obtain ⟨a, ha, rfl⟩ := List.mem_map.mp hRow
    split <;> exact t.below a ha

/-! ## Membership -/

@[simp] theorem not_mem_empty (row : ℕ × ρ) : row ∉ (empty : Table ρ).rows := List.not_mem_nil

theorem nodup_keys (t : Table ρ) : (t.rows.map Prod.fst).Nodup :=
  List.pairwise_map.mpr (t.ascending.imp Nat.ne_of_lt)

theorem row_unique (t : Table ρ) {key : ℕ} {row row' : ρ} (h : (key, row) ∈ t.rows)
    (h' : (key, row') ∈ t.rows) : row = row' :=
  (Prod.mk.inj (List.inj_on_of_nodup_map t.nodup_keys h h' rfl)).2

theorem get?_eq_some_iff (t : Table ρ) {key : ℕ} {row : ρ} :
    t.get? key = some row ↔ (key, row) ∈ t.rows := by
  constructor
  · intro h
    obtain ⟨⟨key', row'⟩, hFind, hRow⟩ := Option.map_eq_some_iff.mp h
    have hKey : key' = key := by simpa using List.find?_some hFind
    subst hKey hRow
    exact List.mem_of_find?_eq_some hFind
  · intro h
    have hSome : (t.rows.find? (·.1 = key)).isSome :=
      List.find?_isSome.mpr ⟨(key, row), h, by simp⟩
    obtain ⟨⟨key', row'⟩, hFind⟩ := Option.isSome_iff_exists.mp hSome
    have hKey : key' = key := by simpa using List.find?_some hFind
    subst hKey
    have hRow := t.row_unique (List.mem_of_find?_eq_some hFind) h
    simp [get?, hFind, hRow]

theorem get?_eq_none_iff (t : Table ρ) {key : ℕ} :
    t.get? key = none ↔ ∀ row ∈ t.rows, row.1 ≠ key := by
  simp [get?]

@[simp] theorem mem_push {t : Table ρ} {row : ρ} {a : ℕ × ρ} :
    a ∈ (t.push row).rows ↔ a ∈ t.rows ∨ a = (t.nextKey, row) := by
  simp [push]

/-- A write that is not refused adds its row, at the place it asked for or at the end. -/
theorem perm_add? {t t' : Table ρ} {key : Option ℕ} {row : ρ} (h : t.add? key row = some t') :
    ∃ place, t'.rows.Perm ((place, row) :: t.rows) ∧ t.nextKey ≤ t'.nextKey ∧
      (key = some place ∨ key = none ∧ place = t.nextKey) := by
  cases key with
  | none =>
    obtain rfl := Option.some.inj h
    exact ⟨t.nextKey, List.perm_append_singleton _ _, Nat.le_succ _, Or.inr ⟨rfl, rfl⟩⟩
  | some key =>
    simp only [add?] at h
    split at h
    · exact absurd h nofun
    · next hFree =>
      obtain rfl := Option.some.inj h
      refine ⟨key, ?_, Nat.le_max_left _ _, Or.inl rfl⟩
      have hFilter : t.rows.filter (fun a => decide (key < a.1)) =
          t.rows.filter (fun a => !decide (a.1 < key)) := by
        refine List.filter_congr fun a ha => ?_
        have hNe := t.get?_eq_none_iff.mp (by simpa using hFree) a ha
        by_cases hLt : a.1 < key
        · simp [hLt, Nat.not_lt.mpr (Nat.le_of_lt hLt)]
        · simp [hLt, Nat.lt_of_le_of_ne (Nat.not_lt.mp hLt) hNe.symm]
      simp only [insert, hFilter]
      exact List.perm_middle.trans ((List.filter_append_perm _ _).cons _)

theorem mem_of_add? {t t' : Table ρ} {key : Option ℕ} {row : ρ} (h : t.add? key row = some t') :
    ∃ place, ∀ a, a ∈ t'.rows ↔ a ∈ t.rows ∨ a = (place, row) := by
  obtain ⟨place, hPerm, -, -⟩ := perm_add? h
  exact ⟨place, fun a => by rw [hPerm.mem_iff, List.mem_cons, or_comm]⟩

@[simp] theorem mem_deleteWhere {t : Table ρ} {gone : ℕ × ρ → Bool} {a : ℕ × ρ} :
    a ∈ (t.deleteWhere gone).rows ↔ a ∈ t.rows ∧ gone a = false := by
  simp [deleteWhere]

theorem deleteWhere_eq_self {t : Table ρ} : t.deleteWhere (fun _ => false) = t := by
  simp [deleteWhere]

@[simp] theorem mem_delete {t : Table ρ} {key : ℕ} {a : ℕ × ρ} :
    a ∈ (t.delete key).rows ↔ a ∈ t.rows ∧ a.1 ≠ key := by
  simp [delete]

theorem perm_delete (t : Table ρ) {key : ℕ} {row : ρ} (h : (key, row) ∈ t.rows) :
    t.rows.Perm ((key, row) :: (t.delete key).rows) := by
  have hRows : t.rows.Nodup := List.Nodup.of_map _ t.nodup_keys
  have hRest : ((key, row) :: (t.delete key).rows).Nodup := by
    refine List.nodup_cons.mpr ⟨fun hMem => ?_, hRows.filter _⟩
    exact (mem_delete.mp hMem).2 rfl
  refine (List.perm_ext_iff_of_nodup hRows hRest).mpr fun a => ?_
  rw [List.mem_cons, mem_delete]
  constructor
  · intro ha
    by_cases hKey : a.1 = key
    · obtain ⟨key', row'⟩ := a
      obtain rfl : key' = key := hKey
      exact Or.inl (by rw [t.row_unique ha h])
    · exact Or.inr ⟨ha, hKey⟩
  · rintro (rfl | ha)
    · exact h
    · exact ha.1

theorem mem_modify {t : Table ρ} {key : ℕ} {f : ρ → ρ} {a : ℕ × ρ} :
    a ∈ (t.modify key f).rows ↔ ∃ row, (a.1, row) ∈ t.rows ∧
      a.2 = if a.1 = key then f row else row := by
  simp only [modify, List.mem_map, Prod.exists]
  constructor
  · rintro ⟨k, row, hRow, rfl⟩
    exact ⟨row, by split <;> exact hRow, by split <;> simp_all⟩
  · rintro ⟨row, hRow, ha⟩
    refine ⟨a.1, row, hRow, ?_⟩
    split
    · next hKey => rw [if_pos hKey] at ha; rw [← ha]
    · next hKey => rw [if_neg hKey] at ha; rw [← ha]

end Table

end KeyTable
