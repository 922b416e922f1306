import Mathlib.Data.List.Lattice
import Mathlib.Tactic.Common

/-!
# Lists of values in pieces

A read that names its rows by a list of values names them in pieces, in order.
-/

namespace MyClash.Photos

def IN_LIST_MAX : ℕ := 200

def inListChunks {α : Type} (values : List α) : List (List α) :=
  (List.range ((values.length + IN_LIST_MAX - 1) / IN_LIST_MAX)).map fun i =>
    (values.drop (i * IN_LIST_MAX)).take IN_LIST_MAX

theorem flatten_pieces {α : Type*} (size count : ℕ) (values : List α) :
    ((List.range count).map fun i => (values.drop (i * size)).take size).flatten =
      values.take (count * size) := by
  induction count with
  | zero => simp
  | succ count ih =>
    rw [List.range_succ, List.map_append, List.flatten_append, ih, List.map_singleton,
      List.flatten_singleton, Nat.succ_mul, List.take_add]

theorem flatten_inListChunks {α : Type} (values : List α) :
    (inListChunks values).flatten = values := by
  rw [inListChunks, flatten_pieces, List.take_of_length_le]
  simp only [IN_LIST_MAX]
  omega

variable {β : Type} {values chunk : List β} {b : β}

theorem mem_of_mem_inListChunks (hChunk : chunk ∈ inListChunks values) (hMem : b ∈ chunk) :
    b ∈ values := by
  rw [← flatten_inListChunks values]
  exact List.mem_flatten.mpr ⟨chunk, hChunk, hMem⟩

theorem exists_mem_inListChunks (hMem : b ∈ values) : ∃ chunk ∈ inListChunks values, b ∈ chunk := by
  rw [← flatten_inListChunks values] at hMem
  exact List.mem_flatten.mp hMem

end MyClash.Photos
