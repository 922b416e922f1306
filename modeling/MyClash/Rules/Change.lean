import MyClash.Library.Json

/-!
# A change of a Tournament's rules

The entries of a diff, and the walk over a tree's leaves, as the scoring diff and the forfeit diff
both have them.
-/

namespace MyClash.Rules

open Json

/-- What a stored change whose value equals the one in force did. -/
inductive RulesChangeStored where
  | set
  | reset

structure RulesChange where
  path : String
  before : Value
  after : Value
  stored : Option RulesChangeStored

mutual

/-- Every leaf of a tree, as its key segments: anything but a non-empty plain object. The root
itself is never one. -/
def leavesOf (above : List String) : Value → List (List String)
  | .object (f :: rest) => fieldLeavesOf above (f :: rest)
  | _ => if above.isEmpty then [] else [above]

def fieldLeavesOf (above : List String) : Fields → List (List String)
  | [] => []
  | (key, child) :: rest => leavesOf (above ++ [key]) child ++ fieldLeavesOf above rest

end

def isPrefix (path leaf : List String) : Bool := path.isPrefixOf leaf

mutual

theorem leavesOf_eq_map {above : List String} (hAbove : above ≠ []) :
    (v : Value) → leavesOf above v = v.leaves.map (above ++ ·)
  | .object (f :: rest) => by
    rw [leavesOf, Value.leaves]
    exact fieldLeavesOf_eq_map above (f :: rest)
  | .object [] | .undefined | .null | .bool _ | .number _ | .string _ | .array _ => by
    simp [leavesOf, Value.leaves, hAbove]

theorem fieldLeavesOf_eq_map (above : List String) :
    (fields : Fields) → fieldLeavesOf above fields = (Value.fieldLeaves fields).map (above ++ ·)
  | [] => rfl
  | (key, child) :: rest => by
    have hNe : above ++ [key] ≠ [] := by simp
    rw [fieldLeavesOf, Value.fieldLeaves, leavesOf_eq_map hNe child, fieldLeavesOf_eq_map above rest,
      List.map_append, List.map_map]
    simp

end

theorem leavesOf_object (fields : Fields) :
    leavesOf [] (.object fields) = Value.fieldLeaves fields := by
  cases fields with
  | nil => rfl
  | cons f rest =>
    rw [leavesOf, fieldLeavesOf_eq_map]
    simp

theorem ne_nil_of_mem_fieldLeaves {fields : Fields} {path : List String}
    (h : path ∈ Value.fieldLeaves fields) : path ≠ [] := by
  rw [fieldLeaves_eq_flatMap] at h
  obtain ⟨f, -, hPath⟩ := List.mem_flatMap.mp h
  obtain ⟨rest, -, rfl⟩ := List.mem_map.mp hPath
  exact List.cons_ne_nil _ _

end MyClash.Rules
