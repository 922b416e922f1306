import MyClash.Library.PrefixCode
import Mathlib.Data.Rat.Defs
import Mathlib.Data.List.Perm.Basic
import Mathlib.Data.List.Nodup
import Mathlib.Data.List.Lookmap
import Mathlib.Order.Basic

/-!
# JSON values

A value with its object fields in the order they are listed. `Proper` says that no object
lists a key twice. `leaves` are the paths to whatever is no non-empty object.
-/

namespace Json

inductive Value where
  | undefined
  | null
  | bool (b : Bool)
  | number (n : ℚ)
  | string (s : String)
  | array (items : List Value)
  | object (fields : List (String × Value))

abbrev Fields := List (String × Value)

def keys (fields : Fields) : List String := fields.map Prod.fst

namespace Value

mutual

def Proper : Value → Prop
  | .array items => ProperItems items
  | .object fields => (keys fields).Nodup ∧ ProperFields fields
  | _ => True

def ProperItems : List Value → Prop
  | [] => True
  | v :: rest => Proper v ∧ ProperItems rest

def ProperFields : Fields → Prop
  | [] => True
  | (_, v) :: rest => Proper v ∧ ProperFields rest

end

theorem properFields_iff {fields : Fields} :
    ProperFields fields ↔ ∀ f ∈ fields, f.2.Proper := by
  induction fields with
  | nil => simp [ProperFields]
  | cons f rest ih => simp [ProperFields, ih]

theorem Proper.nodup {fields : Fields} (h : (object fields).Proper) : (keys fields).Nodup := by
  rw [Proper] at h
  exact h.1

theorem Proper.field {fields : Fields} (h : (object fields).Proper) {f : String × Value}
    (hf : f ∈ fields) : f.2.Proper := by
  rw [Proper] at h
  exact properFields_iff.mp h.2 f hf

/-- The value at a path of keys; none where a step has no such field. -/
@[grind =] def get? : Value → List String → Option Value
  | v, [] => some v
  | .object fields, key :: path => (fields.lookup key).bind (get? · path)
  | _, _ :: _ => none

mutual

def leaves : Value → List (List String)
  | .object (f :: rest) => fieldLeaves (f :: rest)
  | _ => [[]]

def fieldLeaves : Fields → List (List String)
  | [] => []
  | (key, v) :: rest => (leaves v).map (key :: ·) ++ fieldLeaves rest

end

end Value

open Value

variable {fields other : Fields} {key : String} {v w : Value} {path : List String}

theorem lookup_cons (f : String × Value) (rest : Fields) (key : String) :
    (f :: rest).lookup key = if key = f.1 then some f.2 else rest.lookup key := by
  rw [List.lookup_cons]
  by_cases hKey : key = f.1
  · rw [beq_iff_eq.mpr hKey, if_pos hKey]
  · rw [beq_eq_false_iff_ne.mpr hKey, if_neg hKey]

theorem mem_of_lookup (h : fields.lookup key = some v) : (key, v) ∈ fields := by
  induction fields with
  | nil => exact nomatch h
  | cons f rest ih =>
    rw [lookup_cons] at h
    split at h
    · rename_i hKey
      rw [← Option.some.inj h, hKey]
      exact List.mem_cons_self
    · exact List.mem_cons_of_mem f (ih h)

theorem lookup_eq_some_iff (hNodup : (keys fields).Nodup) :
    fields.lookup key = some v ↔ (key, v) ∈ fields := by
  refine ⟨mem_of_lookup, fun h => ?_⟩
  induction fields with
  | nil => exact nomatch h
  | cons f rest ih =>
    obtain ⟨hNot, hRest⟩ := List.nodup_cons.mp hNodup
    rw [lookup_cons]
    rcases List.mem_cons.mp h with rfl | h
    · exact if_pos rfl
    · have hKey : key ≠ f.1 := by
        rintro rfl
        exact hNot (List.mem_map.mpr ⟨(f.1, v), h, rfl⟩)
      rw [if_neg hKey]
      exact ih hRest h

theorem lookup_eq_none_iff : fields.lookup key = none ↔ key ∉ keys fields := by
  induction fields with
  | nil => simp [keys]
  | cons f rest ih =>
    rw [lookup_cons]
    by_cases hKey : key = f.1
    · simp [keys, hKey]
    · simpa [keys, hKey] using ih

theorem Value.Proper.lookup (h : (Value.object fields).Proper) (hv : fields.lookup key = some v) :
    v.Proper := h.field (mem_of_lookup hv)

@[simp] theorem get?_nil (v : Value) : v.get? [] = some v := by
  cases v <;> rfl

@[simp] theorem get?_object_cons (fields : Fields) (key : String) (path : List String) :
    (Value.object fields).get? (key :: path) = (fields.lookup key).bind (·.get? path) := rfl

theorem get?_append (path below : List String) (v : Value) :
    v.get? (path ++ below) = (v.get? path).bind (·.get? below) := by
  induction path generalizing v with
  | nil => simp
  | cons key path ih =>
    cases v with
    | object fields =>
      rw [List.cons_append, get?_object_cons, get?_object_cons, Option.bind_assoc]
      exact congrArg _ (funext ih)
    | _ => rfl

theorem Value.Proper.get? (hv : v.Proper) (h : v.get? path = some w) : w.Proper := by
  induction path generalizing v with
  | nil =>
    rw [get?_nil] at h
    exact Option.some.inj h ▸ hv
  | cons key path ih =>
    cases v with
    | object fields =>
      rw [get?_object_cons, Option.bind_eq_some_iff] at h
      obtain ⟨child, hChild, hw⟩ := h
      exact ih (hv.lookup hChild) hw
    | _ => exact nomatch h

theorem leaves_ne_nil : (v : Value) → v.leaves ≠ []
  | .object ((key, child) :: rest) => by
    have hChild := leaves_ne_nil child
    simp [leaves, fieldLeaves, hChild]
  | .object [] => by simp [leaves]
  | .undefined => by simp [leaves]
  | .null => by simp [leaves]
  | .bool _ => by simp [leaves]
  | .number _ => by simp [leaves]
  | .string _ => by simp [leaves]
  | .array _ => by simp [leaves]

theorem fieldLeaves_eq_flatMap (fields : Fields) :
    fieldLeaves fields = fields.flatMap fun f => f.2.leaves.map (f.1 :: ·) := by
  induction fields with
  | nil => rfl
  | cons f rest ih => simp [fieldLeaves, ih]

theorem cons_mem_fieldLeaves (hf : fields.lookup key = some v) (h : path ∈ v.leaves) :
    key :: path ∈ fieldLeaves fields := by
  rw [fieldLeaves_eq_flatMap]
  exact List.mem_flatMap.mpr ⟨(key, v), mem_of_lookup hf, List.mem_map_of_mem h⟩

theorem leaves_cases (v : Value) :
    v.leaves = [[]] ∨ ∃ fields, v = .object fields ∧ v.leaves = fieldLeaves fields := by
  match v with
  | .object (f :: rest) => exact Or.inr ⟨f :: rest, rfl, rfl⟩
  | .object [] | .undefined | .null | .bool _ | .number _ | .string _ | .array _ =>
    exact Or.inl rfl

theorem get?_isSome_of_leaf (hv : v.Proper) (h : path ∈ v.leaves) : (v.get? path).isSome := by
  induction path generalizing v with
  | nil => simp
  | cons key path ih =>
    rcases leaves_cases v with hLeaf | ⟨fields, rfl, hLeaves⟩
    · simp [hLeaf] at h
    · rw [hLeaves, fieldLeaves_eq_flatMap] at h
      obtain ⟨f, hf, hPath⟩ := List.mem_flatMap.mp h
      obtain ⟨rest, hRest, hEq⟩ := List.mem_map.mp hPath
      obtain ⟨rfl, rfl⟩ := List.cons.inj hEq
      rw [get?_object_cons, (lookup_eq_some_iff hv.nodup).mpr hf]
      exact ih (hv.field hf) hRest

theorem get?_isSome_of_fieldLeaf (hFields : (Value.object fields).Proper)
    (h : path ∈ fieldLeaves fields) : ((Value.object fields).get? path).isSome := by
  cases fields with
  | nil => exact nomatch h
  | cons f rest => exact get?_isSome_of_leaf hFields h

end Json
