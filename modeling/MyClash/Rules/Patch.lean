import MyClash.Library.Json

/-!
# Patching a tree

`patchTree`: a key sent is set, a key sent as null is deleted, a key not sent is kept, and a
parent that a reset emptied goes too.
-/

namespace MyClash.Rules

open Json

def erase (key : String) (next : Fields) : Fields := next.filter fun f => f.1 ≠ key

/-- `next[key] = value`: in place where the object holds the key, else at the end. -/
def assign (key : String) (value : Value) (next : Fields) : Fields :=
  if key ∈ keys next then next.map fun f => if f.1 = key then (key, value) else f
  else next ++ [(key, value)]

/-- `isTree(next[key]) ? next[key] : {}` -/
def subtree (next : Fields) (key : String) : Fields :=
  match next.lookup key with
  | some (.object fields) => fields
  | _ => []

mutual

def patchEntry (next : Fields) (key : String) : Value → Fields
  | .undefined => next
  | .null => erase key next
  | .object patch =>
    match patchTree (subtree next key) patch with
    | [] => erase key next
    | f :: rest => assign key (.object (f :: rest)) next
  | value => assign key value next

def patchTree (next : Fields) : Fields → Fields
  | [] => next
  | (key, value) :: rest => patchTree (patchEntry next key value) rest

end

variable {next fields patch : Fields} {key other : String} {value v : Value}

@[simp] theorem lookup_erase_self : (erase key next).lookup key = none := by
  rw [lookup_eq_none_iff]
  simp [erase, keys]

theorem lookup_erase_of_ne (h : other ≠ key) :
    (erase key next).lookup other = next.lookup other := by
  induction next with
  | nil => rfl
  | cons f rest ih =>
    by_cases hKey : f.1 = key
    · rw [lookup_cons, if_neg (hKey ▸ h), ← ih, erase, List.filter_cons_of_neg (by simp [hKey]),
        erase]
    · rw [erase, List.filter_cons_of_pos (by simp [hKey]), lookup_cons, lookup_cons, ← ih, erase]

theorem lookup_map_self (h : key ∈ keys next) :
    (next.map fun f => if f.1 = key then (key, value) else f).lookup key = some value := by
  induction next with
  | nil => exact nomatch h
  | cons f rest ih =>
    rw [List.map_cons, lookup_cons]
    by_cases hKey : f.1 = key
    · simp [hKey]
    · have hRest : key ∈ keys rest := by
        rcases List.mem_cons.mp h with hHead | hRest
        · exact absurd hHead.symm hKey
        · exact hRest
      rw [if_neg hKey, if_neg (Ne.symm hKey)]
      exact ih hRest

theorem lookup_map_of_ne (h : other ≠ key) :
    (next.map fun f => if f.1 = key then (key, value) else f).lookup other = next.lookup other := by
  induction next with
  | nil => rfl
  | cons f rest ih =>
    rw [List.map_cons, lookup_cons, lookup_cons, ih]
    by_cases hKey : f.1 = key
    · rw [if_pos hKey, if_neg h, if_neg (hKey ▸ h)]
    · rw [if_neg hKey]

theorem lookup_append (l : Fields) :
    (next ++ l).lookup key = (next.lookup key).or (l.lookup key) := by
  induction next with
  | nil => rfl
  | cons f rest ih =>
    rw [List.cons_append, lookup_cons, lookup_cons]
    split
    · rfl
    · exact ih

@[simp] theorem lookup_assign_self : (assign key value next).lookup key = some value := by
  rw [assign]
  split
  · rename_i hMem
    exact lookup_map_self hMem
  · rename_i hNot
    rw [lookup_append, lookup_eq_none_iff.mpr hNot, lookup_cons, if_pos rfl]
    rfl

theorem lookup_assign_of_ne (h : other ≠ key) :
    (assign key value next).lookup other = next.lookup other := by
  rw [assign]
  split
  · exact lookup_map_of_ne h
  · rw [lookup_append, lookup_cons, if_neg h]
    exact Option.or_none

/-- What a patch's entry does to the key it names. -/
def entryResult (next : Fields) (key : String) : Value → Option Value
  | .undefined => next.lookup key
  | .null => none
  | .object patch =>
    match patchTree (subtree next key) patch with
    | [] => none
    | f :: rest => some (.object (f :: rest))
  | value => some value

theorem lookup_patchEntry_self : (patchEntry next key value).lookup key = entryResult next key value := by
  cases value with
  | undefined => rfl
  | null => exact lookup_erase_self
  | object patch =>
    rw [patchEntry, entryResult]
    split
    · exact lookup_erase_self
    · exact lookup_assign_self
  | _ => exact lookup_assign_self

theorem lookup_patchEntry_of_ne (h : other ≠ key) :
    (patchEntry next key value).lookup other = next.lookup other := by
  cases value with
  | undefined => rfl
  | null => exact lookup_erase_of_ne h
  | object patch =>
    rw [patchEntry]
    split
    · exact lookup_erase_of_ne h
    · exact lookup_assign_of_ne h
  | _ => exact lookup_assign_of_ne h

theorem entryResult_congr (h : next.lookup key = fields.lookup key) :
    entryResult next key value = entryResult fields key value := by
  cases value with
  | object patch => rw [entryResult, entryResult, subtree, subtree, h]
  | undefined => exact h
  | _ => rfl

/-- Each key of a patched tree is what the patch's own entry makes of it. -/
theorem lookup_patchTree (hNodup : (keys patch).Nodup) :
    (patchTree next patch).lookup key =
      match patch.lookup key with
      | some value => entryResult next key value
      | none => next.lookup key := by
  induction patch generalizing next with
  | nil => rfl
  | cons f rest ih =>
    obtain ⟨hNot, hRest⟩ := List.nodup_cons.mp hNodup
    rw [patchTree, ih hRest, lookup_cons]
    by_cases hKey : key = f.1
    · have hNone : rest.lookup key = none := lookup_eq_none_iff.mpr (hKey ▸ hNot)
      rw [hNone, if_pos hKey, hKey]
      exact lookup_patchEntry_self
    · rw [if_neg hKey]
      cases rest.lookup key with
      | none => exact lookup_patchEntry_of_ne hKey
      | some value => exact entryResult_congr (lookup_patchEntry_of_ne hKey)

/-! ## Proper trees stay proper -/

theorem proper_object_iff :
    (Value.object fields).Proper ↔ (keys fields).Nodup ∧ ∀ f ∈ fields, f.2.Proper := by
  rw [Value.Proper, Value.properFields_iff]

theorem proper_erase (h : (Value.object next).Proper) : (Value.object (erase key next)).Proper := by
  obtain ⟨hNodup, hFields⟩ := proper_object_iff.mp h
  refine proper_object_iff.mpr ⟨?_, fun f hf => hFields f (List.mem_of_mem_filter hf)⟩
  exact hNodup.sublist (List.filter_sublist.map Prod.fst)

theorem keys_map_assign (key : String) (value : Value) (next : Fields) :
    keys (next.map fun f => if f.1 = key then (key, value) else f) = keys next := by
  rw [keys, keys, List.map_map]
  refine List.map_congr_left fun f _ => ?_
  by_cases hKey : f.1 = key
  · simp [hKey]
  · simp [hKey]

theorem proper_assign (h : (Value.object next).Proper) (hValue : value.Proper) :
    (Value.object (assign key value next)).Proper := by
  obtain ⟨hNodup, hFields⟩ := proper_object_iff.mp h
  rw [assign]
  split
  · refine proper_object_iff.mpr ⟨keys_map_assign key value next ▸ hNodup, ?_⟩
    rw [List.forall_mem_map]
    intro f hf
    split
    · exact hValue
    · exact hFields f hf
  · rename_i hNot
    refine proper_object_iff.mpr ⟨?_, ?_⟩
    · rw [keys, List.map_append]
      refine List.nodup_append.mpr ⟨hNodup, List.nodup_singleton key, ?_⟩
      rintro a ha b hb rfl
      rw [List.mem_singleton.mp hb] at ha
      exact hNot ha
    · intro f hf
      rcases List.mem_append.mp hf with hf | hf
      · exact hFields f hf
      · exact List.mem_singleton.mp hf ▸ hValue

theorem proper_subtree (h : (Value.object next).Proper) (key : String) :
    (Value.object (subtree next key)).Proper := by
  rw [subtree]
  split
  · rename_i hLookup
    exact h.lookup hLookup
  · exact proper_object_iff.mpr ⟨List.nodup_nil, nofun⟩

mutual

theorem proper_patchEntry {next : Fields} (h : (Value.object next).Proper) (key : String) :
    (value : Value) → value.Proper → (Value.object (patchEntry next key value)).Proper
  | .undefined, _ => h
  | .null, _ => proper_erase h
  | .object patch, hPatch => by
    have hChild := proper_patchTree (proper_subtree h key) patch hPatch
    rw [patchEntry]
    split
    · exact proper_erase h
    · rename_i hEq
      exact proper_assign h (hEq ▸ hChild)
  | .bool _, hValue => proper_assign h hValue
  | .number _, hValue => proper_assign h hValue
  | .string _, hValue => proper_assign h hValue
  | .array _, hValue => proper_assign h hValue

theorem proper_patchTree {next : Fields} (h : (Value.object next).Proper) :
    (patch : Fields) → (Value.object patch).Proper → (Value.object (patchTree next patch)).Proper
  | [], _ => h
  | (key, value) :: rest, hPatch => by
    obtain ⟨hNodup, hFields⟩ := proper_object_iff.mp hPatch
    have hRest : (Value.object rest).Proper := proper_object_iff.mpr
      ⟨(List.nodup_cons.mp hNodup).2, fun f hf => hFields f (List.mem_cons_of_mem _ hf)⟩
    exact proper_patchTree (proper_patchEntry h key value (hFields _ List.mem_cons_self)) rest hRest

end

/-! ## Patching twice -/

theorem subtree_eq_nil (h : next.lookup key = none) : subtree next key = [] := by
  rw [subtree, h]

theorem subtree_eq (h : next.lookup key = some (.object fields)) : subtree next key = fields := by
  rw [subtree, h]

theorem erase_eq_self (h : next.lookup key = none) : erase key next = next := by
  refine List.filter_eq_self.mpr fun f hf => ?_
  rw [lookup_eq_none_iff] at h
  rw [decide_eq_true_eq]
  rintro rfl
  exact h (List.mem_map_of_mem hf)

theorem assign_eq_self (hNodup : (keys next).Nodup) (h : next.lookup key = some value) :
    assign key value next = next := by
  have hMem : key ∈ keys next := by
    by_contra hNot
    rw [lookup_eq_none_iff.mpr hNot] at h
    cases h
  rw [assign, if_pos hMem]
  refine (List.map_congr_left fun f hf => ?_).trans (List.map_id next)
  by_cases hKey : f.1 = key
  · have hValue := (lookup_eq_some_iff hNodup).mpr hf
    rw [hKey, h, Option.some.injEq] at hValue
    rw [if_pos hKey, hValue, ← hKey]
    rfl
  · exact if_neg hKey

/-- An entry whose result the tree already holds changes nothing. -/
theorem patchEntry_eq_self (hNodup : (keys next).Nodup)
    (h : entryResult next key value = next.lookup key) : patchEntry next key value = next := by
  cases value with
  | undefined => rfl
  | null => exact erase_eq_self h.symm
  | object patch =>
    rw [entryResult] at h
    rw [patchEntry]
    split at h
    · exact erase_eq_self h.symm
    · exact assign_eq_self hNodup h.symm
  | _ => exact assign_eq_self hNodup h.symm

theorem patchTree_eq_self (hNodup : (keys next).Nodup)
    (h : ∀ f ∈ patch, entryResult next f.1 f.2 = next.lookup f.1) : patchTree next patch = next := by
  induction patch with
  | nil => rfl
  | cons f rest ih =>
    rw [patchTree, patchEntry_eq_self hNodup (h f List.mem_cons_self)]
    exact ih fun g hg => h g (List.mem_cons_of_mem f hg)

theorem sizeOf_lt_of_mem_object (h : (key, Value.object fields) ∈ patch) :
    sizeOf fields < sizeOf patch := by
  have hMem := List.sizeOf_lt_of_mem h
  simp only [Prod.mk.sizeOf_spec, Value.object.sizeOf_spec] at hMem
  omega

theorem eq_nil_of_lookup_eq_none (h : ∀ key, fields.lookup key = none) : fields = [] := by
  cases fields with
  | nil => rfl
  | cons f rest =>
    have hHead := h f.1
    rw [lookup_cons, if_pos rfl] at hHead
    exact nomatch hHead

/-- A patch that leaves nothing of one tree sets nothing, so it leaves nothing of none. -/
theorem patchTree_nil_of_nil (hPatch : (Value.object patch).Proper)
    (h : patchTree next patch = []) : patchTree [] patch = [] := by
  induction hSize : sizeOf patch using Nat.strong_induction_on generalizing patch next with
  | _ n ih =>
    refine eq_nil_of_lookup_eq_none fun key => ?_
    have hKey := @lookup_patchTree next patch key hPatch.nodup
    rw [h] at hKey
    rw [lookup_patchTree hPatch.nodup]
    cases hEntry : patch.lookup key with
    | none => rfl
    | some value =>
      rw [hEntry] at hKey
      cases value with
      | undefined => rfl
      | null => rfl
      | object fields =>
        simp only [entryResult] at hKey ⊢
        split at hKey
        · rename_i hNil
          have hSmaller := sizeOf_lt_of_mem_object (mem_of_lookup hEntry)
          rw [subtree_eq_nil rfl, ih _ (hSize ▸ hSmaller) (hPatch.lookup hEntry) hNil rfl]
        · exact nomatch hKey
      | _ => exact nomatch hKey

/-- Applying a patch twice is applying it once. -/
theorem patchTree_patchTree (hNext : (Value.object next).Proper)
    (hPatch : (Value.object patch).Proper) :
    patchTree (patchTree next patch) patch = patchTree next patch := by
  induction hSize : sizeOf patch using Nat.strong_induction_on generalizing patch next with
  | _ n ih =>
    refine patchTree_eq_self (proper_patchTree hNext patch hPatch).nodup fun f hf => ?_
    obtain ⟨key, value⟩ := f
    have hKey : (patchTree next patch).lookup key = entryResult next key value := by
      rw [lookup_patchTree hPatch.nodup, (lookup_eq_some_iff hPatch.nodup).mpr hf]
    cases value with
    | undefined => rfl
    | object fields =>
      have hChild := ih _ (hSize ▸ sizeOf_lt_of_mem_object hf) (proper_subtree hNext key)
        (hPatch.field hf) rfl
      rw [hKey]
      rw [entryResult] at hKey
      rw [entryResult, entryResult]
      cases hTree : patchTree (subtree next key) fields with
      | nil =>
        rw [hTree] at hKey
        rw [subtree_eq_nil hKey, patchTree_nil_of_nil (hPatch.field hf) hTree]
      | cons g rest =>
        rw [hTree] at hKey hChild
        rw [subtree_eq hKey, hChild]
    | _ => exact hKey.symm

/-! ## Paths of a patched tree -/

theorem get?_single (fields : Fields) (key : String) :
    (Value.object fields).get? [key] = fields.lookup key := by
  rw [get?_object_cons]
  cases fields.lookup key <;> rfl

/-- A patched tree below a key the patch holds a tree at is that subtree, patched. -/
theorem get?_patchTree_object (hPatch : (Value.object patch).Proper) {fields : Fields}
    (hEntry : patch.lookup key = some (.object fields)) {step : String} (path : List String) :
    (Value.object (patchTree next patch)).get? (key :: step :: path) =
      (Value.object (patchTree (subtree next key) fields)).get? (step :: path) := by
  rw [get?_object_cons, lookup_patchTree hPatch.nodup, hEntry]
  simp only [entryResult]
  split
  · rename_i hNil
    rw [hNil]
    rfl
  · rename_i hTree
    rw [hTree]
    rfl

theorem get?_subtree (step : String) (path : List String) :
    (Value.object (subtree next key)).get? (step :: path) =
      (Value.object next).get? (key :: step :: path) := by
  rw [subtree, get?_object_cons next]
  split
  · rename_i hLookup
    rw [hLookup]
    rfl
  · rename_i hNot
    cases hLookup : next.lookup key with
    | none => rfl
    | some v =>
      cases v with
      | object fields => exact absurd hLookup (hNot fields)
      | _ => rfl

/-- What stands at a path of a patched tree stood there before, was set there by the patch, or
is a tree with a field where the patch holds a tree. -/
theorem get?_patchTree_cases (hPatch : (Value.object patch).Proper) {path : List String}
    (h : (Value.object (patchTree next patch)).get? (key :: path) = some v) :
    (Value.object next).get? (key :: path) = some v ∨
      ((Value.object patch).get? (key :: path) = some v ∧ v ≠ .undefined ∧ v ≠ .null ∧
        ∀ fields, v ≠ .object fields) ∨
      ∃ f rest fields, v = .object (f :: rest) ∧
        (Value.object patch).get? (key :: path) = some (.object fields) := by
  induction path generalizing patch next key with
  | nil =>
    rw [get?_single, lookup_patchTree hPatch.nodup] at h
    rw [get?_single, get?_single]
    cases hEntry : patch.lookup key with
    | none =>
      rw [hEntry] at h
      exact Or.inl h
    | some value =>
      rw [hEntry] at h
      cases value with
      | undefined => exact Or.inl h
      | null => cases h
      | object fields =>
        simp only [entryResult] at h
        split at h
        · cases h
        · exact Or.inr (Or.inr ⟨_, _, fields, (Option.some.inj h).symm, rfl⟩)
      | _ =>
        cases h
        exact Or.inr (Or.inl ⟨rfl, by rintro ⟨⟩, by rintro ⟨⟩, fun _ hFields => by cases hFields⟩)
  | cons step path ih =>
    cases hEntry : patch.lookup key with
    | none =>
      rw [get?_object_cons, lookup_patchTree hPatch.nodup, hEntry] at h
      exact Or.inl h
    | some value =>
      cases value with
      | object fields =>
        rw [get?_patchTree_object hPatch hEntry] at h
        have hBelow := ih (hPatch.lookup hEntry) h
        rw [get?_subtree] at hBelow
        rw [get?_object_cons patch, hEntry]
        exact hBelow
      | undefined =>
        rw [get?_object_cons, lookup_patchTree hPatch.nodup, hEntry] at h
        exact Or.inl h
      | _ =>
        rw [get?_object_cons, lookup_patchTree hPatch.nodup, hEntry] at h
        exact nomatch h

/-- Every empty object of a patched tree stood in the tree before, where it stands now. -/
theorem get?_empty_of_patchTree (hPatch : (Value.object patch).Proper) {path : List String}
    (h : (Value.object (patchTree next patch)).get? (key :: path) = some (.object [])) :
    (Value.object next).get? (key :: path) = some (.object []) := by
  rcases get?_patchTree_cases hPatch h with hNext | ⟨-, -, -, hTree⟩ | ⟨f, rest, fields, hEq, -⟩
  · exact hNext
  · exact absurd rfl (hTree [])
  · exact nomatch hEq

/-- What a patch makes of the value at a path it holds no tree at. -/
def patched (before : Option Value) : Option Value → Option Value
  | none => before
  | some .undefined => before
  | some .null => none
  | some value => some value

theorem entryResult_eq_patched (hTree : ∀ fields, value ≠ .object fields) :
    entryResult next key value = patched (next.lookup key) (some value) := by
  cases value with
  | object fields => exact absurd rfl (hTree fields)
  | _ => rfl

/-- Where the patch holds trees all the way down to a path, it sets, resets or keeps the value
there. -/
theorem get?_patchTree (hPatch : (Value.object patch).Proper) {path : List String}
    (hAbove : ∀ steps step w, steps ++ [step] <+: path →
      (Value.object patch).get? (key :: steps) = some w → w = .undefined ∨ ∃ fields, w = .object fields)
    (hEnd : ∀ fields, (Value.object patch).get? (key :: path) ≠ some (.object fields)) :
    (Value.object (patchTree next patch)).get? (key :: path) =
      patched ((Value.object next).get? (key :: path)) ((Value.object patch).get? (key :: path)) := by
  induction path generalizing patch next key with
  | nil =>
    simp only [get?_single] at hEnd ⊢
    rw [lookup_patchTree hPatch.nodup]
    cases hEntry : patch.lookup key with
    | none => rfl
    | some value =>
      refine entryResult_eq_patched fun fields hTree => hEnd fields ?_
      rw [hEntry, hTree]
  | cons step path ih =>
    cases hEntry : patch.lookup key with
    | none =>
      rw [get?_object_cons, lookup_patchTree hPatch.nodup, get?_object_cons patch, hEntry]
      rfl
    | some value =>
      have hHere : (Value.object patch).get? [key] = some value := by
        rw [get?_single, hEntry]
      rcases hAbove [] step value ⟨path, rfl⟩ hHere with rfl | ⟨fields, rfl⟩
      · rw [get?_object_cons, lookup_patchTree hPatch.nodup, get?_object_cons patch, hEntry]
        rfl
      · have hBelow : ∀ steps, (Value.object patch).get? (key :: steps) =
            (Value.object fields).get? steps := fun steps => by
          rw [get?_object_cons, hEntry, Option.bind_some]
        rw [get?_patchTree_object hPatch hEntry, hBelow, ← get?_subtree]
        refine ih (hPatch.lookup hEntry) (fun steps s w hPrefix hw => ?_) fun fields => ?_
        · refine hAbove (step :: steps) s w ?_ ((hBelow _).trans hw)
          rw [List.cons_append, List.cons_prefix_cons]
          exact ⟨rfl, hPrefix⟩
        · rw [← hBelow]
          exact hEnd fields

end MyClash.Rules
