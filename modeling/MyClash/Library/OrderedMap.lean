import Mathlib

/-!
# Maps that remember the order of their keys

A key takes its place when it is first set. Setting it again replaces its value there.
-/

universe u v

structure OrderedMap (κ : Type u) (ν : Type v) where
  entries : List (κ × ν)
  nodup : (entries.map Prod.fst).Nodup

namespace OrderedMap

variable {κ : Type u} {ν : Type v}

def empty : OrderedMap κ ν := ⟨[], List.nodup_nil⟩

def keys (m : OrderedMap κ ν) : List κ := m.entries.map Prod.fst

def values (m : OrderedMap κ ν) : List ν := m.entries.map Prod.snd

@[simp] theorem entries_empty : (empty : OrderedMap κ ν).entries = [] := rfl

variable [DecidableEq κ]

def get? (m : OrderedMap κ ν) (key : κ) : Option ν := (m.entries.find? (·.1 = key)).map (·.2)

def setEntries (key : κ) (value : ν) : List (κ × ν) → List (κ × ν)
  | [] => [(key, value)]
  | entry :: entries =>
    if entry.1 = key then (key, value) :: entries else entry :: setEntries key value entries

theorem keys_setEntries (key : κ) (value : ν) (entries : List (κ × ν)) :
    (setEntries key value entries).map Prod.fst =
      if key ∈ entries.map Prod.fst then entries.map Prod.fst
      else entries.map Prod.fst ++ [key] := by
  induction entries with
  | nil => rfl
  | cons entry entries ih =>
    rw [setEntries]
    by_cases hKey : entry.1 = key
    · simp [hKey]
    · have hNe : key ≠ entry.1 := Ne.symm hKey
      rw [if_neg hKey, List.map_cons, List.map_cons, ih]
      by_cases hMem : key ∈ entries.map Prod.fst
      · rw [if_pos hMem, if_pos (List.mem_cons_of_mem _ hMem)]
      · rw [if_neg hMem, if_neg (List.not_mem_cons_of_ne_of_not_mem hNe hMem), List.cons_append]

theorem nodup_setEntries (key : κ) (value : ν) {entries : List (κ × ν)}
    (h : (entries.map Prod.fst).Nodup) : ((setEntries key value entries).map Prod.fst).Nodup := by
  rw [keys_setEntries]
  split_ifs with hMem
  · exact h
  · exact List.nodup_append.mpr ⟨h, List.nodup_singleton key, by
      rintro a ha b hb rfl
      exact hMem (List.mem_singleton.mp hb ▸ ha)⟩

def set (m : OrderedMap κ ν) (key : κ) (value : ν) : OrderedMap κ ν :=
  ⟨setEntries key value m.entries, nodup_setEntries key value m.nodup⟩

/-- The later of two entries under one key wins. -/
def ofList (entries : List (κ × ν)) : OrderedMap κ ν :=
  entries.foldl (fun m entry => m.set entry.1 entry.2) empty

/-! ## Lookup -/

theorem get?_eq_some_iff {m : OrderedMap κ ν} {key : κ} {value : ν} :
    m.get? key = some value ↔ (key, value) ∈ m.entries := by
  constructor
  · intro h
    obtain ⟨⟨key', value'⟩, hFind, rfl⟩ := Option.map_eq_some_iff.mp h
    have hKey : key' = key := by simpa using List.find?_some hFind
    exact hKey ▸ List.mem_of_find?_eq_some hFind
  · intro h
    obtain ⟨entry, hFind⟩ : ∃ entry, m.entries.find? (·.1 = key) = some entry :=
      Option.isSome_iff_exists.mp (List.find?_isSome.mpr ⟨_, h, by simp⟩)
    have hKey : entry.1 = key := by simpa using List.find?_some hFind
    have hSame : entry = (key, value) :=
      List.inj_on_of_nodup_map m.nodup (List.mem_of_find?_eq_some hFind) h hKey
    rw [get?, hFind, hSame]
    rfl

theorem get?_eq_none_iff {m : OrderedMap κ ν} {key : κ} : m.get? key = none ↔ key ∉ m.keys := by
  rw [get?, Option.map_eq_none_iff, List.find?_eq_none]
  constructor
  · intro h hKey
    obtain ⟨entry, hEntry, rfl⟩ := List.mem_map.mp hKey
    exact h entry hEntry (decide_eq_true rfl)
  · rintro h entry hEntry hKey
    exact h (of_decide_eq_true hKey ▸ List.mem_map_of_mem hEntry)

theorem find?_setEntries (key key' : κ) (value : ν) (entries : List (κ × ν)) :
    (setEntries key value entries).find? (·.1 = key') =
      if key = key' then some (key, value) else entries.find? (·.1 = key') := by
  induction entries with
  | nil => by_cases h : key = key' <;> simp [setEntries, h]
  | cons entry entries ih =>
    rw [setEntries]
    by_cases hKey : entry.1 = key
    · by_cases h : key = key' <;> simp [hKey, h]
    · rw [if_neg hKey, List.find?_cons, ih]
      by_cases h : key = key'
      · simp [h, h ▸ hKey]
      · simp [h, List.find?_cons]

@[simp] theorem get?_empty (key : κ) : (empty : OrderedMap κ ν).get? key = none := rfl

theorem get?_set (m : OrderedMap κ ν) (key key' : κ) (value : ν) :
    (m.set key value).get? key' = if key = key' then some value else m.get? key' := by
  rw [get?, set, find?_setEntries]
  split_ifs <;> rfl

theorem keys_set (m : OrderedMap κ ν) (key : κ) (value : ν) :
    (m.set key value).keys = if key ∈ m.keys then m.keys else m.keys ++ [key] :=
  keys_setEntries key value m.entries

theorem mem_keys_set {m : OrderedMap κ ν} {key key' : κ} {value : ν} :
    key' ∈ (m.set key value).keys ↔ key' = key ∨ key' ∈ m.keys := by
  rw [keys_set]
  split_ifs with h
  · constructor
    · exact Or.inr
    · rintro (rfl | hMem)
      · exact h
      · exact hMem
  · simp [or_comm]

/-- The value under a key, revised where it stands. -/
def revise (m : OrderedMap κ ν) (key : κ) (f : ν → ν) : OrderedMap κ ν :=
  match m.get? key with
  | some value => m.set key (f value)
  | none => m

/-! ## Sums over the values -/

theorem sum_setEntries (g : ν → ℕ) (key : κ) (value : ν) (entries : List (κ × ν)) :
    ((setEntries key value entries).map fun entry => g entry.2).sum +
        (((entries.find? (·.1 = key)).map fun entry => g entry.2).getD 0) =
      (entries.map fun entry => g entry.2).sum + g value := by
  induction entries with
  | nil => simp [setEntries]
  | cons entry entries ih =>
    rw [setEntries]
    by_cases hKey : entry.1 = key
    · rw [if_pos hKey]
      simp only [List.find?_cons, hKey, decide_true, List.map_cons, List.sum_cons,
        Option.map_some, Option.getD_some]
      omega
    · rw [if_neg hKey]
      simp only [List.find?_cons, hKey, decide_false, List.map_cons, List.sum_cons]
      omega

/-- Setting a key changes the sum by what was under it. -/
theorem sum_set (g : ν → ℕ) (m : OrderedMap κ ν) (key : κ) (value : ν) :
    ((m.set key value).values.map g).sum + ((m.get? key).map g).getD 0 =
      (m.values.map g).sum + g value := by
  have hSum := sum_setEntries g key value m.entries
  rw [values, values, List.map_map, List.map_map, get?, Option.map_map]
  exact hSum

section Shift

variable {g : ν → ℕ} {f : ν → ν} {amount : ℕ} (m : OrderedMap κ ν) (key : κ)

/-- A value made where it is missing, and then raised by an amount. -/
theorem sum_set_getD {fresh : ν} (hShift : ∀ value, g (f value) = g value + amount)
    (hFresh : g fresh = 0) :
    ((m.set key (f ((m.get? key).getD fresh))).values.map g).sum =
      (m.values.map g).sum + amount := by
  have hSum := sum_set g m key (f ((m.get? key).getD fresh))
  rw [hShift] at hSum
  cases hGet : m.get? key with
  | none =>
    simp only [hGet, Option.map_none, Option.getD_none, hFresh] at hSum
    simp only [Option.getD_none]
    omega
  | some value =>
    simp only [hGet, Option.map_some, Option.getD_some] at hSum
    simp only [Option.getD_some]
    omega

theorem sum_revise (hShift : ∀ value, g (f value) = g value + amount) (hKey : key ∈ m.keys) :
    ((m.revise key f).values.map g).sum = (m.values.map g).sum + amount := by
  cases hGet : m.get? key with
  | none => exact absurd hKey (get?_eq_none_iff.mp hGet)
  | some value =>
    have hSum := sum_set g m key (f value)
    simp only [hGet, Option.map_some, Option.getD_some, hShift] at hSum
    simp only [revise, hGet]
    omega

end Shift

theorem mem_keys_iff_get? {m : OrderedMap κ ν} {key : κ} :
    key ∈ m.keys ↔ ∃ value, m.get? key = some value := by
  rw [← Option.isSome_iff_exists, Option.isSome_iff_ne_none, ne_eq, get?_eq_none_iff, not_not]

theorem keys_revise (m : OrderedMap κ ν) (key : κ) (f : ν → ν) : (m.revise key f).keys = m.keys := by
  rw [revise]
  split
  · rename_i value hGet
    rw [keys_set, if_pos (mem_keys_iff_get?.mpr ⟨value, hGet⟩)]
  · rfl

/-! ## Lists of entries -/

theorem setEntries_concat {key : κ} {entries : List (κ × ν)} (h : key ∉ entries.map Prod.fst)
    (value : ν) : setEntries key value entries = entries ++ [(key, value)] := by
  induction entries with
  | nil => rfl
  | cons entry entries ih =>
    rw [List.map_cons, List.mem_cons, not_or] at h
    rw [setEntries, if_neg (Ne.symm h.1), ih h.2, List.cons_append]

theorem foldl_set (entries : List (κ × ν)) (m : OrderedMap κ ν)
    (h : (m.keys ++ entries.map Prod.fst).Nodup) :
    (entries.foldl (fun m entry => m.set entry.1 entry.2) m).entries = m.entries ++ entries := by
  induction entries generalizing m with
  | nil => simp
  | cons entry entries ih =>
    have hFresh : entry.1 ∉ m.keys := fun hMem =>
      (List.disjoint_of_nodup_append h) hMem (by simp)
    have hSet : (m.set entry.1 entry.2).entries = m.entries ++ [entry] :=
      setEntries_concat hFresh entry.2
    rw [List.foldl_cons, ih, hSet, List.append_assoc]
    · rfl
    · rw [keys, hSet, List.map_append, List.append_assoc]
      exact h

/-- Where no key comes twice, the map lists the entries as they came. -/
theorem entries_ofList {entries : List (κ × ν)} (h : (entries.map Prod.fst).Nodup) :
    (ofList entries).entries = entries :=
  foldl_set entries empty h

/-- Entries that a function of the key gives. -/
theorem get?_foldl_set (f : κ → ν) (keys : List κ) (m : OrderedMap κ ν) (key : κ) :
    ((keys.map fun k => (k, f k)).foldl (fun m entry => m.set entry.1 entry.2) m).get? key =
      if key ∈ keys then some (f key) else m.get? key := by
  induction keys generalizing m with
  | nil => rfl
  | cons k keys ih =>
    rw [List.map_cons, List.foldl_cons, ih, get?_set]
    by_cases hMem : key ∈ keys
    · simp [hMem]
    · by_cases hKey : k = key
      · simp [hKey]
      · simp [hMem, hKey, Ne.symm hKey]

/-- The entries of the second map are set on the first. -/
def merge (m m' : OrderedMap κ ν) : OrderedMap κ ν :=
  m'.entries.foldl (fun m entry => m.set entry.1 entry.2) m

theorem get?_cons (entry : κ × ν) (entries : List (κ × ν)) (h : ((entry :: entries).map Prod.fst).Nodup)
    (key : κ) : (⟨entry :: entries, h⟩ : OrderedMap κ ν).get? key =
      if entry.1 = key then some entry.2
      else (⟨entries, (List.nodup_cons.mp h).2⟩ : OrderedMap κ ν).get? key := by
  by_cases hKey : entry.1 = key <;> simp [get?, hKey]

theorem get?_merge (m m' : OrderedMap κ ν) (key : κ) :
    (m.merge m').get? key = (m'.get? key).or (m.get? key) := by
  obtain ⟨entries, hNodup⟩ := m'
  rw [merge]
  induction entries generalizing m with
  | nil => rfl
  | cons entry entries ih =>
    obtain ⟨hFresh, hRest⟩ := List.nodup_cons.mp hNodup
    rw [List.foldl_cons, ih _ hRest, get?_set, get?_cons]
    by_cases hKey : entry.1 = key
    · have hNone : (⟨entries, hRest⟩ : OrderedMap κ ν).get? key = none :=
        get?_eq_none_iff.mpr (hKey ▸ hFresh)
      rw [if_pos hKey, if_pos hKey, hNone]
      rfl
    · rw [if_neg hKey, if_neg hKey]

theorem get?_ofList_map (f : κ → ν) (keys : List κ) (key : κ) :
    (ofList (keys.map fun k => (k, f k))).get? key = if key ∈ keys then some (f key) else none :=
  get?_foldl_set f keys empty key

/-! ## Accumulation by key -/

section Accumulate

variable {α : Type*} {key : α → κ} {step : Option ν → α → ν}

/-- Each element revises the value under its key. -/
def accumulate (key : α → κ) (step : Option ν → α → ν) (l : List α) : OrderedMap κ ν :=
  l.foldl (fun m a => m.set (key a) (step (m.get? (key a)) a)) empty

theorem accumulate_concat (l : List α) (a : α) : accumulate key step (l ++ [a]) =
    (accumulate key step l).set (key a) (step ((accumulate key step l).get? (key a)) a) := by
  rw [accumulate, List.foldl_append]
  rfl

/-- The value under a key is what the elements of that key make, in their order. -/
theorem get?_accumulate (l : List α) (k : κ) : (accumulate key step l).get? k =
    (l.filter (key · = k)).foldl (fun value a => some (step value a)) none := by
  induction l using List.reverseRecOn with
  | nil => rfl
  | append_singleton l a ih =>
    rw [accumulate_concat, get?_set, List.filter_append, List.foldl_append, ← ih]
    by_cases hKey : key a = k
    · simp [hKey]
    · simp [hKey]

end Accumulate

end OrderedMap
