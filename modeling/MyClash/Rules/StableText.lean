import Mathlib.Data.List.Forall2
import MyClash.Library.JsonText

/-!
# The stable text decides a value

Two JSON values have one stable text exactly when they are equal up to the order their objects
list their keys in.
-/

namespace MyClash.Rules

open Json Json.Value

/-- A value JSON can hold: nothing absent in it, no key of an object listed twice. -/
inductive IsJson : Value → Prop where
  | null : IsJson .null
  | bool (b : Bool) : IsJson (.bool b)
  | number (n : ℚ) : IsJson (.number n)
  | string (s : String) : IsJson (.string s)
  | array {items : List Value} : (∀ v ∈ items, IsJson v) → IsJson (.array items)
  | object {fields : Fields} : (keys fields).Nodup → (∀ f ∈ fields, IsJson f.2) →
      IsJson (.object fields)

abbrev JsonValue := { v : Value // IsJson v }

/-- Equal, but for the order in which an object lists its keys. -/
inductive SameUpToKeyOrder : Value → Value → Prop where
  | null : SameUpToKeyOrder .null .null
  | bool (b : Bool) : SameUpToKeyOrder (.bool b) (.bool b)
  | number (n : ℚ) : SameUpToKeyOrder (.number n) (.number n)
  | string (s : String) : SameUpToKeyOrder (.string s) (.string s)
  | array {items others : List Value} : List.Forall₂ SameUpToKeyOrder items others →
      SameUpToKeyOrder (.array items) (.array others)
  | object {fields reordered others : Fields} : fields.Perm reordered →
      keys reordered = keys others →
      List.Forall₂ SameUpToKeyOrder (reordered.map Prod.snd) (others.map Prod.snd) →
      SameUpToKeyOrder (.object fields) (.object others)

section Forall

variable {α β : Type*} {R S : α → β → Prop}

theorem forall₂_of_mem {l : List α} {l' : List β} (h : List.Forall₂ R l l')
    (hMem : ∀ a ∈ l, ∀ b ∈ l', R a b → S a b) : List.Forall₂ S l l' := by
  induction h with
  | nil => exact .nil
  | cons hHead _ ih =>
    refine .cons (hMem _ List.mem_cons_self _ List.mem_cons_self hHead) (ih ?_)
    exact fun a ha b hb => hMem a (List.mem_cons_of_mem _ ha) b (List.mem_cons_of_mem _ hb)

theorem map_eq_map_iff_forall₂ {γ : Type*} {f : α → γ} {g : β → γ} {l : List α} {l' : List β} :
    l.map f = l'.map g ↔ List.Forall₂ (fun a b => f a = g b) l l' := by
  rw [← List.forall₂_eq_eq_eq, List.forall₂_map_left_iff, List.forall₂_map_right_iff]

end Forall

theorem sizeOf_lt_item {items : List Value} {v : Value} (h : v ∈ items) :
    sizeOf v < sizeOf (Value.array items) := by
  have hMem := List.sizeOf_lt_of_mem h
  simp only [Value.array.sizeOf_spec]
  omega

theorem sizeOf_lt_field {fields : Fields} {f : String × Value} (h : f ∈ fields) :
    sizeOf f.2 < sizeOf (Value.object fields) := by
  have hMem := List.sizeOf_lt_of_mem h
  have hPair : sizeOf f.2 < sizeOf f := by
    cases f
    simp only [Prod.mk.sizeOf_spec]
    omega
  simp only [Value.object.sizeOf_spec]
  omega

variable {lang : Language}

/-- The fields of one object in the order another lists its keys. -/
def reorder (fields others : Fields) : Fields :=
  others.map fun g => (g.1, (fields.lookup g.1).getD .null)

theorem reorder_perm {fields others : Fields} (hFields : (keys fields).Nodup)
    (hOthers : (keys others).Nodup)
    (h : stableStringify lang (.object fields) = stableStringify lang (.object others)) :
    fields.Perm (reorder fields others) := by
  have hRead := (text_object_eq_iff hFields hOthers).mp h
  have hKeys : ((reorder fields others).map Prod.fst).Nodup := by
    rw [reorder, List.map_map]
    exact hOthers
  rw [List.perm_ext_iff_of_nodup hFields.of_map hKeys.of_map]
  rintro ⟨key, a⟩
  constructor
  · intro hMem
    have hKey := hRead key
    rw [(lookup_eq_some_iff hFields).mpr hMem, Option.map_some, eq_comm,
      Option.map_eq_some_iff] at hKey
    obtain ⟨b, hOther, -⟩ := hKey
    refine List.mem_map.mpr ⟨(key, b), mem_of_lookup hOther, ?_⟩
    rw [(lookup_eq_some_iff hFields).mpr hMem, Option.getD_some]
  · intro hMem
    obtain ⟨⟨k, b⟩, hOther, hEq⟩ := List.mem_map.mp hMem
    obtain ⟨rfl, rfl⟩ := Prod.mk.inj hEq
    have hKey := hRead k
    rw [(lookup_eq_some_iff hOthers).mpr hOther, Option.map_some, Option.map_eq_some_iff] at hKey
    obtain ⟨a, hField, -⟩ := hKey
    rw [hField, Option.getD_some]
    exact mem_of_lookup hField

/-- Each kind of value is read back from its text. -/
theorem same_of_text_eq {v w : Value} (hv : IsJson v) (hw : IsJson w)
    (h : stableStringify lang v = stableStringify lang w) : SameUpToKeyOrder v w := by
  induction hSize : sizeOf v using Nat.strong_induction_on generalizing v w with
  | _ n ih =>
    have hKind := kind_eq_of_text_eq lang h
    cases hv with
    | null =>
      cases hw with
      | null => exact .null
      | bool b => cases b <;> cases hKind
      | _ => cases hKind
    | bool b =>
      cases hw with
      | bool c =>
        obtain rfl : b = c := by cases b <;> cases c <;> first | rfl | cases hKind
        exact .bool b
      | _ => cases b <;> cases hKind
    | number m =>
      cases hw with
      | number k =>
        obtain rfl := lang.numberText_injective h
        exact .number m
      | bool b => cases b <;> cases hKind
      | _ => cases hKind
    | string s =>
      cases hw with
      | string t =>
        obtain ⟨rfl, -⟩ := quote_unique (congrArg (· ++ ([] : List Char)) h)
        exact .string s
      | bool b => cases b <;> cases hKind
      | _ => cases hKind
    | array hItems =>
      cases hw with
      | array hOthers =>
        refine .array (forall₂_of_mem (map_eq_map_iff_forall₂.mp (text_array_eq_iff.mp h)) ?_)
        intro a ha b hb hText
        exact ih _ (hSize ▸ sizeOf_lt_item ha) (hItems a ha) (hOthers b hb) hText rfl
      | bool b => cases b <;> cases hKind
      | _ => cases hKind
    | @object fields hNodup hFields =>
      cases hw with
      | @object others hNodup' hOthers =>
        have hPerm := reorder_perm hNodup hNodup' h
        have hRead := (text_object_eq_iff hNodup hNodup').mp h
        refine .object hPerm (by rw [reorder, keys, List.map_map]; rfl) ?_
        rw [reorder, List.map_map, List.forall₂_map_left_iff, List.forall₂_map_right_iff,
          List.forall₂_same]
        rintro ⟨key, b⟩ hOther
        have hKey := hRead key
        rw [(lookup_eq_some_iff hNodup').mpr hOther, Option.map_some,
          Option.map_eq_some_iff] at hKey
        obtain ⟨a, hField, hText⟩ := hKey
        have hMem := mem_of_lookup hField
        rw [Function.comp_apply, hField, Option.getD_some]
        exact ih _ (hSize ▸ sizeOf_lt_field hMem) (hFields _ hMem) (hOthers _ hOther) hText rfl
      | bool b => cases b <;> cases hKind
      | _ => cases hKind

theorem text_eq_of_same {v w : Value} (hv : IsJson v) (h : SameUpToKeyOrder v w) :
    stableStringify lang v = stableStringify lang w := by
  induction hSize : sizeOf v using Nat.strong_induction_on generalizing v w with
  | _ n ih =>
    cases h with
    | null => rfl
    | bool => rfl
    | number => rfl
    | string => rfl
    | array hSame =>
      cases hv with
      | array hItems =>
        refine text_array_eq_iff.mpr (map_eq_map_iff_forall₂.mpr (forall₂_of_mem hSame ?_))
        exact fun a ha b _ hab => ih _ (hSize ▸ sizeOf_lt_item ha) (hItems a ha) hab rfl
    | @object fields reordered others hPerm hKeys hSame =>
      cases hv with
      | object hNodup hFields =>
        have hTexts : fieldTexts lang reordered = fieldTexts lang others := by
          rw [fieldTexts_eq_map, fieldTexts_eq_map, map_eq_map_iff_forall₂]
          rw [keys, keys, map_eq_map_iff_forall₂] at hKeys
          rw [List.forall₂_map_left_iff, List.forall₂_map_right_iff] at hSame
          refine forall₂_of_mem (hKeys.mp (fun _ _ => And.intro) hSame) ?_
          rintro f hf g - ⟨hKey, hValue⟩
          have hMem := hPerm.mem_iff.mpr hf
          rw [hKey, ih _ (hSize ▸ sizeOf_lt_field hMem) (hFields f hMem) hValue rfl]
        have hSorted : sortKeys lang (fieldTexts lang fields) =
            sortKeys lang (fieldTexts lang reordered) := by
          refine sortKeys_eq_of_perm ?_ ?_
          · rw [fieldTexts_eq_map, fieldTexts_eq_map]
            exact hPerm.map _
          · rw [keys_fieldTexts]
            exact hNodup
        rw [stableStringify, stableStringify, hSorted, hTexts]

/-- The stable text of a JSON value tells it from every other, and only the key order is lost. -/
theorem stableStringify_eq_iff (lang : Language) (v w : JsonValue) :
    stableStringify lang v.1 = stableStringify lang w.1 ↔ SameUpToKeyOrder v.1 w.1 :=
  ⟨same_of_text_eq v.2 w.2, text_eq_of_same v.2⟩

end MyClash.Rules
