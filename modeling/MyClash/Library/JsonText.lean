import MyClash.Library.Json
import Mathlib.Data.List.Sort
import Mathlib.Data.Char

/-!
# JSON texts

The text of a value with its object keys sorted. The order of the keys and the text of a
number are the language's. Two values have one text exactly when they agree at every leaf
(`text_object_eq_of_leaves`).
-/

namespace Json

open Value

def numeric : List Char :=
  ['0', '1', '2', '3', '4', '5', '6', '7', '8', '9', '+', '-', '.', 'e']

/-- What the text of a value rests on: the order keys are sorted in and the text of a number. -/
structure Language where
  keyLe : String → String → Bool
  keyLe_total : ∀ a b, keyLe a b || keyLe b a
  keyLe_trans : ∀ a b c, keyLe a b → keyLe b c → keyLe a c
  keyLe_antisymm : ∀ a b, keyLe a b → keyLe b a → a = b
  numberText : ℚ → List Char
  numberText_ne_nil : ∀ q, numberText q ≠ []
  numberText_numeric : ∀ q, ∀ c ∈ numberText q, c ∈ numeric
  numberText_injective : Function.Injective numberText

/-! ## Strings -/

def hexDigit (n : ℕ) : Char := if n < 10 then Char.ofNat (48 + n) else Char.ofNat (87 + n)

def hexValue (c : Char) : ℕ := if c.toNat < 58 then c.toNat - 48 else c.toNat - 87

/-- How a character stands in a quoted string. -/
def quoteChar (c : Char) : List Char :=
  if c = '\x22' then ['\x5c', '\x22']
  else if c = '\x5c' then ['\x5c', '\x5c']
  else if c = '\x08' then ['\x5c', 'b']
  else if c = '\x0c' then ['\x5c', 'f']
  else if c = '\n' then ['\x5c', 'n']
  else if c = '\r' then ['\x5c', 'r']
  else if c = '\t' then ['\x5c', 't']
  else if c.toNat < 32 then
    ['\x5c', 'u', '0', '0', hexDigit (c.toNat / 16), hexDigit (c.toNat % 16)]
  else [c]

/-- Reads back one character of a quoted string. -/
@[grind =] def unquoteChar : List Char → Option (Char × List Char)
  | [] => none
  | '\x5c' :: rest =>
    match rest with
    | 'b' :: r => some ('\x08', r)
    | 'f' :: r => some ('\x0c', r)
    | 'n' :: r => some ('\n', r)
    | 'r' :: r => some ('\r', r)
    | 't' :: r => some ('\t', r)
    | 'u' :: '0' :: '0' :: a :: b :: r => some (Char.ofNat (16 * hexValue a + hexValue b), r)
    | c :: r => some (c, r)
    | [] => none
  | c :: r => some (c, r)

theorem hexValue_hexDigit : ∀ n < 16, hexValue (hexDigit n) = n := by decide

theorem unquoteChar_quoteChar (c : Char) (r : List Char) :
    unquoteChar (quoteChar c ++ r) = some (c, r) := by
  unfold quoteChar
  split_ifs with h1 h2 h3 h4 h5 h6 h7 h8
  · subst h1; rfl
  · subst h2; rfl
  · subst h3; rfl
  · subst h4; rfl
  · subst h5; rfl
  · subst h6; rfl
  · subst h7; rfl
  · have hHigh := hexValue_hexDigit (c.toNat / 16) (by omega)
    have hLow := hexValue_hexDigit (c.toNat % 16) (by omega)
    have hChar : Char.ofNat (16 * (c.toNat / 16) + c.toNat % 16) = c := by
      rw [Nat.div_add_mod, Char.ofNat_toNat]
    simp [unquoteChar, hHigh, hLow, hChar]
  · simp [unquoteChar]

theorem quoteChar_head {c d : Char} {rest : List Char} (h : quoteChar c = d :: rest) :
    d ≠ '\x22' := by
  unfold quoteChar at h
  split_ifs at h <;> cases h <;> first | decide | assumption

def quoteBody (s : List Char) : List Char := s.flatMap quoteChar

def quote (s : String) : List Char := '\x22' :: (quoteBody s.toList ++ ['\x22'])

theorem quoteChar_ne_nil (c : Char) : quoteChar c ≠ [] := by
  unfold quoteChar
  split_ifs <;> simp

theorem quoteBody_unique {cs ds r s : List Char}
    (h : quoteBody cs ++ '\x22' :: r = quoteBody ds ++ '\x22' :: s) : cs = ds ∧ r = s := by
  induction cs generalizing ds with
  | nil =>
    cases ds with
    | nil => exact ⟨rfl, (List.cons.inj h).2⟩
    | cons d ds =>
      cases hQuoted : quoteChar d with
      | nil => exact absurd hQuoted (quoteChar_ne_nil d)
      | cons e rest =>
        simp only [quoteBody, List.flatMap_nil, List.nil_append, List.flatMap_cons, hQuoted,
          List.cons_append] at h
        exact absurd (List.cons.inj h).1.symm (quoteChar_head hQuoted)
  | cons c cs ih =>
    cases ds with
    | nil =>
      cases hQuoted : quoteChar c with
      | nil => exact absurd hQuoted (quoteChar_ne_nil c)
      | cons e rest =>
        simp only [quoteBody, List.flatMap_nil, List.nil_append, List.flatMap_cons, hQuoted,
          List.cons_append] at h
        exact absurd (List.cons.inj h).1 (quoteChar_head hQuoted)
    | cons d ds =>
      simp only [quoteBody, List.flatMap_cons, List.append_assoc] at h
      have hRead := congrArg unquoteChar h
      rw [unquoteChar_quoteChar, unquoteChar_quoteChar, Option.some.injEq, Prod.mk.injEq] at hRead
      obtain ⟨rfl, hEnd⟩ := ih hRead.2
      exact ⟨by rw [hRead.1], hEnd⟩

theorem quote_unique {k l : String} {r s : List Char} (h : quote k ++ r = quote l ++ s) :
    k = l ∧ r = s := by
  simp only [quote, List.cons_append, List.append_assoc, List.nil_append] at h
  obtain ⟨hList, hEnd⟩ := quoteBody_unique (List.cons.inj h).2
  exact ⟨String.toList_injective hList, hEnd⟩

/-! ## Values -/

variable (lang : Language)

def sortKeys {β : Type*} (entries : List (String × β)) : List (String × β) :=
  entries.mergeSort fun a b => lang.keyLe a.1 b.1

def member (entry : String × List Char) : List Char := quote entry.1 ++ ':' :: entry.2

mutual

def stableStringify : Value → List Char
  | .undefined => "null".toList
  | .null => "null".toList
  | .bool true => "true".toList
  | .bool false => "false".toList
  | .number n => lang.numberText n
  | .string s => quote s
  | .array items => '[' :: (PrefixCode.separated ',' (itemTexts items) ++ [']'])
  | .object fields =>
    '\x7b' ::
      (PrefixCode.separated ',' ((sortKeys lang (fieldTexts fields)).map member) ++ ['\x7d'])

def itemTexts : List Value → List (List Char)
  | [] => []
  | v :: rest => stableStringify v :: itemTexts rest

def fieldTexts : Fields → List (String × List Char)
  | [] => []
  | (key, v) :: rest => (key, stableStringify v) :: fieldTexts rest

end

theorem itemTexts_eq_map (items : List Value) :
    itemTexts lang items = items.map (stableStringify lang) := by
  induction items with
  | nil => rfl
  | cons v rest ih => simp [itemTexts, ih]

theorem fieldTexts_eq_map (fields : Fields) :
    fieldTexts lang fields = fields.map fun f => (f.1, stableStringify lang f.2) := by
  induction fields with
  | nil => rfl
  | cons f rest ih => simp [fieldTexts, ih]

/-- What may follow a value. -/
def stop (c : Char) : Prop := c = ',' ∨ c = ']' ∨ c = '\x7d'

instance : DecidablePred stop := fun _ => inferInstanceAs (Decidable (_ ∨ _ ∨ _))

theorem stop_comma : stop ',' := by decide

theorem stop_closeArray : stop ']' := by decide

theorem stop_closeObject : stop '\x7d' := by decide

theorem not_stop_of_numeric : ∀ c ∈ numeric, ¬ stop c := by
  simp [numeric, stop]

/-- The letter a value's text starts with; a number's is any of its own. -/
def Starts (v : Value) (c : Char) : Prop :=
  match v with
  | .undefined => c = 'n'
  | .null => c = 'n'
  | .bool true => c = 't'
  | .bool false => c = 'f'
  | .number _ => c ∈ numeric
  | .string _ => c = '\x22'
  | .array _ => c = '['
  | .object _ => c = '\x7b'

theorem head_stableStringify (v : Value) :
    ∃ c, (stableStringify lang v).head? = some c ∧ Starts v c := by
  cases v with
  | bool b => cases b <;> exact ⟨_, rfl, rfl⟩
  | number n =>
    obtain ⟨c, rest, hText⟩ := List.exists_cons_of_ne_nil (lang.numberText_ne_nil n)
    refine ⟨c, by simp [stableStringify, hText], ?_⟩
    exact lang.numberText_numeric n c (hText ▸ List.mem_cons_self)
  | _ => exact ⟨_, rfl, rfl⟩

theorem not_stop_of_starts {v : Value} {c : Char} (h : Starts v c) : ¬ stop c := by
  cases v with
  | bool b => cases b <;> (subst h; decide)
  | number n => exact not_stop_of_numeric c h
  | _ => subst h; decide

theorem opens_stableStringify (v : Value) : PrefixCode.Opens stop (stableStringify lang v) := by
  obtain ⟨c, hHead, hStarts⟩ := head_stableStringify lang v
  exact ⟨c, hHead, not_stop_of_starts hStarts⟩

theorem opens_member (entry : String × List Char) : PrefixCode.Opens stop (member entry) :=
  ⟨'\x22', rfl, by decide⟩

theorem splits_word (word : List Char) (h : ∀ c ∈ word, ¬ stop c) :
    PrefixCode.Splits stop word word := PrefixCode.splits_of_forall_not h h

/-- Members split where their values do. -/
theorem splits_member {e f : String × List Char} (h : PrefixCode.Splits stop e.2 f.2) :
    PrefixCode.Splits stop (member e) (member f) := by
  intro r s hr hs hEq
  simp only [member, List.append_assoc, List.cons_append] at hEq
  obtain ⟨hKey, hRest⟩ := quote_unique hEq
  obtain ⟨hText, hEnd⟩ := h r s hr hs (List.cons.inj hRest).2
  exact ⟨by rw [member, member, hKey, hText], hEnd⟩

theorem member_injective : Function.Injective member := by
  intro e f h
  obtain ⟨hKey, hRest⟩ := quote_unique h
  exact Prod.ext hKey (List.cons.inj hRest).2

theorem mem_sortKeys {β : Type*} {entries : List (String × β)} {e : String × β} :
    e ∈ sortKeys lang entries ↔ e ∈ entries := (List.mergeSort_perm entries _).mem_iff

def kind : Value → ℕ
  | .undefined => 0
  | .null => 0
  | .bool true => 1
  | .bool false => 2
  | .number _ => 3
  | .string _ => 4
  | .array _ => 5
  | .object _ => 6

/-- The kind a text is of, by its first letter. -/
def kindOfHead (c : Char) : ℕ :=
  if c = 'n' then 0
  else if c = 't' then 1
  else if c = 'f' then 2
  else if c = '\x22' then 4
  else if c = '[' then 5
  else if c = '\x7b' then 6
  else 3

theorem kindOfHead_of_starts {v : Value} {c : Char} (h : Starts v c) : kindOfHead c = kind v := by
  have hNumber : ∀ c ∈ numeric, kindOfHead c = 3 := by
    simp [numeric, kindOfHead]
  cases v with
  | bool b => cases b <;> (subst h; rfl)
  | number n => exact hNumber c h
  | _ => subst h; rfl

theorem splits_of_kind_ne {v w : Value} (h : kind v ≠ kind w) :
    PrefixCode.Splits stop (stableStringify lang v) (stableStringify lang w) := by
  obtain ⟨c, hHead, hStarts⟩ := head_stableStringify lang v
  obtain ⟨d, hHead', hStarts'⟩ := head_stableStringify lang w
  refine PrefixCode.splits_of_head_ne hHead hHead' ?_
  rintro rfl
  exact h ((kindOfHead_of_starts hStarts).symm.trans (kindOfHead_of_starts hStarts'))

/-- A text between brackets, split where its words are. -/
theorem splits_separated {openBr closeBr : Char} (hClose : stop closeBr) (hNe : ',' ≠ closeBr)
    {xs ys : List (List Char)} (hSplits : ∀ x ∈ xs, ∀ y ∈ ys, PrefixCode.Splits stop x y)
    (hxs : ∀ x ∈ xs, PrefixCode.Opens stop x) (hys : ∀ y ∈ ys, PrefixCode.Opens stop y) :
    PrefixCode.Splits stop (openBr :: (PrefixCode.separated ',' xs ++ [closeBr]))
      (openBr :: (PrefixCode.separated ',' ys ++ [closeBr])) := by
  intro r s _ _ hEq
  simp only [List.cons_append, List.append_assoc, List.nil_append] at hEq
  obtain ⟨rfl, hEnd⟩ := PrefixCode.separated_unique stop_comma hClose hNe hSplits hxs hys
    (List.cons.inj hEq).2
  exact ⟨rfl, hEnd⟩

/-- No text of a value is another's with something else behind it. -/
theorem splits_stableStringify (v w : Value) :
    PrefixCode.Splits stop (stableStringify lang v) (stableStringify lang w) := by
  by_cases hKind : kind v = kind w
  · match v, w with
    | .undefined, .undefined | .undefined, .null | .null, .undefined | .null, .null =>
      exact splits_word "null".toList (by simp [stop])
    | .bool true, .bool true => exact splits_word "true".toList (by simp [stop])
    | .bool false, .bool false => exact splits_word "false".toList (by simp [stop])
    | .number m, .number n =>
      exact PrefixCode.splits_of_forall_not
        (fun c hc => not_stop_of_numeric c (lang.numberText_numeric m c hc))
        fun c hc => not_stop_of_numeric c (lang.numberText_numeric n c hc)
    | .string k, .string l =>
      intro r s _ _ hEq
      obtain ⟨rfl, hEnd⟩ := quote_unique hEq
      exact ⟨rfl, hEnd⟩
    | .array items, .array others =>
      rw [stableStringify, stableStringify, itemTexts_eq_map, itemTexts_eq_map]
      refine splits_separated (by decide) (by decide) ?_ ?_ ?_
      · rintro _ hx _ hy
        obtain ⟨item, hItem, rfl⟩ := List.mem_map.mp hx
        obtain ⟨other, -, rfl⟩ := List.mem_map.mp hy
        exact splits_stableStringify item other
      · exact List.forall_mem_map.mpr fun item _ => opens_stableStringify lang item
      · exact List.forall_mem_map.mpr fun other _ => opens_stableStringify lang other
    | .object fields, .object others =>
      rw [stableStringify, stableStringify]
      refine splits_separated (by decide) (by decide) ?_ ?_ ?_
      · rintro _ hx _ hy
        obtain ⟨e, he, rfl⟩ := List.mem_map.mp hx
        obtain ⟨f, hf, rfl⟩ := List.mem_map.mp hy
        rw [mem_sortKeys, fieldTexts_eq_map] at he hf
        obtain ⟨field, hField, rfl⟩ := List.mem_map.mp he
        obtain ⟨other, -, rfl⟩ := List.mem_map.mp hf
        exact splits_member (splits_stableStringify field.2 other.2)
      · exact List.forall_mem_map.mpr fun e _ => opens_member e
      · exact List.forall_mem_map.mpr fun e _ => opens_member e
  · exact splits_of_kind_ne lang hKind
termination_by v
decreasing_by
  · have := List.sizeOf_lt_of_mem hItem
    simp only [Value.array.sizeOf_spec]
    omega
  · have := List.sizeOf_lt_of_mem hField
    have hPair : sizeOf field.2 < sizeOf field := by
      cases field
      simp only [Prod.mk.sizeOf_spec]
      omega
    simp only [Value.object.sizeOf_spec]
    omega

theorem kind_eq_of_text_eq {v w : Value} (h : stableStringify lang v = stableStringify lang w) :
    kind v = kind w := by
  obtain ⟨c, hHead, hStarts⟩ := head_stableStringify lang v
  obtain ⟨d, hHead', hStarts'⟩ := head_stableStringify lang w
  rw [h, hHead', Option.some.injEq] at hHead
  subst hHead
  exact (kindOfHead_of_starts hStarts).symm.trans (kindOfHead_of_starts hStarts')

variable {lang}

theorem text_array_eq_iff {items others : List Value} :
    stableStringify lang (.array items) = stableStringify lang (.array others) ↔
      items.map (stableStringify lang) = others.map (stableStringify lang) := by
  rw [stableStringify, stableStringify, itemTexts_eq_map, itemTexts_eq_map]
  constructor
  · intro h
    refine (PrefixCode.separated_unique stop_comma stop_closeArray (by decide) ?_ ?_ ?_
      (List.cons.inj h).2).1
    · rintro _ hx _ hy
      obtain ⟨item, -, rfl⟩ := List.mem_map.mp hx
      obtain ⟨other, -, rfl⟩ := List.mem_map.mp hy
      exact splits_stableStringify lang item other
    · exact List.forall_mem_map.mpr fun item _ => opens_stableStringify lang item
    · exact List.forall_mem_map.mpr fun other _ => opens_stableStringify lang other
  · intro h
    rw [h]

theorem sortKeys_fieldTexts_eq {fields others : Fields}
    (h : stableStringify lang (.object fields) = stableStringify lang (.object others)) :
    sortKeys lang (fieldTexts lang fields) = sortKeys lang (fieldTexts lang others) := by
  rw [stableStringify, stableStringify] at h
  refine List.map_injective_iff.mpr member_injective
    (PrefixCode.separated_unique stop_comma stop_closeObject (by decide) ?_ ?_ ?_
      (List.cons.inj h).2).1
  · rintro _ hx _ hy
    obtain ⟨e, he, rfl⟩ := List.mem_map.mp hx
    obtain ⟨f, hf, rfl⟩ := List.mem_map.mp hy
    rw [mem_sortKeys, fieldTexts_eq_map] at he hf
    obtain ⟨field, -, rfl⟩ := List.mem_map.mp he
    obtain ⟨other, -, rfl⟩ := List.mem_map.mp hf
    exact splits_member (splits_stableStringify lang field.2 other.2)
  · exact List.forall_mem_map.mpr fun e _ => opens_member e
  · exact List.forall_mem_map.mpr fun e _ => opens_member e

/-- Sorting by distinct keys depends on the entries alone. -/
theorem sortKeys_eq_of_perm {β : Type*} {entries others : List (String × β)}
    (hPerm : entries.Perm others) (hNodup : (entries.map Prod.fst).Nodup) :
    sortKeys lang entries = sortKeys lang others := by
  have hSorted := fun l : List (String × β) => @List.pairwise_mergeSort (String × β)
    (fun a b => lang.keyLe a.1 b.1)
    (fun a b c hab hbc => lang.keyLe_trans a.1 b.1 c.1 hab hbc)
    (fun a b => lang.keyLe_total a.1 b.1) l
  refine List.Perm.eq_of_pairwise ?_ (hSorted entries) (hSorted others)
    ((List.mergeSort_perm entries _).trans (hPerm.trans (List.mergeSort_perm others _).symm))
  intro a b ha hb hab hba
  have hMem := (List.mergeSort_perm entries _).mem_iff.mp ha
  have hMem' := hPerm.mem_iff.mpr ((List.mergeSort_perm others _).mem_iff.mp hb)
  exact List.inj_on_of_nodup_map hNodup hMem hMem' (lang.keyLe_antisymm a.1 b.1 hab hba)

theorem mem_fieldTexts {fields : Fields} (hNodup : (keys fields).Nodup) {key : String}
    {text : List Char} :
    (key, text) ∈ fieldTexts lang fields ↔
      (fields.lookup key).map (stableStringify lang) = some text := by
  rw [fieldTexts_eq_map, Option.map_eq_some_iff, List.mem_map]
  constructor
  · rintro ⟨⟨k, v⟩, hf, hEq⟩
    obtain ⟨rfl, rfl⟩ := Prod.mk.inj hEq
    exact ⟨v, (lookup_eq_some_iff hNodup).mpr hf, rfl⟩
  · rintro ⟨v, hv, rfl⟩
    exact ⟨(key, v), mem_of_lookup hv, rfl⟩

theorem keys_fieldTexts (fields : Fields) : (fieldTexts lang fields).map Prod.fst = keys fields := by
  rw [fieldTexts_eq_map, List.map_map]
  rfl

/-- Two objects have one text exactly when every key reads the same text in both. -/
theorem text_object_eq_iff {fields others : Fields} (hFields : (keys fields).Nodup)
    (hOthers : (keys others).Nodup) :
    stableStringify lang (.object fields) = stableStringify lang (.object others) ↔
      ∀ key, (fields.lookup key).map (stableStringify lang) =
        (others.lookup key).map (stableStringify lang) := by
  constructor
  · intro h key
    have hSorted := sortKeys_fieldTexts_eq h
    refine Option.ext fun text => ?_
    rw [← mem_fieldTexts hFields, ← mem_fieldTexts hOthers, ← mem_sortKeys lang, hSorted,
      mem_sortKeys]
  · intro h
    have hKeys := (@keys_fieldTexts lang fields).symm ▸ hFields
    have hKeys' := (@keys_fieldTexts lang others).symm ▸ hOthers
    have hPerm : (fieldTexts lang fields).Perm (fieldTexts lang others) := by
      rw [List.perm_ext_iff_of_nodup hKeys.of_map hKeys'.of_map]
      rintro ⟨key, text⟩
      rw [mem_fieldTexts hFields, mem_fieldTexts hOthers, h key]
    rw [stableStringify, stableStringify, sortKeys_eq_of_perm hPerm hKeys]

/-! ## Leaves -/

def textAt (lang : Language) (v : Value) (path : List String) : Option (List Char) :=
  (v.get? path).map (stableStringify lang)

@[simp] theorem textAt_nil (v : Value) : textAt lang v [] = some (stableStringify lang v) := by
  rw [textAt, get?_nil, Option.map_some]

theorem textAt_cons (fields : Fields) (key : String) (path : List String) :
    textAt lang (.object fields) (key :: path) =
      (fields.lookup key).bind fun v => textAt lang v path := by
  rw [textAt, get?_object_cons]
  cases fields.lookup key <;> rfl

variable (lang) in
theorem object_or_textAt_cons (v : Value) (key : String) (path : List String) :
    (∃ fields, v = .object fields) ∨ kind v ≠ 6 ∧ textAt lang v (key :: path) = none := by
  cases v with
  | object fields => exact Or.inl ⟨fields, rfl⟩
  | bool b => cases b <;> exact Or.inr ⟨by decide, rfl⟩
  | _ => exact Or.inr ⟨by simp [kind], rfl⟩

/-- Equal texts read equal at every path. -/
theorem textAt_eq_of_text_eq {v w : Value} (hv : v.Proper) (hw : w.Proper)
    (h : stableStringify lang v = stableStringify lang w) (path : List String) :
    textAt lang v path = textAt lang w path := by
  induction path generalizing v w with
  | nil => simp [h]
  | cons key path ih =>
    have hKind := kind_eq_of_text_eq lang h
    rcases object_or_textAt_cons lang v key path with ⟨fields, rfl⟩ | ⟨hNot, hNone⟩
    · rcases object_or_textAt_cons lang w key path with ⟨others, rfl⟩ | ⟨hNot, -⟩
      · have hKey := (text_object_eq_iff hv.nodup hw.nodup).mp h key
        rw [textAt_cons, textAt_cons]
        cases hField : fields.lookup key with
        | none =>
          rw [hField, Option.map_none, eq_comm, Option.map_eq_none_iff] at hKey
          rw [hKey]
        | some a =>
          rw [hField, Option.map_some, eq_comm, Option.map_eq_some_iff] at hKey
          obtain ⟨b, hOther, hText⟩ := hKey
          rw [hOther]
          exact ih (hv.lookup hField) (hw.lookup hOther) hText.symm
      · exact absurd hKind.symm hNot
    · rcases object_or_textAt_cons lang w key path with ⟨others, rfl⟩ | ⟨-, hNone'⟩
      · exact absurd hKind hNot
      · rw [hNone, hNone']

theorem textAt_isSome_of_leaf {v : Value} (hv : v.Proper) {path : List String}
    (h : path ∈ v.leaves) : (textAt lang v path).isSome := by
  rw [textAt, Option.isSome_map]
  exact get?_isSome_of_leaf hv h

/-- A field of one object is a field of another that reads the same at its leaves. -/
theorem lookup_of_leaves {fields others : Fields} (hFields : (Value.object fields).Proper)
    (h : ∀ path ∈ fieldLeaves fields,
      textAt lang (.object fields) path = textAt lang (.object others) path)
    {key : String} {a : Value} (hField : fields.lookup key = some a) :
    ∃ b, others.lookup key = some b ∧
      ∀ path ∈ a.leaves, textAt lang a path = textAt lang b path := by
  have hAt : ∀ path ∈ a.leaves, some (textAt lang a path) =
      (others.lookup key).map fun b => textAt lang b path := by
    intro path hPath
    have hEq := h (key :: path) (cons_mem_fieldLeaves hField hPath)
    rw [textAt_cons, textAt_cons, hField, Option.bind_some] at hEq
    have hSome : (textAt lang a path).isSome :=
      textAt_isSome_of_leaf (hFields.lookup hField) hPath
    cases hOther : others.lookup key with
    | none =>
      rw [hOther, Option.bind_none] at hEq
      rw [hEq] at hSome
      exact nomatch hSome
    | some b =>
      rw [hOther, Option.bind_some] at hEq
      rw [Option.map_some, hEq]
  obtain ⟨path, hPath⟩ := List.exists_mem_of_ne_nil _ (leaves_ne_nil a)
  obtain ⟨b, hOther, -⟩ := Option.map_eq_some_iff.mp (hAt path hPath).symm
  refine ⟨b, hOther, fun q hq => ?_⟩
  have hEq := hAt q hq
  rw [hOther, Option.map_some] at hEq
  exact Option.some.inj hEq

/-- Objects agree on their texts when they read equal at every leaf and their fields do too. -/
theorem text_object_eq_of_fields {fields others : Fields} (hFields : (Value.object fields).Proper)
    (hOthers : (Value.object others).Proper)
    (h : ∀ path ∈ fieldLeaves fields ++ fieldLeaves others,
      textAt lang (.object fields) path = textAt lang (.object others) path)
    (ih : ∀ key a b, fields.lookup key = some a → b.Proper →
      (∀ path ∈ a.leaves ++ b.leaves, textAt lang a path = textAt lang b path) →
      stableStringify lang a = stableStringify lang b) :
    stableStringify lang (.object fields) = stableStringify lang (.object others) := by
  refine (text_object_eq_iff hFields.nodup hOthers.nodup).mpr fun key => ?_
  have hLeft := fun path hPath => h path (List.mem_append_left _ hPath)
  have hRight := fun path hPath => (h path (List.mem_append_right _ hPath)).symm
  cases hField : fields.lookup key with
  | none =>
    cases hOther : others.lookup key with
    | none => rfl
    | some b =>
      obtain ⟨a, ha, -⟩ := lookup_of_leaves hOthers hRight hOther
      cases hField.symm.trans ha
  | some a =>
    obtain ⟨b, hOther, hLeaves⟩ := lookup_of_leaves hFields hLeft hField
    obtain ⟨a', ha', hLeaves'⟩ := lookup_of_leaves hOthers hRight hOther
    obtain rfl := Option.some.inj (hField.symm.trans ha')
    rw [hOther, Option.map_some, Option.map_some]
    refine congrArg some (ih key a b hField (hOthers.lookup hOther) fun path hPath => ?_)
    rcases List.mem_append.mp hPath with hPath | hPath
    · exact hLeaves path hPath
    · exact (hLeaves' path hPath).symm

theorem sizeOf_lt_of_lookup {fields : Fields} {key : String} {a : Value}
    (h : fields.lookup key = some a) : sizeOf a < sizeOf (Value.object fields) := by
  have hMem := List.sizeOf_lt_of_mem (mem_of_lookup h)
  simp only [Value.object.sizeOf_spec, Prod.mk.sizeOf_spec] at hMem ⊢
  omega

/-- Values that read equal at every leaf of either have one text. -/
theorem text_eq_of_leaves {v w : Value} (hv : v.Proper) (hw : w.Proper)
    (h : ∀ path ∈ v.leaves ++ w.leaves, textAt lang v path = textAt lang w path) :
    stableStringify lang v = stableStringify lang w := by
  induction hSize : sizeOf v using Nat.strong_induction_on generalizing v w with
  | _ n ih =>
    have hRoot : [] ∈ v.leaves ++ w.leaves → stableStringify lang v = stableStringify lang w := by
      intro hMem
      simpa using h [] hMem
    rcases leaves_cases v with hLeaf | ⟨fields, rfl, hLeaves⟩
    · exact hRoot (by simp [hLeaf])
    · rcases leaves_cases w with hLeaf' | ⟨others, rfl, hLeaves'⟩
      · exact hRoot (by simp [hLeaf'])
      · rw [hLeaves, hLeaves'] at h
        exact text_object_eq_of_fields hv hw h fun key a b hField hb hAgree =>
          ih _ (hSize ▸ sizeOf_lt_of_lookup hField) (hv.lookup hField) hb hAgree rfl

theorem text_object_eq_of_leaves {fields others : Fields}
    (hFields : (Value.object fields).Proper) (hOthers : (Value.object others).Proper)
    (h : ∀ path ∈ fieldLeaves fields ++ fieldLeaves others,
      textAt lang (.object fields) path = textAt lang (.object others) path) :
    stableStringify lang (.object fields) = stableStringify lang (.object others) :=
  text_object_eq_of_fields hFields hOthers h fun _ _ _ hField hb hAgree =>
    text_eq_of_leaves (hFields.lookup hField) hb hAgree

end Json
