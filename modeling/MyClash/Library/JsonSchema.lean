import MyClash.Library.Json

/-!
# Schemas of JSON values

A parser reads a value into another or refuses it; a schema reads a field that may be missing.
Both give plain values only: nothing undefined, no key twice, no key that names the prototype.
-/

namespace Json

namespace Value

mutual

def Plain : Value → Prop
  | .undefined => False
  | .array items => PlainItems items
  | .object fields => (keys fields).Nodup ∧ "__proto__" ∉ keys fields ∧ PlainFields fields
  | _ => True

def PlainItems : List Value → Prop
  | [] => True
  | v :: rest => Plain v ∧ PlainItems rest

def PlainFields : Fields → Prop
  | [] => True
  | (_, v) :: rest => Plain v ∧ PlainFields rest

end

theorem plainItems_iff {items : List Value} : PlainItems items ↔ ∀ v ∈ items, v.Plain := by
  induction items with
  | nil => simp [PlainItems]
  | cons v rest ih => simp [PlainItems, ih]

theorem plainFields_iff {fields : Fields} : PlainFields fields ↔ ∀ f ∈ fields, f.2.Plain := by
  induction fields with
  | nil => simp [PlainFields]
  | cons f rest ih => simp [PlainFields, ih]

theorem plain_array_iff {items : List Value} : (array items).Plain ↔ ∀ v ∈ items, v.Plain := by
  rw [Plain, plainItems_iff]

theorem plain_object_iff {fields : Fields} :
    (object fields).Plain ↔
      (keys fields).Nodup ∧ "__proto__" ∉ keys fields ∧ ∀ f ∈ fields, f.2.Plain := by
  rw [Plain, plainFields_iff]

mutual

theorem proper_of_plain : (v : Value) → v.Plain → v.Proper
  | .array items, h => by
    rw [Plain] at h
    rw [Proper]
    exact properItems_of_plain items h
  | .object fields, h => by
    rw [Plain] at h
    rw [Proper]
    exact ⟨h.1, properFields_of_plain fields h.2.2⟩
  | .null, _ | .bool _, _ | .number _, _ | .string _, _ => trivial

theorem properItems_of_plain : (items : List Value) → PlainItems items → ProperItems items
  | [], _ => trivial
  | v :: rest, h => ⟨proper_of_plain v h.1, properItems_of_plain rest h.2⟩

theorem properFields_of_plain : (fields : Fields) → PlainFields fields → ProperFields fields
  | [], _ => trivial
  | (_, v) :: rest, h => ⟨proper_of_plain v h.1, properFields_of_plain rest h.2⟩

end

theorem Plain.proper {v : Value} (h : v.Plain) : v.Proper := proper_of_plain v h

end Value

open Value

structure Parser where
  parse : Value → Option Value
  plain : ∀ v w, parse v = some w → w.Plain

/-- Reads a field that may be missing; a field may stay missing. -/
structure Schema where
  read : Option Value → Option (Option Value)
  plain : ∀ input w, read input = some (some w) → w.Plain

namespace Parser

def oneOf (names : List String) : Parser where
  parse
    | .string s => if s ∈ names then some (.string s) else none
    | _ => none
  plain := by
    intro v w h
    split at h
    · split at h
      · exact Option.some.inj h ▸ trivial
      · exact nomatch h
    · exact nomatch h

/-- The integers a double holds exactly. -/
def maxSafe : ℤ := 9007199254740991

def intThat (check : ℤ → Bool) : Parser where
  parse
    | .number q =>
      if q.den = 1 ∧ -maxSafe ≤ q.num ∧ q.num ≤ maxSafe ∧ check q.num then some (.number q) else none
    | _ => none
  plain := by
    intro v w h
    split at h
    · split at h
      · exact Option.some.inj h ▸ trivial
      · exact nomatch h
    · exact nomatch h

def nullable (p : Parser) : Parser where
  parse
    | .null => some .null
    | v => p.parse v
  plain := by
    intro v w h
    split at h
    · exact Option.some.inj h ▸ trivial
    · exact p.plain _ _ h

def refine (p : Parser) (check : Value → Bool) : Parser where
  parse v := (p.parse v).filter check
  plain := by
    intro v w h
    exact p.plain v w (Option.filter_eq_some_iff.mp h).1

def parseItems (p : Parser) : List Value → Option (List Value)
  | [] => some []
  | v :: rest => (p.parse v).bind fun w => (parseItems p rest).map (w :: ·)

theorem plain_parseItems {p : Parser} {items parsed : List Value}
    (h : parseItems p items = some parsed) : ∀ w ∈ parsed, w.Plain := by
  induction items generalizing parsed with
  | nil =>
    cases h
    exact nofun
  | cons v rest ih =>
    rw [parseItems, Option.bind_eq_some_iff] at h
    obtain ⟨w, hw, hRest⟩ := h
    obtain ⟨others, hOthers, rfl⟩ := Option.map_eq_some_iff.mp hRest
    exact List.forall_mem_cons.mpr ⟨p.plain v w hw, ih hOthers⟩

def arrayOf (p : Parser) : Parser where
  parse
    | .array items => (parseItems p items).map .array
    | _ => none
  plain := by
    intro v w h
    split at h
    · obtain ⟨parsed, hParsed, rfl⟩ := Option.map_eq_some_iff.mp h
      exact plain_array_iff.mpr (plain_parseItems hParsed)
    · exact nomatch h

end Parser

/-! ## Objects -/

/-- A field of an object; one with no value reads as missing. -/
def readField (fields : Fields) (key : String) : Option Value :=
  match fields.lookup key with
  | some .undefined => none
  | found => found

abbrev Shape := List (String × Schema)

def Shape.keys (shape : Shape) : List String := shape.map Prod.fst

def parseFields (fields : Fields) : Shape → Option Fields
  | [] => some []
  | (key, schema) :: rest =>
    (schema.read (readField fields key)).bind fun parsed =>
      (parseFields fields rest).map fun others =>
        match parsed with
        | none => others
        | some v => (key, v) :: others

theorem parseFields_spec {fields parsed : Fields} {shape : Shape}
    (h : parseFields fields shape = some parsed) :
    (keys parsed).Sublist shape.keys ∧ ∀ f ∈ parsed, f.2.Plain := by
  induction shape generalizing parsed with
  | nil =>
    cases h
    exact ⟨.slnil, nofun⟩
  | cons entry rest ih =>
    obtain ⟨key, schema⟩ := entry
    rw [parseFields, Option.bind_eq_some_iff] at h
    obtain ⟨read, hRead, hRest⟩ := h
    obtain ⟨others, hOthers, rfl⟩ := Option.map_eq_some_iff.mp hRest
    obtain ⟨hKeys, hPlain⟩ := ih hOthers
    cases read with
    | none => exact ⟨hKeys.cons key, hPlain⟩
    | some v => exact ⟨hKeys.cons_cons key, List.forall_mem_cons.mpr ⟨schema.plain _ v hRead, hPlain⟩⟩

/-- An object of the shape's fields, in the shape's order; other fields are dropped. -/
def Parser.object (shape : Shape) (hNodup : shape.keys.Nodup) (hProto : "__proto__" ∉ shape.keys) :
    Parser where
  parse
    | .object fields => (parseFields fields shape).map .object
    | _ => none
  plain := by
    intro v w h
    split at h
    · obtain ⟨parsed, hParsed, rfl⟩ := Option.map_eq_some_iff.mp h
      obtain ⟨hKeys, hPlain⟩ := parseFields_spec hParsed
      exact plain_object_iff.mpr ⟨hNodup.sublist hKeys, fun hMem => hProto (hKeys.subset hMem), hPlain⟩
    · exact nomatch h

/-- The parser its discriminating field names. -/
def Parser.byField (key : String) (options : List (String × Parser)) : Parser where
  parse
    | .object fields =>
      match readField fields key with
      | some (.string name) => (options.lookup name).bind fun p => p.parse (.object fields)
      | _ => none
    | _ => none
  plain := by
    intro v w h
    split at h
    · split at h
      · obtain ⟨p, -, hParse⟩ := Option.bind_eq_some_iff.mp h
        exact p.plain _ w hParse
      · exact nomatch h
    · exact nomatch h

namespace Schema

def required (p : Parser) : Schema where
  read
    | none => none
    | some v => (p.parse v).map some
  plain := by
    intro input w h
    split at h
    · exact nomatch h
    · obtain ⟨v, hv, hEq⟩ := Option.map_eq_some_iff.mp h
      cases hEq
      exact p.plain _ w hv

def optional (p : Parser) : Schema where
  read
    | none => some none
    | some v => (p.parse v).map some
  plain := by
    intro input w h
    split at h
    · exact nomatch h
    · obtain ⟨v, hv, hEq⟩ := Option.map_eq_some_iff.mp h
      cases hEq
      exact p.plain _ w hv

def withDefault (p : Parser) (default : Value) (hDefault : default.Plain) : Schema where
  read
    | none => some (some default)
    | some v => (p.parse v).map some
  plain := by
    intro input w h
    split at h
    · cases h
      exact hDefault
    · obtain ⟨v, hv, hEq⟩ := Option.map_eq_some_iff.mp h
      cases hEq
      exact p.plain _ w hv

end Schema

end Json
