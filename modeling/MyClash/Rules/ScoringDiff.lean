import MyClash.Library.JsonPlain
import MyClash.Rules.Change
import MyClash.Rules.Patch

/-!
# What changed in a Tournament's scoring rules

The diff walks the two scoring canonicals by a fixed list of paths, then every leaf no listed
path covers. A leaf is remembered by its dotted name.
-/

namespace MyClash.Rules

open Json

namespace ScoringDiff

def phases : List String := ["pool", "swiss", "bracket", "finals"]

def perPhase (key : String) : List (List String) := phases.map fun phase => ["matchFormat", key, phase]

/-- The listed paths that name a value of the canonical. -/
def canonicalPaths : List (List String) :=
  [["kind"], ["engine"], ["decisionEdition"], ["grammar", "targets"], ["grammar", "hasAfterblow"],
    ["grammar", "afterblowValuation"], ["grammar", "afterblowFixedValue"], ["afterblowMode"],
    ["matchFormat", "pointCap"], ["matchFormat", "scoringDirection"],
    ["matchFormat", "timerMode"]] ++
  perPhase "timeLimitsSeconds" ++
  [["matchFormat", "softClockLimitSeconds"], ["matchFormat", "maxDoubleHits"],
    ["matchFormat", "maxDoubleHitOutcome"]] ++
  perPhase "bestOf" ++ perPhase "levelAtTime" ++
  [["winBonus"], ["doublePenaltyFormula"], ["scoreFormula"], ["constants"], ["tiebreakers"]]

/-- The listed paths that name a list of the buttons. -/
def buttonPaths : List (List String) := [["buttons", "clean"], ["buttons", "afterblow"]]

/-- `SCORING_CHANGE_PATHS`, as key segments. -/
def scoringChangePaths : List (List String) := canonicalPaths ++ buttonPaths

def dotted (path : List String) : String := ".".intercalate path

@[ext]
structure ButtonValues where
  clean : List (Option ℚ)
  afterblow : List (Option ℚ × Option ℚ)

def pointsValue : Option ℚ → Value
  | none => .null
  | some points => .number points

def ButtonValues.cleanValue (buttons : ButtonValues) : Value := .array (buttons.clean.map pointsValue)

def ButtonValues.afterblowValue (buttons : ButtonValues) : Value :=
  .array (buttons.afterblow.map fun pair => .array [pointsValue pair.1, pointsValue pair.2])

structure ScoringSide where
  canonical : Fields
  proper : (Value.object canonical).Proper
  buttons : ButtonValues

/-- Undefined where a step is missing; a key present with no value reads null. -/
def valueAt (root : Value) (segments : List String) : Value :=
  match root.get? segments with
  | none => .undefined
  | some .undefined => .null
  | some value => value

def isUndefined : Value → Bool
  | .undefined => true
  | _ => false

variable (lang : Language)

/-- Absent and present differ even when the value is null. -/
def differs (a b : Value) : Bool :=
  isUndefined a != isUndefined b || decide (stableStringify lang a ≠ stableStringify lang b)

def valuesAt (before after : ScoringSide) (path : List String) : Value × Value :=
  if path = ["buttons", "clean"] then (before.buttons.cleanValue, after.buttons.cleanValue)
  else if path = ["buttons", "afterblow"] then
    (before.buttons.afterblowValue, after.buttons.afterblowValue)
  else (valueAt (.object before.canonical) path, valueAt (.object after.canonical) path)

/-- `was[name] = value`: a name that is the prototype's makes no key. -/
def setKey (name : String) (value : Value) (fields : Fields) : Fields :=
  if name = "__proto__" then fields else assign name value fields

structure Unknown where
  seen : List String
  was : Fields
  now : Fields

def visit (before after : Value) (found : Unknown) (leaf : List String) : Unknown :=
  let name := dotted leaf
  if name ∈ found.seen ∨ scoringChangePaths.any (isPrefix · leaf) then found
  else
    let seen := name :: found.seen
    let was := valueAt before leaf
    let now := valueAt after leaf
    if differs lang was now then ⟨seen, setKey name was found.was, setKey name now found.now⟩
    else { found with seen := seen }

/-- The one entry over every leaf no listed path covers, if any changed. -/
def unlistedChange (before after : Value) : Option RulesChange :=
  let found := (leavesOf [] before ++ leavesOf [] after).foldl (visit lang before after) ⟨[], [], []⟩
  if found.was.isEmpty then none
  else some ⟨"unknown", .object found.was, .object found.now, none⟩

def listedChange (before after : ScoringSide) (path : List String) : Option RulesChange :=
  let pair := valuesAt before after path
  if differs lang pair.1 pair.2 then some ⟨dotted path, pair.1, pair.2, none⟩ else none

def scoringDiff (before after : ScoringSide) : List RulesChange :=
  scoringChangePaths.filterMap (listedChange lang before after) ++
    (unlistedChange lang (.object before.canonical) (.object after.canonical)).toList

variable {lang}

/-! ## One path -/

theorem isUndefined_valueAt (v : Value) (path : List String) :
    isUndefined (valueAt v path) = (textAt lang v path).isNone := by
  rw [valueAt, textAt]
  cases v.get? path with
  | none => rfl
  | some w => cases w <;> rfl

theorem text_valueAt (v : Value) (path : List String) :
    stableStringify lang (valueAt v path) = (textAt lang v path).getD "null".toList := by
  rw [valueAt, textAt]
  cases v.get? path with
  | none => rfl
  | some w => cases w <;> rfl

/-- Two values at a path differ where their texts do, or where one of them is missing. -/
theorem differs_valueAt_iff {v w : Value} {path : List String} :
    differs lang (valueAt v path) (valueAt w path) = true ↔
      textAt lang v path ≠ textAt lang w path := by
  rw [differs, Bool.or_eq_true, bne_iff_ne, decide_eq_true_eq,
    @isUndefined_valueAt lang, @isUndefined_valueAt lang, text_valueAt, text_valueAt]
  cases textAt lang v path with
  | none => cases textAt lang w path <;> simp
  | some t => cases textAt lang w path <;> simp

theorem pointsText_injective : Function.Injective fun points => stableStringify lang (pointsValue points) := by
  intro p q h
  have hKind := kind_eq_of_text_eq lang h
  cases p with
  | none =>
    cases q with
    | none => rfl
    | some n => exact nomatch hKind
  | some m =>
    cases q with
    | none => exact nomatch hKind
    | some n => exact congrArg some (lang.numberText_injective h)

theorem text_cleanValue_eq_iff {buttons others : ButtonValues} :
    stableStringify lang buttons.cleanValue = stableStringify lang others.cleanValue ↔
      buttons.clean = others.clean := by
  rw [ButtonValues.cleanValue, ButtonValues.cleanValue, text_array_eq_iff, List.map_map, List.map_map]
  exact (List.map_injective_iff.mpr pointsText_injective).eq_iff

theorem text_afterblowValue_eq_iff {buttons others : ButtonValues} :
    stableStringify lang buttons.afterblowValue = stableStringify lang others.afterblowValue ↔
      buttons.afterblow = others.afterblow := by
  have hPair : Function.Injective fun pair : Option ℚ × Option ℚ =>
      stableStringify lang (.array [pointsValue pair.1, pointsValue pair.2]) := by
    intro p q h
    have hItems := text_array_eq_iff.mp h
    simp only [List.map_cons, List.map_nil, List.cons.injEq, and_true] at hItems
    exact Prod.ext (pointsText_injective hItems.1) (pointsText_injective hItems.2)
  rw [ButtonValues.afterblowValue, ButtonValues.afterblowValue, text_array_eq_iff, List.map_map,
    List.map_map]
  exact (List.map_injective_iff.mpr hPair).eq_iff

theorem differs_buttons_iff {v w : Value} (hv : isUndefined v = false) (hw : isUndefined w = false) :
    differs lang v w = true ↔ stableStringify lang v ≠ stableStringify lang w := by
  rw [differs, hv, hw, bne_self_eq_false, Bool.false_or, decide_eq_true_eq]

theorem listedChange_eq_none_iff {before after : ScoringSide} {path : List String} :
    listedChange lang before after path = none ↔
      differs lang (valuesAt before after path).1 (valuesAt before after path).2 = false := by
  rw [listedChange]
  split
  · rename_i hDiffers
    rw [hDiffers]
    exact ⟨nofun, nofun⟩
  · rename_i hSame
    exact ⟨fun _ => Bool.not_eq_true _ ▸ hSame, fun _ => rfl⟩

theorem buttonPaths_not_canonical : ∀ path ∈ canonicalPaths, path ∉ buttonPaths := by
  decide

/-- No listed path yields an entry exactly when the listed values and the buttons are the same. -/
theorem listedChanges_eq_nil_iff {before after : ScoringSide} :
    scoringChangePaths.filterMap (listedChange lang before after) = [] ↔
      (∀ path ∈ canonicalPaths, textAt lang (.object before.canonical) path =
        textAt lang (.object after.canonical) path) ∧
      before.buttons = after.buttons := by
  have hClean : listedChange lang before after ["buttons", "clean"] = none ↔
      before.buttons.clean = after.buttons.clean := by
    rw [listedChange_eq_none_iff, valuesAt, if_pos rfl, ← Bool.not_eq_true,
      differs_buttons_iff rfl rfl, not_not, text_cleanValue_eq_iff]
  have hAfterblow : listedChange lang before after ["buttons", "afterblow"] = none ↔
      before.buttons.afterblow = after.buttons.afterblow := by
    rw [listedChange_eq_none_iff, valuesAt, if_neg (by decide), if_pos rfl, ← Bool.not_eq_true,
      differs_buttons_iff rfl rfl, not_not, text_afterblowValue_eq_iff]
  have hCanonical : ∀ path ∈ canonicalPaths, listedChange lang before after path = none ↔
      textAt lang (.object before.canonical) path = textAt lang (.object after.canonical) path := by
    intro path hPath
    have hNot := buttonPaths_not_canonical path hPath
    simp only [buttonPaths, List.mem_cons, List.not_mem_nil, or_false, not_or] at hNot
    rw [listedChange_eq_none_iff, valuesAt, if_neg hNot.1, if_neg hNot.2, ← Bool.not_eq_true,
      differs_valueAt_iff, not_not]
  rw [List.filterMap_eq_nil_iff, scoringChangePaths, List.forall_mem_append]
  refine and_congr (forall₂_congr hCanonical) ?_
  simp only [buttonPaths, List.forall_mem_cons, hClean, hAfterblow]
  constructor
  · rintro ⟨hEq, hEq', -⟩
    exact ButtonValues.ext hEq hEq'
  · intro h
    exact ⟨congrArg ButtonValues.clean h, congrArg ButtonValues.afterblow h, by rintro _ ⟨⟩⟩

/-! ## The unlisted leaves -/

def Uncovered (leaf : List String) : Prop := ∀ path ∈ scoringChangePaths, ¬ path <+: leaf

/-- The first uncovered leaf of a walk with its dotted name. -/
def FirstNamed (walk : List (List String)) (leaf : List String) : Prop :=
  Uncovered leaf ∧ ∃ earlier later, walk = earlier ++ leaf :: later ∧
    ∀ other ∈ earlier, Uncovered other → dotted other ≠ dotted leaf

theorem covered_iff {leaf : List String} :
    scoringChangePaths.any (isPrefix · leaf) = true ↔ ¬ Uncovered leaf := by
  simp [Uncovered, isPrefix]

variable {walk rest : List (List String)} {head leaf : List String}

theorem firstNamed_skip {seen : List String} (hSkip : Uncovered head → dotted head ∈ seen)
    (hLeaf : dotted leaf ∉ seen) : FirstNamed (head :: rest) leaf ↔ FirstNamed rest leaf := by
  constructor
  · rintro ⟨hUncovered, earlier, later, hWalk, hFirst⟩
    refine ⟨hUncovered, ?_⟩
    cases earlier with
    | nil =>
      rw [List.nil_append, List.cons.injEq] at hWalk
      exact absurd (hWalk.1 ▸ hSkip (hWalk.1 ▸ hUncovered)) hLeaf
    | cons first earlier =>
      rw [List.cons_append, List.cons.injEq] at hWalk
      exact ⟨earlier, later, hWalk.2, fun other hOther => hFirst other (List.mem_cons_of_mem _ hOther)⟩
  · rintro ⟨hUncovered, earlier, later, rfl, hFirst⟩
    refine ⟨hUncovered, head :: earlier, later, rfl, ?_⟩
    rw [List.forall_mem_cons]
    refine ⟨fun hHead hEq => hLeaf (hEq ▸ hSkip hHead), hFirst⟩

theorem firstNamed_cons (hHead : Uncovered head) :
    FirstNamed (head :: rest) leaf ↔
      leaf = head ∨ FirstNamed rest leaf ∧ dotted leaf ≠ dotted head := by
  constructor
  · rintro ⟨hUncovered, earlier, later, hWalk, hFirst⟩
    cases earlier with
    | nil =>
      rw [List.nil_append, List.cons.injEq] at hWalk
      exact Or.inl hWalk.1.symm
    | cons first earlier =>
      rw [List.cons_append, List.cons.injEq] at hWalk
      obtain ⟨rfl, hRest⟩ := hWalk
      rw [List.forall_mem_cons] at hFirst
      exact Or.inr ⟨⟨hUncovered, earlier, later, hRest, hFirst.2⟩, (hFirst.1 hHead).symm⟩
  · rintro (rfl | ⟨⟨hUncovered, earlier, later, rfl, hFirst⟩, hName⟩)
    · exact ⟨hHead, [], rest, rfl, nofun⟩
    · refine ⟨hUncovered, head :: earlier, later, rfl, ?_⟩
      rw [List.forall_mem_cons]
      exact ⟨fun _ => hName.symm, hFirst⟩

theorem setKey_eq_nil_iff {name : String} {value : Value} {fields : Fields} :
    setKey name value fields = [] ↔ fields = [] ∧ name = "__proto__" := by
  rw [setKey]
  split
  · rename_i hName
    exact ⟨fun h => ⟨h, hName⟩, fun h => h.1⟩
  · rename_i hName
    refine ⟨fun h => ?_, fun h => absurd h.2 hName⟩
    have hSelf := @lookup_assign_self fields name value
    rw [h] at hSelf
    exact nomatch hSelf

/-- The walk writes down no change exactly when every leaf it is the first to name reads the same,
or bears the prototype's name. -/
theorem was_eq_nil_iff {before after : Value} {found : Unknown} :
    (walk.foldl (visit lang before after) found).was = [] ↔
      found.was = [] ∧ ∀ leaf, FirstNamed walk leaf → dotted leaf ∉ found.seen →
        dotted leaf ≠ "__proto__" → textAt lang before leaf = textAt lang after leaf := by
  induction walk generalizing found with
  | nil =>
    refine ⟨fun h => ⟨h, ?_⟩, fun h => h.1⟩
    rintro leaf ⟨-, earlier, later, hWalk, -⟩
    exact absurd hWalk (by simp)
  | cons head rest ih =>
    rw [List.foldl_cons, ih, visit]
    simp only
    split
    · rename_i hSkip
      have hSeen : Uncovered head → dotted head ∈ found.seen := fun hUncovered =>
        hSkip.resolve_right fun hCovered => covered_iff.mp hCovered hUncovered
      refine and_congr_right fun _ => forall_congr' fun leaf => ?_
      constructor
      · intro h hFirst hNew
        exact h ((firstNamed_skip hSeen hNew).mp hFirst) hNew
      · intro h hFirst hNew
        exact h ((firstNamed_skip hSeen hNew).mpr hFirst) hNew
    · rename_i hVisit
      rw [not_or, covered_iff, not_not] at hVisit
      obtain ⟨hNew, hUncovered⟩ := hVisit
      have hLeaves : (∀ leaf, FirstNamed (head :: rest) leaf → dotted leaf ∉ found.seen →
            dotted leaf ≠ "__proto__" → textAt lang before leaf = textAt lang after leaf) ↔
          (dotted head ≠ "__proto__" → textAt lang before head = textAt lang after head) ∧
          ∀ leaf, FirstNamed rest leaf → dotted leaf ∉ dotted head :: found.seen →
            dotted leaf ≠ "__proto__" → textAt lang before leaf = textAt lang after leaf := by
        simp only [firstNamed_cons hUncovered, List.mem_cons, not_or]
        constructor
        · intro h
          exact ⟨h head (Or.inl rfl) hNew, fun leaf hFirst hName =>
            h leaf (Or.inr ⟨hFirst, hName.1⟩) hName.2⟩
        · rintro ⟨hHead, hRest⟩ leaf (rfl | ⟨hFirst, hName⟩) hSeen
          · exact hHead
          · exact hRest leaf hFirst ⟨hName, hSeen⟩
      rw [hLeaves, ← and_assoc]
      split
      · rename_i hDiffers
        rw [differs_valueAt_iff] at hDiffers
        refine and_congr ?_ Iff.rfl
        rw [setKey_eq_nil_iff]
        refine and_congr_right fun _ => ?_
        exact ⟨fun hName hNot => absurd hName hNot, fun h => by_contra fun hNot => hDiffers (h hNot)⟩
      · rename_i hSame
        rw [differs_valueAt_iff, not_not] at hSame
        exact and_congr (iff_self_and.mpr fun _ _ => hSame) Iff.rfl

/-- The leaves of the two canonicals, in the order the diff walks them. -/
def walkOf (before after : ScoringSide) : List (List String) :=
  leavesOf [] (.object before.canonical) ++ leavesOf [] (.object after.canonical)

/-- Whether a leaf reads the same on both sides. -/
def SameAt (lang : Language) (before after : ScoringSide) (path : List String) : Prop :=
  textAt lang (.object before.canonical) path = textAt lang (.object after.canonical) path

variable {before after : ScoringSide}

theorem unlistedChange_eq_none_iff :
    unlistedChange lang (.object before.canonical) (.object after.canonical) = none ↔
      ∀ leaf, FirstNamed (walkOf before after) leaf → dotted leaf ≠ "__proto__" →
        SameAt lang before after leaf := by
  have hWas := @was_eq_nil_iff lang (walkOf before after) (.object before.canonical)
    (.object after.canonical) ⟨[], [], []⟩
  simp only [List.not_mem_nil, not_false_eq_true, forall_const, true_and] at hWas
  rw [unlistedChange, ← walkOf]
  split
  · rename_i hEmpty
    exact ⟨fun _ => hWas.mp (List.isEmpty_iff.mp hEmpty), fun _ => rfl⟩
  · rename_i hSome
    exact ⟨by rintro ⟨⟩, fun h => absurd (List.isEmpty_iff.mpr (hWas.mpr h)) hSome⟩

theorem scoringDiff_eq_nil_iff :
    scoringDiff lang before after = [] ↔
      (∀ path ∈ canonicalPaths, SameAt lang before after path) ∧ before.buttons = after.buttons ∧
      ∀ leaf, FirstNamed (walkOf before after) leaf → dotted leaf ≠ "__proto__" →
        SameAt lang before after leaf := by
  rw [scoringDiff, List.append_eq_nil_iff, listedChanges_eq_nil_iff, Option.toList_eq_nil_iff,
    unlistedChange_eq_none_iff, and_assoc]
  rfl

theorem text_canonical_eq_iff :
    stableStringify lang (.object before.canonical) = stableStringify lang (.object after.canonical) ↔
      ∀ path, SameAt lang before after path := by
  refine ⟨fun h path => textAt_eq_of_text_eq before.proper after.proper h path, fun h => ?_⟩
  exact text_object_eq_of_leaves before.proper after.proper fun path _ => h path

/-- A canonical is read at its leaves: where they all read the same, so does everything. -/
theorem text_canonical_eq_iff_walk :
    stableStringify lang (.object before.canonical) = stableStringify lang (.object after.canonical) ↔
      ∀ leaf ∈ walkOf before after, SameAt lang before after leaf := by
  refine ⟨fun h leaf _ => text_canonical_eq_iff.mp h leaf, fun h => ?_⟩
  rw [walkOf, leavesOf_object, leavesOf_object] at h
  exact text_object_eq_of_leaves before.proper after.proper h

/-- A leaf under a path that reads the same on both sides reads the same. -/
theorem sameAt_of_above {path leaf : List String} (h : SameAt lang before after path)
    (hPrefix : path <+: leaf) : SameAt lang before after leaf := by
  obtain ⟨below, rfl⟩ := hPrefix
  rw [SameAt, textAt, textAt] at h
  rw [SameAt, textAt, textAt, get?_append, get?_append]
  cases hBefore : (Value.object before.canonical).get? path with
  | none =>
    cases hAfter : (Value.object after.canonical).get? path with
    | none => rfl
    | some w =>
      rw [hBefore, hAfter] at h
      cases h
  | some v =>
    cases hAfter : (Value.object after.canonical).get? path with
    | none =>
      rw [hBefore, hAfter] at h
      cases h
    | some w =>
      rw [hBefore, hAfter] at h
      exact textAt_eq_of_text_eq (before.proper.get? hBefore) (after.proper.get? hAfter)
        (Option.some.inj h) below

/-- A leaf that no listed value covers. -/
def Hidden (leaf : List String) : Prop := ∀ path ∈ canonicalPaths, ¬ path <+: leaf

/-- A canonical with a dotted key and a nested leaf of the same dotted name. -/
def twinSide (points : ℚ) : ScoringSide where
  canonical := [("a.b", .number 1), ("a", .object [("b", .number points)])]
  proper := by simp [Value.Proper, Value.ProperFields, keys]
  buttons := ⟨[], []⟩

end ScoringDiff

end MyClash.Rules
