import MyClash.Library.JsonText
import MyClash.Rules.Change
import MyClash.Rules.Forfeit

/-!
# What changed in a Tournament's forfeit rules

The diff is over the rules in force, and over which leaves the Tournament stores itself. A leaf
no listed path covers is one unknown entry.
-/

namespace MyClash.Rules

open Json

variable (lang : Language)

namespace ForfeitDiff

@[grind =] def pathName (path : List String) : String := "forfeitRules." ++ ".".intercalate path

def unknownPath : String := "forfeitRules.unknown"

/-- Undefined where a step is missing. -/
def valueAt (root : Value) (segments : List String) : Value := (root.get? segments).getD .undefined

/-- `null`, or the tree of the stored changes. -/
def storedRoot : Option ForfeitChanges → Value
  | none => .null
  | some changes => .object changes.fields

def present (v : Value) : Bool :=
  match v with
  | .undefined => false
  | _ => true

/-- The entry of a listed leaf, if its value in force or its stored presence changed. -/
def leafChange (inForceBefore inForceAfter storedBefore storedAfter : Value)
    (path : List String) : Option RulesChange :=
  let before := valueAt inForceBefore path
  let after := valueAt inForceAfter path
  if stableStringify lang before ≠ stableStringify lang after then
    some ⟨pathName path, before, after, none⟩
  else
    let wasStored := present (valueAt storedBefore path)
    let isStored := present (valueAt storedAfter path)
    if wasStored ≠ isStored then
      some ⟨pathName path, before, after, some (if isStored then .set else .reset)⟩
    else none

/-- Whether a leaf no listed path covers differs between two trees. -/
def unlistedChanged (before after : Value) : Bool :=
  (leavesOf [] before ++ leavesOf [] after).any fun leaf =>
    !(forfeitRuleLeafPaths.any (isPrefix · leaf)) &&
      decide (stableStringify lang (valueAt before leaf) ≠ stableStringify lang (valueAt after leaf))

def forfeitRulesChanges (inForceBefore inForceAfter : ForfeitRulesInForce)
    (storedBefore storedAfter : Option ForfeitChanges) : List RulesChange :=
  let before := Value.object inForceBefore.fields
  let after := Value.object inForceAfter.fields
  let listed := forfeitRuleLeafPaths.filterMap
    (leafChange lang before after (storedRoot storedBefore) (storedRoot storedAfter))
  let unknown := unlistedChanged lang before after ||
    unlistedChanged lang (storedRoot storedBefore) (storedRoot storedAfter)
  listed ++ if unknown then [⟨unknownPath, .null, .null, none⟩] else []

variable {lang}

theorem leafChange_eq_none_iff {inForceBefore inForceAfter storedBefore storedAfter : Value}
    {path : List String} :
    leafChange lang inForceBefore inForceAfter storedBefore storedAfter path = none ↔
      stableStringify lang (valueAt inForceBefore path) =
        stableStringify lang (valueAt inForceAfter path) ∧
      present (valueAt storedBefore path) = present (valueAt storedAfter path) := by
  rw [leafChange]
  split
  · rename_i hText
    exact ⟨nofun, fun h => absurd h.1 hText⟩
  · rename_i hText
    simp only
    split
    · rename_i hStored
      exact ⟨nofun, fun h => absurd h.2 hStored⟩
    · rename_i hStored
      exact ⟨fun _ => ⟨not_not.mp hText, not_not.mp hStored⟩, fun _ => rfl⟩

theorem unlistedChanged_eq_false_iff {before after : Value} :
    unlistedChanged lang before after = false ↔
      ∀ leaf ∈ leavesOf [] before ++ leavesOf [] after,
        (∀ path ∈ forfeitRuleLeafPaths, ¬ path <+: leaf) →
        stableStringify lang (valueAt before leaf) = stableStringify lang (valueAt after leaf) := by
  simp only [unlistedChanged, isPrefix, List.any_eq_false, Bool.and_eq_true, Bool.not_eq_true',
    decide_eq_true_eq, not_and, not_not, List.isPrefixOf_iff_prefix]

theorem forfeitRulesChanges_eq_nil {before after : ForfeitRulesInForce}
    {storedBefore storedAfter : Option ForfeitChanges} :
    forfeitRulesChanges lang before after storedBefore storedAfter = [] ↔
      (∀ path ∈ forfeitRuleLeafPaths, leafChange lang (.object before.fields)
        (.object after.fields) (storedRoot storedBefore) (storedRoot storedAfter) path = none) ∧
      unlistedChanged lang (.object before.fields) (.object after.fields) = false ∧
      unlistedChanged lang (storedRoot storedBefore) (storedRoot storedAfter) = false := by
  rw [forfeitRulesChanges, List.append_eq_nil_iff, List.filterMap_eq_nil_iff]
  refine and_congr Iff.rfl ?_
  split
  · rename_i hUnknown
    refine ⟨nofun, fun h => ?_⟩
    rw [h.1, h.2] at hUnknown
    exact nomatch hUnknown
  · rename_i hUnknown
    rw [Bool.not_eq_true, Bool.or_eq_false_iff] at hUnknown
    exact ⟨fun _ => hUnknown, fun _ => rfl⟩

/-! ## Trees of the shape of the rules -/

section Shaped

variable {fields others : Fields}

theorem kind_ne_of_shaped (h : Shaped IsScalar IsTree fields) {path : List String} {v : Value}
    (hv : (Value.object fields).get? path = some v) : kind v ≠ 0 := by
  rcases h.sort path v hv with ⟨-, hSort⟩ | ⟨-, hSort⟩
  · cases v with
    | bool b => cases b <;> decide
    | number | string => simp [kind]
    | _ => exact hSort.elim
  · cases v with
    | object => simp [kind]
    | _ => exact hSort.elim

theorem text_getD_eq_iff {a b : Option Value} (ha : ∀ v, a = some v → kind v ≠ 0)
    (hb : ∀ v, b = some v → kind v ≠ 0) :
    stableStringify lang (a.getD .undefined) = stableStringify lang (b.getD .undefined) ↔
      a.map (stableStringify lang) = b.map (stableStringify lang) := by
  cases a with
  | none =>
    cases b with
    | none => exact ⟨fun _ => rfl, fun _ => rfl⟩
    | some w => exact ⟨fun h => absurd (kind_eq_of_text_eq lang h).symm (hb w rfl), nofun⟩
  | some v =>
    cases b with
    | none => exact ⟨fun h => absurd (kind_eq_of_text_eq lang h) (ha v rfl), nofun⟩
    | some w => exact ⟨congrArg some, Option.some.inj⟩

theorem text_valueAt_eq_iff (h : Shaped IsScalar IsTree fields)
    (h' : Shaped IsScalar IsTree others) (path : List String) :
    stableStringify lang (valueAt (.object fields) path) =
        stableStringify lang (valueAt (.object others) path) ↔
      textAt lang (.object fields) path = textAt lang (.object others) path :=
  text_getD_eq_iff (fun _ hv => kind_ne_of_shaped h hv) fun _ hv => kind_ne_of_shaped h' hv

theorem leafPath_not_above : ∀ path ∈ forfeitRuleLeafPaths, ∀ node ∈ forfeitRuleNodePaths,
    ¬ path <+: node := by
  decide

/-- A path of a tree that a listed path covers is that path. -/
theorem leafPath_of_covered (h : Shaped IsScalar IsTree fields) {leaf path : List String}
    {v : Value} (hv : (Value.object fields).get? leaf = some v)
    (hPath : path ∈ forfeitRuleLeafPaths) (hPrefix : path <+: leaf) :
    leaf ∈ forfeitRuleLeafPaths := by
  rcases h.sort leaf v hv with ⟨hLeaf, -⟩ | ⟨hNode, -⟩
  · exact hLeaf
  · exact absurd hPrefix (leafPath_not_above path hPath leaf hNode)

/-- Two trees of the rules' shape have one text exactly when they read equal at the listed leaves
and no unlisted leaf changed. -/
theorem text_eq_iff_of_shaped (h : Shaped IsScalar IsTree fields)
    (h' : Shaped IsScalar IsTree others) :
    stableStringify lang (.object fields) = stableStringify lang (.object others) ↔
      (∀ path ∈ forfeitRuleLeafPaths,
        textAt lang (.object fields) path = textAt lang (.object others) path) ∧
      unlistedChanged lang (.object fields) (.object others) = false := by
  rw [unlistedChanged_eq_false_iff, leavesOf_object, leavesOf_object]
  constructor
  · intro hText
    have hAt := textAt_eq_of_text_eq h.proper h'.proper hText
    exact ⟨fun path _ => hAt path, fun leaf _ _ => (text_valueAt_eq_iff h h' leaf).mpr (hAt leaf)⟩
  · rintro ⟨hListed, hRest⟩
    refine text_object_eq_of_leaves h.proper h'.proper fun leaf hLeaf => ?_
    by_cases hCovered : ∃ path ∈ forfeitRuleLeafPaths, path <+: leaf
    · obtain ⟨path, hPath, hPrefix⟩ := hCovered
      refine hListed leaf ?_
      rcases List.mem_append.mp hLeaf with hMem | hMem
      · obtain ⟨v, hv⟩ := Option.isSome_iff_exists.mp (get?_isSome_of_fieldLeaf h.proper hMem)
        exact leafPath_of_covered h hv hPath hPrefix
      · obtain ⟨v, hv⟩ := Option.isSome_iff_exists.mp (get?_isSome_of_fieldLeaf h'.proper hMem)
        exact leafPath_of_covered h' hv hPath hPrefix
    · refine (text_valueAt_eq_iff h h' leaf).mp (hRest leaf hLeaf fun path hPath hPrefix => ?_)
      exact hCovered ⟨path, hPath, hPrefix⟩

end Shaped

/-! ## The diff and the two trees it compares -/

theorem valueAt_storedRoot (stored : Option ForfeitChanges) {path : List String}
    (hPath : path ≠ []) :
    valueAt (storedRoot stored) path = valueAt (.object (storedTree stored).fields) path := by
  cases stored with
  | some changes => rfl
  | none =>
    cases path with
    | nil => exact absurd rfl hPath
    | cons key path => rfl

theorem unlistedChanged_storedRoot (stored stored' : Option ForfeitChanges) :
    unlistedChanged lang (storedRoot stored) (storedRoot stored') =
      unlistedChanged lang (.object (storedTree stored).fields)
        (.object (storedTree stored').fields) := by
  have hLeaves : ∀ stored, leavesOf [] (storedRoot stored) =
      leavesOf [] (.object (storedTree stored).fields) := by
    intro stored
    cases stored <;> rfl
  rw [Bool.eq_iff_iff, ← not_iff_not, Bool.not_eq_true, Bool.not_eq_true,
    unlistedChanged_eq_false_iff, unlistedChanged_eq_false_iff, hLeaves, hLeaves]
  refine forall_congr' fun leaf => forall_congr' fun hLeaf => ?_
  have hNe : leaf ≠ [] := by
    rw [leavesOf_object, leavesOf_object] at hLeaf
    rcases List.mem_append.mp hLeaf with hMem | hMem
    · exact ne_nil_of_mem_fieldLeaves hMem
    · exact ne_nil_of_mem_fieldLeaves hMem
  rw [valueAt_storedRoot stored hNe, valueAt_storedRoot stored' hNe]

theorem present_valueAt (stored : Option ForfeitChanges) {path : List String}
    (hPath : path ∈ forfeitRuleLeafPaths) :
    present (valueAt (storedRoot stored) path) = ((storedTree stored).at path).isSome := by
  have hNe : path ≠ [] := by
    rintro rfl
    exact absurd hPath (by decide)
  rw [valueAt_storedRoot stored hNe, valueAt, ← ForfeitChanges.at]
  cases hAt : (storedTree stored).at path with
  | none => rfl
  | some v =>
    have hScalar := (storedTree stored).shaped.leaf hPath hAt
    cases v with
    | bool | number | string => rfl
    | _ => exact hScalar.elim

/-- A listed leaf yields no entry exactly when the rules in force and the stored changes both
read the same there. -/
theorem leafChange_eq_none_iff_textAt (ruleset ruleset' : ForfeitRulesInForce)
    (stored stored' : Option ForfeitChanges) {path : List String}
    (hPath : path ∈ forfeitRuleLeafPaths) :
    leafChange lang (.object (rulesInForce ruleset stored).fields)
        (.object (rulesInForce ruleset' stored').fields) (storedRoot stored) (storedRoot stored')
        path = none ↔
      textAt lang (.object (rulesInForce ruleset stored).fields) path =
        textAt lang (.object (rulesInForce ruleset' stored').fields) path ∧
      textAt lang (.object (storedTree stored).fields) path =
        textAt lang (.object (storedTree stored').fields) path := by
  have hInForce := @text_valueAt_eq_iff lang _ _ (rulesInForce ruleset stored).shaped
    (rulesInForce ruleset' stored').shaped path
  rw [leafChange_eq_none_iff, hInForce, present_valueAt stored hPath, present_valueAt stored' hPath]
  refine and_congr_right fun hText => ?_
  -- Where both sides store the leaf, what they store is what is in force.
  have hAt := hInForce.mpr hText
  have hLeft := at_rulesInForce ruleset stored hPath
  have hRight := at_rulesInForce ruleset' stored' hPath
  rw [ForfeitRulesInForce.at, ← valueAt] at hLeft hRight
  rw [hLeft, hRight] at hAt
  change _ ↔ ((storedTree stored).at path).map _ = ((storedTree stored').at path).map _
  cases hStored : (storedTree stored).at path with
  | none =>
    cases hStored' : (storedTree stored').at path with
    | none => exact ⟨fun _ => rfl, fun _ => rfl⟩
    | some w => exact ⟨by rintro ⟨⟩, by rintro ⟨⟩⟩
  | some v =>
    cases hStored' : (storedTree stored').at path with
    | none => exact ⟨by rintro ⟨⟩, by rintro ⟨⟩⟩
    | some w =>
      rw [hStored, hStored', Option.getD_some, Option.getD_some] at hAt
      exact ⟨fun _ => congrArg some hAt, fun _ => rfl⟩

/-- The diff is empty exactly when neither the rules in force nor the stored changes changed. -/
theorem forfeitRulesChanges_eq_nil_iff (ruleset ruleset' : ForfeitRulesInForce)
    (stored stored' : Option ForfeitChanges) :
    forfeitRulesChanges lang (rulesInForce ruleset stored) (rulesInForce ruleset' stored')
        stored stored' = [] ↔
      stableStringify lang (.object (rulesInForce ruleset stored).fields) =
        stableStringify lang (.object (rulesInForce ruleset' stored').fields) ∧
      stableStringify lang (.object (storedTree stored).fields) =
        stableStringify lang (.object (storedTree stored').fields) := by
  rw [forfeitRulesChanges_eq_nil, unlistedChanged_storedRoot,
    text_eq_iff_of_shaped (rulesInForce ruleset stored).shaped (rulesInForce ruleset' stored').shaped,
    text_eq_iff_of_shaped (storedTree stored).shaped (storedTree stored').shaped]
  constructor
  · rintro ⟨hListed, hInForce, hStored⟩
    have hText := fun path hPath =>
      (leafChange_eq_none_iff_textAt ruleset ruleset' stored stored' hPath).mp (hListed path hPath)
    exact ⟨⟨fun path hPath => (hText path hPath).1, hInForce⟩,
      ⟨fun path hPath => (hText path hPath).2, hStored⟩⟩
  · rintro ⟨⟨hInForce, hUnknown⟩, hStored, hUnknown'⟩
    refine ⟨fun path hPath => ?_, hUnknown, hUnknown'⟩
    exact (leafChange_eq_none_iff_textAt ruleset ruleset' stored stored' hPath).mpr
      ⟨hInForce path hPath, hStored path hPath⟩

end ForfeitDiff

open ForfeitDiff

/-- A patch sets, resets or keeps each leaf in force; twice is once; it leaves no new empty
object; and the diff sees exactly what it changed. -/
theorem applyForfeitPatch_law (ruleset : ForfeitRulesInForce) (stored : Option ForfeitChanges)
    (patch : ForfeitPatch) :
    (∀ path ∈ forfeitRuleLeafPaths,
      (rulesInForce ruleset (applyForfeitPatch stored patch)).at path =
        match patch.at path with
        | none | some .undefined => (rulesInForce ruleset stored).at path
        | some .null => ruleset.at path
        | some value => value) ∧
    applyForfeitPatch (applyForfeitPatch stored patch) patch = applyForfeitPatch stored patch ∧
    (∀ changes, applyForfeitPatch stored patch = some changes → ∀ path,
      changes.at path = some (.object []) → (storedTree stored).at path = some (.object [])) ∧
    (forfeitRulesChanges lang (rulesInForce ruleset stored)
        (rulesInForce ruleset (applyForfeitPatch stored patch)) stored
        (applyForfeitPatch stored patch) = [] ↔
      stableStringify lang (.object (rulesInForce ruleset stored).fields) =
        stableStringify lang
          (.object (rulesInForce ruleset (applyForfeitPatch stored patch)).fields) ∧
      stableStringify lang (.object (storedTree stored).fields) =
        stableStringify lang (.object (storedTree (applyForfeitPatch stored patch)).fields)) := by
  refine ⟨fun path hPath => ?_, applyForfeitPatch_twice stored patch,
    fun changes h path hEmpty => applyForfeitPatch_empty h hEmpty,
    forfeitRulesChanges_eq_nil_iff ruleset ruleset stored (applyForfeitPatch stored patch)⟩
  rw [rulesInForce_applyForfeitPatch ruleset stored patch hPath]
  cases patch.at path with
  | none => rfl
  | some value => cases value <;> rfl

end MyClash.Rules
