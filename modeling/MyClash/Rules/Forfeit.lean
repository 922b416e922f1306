import MyClash.Rules.Patch

/-!
# Forfeit rules

The rules in force are a Tournament's own changes laid over its penalty ruleset's rules. The
three kinds of tree (rules, stored changes, a save) hold what their types let them at each path
of keys.
-/

namespace MyClash.Rules

open Json

inductive ForfeitRuleReason where
  | injury
  | voluntary
  | conductViolation

def ForfeitRuleReason.key : ForfeitRuleReason → String
  | .injury => "injury"
  | .voluntary => "voluntary"
  | .conductViolation => "conduct_violation"

/-- Each leaf of the rules, as its key segments. -/
def forfeitRuleLeafPaths : List (List String) := [
  ["disqualifyAfter"],
  ["disqualifyBeforeFirstBout"],
  ["blackCardOpponentScore"],
  ["firstBlackCard"],
  ["secondBlackCard"],
  ["reasons", "injury", "outcome"],
  ["reasons", "injury", "opponentScore"],
  ["reasons", "injury", "fighter"],
  ["reasons", "voluntary", "outcome"],
  ["reasons", "voluntary", "opponentScore"],
  ["reasons", "voluntary", "fighter"],
  ["reasons", "conduct_violation", "outcome"],
  ["reasons", "conduct_violation", "opponentScore"],
  ["reasons", "conduct_violation", "fighter"]]

def forfeitRuleNodePaths : List (List String) := [
  [],
  ["reasons"],
  ["reasons", "injury"],
  ["reasons", "voluntary"],
  ["reasons", "conduct_violation"]]

def IsScalar : Value → Prop
  | .bool _ | .number _ | .string _ => True
  | _ => False

def IsTree : Value → Prop
  | .object _ => True
  | _ => False

/-- A tree that holds values of one sort at the leaf paths, of another above them, and nothing
anywhere else. -/
structure Shaped (leaf node : Value → Prop) (fields : Fields) : Prop where
  proper : (Value.object fields).Proper
  sort : ∀ path v, (Value.object fields).get? path = some v →
    path ∈ forfeitRuleLeafPaths ∧ leaf v ∨ path ∈ forfeitRuleNodePaths ∧ node v

@[ext]
structure ForfeitRulesInForce where
  fields : Fields
  shaped : Shaped IsScalar IsTree fields
  full : ∀ path ∈ forfeitRuleLeafPaths, ((Value.object fields).get? path).isSome

/-- A Tournament's changes as stored: only the keys it changed, at any depth. -/
@[ext]
structure ForfeitChanges where
  fields : Fields
  shaped : Shaped IsScalar IsTree fields

/-- A save of a Tournament's changes: `null` stands only at a leaf. -/
structure ForfeitPatch where
  fields : Fields
  shaped : Shaped (fun v => IsScalar v ∨ v = .null ∨ v = .undefined)
    (fun v => IsTree v ∨ v = .undefined) fields

theorem shaped_nil {leaf node : Value → Prop} (h : node (.object [])) : Shaped leaf node [] where
  proper := proper_object_iff.mpr ⟨List.nodup_nil, nofun⟩
  sort := by
    intro path v hv
    cases path with
    | nil => exact Or.inr ⟨List.mem_cons_self, Option.some.inj hv ▸ h⟩
    | cons key path => exact nomatch hv

def ForfeitChanges.empty : ForfeitChanges := ⟨[], shaped_nil trivial⟩

/-- `stored ?? {}` -/
def storedTree (stored : Option ForfeitChanges) : ForfeitChanges := stored.getD .empty

theorem Shaped.patchTree {next : Fields} (hNext : Shaped IsScalar IsTree next)
    (patch : ForfeitPatch) : Shaped IsScalar IsTree (patchTree next patch.fields) where
  proper := proper_patchTree hNext.proper patch.fields patch.shaped.proper
  sort := by
    intro path v hv
    cases path with
    | nil => exact Or.inr ⟨List.mem_cons_self, Option.some.inj hv ▸ trivial⟩
    | cons key path =>
      rcases get?_patchTree_cases patch.shaped.proper hv with
        hBefore | ⟨hSet, hUndefined, hNull, hTree⟩ | ⟨f, rest, fields, rfl, hTree⟩
      · exact hNext.sort _ v hBefore
      · rcases patch.shaped.sort _ v hSet with ⟨hLeaf, hValue⟩ | ⟨-, hValue⟩
        · exact Or.inl ⟨hLeaf, hValue.resolve_right (not_or.mpr ⟨hNull, hUndefined⟩)⟩
        · have hIs := hValue.resolve_right hUndefined
          cases v with
          | object fields => exact absurd rfl (hTree fields)
          | _ => exact hIs.elim
      · rcases patch.shaped.sort _ _ hTree with ⟨-, hValue⟩ | ⟨hNode, -⟩
        · rcases hValue with hValue | hValue | hValue
          · exact hValue.elim
          · exact nomatch hValue
          · exact nomatch hValue
        · exact Or.inr ⟨hNode, trivial⟩

/-- The stored changes after `patch`; nothing left is none. -/
def applyForfeitPatch (stored : Option ForfeitChanges) (patch : ForfeitPatch) :
    Option ForfeitChanges :=
  let next := patchTree (storedTree stored).fields patch.fields
  if next.isEmpty then none else some ⟨next, (storedTree stored).shaped.patchTree patch⟩

theorem storedTree_applyForfeitPatch (stored : Option ForfeitChanges) (patch : ForfeitPatch) :
    (storedTree (applyForfeitPatch stored patch)).fields =
      patchTree (storedTree stored).fields patch.fields := by
  rw [applyForfeitPatch]
  split
  · rename_i hEmpty
    exact (List.isEmpty_iff.mp hEmpty).symm
  · rfl

/-- `changed ?? base` -/
def orBase (changed : Option Value) (base : Value) : Value :=
  match changed with
  | none | some .undefined | some .null => base
  | some value => value

def ForfeitRulesInForce.at (rules : ForfeitRulesInForce) (path : List String) : Value :=
  ((Value.object rules.fields).get? path).getD .undefined

def ForfeitChanges.toPatch (changes : ForfeitChanges) : ForfeitPatch where
  fields := changes.fields
  shaped := {
    proper := changes.shaped.proper
    sort := fun path v hv => (changes.shaped.sort path v hv).imp
      (fun h => ⟨h.1, Or.inl h.2⟩) fun h => ⟨h.1, Or.inl h.2⟩ }

/-- `changes?.reasons?.[reason]?.outcome`, and each shallower leaf. -/
def changeAt (changes : Option ForfeitPatch) (path : List String) : Option Value :=
  changes.bind fun changes => (Value.object changes.fields).get? path

def leafInForce (ruleset : ForfeitRulesInForce) (changes : Option ForfeitPatch)
    (path : List String) : Value :=
  orBase (changeAt changes path) (ruleset.at path)

def reasonOf (ruleset : ForfeitRulesInForce) (changes : Option ForfeitPatch)
    (reason : ForfeitRuleReason) : Value :=
  .object [
    ("outcome", leafInForce ruleset changes ["reasons", reason.key, "outcome"]),
    ("opponentScore", leafInForce ruleset changes ["reasons", reason.key, "opponentScore"]),
    ("fighter", leafInForce ruleset changes ["reasons", reason.key, "fighter"])]

def mergedFields (ruleset : ForfeitRulesInForce) (changes : Option ForfeitPatch) : Fields := [
  ("reasons", .object [
    ("injury", reasonOf ruleset changes .injury),
    ("voluntary", reasonOf ruleset changes .voluntary),
    ("conduct_violation", reasonOf ruleset changes .conductViolation)]),
  ("disqualifyAfter", leafInForce ruleset changes ["disqualifyAfter"]),
  ("disqualifyBeforeFirstBout", leafInForce ruleset changes ["disqualifyBeforeFirstBout"]),
  ("blackCardOpponentScore", leafInForce ruleset changes ["blackCardOpponentScore"]),
  ("firstBlackCard", leafInForce ruleset changes ["firstBlackCard"]),
  ("secondBlackCard", leafInForce ruleset changes ["secondBlackCard"])]

theorem get?_mergedFields (ruleset : ForfeitRulesInForce) (changes : Option ForfeitPatch) :
    ∀ path ∈ forfeitRuleLeafPaths, (Value.object (mergedFields ruleset changes)).get? path =
      some (leafInForce ruleset changes path) := by
  simp [forfeitRuleLeafPaths, mergedFields, reasonOf, lookup_cons, ForfeitRuleReason.key]

theorem IsScalar.proper {v : Value} (h : IsScalar v) : v.Proper := by
  cases v with
  | bool | number | string => trivial
  | _ => exact h.elim

/-- Nothing lies below a scalar. -/
theorem IsScalar.get? {v w : Value} {path : List String} (h : IsScalar v)
    (hw : v.get? path = some w) : path = [] ∧ w = v := by
  cases path with
  | nil =>
    rw [get?_nil] at hw
    exact ⟨rfl, (Option.some.inj hw).symm⟩
  | cons key path =>
    cases v with
    | object fields => exact h.elim
    | _ => exact nomatch hw

theorem leafPath_not_nodePath : ∀ path ∈ forfeitRuleLeafPaths, path ∉ forfeitRuleNodePaths := by
  decide

theorem Shaped.leaf {leaf node : Value → Prop} {fields : Fields} (h : Shaped leaf node fields)
    {path : List String} (hPath : path ∈ forfeitRuleLeafPaths) {v : Value}
    (hv : (Value.object fields).get? path = some v) : leaf v := by
  rcases h.sort path v hv with ⟨-, hLeaf⟩ | ⟨hNode, -⟩
  · exact hLeaf
  · exact absurd hNode (leafPath_not_nodePath path hPath)

theorem ForfeitRulesInForce.isScalar_at (rules : ForfeitRulesInForce) {path : List String}
    (hPath : path ∈ forfeitRuleLeafPaths) : IsScalar (rules.at path) := by
  obtain ⟨v, hv⟩ := Option.isSome_iff_exists.mp (rules.full path hPath)
  rw [ForfeitRulesInForce.at, hv]
  exact rules.shaped.leaf hPath hv

theorem isScalar_leafInForce (ruleset : ForfeitRulesInForce) (changes : Option ForfeitPatch)
    {path : List String} (hPath : path ∈ forfeitRuleLeafPaths) :
    IsScalar (leafInForce ruleset changes path) := by
  have hBase := ruleset.isScalar_at hPath
  rw [leafInForce, changeAt]
  cases changes with
  | none => exact hBase
  | some changes =>
    cases hChange : (Value.object changes.fields).get? path with
    | none => rwa [Option.bind_some, hChange]
    | some v =>
      rw [Option.bind_some, hChange]
      rcases changes.shaped.leaf hPath hChange with hScalar | rfl | rfl
      · cases v with
        | bool | number | string => trivial
        | _ => exact hScalar.elim
      · exact hBase
      · exact hBase

/-- What a value holds at each path, over the paths of a tree. -/
theorem forall_get?_object {P : List String → Value → Prop} {fields : Fields}
    (hHere : P [] (.object fields))
    (hFields : ∀ f ∈ fields, ∀ path v, f.2.get? path = some v → P (f.1 :: path) v) :
    ∀ path v, (Value.object fields).get? path = some v → P path v := by
  intro path v hv
  cases path with
  | nil => exact Option.some.inj hv ▸ hHere
  | cons key path =>
    rw [get?_object_cons, Option.bind_eq_some_iff] at hv
    obtain ⟨child, hChild, hv⟩ := hv
    exact hFields (key, child) (mem_of_lookup hChild) path v hv

theorem forall_get?_scalar {P : List String → Value → Prop} {v : Value} (h : IsScalar v)
    (hHere : P [] v) : ∀ path w, v.get? path = some w → P path w := by
  intro path w hw
  obtain ⟨rfl, rfl⟩ := h.get? hw
  exact hHere

/-- A leaf at its listed path, or a tree above one. -/
def Sorted (path : List String) (v : Value) : Prop :=
  path ∈ forfeitRuleLeafPaths ∧ IsScalar v ∨ path ∈ forfeitRuleNodePaths ∧ IsTree v

theorem sorted_leafInForce (ruleset : ForfeitRulesInForce) (changes : Option ForfeitPatch)
    {path : List String} (hPath : path ∈ forfeitRuleLeafPaths) :
    ∀ below v, (leafInForce ruleset changes path).get? below = some v → Sorted (path ++ below) v := by
  have hScalar := isScalar_leafInForce ruleset changes hPath
  refine forall_get?_scalar hScalar (Or.inl ⟨?_, hScalar⟩)
  rwa [List.append_nil]

theorem sorted_reasonOf (ruleset : ForfeitRulesInForce) (changes : Option ForfeitPatch)
    (reason : ForfeitRuleReason) :
    ∀ below v, (reasonOf ruleset changes reason).get? below = some v →
      Sorted ("reasons" :: reason.key :: below) v := by
  have hLeaf := fun name (hName : name ∈ ["outcome", "opponentScore", "fighter"]) =>
    @sorted_leafInForce ruleset changes ["reasons", reason.key, name]
      (by revert name; cases reason <;> decide)
  refine forall_get?_object (Or.inr ⟨by cases reason <;> decide, trivial⟩) ?_
  simp only [List.forall_mem_cons]
  refine ⟨hLeaf "outcome" (by decide), hLeaf "opponentScore" (by decide),
    hLeaf "fighter" (by decide), nofun⟩

/-- Every path of the merged rules is a leaf of the rules or stands above one. -/
theorem sorted_mergedFields (ruleset : ForfeitRulesInForce) (changes : Option ForfeitPatch) :
    ∀ path v, (Value.object (mergedFields ruleset changes)).get? path = some v → Sorted path v := by
  have hTop := fun name (hName : [name] ∈ forfeitRuleLeafPaths) =>
    sorted_leafInForce ruleset changes hName
  refine forall_get?_object (Or.inr ⟨by decide, trivial⟩) ?_
  simp only [mergedFields, List.forall_mem_cons]
  refine ⟨forall_get?_object (Or.inr ⟨by decide, trivial⟩) ?_, hTop "disqualifyAfter" (by decide),
    hTop "disqualifyBeforeFirstBout" (by decide), hTop "blackCardOpponentScore" (by decide),
    hTop "firstBlackCard" (by decide), hTop "secondBlackCard" (by decide), nofun⟩
  simp only [List.forall_mem_cons]
  exact ⟨sorted_reasonOf ruleset changes .injury, sorted_reasonOf ruleset changes .voluntary,
    sorted_reasonOf ruleset changes .conductViolation, nofun⟩

theorem proper_reasonOf (ruleset : ForfeitRulesInForce) (changes : Option ForfeitPatch)
    (reason : ForfeitRuleReason) : (reasonOf ruleset changes reason).Proper := by
  have hLeaf := fun name (hName : name ∈ ["outcome", "opponentScore", "fighter"]) =>
    (@isScalar_leafInForce ruleset changes ["reasons", reason.key, name]
      (by revert name; cases reason <;> decide)).proper
  refine proper_object_iff.mpr ⟨by simp [keys], ?_⟩
  simp only [List.forall_mem_cons]
  exact ⟨hLeaf "outcome" (by decide), hLeaf "opponentScore" (by decide),
    hLeaf "fighter" (by decide), by rintro _ ⟨⟩⟩

theorem proper_mergedFields (ruleset : ForfeitRulesInForce) (changes : Option ForfeitPatch) :
    (Value.object (mergedFields ruleset changes)).Proper := by
  have hTop := fun name (hName : [name] ∈ forfeitRuleLeafPaths) =>
    (isScalar_leafInForce ruleset changes hName).proper
  refine proper_object_iff.mpr ⟨by simp [keys, mergedFields], ?_⟩
  simp only [mergedFields, List.forall_mem_cons]
  refine ⟨proper_object_iff.mpr ⟨by simp [keys], ?_⟩, hTop "disqualifyAfter" (by decide),
    hTop "disqualifyBeforeFirstBout" (by decide), hTop "blackCardOpponentScore" (by decide),
    hTop "firstBlackCard" (by decide), hTop "secondBlackCard" (by decide), by rintro _ ⟨⟩⟩
  simp only [List.forall_mem_cons]
  exact ⟨proper_reasonOf ruleset changes .injury, proper_reasonOf ruleset changes .voluntary,
    proper_reasonOf ruleset changes .conductViolation, by rintro _ ⟨⟩⟩

/-- The rules in force: `changes` over `ruleset`. -/
def mergeForfeitRules (ruleset : ForfeitRulesInForce) (changes : Option ForfeitPatch) :
    ForfeitRulesInForce where
  fields := mergedFields ruleset changes
  shaped := ⟨proper_mergedFields ruleset changes, sorted_mergedFields ruleset changes⟩
  full := by
    intro path hPath
    rw [get?_mergedFields ruleset changes path hPath]
    rfl

theorem at_mergeForfeitRules (ruleset : ForfeitRulesInForce) (changes : Option ForfeitPatch)
    {path : List String} (hPath : path ∈ forfeitRuleLeafPaths) :
    (mergeForfeitRules ruleset changes).at path = leafInForce ruleset changes path := by
  rw [ForfeitRulesInForce.at, mergeForfeitRules, get?_mergedFields ruleset changes path hPath]
  rfl

/-- The rules a Tournament with these stored changes plays under. -/
def rulesInForce (ruleset : ForfeitRulesInForce) (stored : Option ForfeitChanges) :
    ForfeitRulesInForce :=
  mergeForfeitRules ruleset (stored.map ForfeitChanges.toPatch)

def ForfeitChanges.at (changes : ForfeitChanges) (path : List String) : Option Value :=
  (Value.object changes.fields).get? path

theorem at_rulesInForce (ruleset : ForfeitRulesInForce) (stored : Option ForfeitChanges)
    {path : List String} (hPath : path ∈ forfeitRuleLeafPaths) :
    (rulesInForce ruleset stored).at path =
      ((storedTree stored).at path).getD (ruleset.at path) := by
  rw [rulesInForce, at_mergeForfeitRules ruleset _ hPath, leafInForce, changeAt]
  cases stored with
  | none =>
    cases path with
    | nil => exact absurd hPath (by decide)
    | cons key path => rfl
  | some changes =>
    change orBase ((Value.object changes.fields).get? path) _ =
      ((Value.object changes.fields).get? path).getD _
    cases hStored : (Value.object changes.fields).get? path with
    | none => rfl
    | some v =>
      have hScalar := changes.shaped.leaf hPath hStored
      cases v with
      | bool | number | string => rfl
      | _ => exact hScalar.elim

/-! ## A patch, leaf by leaf -/

def ForfeitPatch.at (patch : ForfeitPatch) (path : List String) : Option Value :=
  (Value.object patch.fields).get? path

theorem leafPath_extends : ∀ path ∈ forfeitRuleLeafPaths, ∀ above ∈ forfeitRuleLeafPaths,
    above <+: path → above = path := by
  decide

/-- A stored leaf after a patch: the value sent, nothing where null was sent, else as before. -/
theorem at_applyForfeitPatch (stored : Option ForfeitChanges) (patch : ForfeitPatch)
    {path : List String} (hPath : path ∈ forfeitRuleLeafPaths) :
    (storedTree (applyForfeitPatch stored patch)).at path =
      patched ((storedTree stored).at path) (patch.at path) := by
  rw [ForfeitChanges.at, storedTree_applyForfeitPatch]
  cases path with
  | nil => exact absurd hPath (by decide)
  | cons key path =>
    refine get?_patchTree patch.shaped.proper (fun steps step w hPrefix hw => ?_)
      fun fields hTree => ?_
    · rcases patch.shaped.sort _ w hw with ⟨hLeaf, -⟩ | ⟨-, hNode⟩
      · have hAbove : key :: steps <+: key :: path :=
          List.cons_prefix_cons.mpr ⟨rfl, (List.prefix_append steps [step]).trans hPrefix⟩
        have hEq := List.cons.inj (leafPath_extends _ hPath _ hLeaf hAbove)
        have hLength := hPrefix.length_le
        rw [hEq.2, List.length_append] at hLength
        exact absurd hLength (by simp)
      · rcases hNode with hTree | hUndefined
        · cases w with
          | object fields => exact Or.inr ⟨fields, rfl⟩
          | _ => exact hTree.elim
        · exact Or.inl hUndefined
    · rcases patch.shaped.leaf hPath hTree with hValue | hValue | hValue
      · exact hValue.elim
      · exact nomatch hValue
      · exact nomatch hValue

/-- What a leaf in force becomes: the value the patch sets, the ruleset's where the patch resets
it, and what was in force where the patch leaves it out. -/
def leafAfter (ruleset before : Value) : Option Value → Value
  | none | some .undefined => before
  | some .null => ruleset
  | some value => value

theorem getD_patched (stored : Option Value) (sent : Option Value) (ruleset : Value) :
    (patched stored sent).getD ruleset = leafAfter ruleset (stored.getD ruleset) sent := by
  cases sent with
  | none => rfl
  | some value => cases value <;> rfl

theorem rulesInForce_applyForfeitPatch (ruleset : ForfeitRulesInForce)
    (stored : Option ForfeitChanges) (patch : ForfeitPatch) {path : List String}
    (hPath : path ∈ forfeitRuleLeafPaths) :
    (rulesInForce ruleset (applyForfeitPatch stored patch)).at path =
      leafAfter (ruleset.at path) ((rulesInForce ruleset stored).at path) (patch.at path) := by
  rw [at_rulesInForce ruleset _ hPath, at_applyForfeitPatch stored patch hPath, getD_patched,
    at_rulesInForce ruleset stored hPath]

theorem applyForfeitPatch_congr {stored other : Option ForfeitChanges} {patch : ForfeitPatch}
    (h : patchTree (storedTree stored).fields patch.fields =
      patchTree (storedTree other).fields patch.fields) :
    applyForfeitPatch stored patch = applyForfeitPatch other patch := by
  simp only [applyForfeitPatch, h]

theorem applyForfeitPatch_twice (stored : Option ForfeitChanges) (patch : ForfeitPatch) :
    applyForfeitPatch (applyForfeitPatch stored patch) patch = applyForfeitPatch stored patch := by
  refine applyForfeitPatch_congr ?_
  rw [storedTree_applyForfeitPatch]
  exact patchTree_patchTree (storedTree stored).shaped.proper patch.shaped.proper

theorem applyForfeitPatch_ne_nil {stored : Option ForfeitChanges} {patch : ForfeitPatch}
    {changes : ForfeitChanges} (h : applyForfeitPatch stored patch = some changes) :
    changes.fields ≠ [] := by
  rw [applyForfeitPatch] at h
  split at h
  · exact nomatch h
  · rename_i hEmpty
    cases h
    exact fun hNil => hEmpty (List.isEmpty_iff.mpr hNil)

/-- A patch leaves no empty object in the stored changes that was not there. -/
theorem applyForfeitPatch_empty {stored : Option ForfeitChanges} {patch : ForfeitPatch}
    {changes : ForfeitChanges} (h : applyForfeitPatch stored patch = some changes)
    {path : List String} (hEmpty : changes.at path = some (.object [])) :
    (storedTree stored).at path = some (.object []) := by
  have hTree := storedTree_applyForfeitPatch stored patch
  rw [h] at hTree
  rw [ForfeitChanges.at] at hEmpty
  cases path with
  | nil =>
    rw [get?_nil, Option.some.injEq, Value.object.injEq] at hEmpty
    exact absurd hEmpty (applyForfeitPatch_ne_nil h)
  | cons key path =>
    change (Value.object (storedTree (some changes)).fields).get? (key :: path) = _ at hEmpty
    rw [hTree] at hEmpty
    exact get?_empty_of_patchTree patch.shaped.proper hEmpty

end MyClash.Rules
