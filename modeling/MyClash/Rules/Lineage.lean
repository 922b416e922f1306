import MyClash.Library.JsonPlain
import MyClash.Rules.ContentHash

/-!
# How a fork diverges from its base

Three buckets (grammar, end conditions, ranking), each computed by comparing the two rulesets.
-/

namespace MyClash.Rules

open Json MatchFormat

inductive BucketStatus where
  | unchanged
  | changed
  deriving DecidableEq

structure RulesetBucketInputs where
  targets : Option (List Target)
  hasAfterblow : Bool
  afterblowValuation : Option AfterblowValuation
  afterblowFixedValue : Option ℚ
  matchFormat : Value
  winBonus : Option ℚ
  doublePenaltyFormula : Value

structure BucketDiff where
  grammar : BucketStatus
  endConditions : BucketStatus
  ranking : BucketStatus
  rankingCompatible : Bool

/-- `b[k]`: the prototype of an object is an object with no keys of its own. -/
def member (fields : Fields) (key : String) : Value :=
  match fields.lookup key with
  | some value => value
  | none => if key = "__proto__" then .object [] else .undefined

mutual

def deepEqual : Value → Value → Bool
  | .undefined, .undefined => true
  | .null, .null => true
  | .bool a, .bool b => a == b
  | .number a, .number b => a == b
  | .string a, .string b => a == b
  | .array items, .array others => items.length == others.length && deepEqualItems items others
  | .object fields, .object others =>
    fields.length == others.length && deepEqualFields fields others
  | _, _ => false

def deepEqualItems : List Value → List Value → Bool
  | v :: rest, w :: others => deepEqual v w && deepEqualItems rest others
  | _, _ => true

def deepEqualFields : Fields → Fields → Bool
  | [], _ => true
  | (key, v) :: rest, others => deepEqual v (member others key) && deepEqualFields rest others

end

def statusOf (equal : Bool) : BucketStatus := if equal then .unchanged else .changed

variable (lang : Language)

def diffRulesetBuckets (base fork : RulesetBucketInputs) : BucketDiff :=
  let grammar := statusOf
    (deepEqual (targetsValue (sortedTargets lang base.targets))
        (targetsValue (sortedTargets lang fork.targets)) &&
      base.hasAfterblow == fork.hasAfterblow &&
      decide (base.afterblowValuation = fork.afterblowValuation) &&
      decide (base.afterblowFixedValue = fork.afterblowFixedValue))
  let endConditions := statusOf (deepEqual base.matchFormat fork.matchFormat)
  let ranking := statusOf
    (decide (base.winBonus = fork.winBonus) &&
      deepEqual base.doublePenaltyFormula fork.doublePenaltyFormula)
  ⟨grammar, endConditions, ranking, decide (ranking = .unchanged)⟩

/-- The ranking and end-condition fields of a coded ruleset's config. -/
structure TfConfig where
  winBonus : Option ℚ
  matchFormat : Option Value
  doublePenaltyFormula : Option PlainValue

/-- A coded ruleset as stored: its grammar in columns, the rest in its config. -/
structure RulesetBucketRow where
  targets : Option (List Target)
  hasAfterblow : Option Bool
  afterblowValuation : Option AfterblowValuation
  afterblowFixedValue : Option ℚ
  tfConfig : Option TfConfig

/-- `row.tf_config ?? {}` -/
def RulesetBucketRow.tf (row : RulesetBucketRow) : TfConfig := row.tfConfig.getD ⟨none, none, none⟩

/-- A stored format out of domain degrades to the default one. -/
def normalizeEndConditions (matchFormat : Option Value) : Value :=
  (formatOf matchFormat).getD defaultMatchFormatConfig

def projectRulesetBuckets (row : RulesetBucketRow) : RulesetBucketInputs where
  targets := row.targets
  hasAfterblow := row.hasAfterblow.getD false
  afterblowValuation := row.afterblowValuation
  afterblowFixedValue := row.afterblowFixedValue
  matchFormat := normalizeEndConditions row.tf.matchFormat
  winBonus := row.tf.winBonus
  doublePenaltyFormula := orNull Subtype.val row.tf.doublePenaltyFormula

/-- The scoring behaviour of a coded ruleset under an engine and an afterblow mode. -/
def RulesetBucketRow.behaviour (row : RulesetBucketRow) (engineCode engineVersion : String)
    (afterblowMode : Option String) : CodedScoringBehaviour where
  engineCode := engineCode
  engineVersion := engineVersion
  grammar := ⟨row.targets, row.hasAfterblow.getD false, row.afterblowValuation,
    row.afterblowFixedValue⟩
  matchFormat := row.tf.matchFormat
  afterblowMode := afterblowMode
  winBonus := row.tf.winBonus
  doublePenaltyFormula := row.tf.doublePenaltyFormula

/-! ## Deep equality and texts -/

variable {lang}

theorem deepEqualItems_iff {items others : List Value} (h : items.length = others.length)
    (ih : ∀ v ∈ items, ∀ w ∈ others, deepEqual v w = true ↔
      stableStringify lang v = stableStringify lang w) :
    deepEqualItems items others = true ↔
      items.map (stableStringify lang) = others.map (stableStringify lang) := by
  induction items generalizing others with
  | nil =>
    cases others with
    | nil => exact ⟨fun _ => rfl, fun _ => rfl⟩
    | cons w others => exact nomatch h
  | cons v rest hRest =>
    cases others with
    | nil => exact nomatch h
    | cons w others =>
      rw [deepEqualItems, Bool.and_eq_true, List.map_cons, List.map_cons, List.cons.injEq,
        ih v List.mem_cons_self w List.mem_cons_self,
        hRest (Nat.succ.inj h) fun v hv w hw =>
          ih v (List.mem_cons_of_mem _ hv) w (List.mem_cons_of_mem _ hw)]

theorem deepEqualFields_iff {fields others : Fields} :
    deepEqualFields fields others = true ↔
      ∀ f ∈ fields, deepEqual f.2 (member others f.1) = true := by
  induction fields with
  | nil => exact ⟨fun _ => nofun, fun _ => rfl⟩
  | cons f rest ih => rw [deepEqualFields, Bool.and_eq_true, ih, List.forall_mem_cons]

theorem not_deepEqual_undefined {v : Value} (h : v.Plain) : deepEqual v .undefined = false := by
  cases v with
  | undefined => exact h.elim
  | _ => rfl

theorem deepEqual_of_kind_ne {v w : Value} (hv : v.Plain) (hw : w.Plain) (h : kind v ≠ kind w) :
    deepEqual v w = false := by
  match v, w with
  | .undefined, _ => exact hv.elim
  | _, .undefined => exact hw.elim
  | .bool true, .bool false => rfl
  | .bool false, .bool true => rfl
  | .null, .bool _ | .null, .number _ | .null, .string _ | .null, .array _ | .null, .object _
  | .bool _, .null | .bool _, .number _ | .bool _, .string _ | .bool _, .array _
  | .bool _, .object _ | .number _, .null | .number _, .bool _ | .number _, .string _
  | .number _, .array _ | .number _, .object _ | .string _, .null | .string _, .bool _
  | .string _, .number _ | .string _, .array _ | .string _, .object _ | .array _, .null
  | .array _, .bool _ | .array _, .number _ | .array _, .string _ | .array _, .object _
  | .object _, .null | .object _, .bool _ | .object _, .number _ | .object _, .string _
  | .object _, .array _ => rfl
  | .null, .null | .bool true, .bool true | .bool false, .bool false | .number _, .number _
  | .string _, .string _ | .array _, .array _ | .object _, .object _ => exact absurd rfl h

section Objects

variable {fields others : Fields}

theorem member_of_lookup {key : String} {w : Value} (h : others.lookup key = some w) :
    member others key = w := by
  rw [member, h]

/-- A key an object lacks reads as undefined, so no plain value equals it. -/
theorem mem_keys_of_deepEqual {key : String} {v : Value} (hv : v.Plain) (hKey : key ≠ "__proto__")
    (h : deepEqual v (member others key) = true) : ∃ w, others.lookup key = some w := by
  cases hLookup : others.lookup key with
  | some w => exact ⟨w, rfl⟩
  | none =>
    rw [member, hLookup] at h
    simp only [if_neg hKey, not_deepEqual_undefined hv] at h
    exact nomatch h

theorem keys_mem_iff_of_length (hFields : (keys fields).Nodup)
    (hLength : fields.length = others.length) (hSub : ∀ key ∈ keys fields, key ∈ keys others)
    (key : String) : key ∈ keys fields ↔ key ∈ keys others := by
  refine ⟨hSub key, fun hMem => ?_⟩
  have hPerm : (keys fields).Perm (keys others) :=
    (List.subperm_of_subset hFields hSub).perm_of_length_le (by simp [keys, hLength])
  exact hPerm.mem_iff.mpr hMem

theorem length_eq_of_keys (hFields : (keys fields).Nodup) (hOthers : (keys others).Nodup)
    (h : ∀ key, key ∈ keys fields ↔ key ∈ keys others) : fields.length = others.length := by
  have hPerm := (List.perm_ext_iff_of_nodup hFields hOthers).mpr h
  simpa [keys] using hPerm.length_eq

theorem deepEqual_object_iff (hv : (Value.object fields).Plain) (hw : (Value.object others).Plain)
    (ih : ∀ f ∈ fields, ∀ w, w.Plain →
      (deepEqual f.2 w = true ↔ stableStringify lang f.2 = stableStringify lang w)) :
    deepEqual (.object fields) (.object others) = true ↔
      stableStringify lang (.object fields) = stableStringify lang (.object others) := by
  obtain ⟨hFields, hProto, hPlain⟩ := Value.plain_object_iff.mp hv
  obtain ⟨hOthers, -, hPlain'⟩ := Value.plain_object_iff.mp hw
  rw [text_object_eq_iff hFields hOthers, deepEqual, Bool.and_eq_true, beq_iff_eq,
    deepEqualFields_iff]
  constructor
  · rintro ⟨hLength, hEqual⟩ key
    have hFound : ∀ f ∈ fields, ∃ w, others.lookup f.1 = some w ∧
        stableStringify lang f.2 = stableStringify lang w := by
      intro f hf
      have hKey : f.1 ≠ "__proto__" := fun hEq => hProto (hEq ▸ List.mem_map_of_mem hf)
      obtain ⟨w, hw⟩ := mem_keys_of_deepEqual (hPlain f hf) hKey (hEqual f hf)
      have hAt := hEqual f hf
      rw [member_of_lookup hw] at hAt
      exact ⟨w, hw, (ih f hf w (hPlain' (f.1, w) (mem_of_lookup hw))).mp hAt⟩
    have hSub : ∀ key ∈ keys fields, key ∈ keys others := by
      intro key hMem
      obtain ⟨f, hf, rfl⟩ := List.mem_map.mp hMem
      obtain ⟨w, hw, -⟩ := hFound f hf
      exact List.mem_map.mpr ⟨(f.1, w), mem_of_lookup hw, rfl⟩
    cases hLookup : fields.lookup key with
    | none =>
      have hNot := mt (keys_mem_iff_of_length hFields hLength hSub key).mpr
        (lookup_eq_none_iff.mp hLookup)
      rw [lookup_eq_none_iff.mpr hNot]
    | some v =>
      obtain ⟨w, hw, hText⟩ := hFound (key, v) (mem_of_lookup hLookup)
      rw [hw, Option.map_some, Option.map_some, hText]
  · intro hText
    have hKeys : ∀ key, key ∈ keys fields ↔ key ∈ keys others := by
      intro key
      rw [← not_iff_not, ← lookup_eq_none_iff, ← lookup_eq_none_iff]
      have hAt := hText key
      constructor
      · intro hNone
        rw [hNone, Option.map_none, eq_comm, Option.map_eq_none_iff] at hAt
        exact hAt
      · intro hNone
        rw [hNone, Option.map_none, Option.map_eq_none_iff] at hAt
        exact hAt
    refine ⟨length_eq_of_keys hFields hOthers hKeys, fun f hf => ?_⟩
    have hAt := hText f.1
    rw [(lookup_eq_some_iff hFields).mpr hf, Option.map_some, eq_comm,
      Option.map_eq_some_iff] at hAt
    obtain ⟨w, hw, hEq⟩ := hAt
    rw [member_of_lookup hw]
    exact (ih f hf w (hPlain' (f.1, w) (mem_of_lookup hw))).mpr hEq.symm

end Objects

variable (lang) in
/-- Plain values are deeply equal exactly when they have one text. -/
theorem deepEqual_iff_text (v w : Value) (hv : v.Plain) (hw : w.Plain) :
    deepEqual v w = true ↔ stableStringify lang v = stableStringify lang w := by
  have hBelow : ∀ x u, sizeOf x < sizeOf v → x.Plain → u.Plain →
      (deepEqual x u = true ↔ stableStringify lang x = stableStringify lang u) :=
    fun x u _ hx hu => deepEqual_iff_text x u hx hu
  by_cases hKind : kind v = kind w
  · cases v with
    | undefined => exact hv.elim
    | null =>
      cases w with
      | undefined => exact hw.elim
      | null => exact ⟨fun _ => rfl, fun _ => rfl⟩
      | bool b => cases b <;> cases hKind
      | _ => cases hKind
    | bool a =>
      cases w with
      | undefined => exact hw.elim
      | bool b =>
        cases a <;> cases b <;> first | exact ⟨fun _ => rfl, fun _ => rfl⟩ | cases hKind
      | _ => cases a <;> cases hKind
    | number m =>
      obtain ⟨n, rfl⟩ : ∃ n, w = .number n := by
        cases w with
        | undefined => exact hw.elim
        | number n => exact ⟨n, rfl⟩
        | bool b => cases b <;> cases hKind
        | _ => cases hKind
      rw [deepEqual, beq_iff_eq, stableStringify, stableStringify]
      exact lang.numberText_injective.eq_iff.symm
    | string k =>
      obtain ⟨l, rfl⟩ : ∃ l, w = .string l := by
        cases w with
        | undefined => exact hw.elim
        | string l => exact ⟨l, rfl⟩
        | bool b => cases b <;> cases hKind
        | _ => cases hKind
      rw [deepEqual, beq_iff_eq, stableStringify, stableStringify]
      refine ⟨congrArg quote, fun h => ?_⟩
      exact (@quote_unique k l [] [] (by rw [h])).1
    | array items =>
      obtain ⟨others, rfl⟩ : ∃ others, w = .array others := by
        cases w with
        | undefined => exact hw.elim
        | array others => exact ⟨others, rfl⟩
        | bool b => cases b <;> cases hKind
        | _ => cases hKind
      have hItem : ∀ x ∈ items, ∀ y ∈ others,
          (deepEqual x y = true ↔ stableStringify lang x = stableStringify lang y) := by
        intro x hx y hy
        refine hBelow x y ?_ (Value.plain_array_iff.mp hv x hx) (Value.plain_array_iff.mp hw y hy)
        have := List.sizeOf_lt_of_mem hx
        simp only [Value.array.sizeOf_spec]
        omega
      rw [deepEqual, Bool.and_eq_true, beq_iff_eq, text_array_eq_iff]
      constructor
      · rintro ⟨hLength, hItems⟩
        exact (deepEqualItems_iff hLength hItem).mp hItems
      · intro hText
        have hLength : items.length = others.length := by simpa using congrArg List.length hText
        exact ⟨hLength, (deepEqualItems_iff hLength hItem).mpr hText⟩
    | object fields =>
      obtain ⟨others, rfl⟩ : ∃ others, w = .object others := by
        cases w with
        | undefined => exact hw.elim
        | object others => exact ⟨others, rfl⟩
        | bool b => cases b <;> cases hKind
        | _ => cases hKind
      refine deepEqual_object_iff hv hw fun f hf u hu => ?_
      refine hBelow f.2 u ?_ ((Value.plain_object_iff.mp hv).2.2 f hf) hu
      have := List.sizeOf_lt_of_mem hf
      have hPair : sizeOf f.2 < sizeOf f := by
        cases f
        simp only [Prod.mk.sizeOf_spec]
        omega
      simp only [Value.object.sizeOf_spec]
      omega
  · rw [deepEqual_of_kind_ne hv hw hKind]
    exact ⟨by rintro ⟨⟩, fun h => absurd (kind_eq_of_text_eq lang h) hKind⟩
termination_by v

/-! ## Buckets and canonicals -/

theorem deepEqual_valuation (a b : Option AfterblowValuation) :
    deepEqual (orNull AfterblowValuation.value a) (orNull AfterblowValuation.value b) =
      decide (a = b) := by
  rcases a with _ | _ | _ <;> rcases b with _ | _ | _ <;> rfl

theorem deepEqual_number (a b : Option ℚ) :
    deepEqual (orNull .number a) (orNull .number b) = decide (a = b) := by
  cases a <;> cases b <;> simp [deepEqual, orNull, beq_eq_decide]

theorem deepEqual_mode (mode : Option String) :
    deepEqual (orNull .string mode) (orNull .string mode) = true := by
  cases mode <;> simp [deepEqual, orNull]

theorem plain_orNull {α : Type} (toValue : α → Value) (h : ∀ a, (toValue a).Plain) (a : Option α) :
    (orNull toValue a).Plain := by
  cases a with
  | none => trivial
  | some a => exact h a

theorem plain_targetsValue (targets : Option (List Target)) : (targetsValue targets).Plain := by
  refine plain_orNull _ (fun list => Value.plain_array_iff.mpr ?_) targets
  rw [List.forall_mem_map]
  intro target _
  simp [Target.toValue, Value.Plain, Value.PlainFields, keys]

theorem plain_canonicalizeGrammar (grammar : ScoringGrammarInput) :
    (canonicalizeGrammar lang grammar).Plain := by
  have hValuation : (orNull AfterblowValuation.value grammar.afterblowValuation).Plain :=
    plain_orNull _ (fun a => by cases a <;> trivial) grammar.afterblowValuation
  have hFixed : (orNull .number grammar.afterblowFixedValue).Plain :=
    plain_orNull Value.number (fun _ => trivial) grammar.afterblowFixedValue
  simp [canonicalizeGrammar, Value.Plain, Value.PlainFields, keys, plain_targetsValue, hValuation,
    hFixed]

theorem plain_canonical {input : CodedScoringBehaviour} {canonical : Fields}
    (h : canonicalizeScoringBehaviour lang (.coded input) = some canonical) :
    (Value.object canonical).Plain := by
  obtain ⟨matchFormat, hFormat, rfl⟩ := Option.map_eq_some_iff.mp h
  have hPlain := plain_normalizeMatchFormatConfig hFormat
  have hMode : (orNull .string input.afterblowMode).Plain :=
    plain_orNull Value.string (fun _ => trivial) input.afterblowMode
  have hBonus : (orNull .number input.winBonus).Plain :=
    plain_orNull Value.number (fun _ => trivial) input.winBonus
  have hPenalty : (orNull Subtype.val input.doublePenaltyFormula).Plain :=
    plain_orNull Subtype.val Subtype.property input.doublePenaltyFormula
  simp [Value.Plain, Value.PlainFields, keys, plain_canonicalizeGrammar, hPlain, hMode, hBonus,
    hPenalty]

theorem statusOf_eq_unchanged (equal : Bool) : statusOf equal = .unchanged ↔ equal = true := by
  cases equal <;> decide

/-- Under one engine and one afterblow mode, no bucket of two coded rulesets differs exactly when
their scoring canonicals have one text. -/
theorem buckets_unchanged_iff (base fork : RulesetBucketRow) (engineCode engineVersion : String)
    (afterblowMode : Option String) {canonical canonical' : Fields}
    (hBase : canonicalizeScoringBehaviour lang
      (.coded (base.behaviour engineCode engineVersion afterblowMode)) = some canonical)
    (hFork : canonicalizeScoringBehaviour lang
      (.coded (fork.behaviour engineCode engineVersion afterblowMode)) = some canonical') :
    let diff := diffRulesetBuckets lang (projectRulesetBuckets base) (projectRulesetBuckets fork)
    (diff.grammar = .unchanged ∧ diff.endConditions = .unchanged ∧ diff.ranking = .unchanged) ↔
      stableStringify lang (.object canonical) = stableStringify lang (.object canonical') := by
  rw [← deepEqual_iff_text lang _ _ (plain_canonical hBase) (plain_canonical hFork)]
  obtain ⟨format, hFormat, rfl⟩ := Option.map_eq_some_iff.mp hBase
  obtain ⟨format', hFormat', rfl⟩ := Option.map_eq_some_iff.mp hFork
  have hEnd : normalizeEndConditions base.tf.matchFormat = format := by
    rw [normalizeEndConditions, show formatOf base.tf.matchFormat = some format from hFormat]
    rfl
  have hEnd' : normalizeEndConditions fork.tf.matchFormat = format' := by
    rw [normalizeEndConditions, show formatOf fork.tf.matchFormat = some format' from hFormat']
    rfl
  simp only [diffRulesetBuckets, projectRulesetBuckets, statusOf_eq_unchanged, hEnd, hEnd']
  simp [deepEqual, deepEqualFields, member, lookup_cons, canonicalizeGrammar, RulesetBucketRow.behaviour,
    deepEqual_valuation, deepEqual_number, deepEqual_mode, and_assoc]

/-- A ruleset that sets only its match format. -/
def rowWith (matchFormat : Fields) : RulesetBucketRow :=
  ⟨none, some true, some .fixed, some 1, some ⟨none, some (.object matchFormat), none⟩⟩

/-- The legacy name of the point cap and the modern one. -/
theorem buckets_unchanged_iff_pointCap :
    ∃ canonical canonical', canonicalizeScoringBehaviour Language.plain
        (.coded ((rowWith [("firstToPoints", .number 5)]).behaviour "TF_v1" "1.1.0" none)) =
          some canonical ∧
      canonicalizeScoringBehaviour Language.plain
        (.coded ((rowWith [("pointCap", .number 5)]).behaviour "TF_v1" "1.1.0" none)) =
          some canonical' ∧
      stableStringify Language.plain (.object canonical) =
        stableStringify Language.plain (.object canonical') := by
  refine ⟨_, _, rfl, rfl, (buckets_unchanged_iff (rowWith [("firstToPoints", .number 5)])
    (rowWith [("pointCap", .number 5)]) "TF_v1" "1.1.0" none rfl rfl).mp ?_⟩
  decide +kernel

end MyClash.Rules
