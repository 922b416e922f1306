import MyClash.Library.JsonPlain
import MyClash.Library.KeySort
import MyClash.Rules.ContentHash

/-!
# The order of targets and of penalty entries

Both lists are sorted before they are serialised. A penalty entry's reference is unique in its
ruleset; a target's name is not, and targets of one name stay in the order they are stored.
-/

namespace MyClash.Rules

open Json KeySort

variable (lang : Language)

theorem linearTest_keyLe : LinearTest lang.keyLe where
  total := lang.keyLe_total
  trans := lang.keyLe_trans
  antisymm := lang.keyLe_antisymm

/-! ## Targets -/

/-- `MAX_TARGETS` and `MAX_STORED_TARGET_VALUE`. -/
def MAX_TARGETS : ℕ := 8

def MAX_STORED_TARGET_VALUE : ℚ := 99

/-- What `TargetsSchema` lets through, once the names are trimmed. -/
def targetsAccepted (targets : List Target) : Bool :=
  decide (1 ≤ targets.length ∧ targets.length ≤ MAX_TARGETS) &&
    targets.all fun target =>
      decide (1 ≤ target.name.length ∧ target.name.length ≤ 40 ∧ target.value.den = 1 ∧
        1 ≤ target.value ∧ target.value ≤ MAX_STORED_TARGET_VALUE)

def ScoringBehaviourInput.matchFormat : ScoringBehaviourInput → Option Value
  | .coded input => input.matchFormat
  | .formula input => input.matchFormat

/-- The same behaviour with another list of targets. -/
def ScoringBehaviourInput.withTargets (targets : List Target) :
    ScoringBehaviourInput → ScoringBehaviourInput
  | .coded input => .coded { input with grammar := { input.grammar with targets := some targets } }
  | .formula input =>
    .formula { input with grammar := { input.grammar with targets := some targets } }

/-- What the scoring half of a content hash is taken of. -/
def scoringText (input : ScoringBehaviourInput) : Option (List Char) :=
  (canonicalizeScoringBehaviour lang input).map fun fields => stableStringify lang (.object fields)

variable {lang}

theorem targetText_injective : Function.Injective fun t : Target =>
    stableStringify lang t.toValue := by
  intro s t h
  have hRead := (text_object_eq_iff (by simp [keys]) (by simp [keys])).mp h
  have hName := Option.some.inj (hRead "name")
  have hValue := Option.some.inj (hRead "value")
  have hName := (quote_unique (congrArg (· ++ ([] : List Char)) hName)).1
  have hValue := lang.numberText_injective hValue
  cases s
  cases t
  exact congr (congrArg Target.mk hName) hValue

theorem targetsText_eq_iff {targets others : List Target} :
    stableStringify lang (targetsValue (some targets)) =
      stableStringify lang (targetsValue (some others)) ↔ targets = others := by
  rw [targetsValue, targetsValue, orNull, orNull, text_array_eq_iff, List.map_map, List.map_map]
  exact (List.map_injective_iff.mpr targetText_injective).eq_iff

theorem grammarText_eq {grammar : ScoringGrammarInput} {targets others : List Target}
    (h : stableStringify lang (canonicalizeGrammar lang { grammar with targets := some targets }) =
      stableStringify lang (canonicalizeGrammar lang { grammar with targets := some others })) :
    sortedTargets lang (some targets) = sortedTargets lang (some others) := by
  have hRead := (text_object_eq_iff (by simp [keys]) (by simp [keys])).mp h "targets"
  exact congrArg some (targetsText_eq_iff.mp (Option.some.inj hRead))

theorem sortedTargets_of_scoringText {input : ScoringBehaviourInput} {targets others : List Target}
    (hFormat : (formatOf input.matchFormat).isSome)
    (h : scoringText lang (input.withTargets targets) =
      scoringText lang (input.withTargets others)) :
    sortedTargets lang (some targets) = sortedTargets lang (some others) := by
  obtain ⟨matchFormat, hFormat⟩ := Option.isSome_iff_exists.mp hFormat
  cases input with
  | coded input =>
    change formatOf input.matchFormat = some matchFormat at hFormat
    simp only [scoringText, ScoringBehaviourInput.withTargets, canonicalizeScoringBehaviour,
      hFormat, Option.map_some] at h
    have hRead := (text_object_eq_iff (by simp [keys]) (by simp [keys])).mp (Option.some.inj h)
      "grammar"
    exact grammarText_eq (Option.some.inj hRead)
  | formula input =>
    change formatOf input.matchFormat = some matchFormat at hFormat
    simp only [scoringText, ScoringBehaviourInput.withTargets, canonicalizeScoringBehaviour,
      hFormat, Option.map_some] at h
    have hRead := (text_object_eq_iff (by simp [keys]) (by simp [keys])).mp (Option.some.inj h)
      "grammar"
    exact grammarText_eq (Option.some.inj hRead)

theorem scoringText_of_sortedTargets {input : ScoringBehaviourInput} {targets others : List Target}
    (h : sortedTargets lang (some targets) = sortedTargets lang (some others)) :
    scoringText lang (input.withTargets targets) = scoringText lang (input.withTargets others) := by
  cases input with
  | coded input =>
    simp only [scoringText, ScoringBehaviourInput.withTargets, canonicalizeScoringBehaviour,
      canonicalizeGrammar, h]
  | formula input =>
    simp only [scoringText, ScoringBehaviourInput.withTargets, canonicalizeScoringBehaviour,
      canonicalizeGrammar, h]

/-- Two targets of one name tell the order they are stored in, unless they are the same. -/
theorem scoringText_forgets_order_iff (input : ScoringBehaviourInput)
    (hFormat : (formatOf input.matchFormat).isSome) (targets : List Target) :
    (∀ others : List Target, others.Perm targets →
      scoringText lang (input.withTargets others) =
        scoringText lang (input.withTargets targets)) ↔
      ∀ a ∈ targets, ∀ b ∈ targets, a.name = b.name → a = b := by
  rw [← mergeSort_forgets_order_iff (linearTest_keyLe lang) targets]
  refine forall₂_congr fun others _ => ?_
  constructor
  · exact fun h => Option.some.inj (sortedTargets_of_scoringText hFormat h)
  · exact fun h => scoringText_of_sortedTargets (congrArg some h)

/-! ## Penalty entries -/

structure PenaltyBehaviourEntry where
  groupNumber : ℤ
  refNumber : String
  sanctions : List String
  deriving DecidableEq

/-- A reference stands once in a ruleset. -/
structure PenaltyBehaviourInput where
  accumulationScope : String
  yellowCardPoints : ℚ
  redCardPoints : ℚ
  blackCardPoints : ℚ
  firstBlackCardForfeit : String
  secondBlackCardForfeit : String
  forfeitRules : Option PlainValue
  entries : List PenaltyBehaviourEntry
  ref_key : (entries.map (·.refNumber)).Nodup

def PenaltyBehaviourEntry.toValue (entry : PenaltyBehaviourEntry) : Value :=
  .object [
    ("groupNumber", .number entry.groupNumber),
    ("refNumber", .string entry.refNumber),
    ("sanctions", .array (entry.sanctions.map .string))]

def PenaltyBehaviourEntry.key (entry : PenaltyBehaviourEntry) : ℤ × String :=
  (entry.groupNumber, entry.refNumber)

variable (lang) in
/-- By the group, then by the reference. -/
def entryKeyLe (a b : ℤ × String) : Bool :=
  if a.1 = b.1 then lang.keyLe a.2 b.2 else decide (a.1 < b.1)

variable (lang) in
def canonicalizePenaltyDefinition (input : PenaltyBehaviourInput) : Fields :=
  let entries := input.entries.mergeSort fun a b => entryKeyLe lang a.key b.key
  [("accumulationScope", .string input.accumulationScope),
    ("cardPoints", .object [
      ("yellow", .number input.yellowCardPoints),
      ("red", .number input.redCardPoints),
      ("black", .number input.blackCardPoints)]),
    ("blackCardForfeit", .object [
      ("first", .string input.firstBlackCardForfeit),
      ("second", .string input.secondBlackCardForfeit)]),
    ("forfeitRules", orNull Subtype.val input.forfeitRules),
    ("entries", .array (entries.map PenaltyBehaviourEntry.toValue))]

variable (lang) in
def penaltyText (input : PenaltyBehaviourInput) : List Char :=
  stableStringify lang (.object (canonicalizePenaltyDefinition lang input))

/-- The same definition with its entries in another order. -/
def PenaltyBehaviourInput.reordered (input : PenaltyBehaviourInput)
    (entries : List PenaltyBehaviourEntry) (h : entries.Perm input.entries) :
    PenaltyBehaviourInput :=
  { input with
    entries
    ref_key := (h.map _).nodup_iff.mpr input.ref_key }

variable (lang) in
theorem linearTest_entryKeyLe : LinearTest (entryKeyLe lang) where
  total a b := by
    rw [entryKeyLe, entryKeyLe]
    by_cases h : a.1 = b.1
    · rw [if_pos h, if_pos h.symm]
      exact lang.keyLe_total a.2 b.2
    · rw [if_neg h, if_neg (Ne.symm h)]
      simpa using lt_or_gt_of_ne h
  trans a b c hab hbc := by
    rw [entryKeyLe] at hab hbc ⊢
    split_ifs at hab hbc ⊢ with h1 h2 h3 h3 h2 h3 h3
    · exact lang.keyLe_trans a.2 b.2 c.2 hab hbc
    all_goals simp only [decide_eq_true_eq] at *
    all_goals omega
  antisymm a b hab hba := by
    rw [entryKeyLe] at hab hba
    by_cases h : a.1 = b.1
    · rw [if_pos h] at hab
      rw [if_pos h.symm] at hba
      exact Prod.ext h (lang.keyLe_antisymm a.2 b.2 hab hba)
    · rw [if_neg h] at hab
      rw [if_neg (Ne.symm h)] at hba
      exact absurd (of_decide_eq_true hab) (of_decide_eq_true hba).asymm

theorem penaltyText_forgets_order (input : PenaltyBehaviourInput)
    (entries : List PenaltyBehaviourEntry) (h : entries.Perm input.entries) :
    penaltyText lang (input.reordered entries h) = penaltyText lang input := by
  have hSeparates : ∀ a ∈ input.entries, ∀ b ∈ input.entries, a.key = b.key → a = b := by
    intro a ha b hb hKey
    exact List.inj_on_of_nodup_map input.ref_key ha hb (Prod.mk.inj hKey).2
  have hSorted := (mergeSort_forgets_order_iff (linearTest_entryKeyLe lang) input.entries).mpr
    hSeparates entries h
  simp only [penaltyText, canonicalizePenaltyDefinition, PenaltyBehaviourInput.reordered, hSorted]

/-! ## Both halves of a content hash -/

/-- No order of the entries shows, and none of the targets unless two of one name differ. -/
theorem contentTexts_forget_order (lang : Language) (input : ScoringBehaviourInput)
    (hFormat : (formatOf input.matchFormat).isSome) (targets : List Target)
    (penalties : PenaltyBehaviourInput) :
    ((∀ others : List Target, others.Perm targets →
        scoringText lang (input.withTargets others) =
          scoringText lang (input.withTargets targets)) ↔
      ∀ a ∈ targets, ∀ b ∈ targets, a.name = b.name → a.value = b.value) ∧
    ∀ entries (h : entries.Perm penalties.entries),
      penaltyText lang (penalties.reordered entries h) = penaltyText lang penalties := by
  refine ⟨(scoringText_forgets_order_iff input hFormat targets).trans ?_,
    penaltyText_forgets_order penalties⟩
  refine forall₄_congr fun a _ b _ => ?_
  constructor
  · exact fun h hName => congrArg Target.value (h hName)
  · intro h hName
    have hValue := h hName
    cases a
    cases b
    exact congr (congrArg Target.mk hName) hValue

/-- A coded behaviour with nothing set but its targets. -/
def bareBehaviour : ScoringBehaviourInput :=
  .coded ⟨"TF_v1", "1", ⟨none, true, none, none⟩, none, none, none, none⟩

def shallowAndDeep : List Target := [⟨"Shallow", 1⟩, ⟨"Deep", 2⟩]

def twoEntries : PenaltyBehaviourInput where
  accumulationScope := "tournament"
  yellowCardPoints := 0
  redCardPoints := 1
  blackCardPoints := 0
  firstBlackCardForfeit := "match"
  secondBlackCardForfeit := "tournament"
  forfeitRules := none
  entries := [⟨2, "2.1", ["red", "black"]⟩, ⟨1, "1.4", ["yellow", "red"]⟩]
  ref_key := by decide

theorem contentTexts_forget_order_bare :
    ((∀ others : List Target, others.Perm shallowAndDeep →
        scoringText Language.plain (bareBehaviour.withTargets others) =
          scoringText Language.plain (bareBehaviour.withTargets shallowAndDeep)) ↔
      ∀ a ∈ shallowAndDeep, ∀ b ∈ shallowAndDeep, a.name = b.name → a.value = b.value) ∧
    ∀ entries (h : entries.Perm twoEntries.entries),
      penaltyText Language.plain (twoEntries.reordered entries h) =
        penaltyText Language.plain twoEntries :=
  contentTexts_forget_order Language.plain bareBehaviour (by decide) _ twoEntries

/-- Two accepted lists of the same targets, and two texts. -/
theorem scoringText_sees_order :
    targetsAccepted [⟨"Deep", 1⟩, ⟨"Deep", 2⟩] = true ∧
    List.Perm [(⟨"Deep", 2⟩ : Target), ⟨"Deep", 1⟩] [⟨"Deep", 1⟩, ⟨"Deep", 2⟩] ∧
    ∀ lang : Language, scoringText lang (bareBehaviour.withTargets [⟨"Deep", 2⟩, ⟨"Deep", 1⟩]) ≠
      scoringText lang (bareBehaviour.withTargets [⟨"Deep", 1⟩, ⟨"Deep", 2⟩]) := by
  refine ⟨by decide, List.Perm.swap _ _ _, fun lang h => ?_⟩
  have hSorted := Option.some.inj (sortedTargets_of_scoringText (by decide) h)
  have hKept := congrArg (List.filter fun t : Target => t.name = "Deep") hSorted
  rw [filter_key_mergeSort (linearTest_keyLe lang), filter_key_mergeSort (linearTest_keyLe lang)]
    at hKept
  revert hKept
  decide

end MyClash.Rules
