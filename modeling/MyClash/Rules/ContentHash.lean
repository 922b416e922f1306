import MyClash.Library.JsonText
import MyClash.MatchFormat.Normalize

/-!
# The scoring canonical

What a content hash fingerprints: the object an effective scoring behaviour projects to, as a
stable text.
-/

namespace MyClash.Rules

open Json MatchFormat

structure Target where
  name : String
  value : ℚ
  deriving DecidableEq

inductive AfterblowValuation where
  | fixed
  | weighted
  deriving DecidableEq

def AfterblowValuation.value : AfterblowValuation → Value
  | .fixed => .string "fixed"
  | .weighted => .string "weighted"

structure ScoringGrammarInput where
  targets : Option (List Target)
  hasAfterblow : Bool
  afterblowValuation : Option AfterblowValuation
  afterblowFixedValue : Option ℚ

/-- A value of a stored rule, as JSON holds it. -/
abbrev PlainValue := { v : Value // v.Plain }

structure CodedScoringBehaviour where
  engineCode : String
  engineVersion : String
  grammar : ScoringGrammarInput
  matchFormat : Option Value
  afterblowMode : Option String
  winBonus : Option ℚ
  doublePenaltyFormula : Option PlainValue

inductive Direction where
  | asc
  | desc

def Direction.value : Direction → Value
  | .asc => .string "asc"
  | .desc => .string "desc"

structure FormulaScoringBehaviour where
  grammar : ScoringGrammarInput
  matchFormat : Option Value
  afterblowMode : Option String
  scoreFormula : Option PlainValue
  constants : List (String × ℚ)
  tiebreakers : List (String × Direction)
  doublePenaltyFormula : Option PlainValue
  decisionEdition : Option String

inductive ScoringBehaviourInput where
  | coded (behaviour : CodedScoringBehaviour)
  | formula (behaviour : FormulaScoringBehaviour)

/-- `value ?? null` -/
def orNull {α : Type} (toValue : α → Value) : Option α → Value
  | none => .null
  | some a => toValue a

def Target.toValue (target : Target) : Value :=
  .object [("name", .string target.name), ("value", .number target.value)]

def targetsValue (targets : Option (List Target)) : Value :=
  orNull (fun list => .array (list.map Target.toValue)) targets

variable (lang : Language)

/-- The targets by name, those of one name in the order they are stored. -/
def sortedTargets (targets : Option (List Target)) : Option (List Target) :=
  targets.map fun list => list.mergeSort fun a b => lang.keyLe a.name b.name

def canonicalizeGrammar (grammar : ScoringGrammarInput) : Value :=
  .object [
    ("targets", targetsValue (sortedTargets lang grammar.targets)),
    ("hasAfterblow", .bool grammar.hasAfterblow),
    ("afterblowValuation", orNull AfterblowValuation.value grammar.afterblowValuation),
    ("afterblowFixedValue", orNull .number grammar.afterblowFixedValue)]

def formatOf (matchFormat : Option Value) : Option Value :=
  normalizeMatchFormatConfig (matchFormat.getD (.object []))

/-- None where the match format is out of domain. -/
def canonicalizeScoringBehaviour : ScoringBehaviourInput → Option Fields
  | .coded input =>
    (formatOf input.matchFormat).map fun matchFormat => [
      ("kind", .string "coded"),
      ("engine", .string (input.engineCode ++ "@" ++ input.engineVersion)),
      ("grammar", canonicalizeGrammar lang input.grammar),
      ("matchFormat", matchFormat),
      ("afterblowMode", orNull .string input.afterblowMode),
      ("winBonus", orNull .number input.winBonus),
      ("doublePenaltyFormula", orNull Subtype.val input.doublePenaltyFormula)]
  | .formula input =>
    (formatOf input.matchFormat).map fun matchFormat => [
      ("kind", .string "formula"),
      ("grammar", canonicalizeGrammar lang input.grammar),
      ("matchFormat", matchFormat),
      ("afterblowMode", orNull .string input.afterblowMode),
      ("scoreFormula", orNull Subtype.val input.scoreFormula),
      ("constants", .object (input.constants.map fun c => (c.1, .number c.2))),
      ("tiebreakers", .array (input.tiebreakers.map fun tie =>
        .object [("variable", .string tie.1), ("direction", tie.2.value)])),
      ("doublePenaltyFormula", orNull Subtype.val input.doublePenaltyFormula),
      ("decisionEdition", orNull .string input.decisionEdition)]

end MyClash.Rules
