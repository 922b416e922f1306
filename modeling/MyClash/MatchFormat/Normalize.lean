import MyClash.Library.JsonSchema

/-!
# Match formats as stored

The schema a stored match format is read by, and the one normalizer of the scorer, the content
hash and the lineage lamps.
-/

namespace MyClash.MatchFormat

open Json

def scoringDirectionSchema : Parser := .oneOf ["normal", "reverse_zero_loses"]

def timerModeSchema : Parser := .oneOf ["countdown", "countup"]

def maxDoubleHitOutcomeSchema : Parser :=
  .oneOf ["double_loss_zero_scores", "draw_zero_scores", "result_stands"]

/-- An odd integer from 1. -/
def bestOfValueSchema : Parser := .intThat fun n => decide (1 ≤ n ∧ n % 2 = 1)

def positive : Parser := .intThat fun n => decide (0 < n)

def levelStepSchema : Parser := .byField "kind" [
  ("draw", .object [("kind", .required (.oneOf ["draw"]))] (by decide) (by decide)),
  ("sudden_death", .object [("kind", .required (.oneOf ["sudden_death"]))] (by decide) (by decide)),
  ("extra_time", .object [
    ("kind", .required (.oneOf ["extra_time"])),
    ("seconds", .required (.intThat fun n => decide (1 ≤ n ∧ n ≤ 3600)))] (by decide) (by decide))]

def kindOfStep : Value → Option Value
  | .object fields => readField fields "kind"
  | _ => none

/-- At least one step, and the last is terminal. -/
def isChain : Value → Bool
  | .array items =>
    match items.getLast? with
    | none => false
    | some step =>
      match kindOfStep step with
      | some (.string kind) => kind != "extra_time"
      | _ => true
  | _ => false

def levelChainSchema : Parser := (Parser.arrayOf levelStepSchema).refine isChain

def drawStep : Value := .object [("kind", .string "draw")]

def suddenDeathStep : Value := .object [("kind", .string "sudden_death")]

def extraTimeStep (seconds : ℚ) : Value :=
  .object [("kind", .string "extra_time"), ("seconds", .number seconds)]

def poolChain : Value := .array [drawStep]

def bracketChain : Value := .array [extraTimeStep 60, suddenDeathStep]

def defaultLevelAtTime : Value :=
  .object [("pool", poolChain), ("bracket", bracketChain), ("finals", bracketChain)]

def defaultBestOf : Value := .object [("pool", .number 1), ("bracket", .number 1), ("finals", .number 1)]

def defaultTimeLimits : Value :=
  .object [("pool", .number 90), ("bracket", .number 90), ("finals", .number 90)]

theorem plain_poolChain : poolChain.Plain := by
  simp [poolChain, drawStep, Value.Plain, Value.PlainItems, Value.PlainFields, keys]

theorem plain_bracketChain : bracketChain.Plain := by
  simp [bracketChain, extraTimeStep, suddenDeathStep, Value.Plain, Value.PlainItems,
    Value.PlainFields, keys]

theorem plain_defaultLevelAtTime : defaultLevelAtTime.Plain := by
  simp [defaultLevelAtTime, Value.Plain, Value.PlainFields, keys, plain_poolChain,
    plain_bracketChain]

theorem plain_defaultBestOf : defaultBestOf.Plain := by
  simp [defaultBestOf, Value.Plain, Value.PlainFields, keys]

theorem plain_defaultTimeLimits : defaultTimeLimits.Plain := by
  simp [defaultTimeLimits, Value.Plain, Value.PlainFields, keys]

def levelAtTimeConfigSchema : Schema :=
  .withDefault
    (.object [
      ("pool", .withDefault levelChainSchema poolChain plain_poolChain),
      ("swiss", .optional levelChainSchema),
      ("bracket", .withDefault levelChainSchema bracketChain plain_bracketChain),
      ("finals", .withDefault levelChainSchema bracketChain plain_bracketChain)]
      (by decide) (by decide))
    defaultLevelAtTime plain_defaultLevelAtTime

def bestOfConfigSchema : Schema :=
  .withDefault
    (.object [
      ("pool", .withDefault bestOfValueSchema (.number 1) trivial),
      ("swiss", .optional bestOfValueSchema),
      ("bracket", .withDefault bestOfValueSchema (.number 1) trivial),
      ("finals", .withDefault bestOfValueSchema (.number 1) trivial)]
      (by decide) (by decide))
    defaultBestOf plain_defaultBestOf

/-- The Swiss limit is optional: a default would hide that Swiss falls back to the pool's. -/
def timeLimitsSchema : Schema :=
  .withDefault
    (.object [
      ("pool", .withDefault (.nullable positive) (.number 90) trivial),
      ("swiss", .optional (.nullable positive)),
      ("bracket", .withDefault (.nullable positive) (.number 90) trivial),
      ("finals", .withDefault (.nullable positive) (.number 90) trivial)]
      (by decide) (by decide))
    defaultTimeLimits plain_defaultTimeLimits

def matchFormatConfigSchema : Parser :=
  .object [
    ("pointCap", .withDefault positive (.number 10) trivial),
    ("scoringDirection", .withDefault scoringDirectionSchema (.string "normal") trivial),
    ("timerMode", .withDefault timerModeSchema (.string "countdown") trivial),
    ("timeLimitsSeconds", timeLimitsSchema),
    ("softClockLimitSeconds",
      .withDefault (.intThat fun n => decide (0 ≤ n)) (.number 5) trivial),
    ("maxDoubleHits", .withDefault (.nullable positive) (.number 4) trivial),
    ("maxDoubleHitOutcome",
      .withDefault maxDoubleHitOutcomeSchema (.string "double_loss_zero_scores") trivial),
    ("bestOf", bestOfConfigSchema),
    ("levelAtTime", levelAtTimeConfigSchema)]
    (by decide) (by decide)

/-- `DEFAULT_MATCH_FORMAT_CONFIG` -/
def defaultMatchFormatConfig : Value :=
  .object [
    ("pointCap", .number 10),
    ("scoringDirection", .string "normal"),
    ("timerMode", .string "countdown"),
    ("timeLimitsSeconds", defaultTimeLimits),
    ("softClockLimitSeconds", .number 5),
    ("maxDoubleHits", .number 4),
    ("maxDoubleHitOutcome", .string "double_loss_zero_scores"),
    ("bestOf", defaultBestOf),
    ("levelAtTime", defaultLevelAtTime)]

theorem plain_defaultMatchFormatConfig : defaultMatchFormatConfig.Plain := by
  simp [defaultMatchFormatConfig, Value.Plain, Value.PlainFields, keys, plain_defaultTimeLimits,
    plain_defaultBestOf, plain_defaultLevelAtTime]

/-- The keys of the shared shape: a format that holds one is read by the schema. -/
def sharedKeys : List String := [
  "pointCap", "scoringDirection", "timerMode", "timeLimitsSeconds", "softClockLimitSeconds",
  "maxDoubleHits", "bestOf", "levelAtTime", "maxDoubleHitOutcome"]

def isNumber : Option Value → Bool
  | some (.number _) => true
  | _ => false

def isNumberOrNull : Option Value → Bool
  | some (.number _) | some .null => true
  | _ => false

/-- One limit for the three phases of the legacy shape. -/
def sameLimits (limit : Value) : Value :=
  .object [("pool", limit), ("bracket", limit), ("finals", limit)]

/-- `{...parsed, [key]: value}` for a key the schema always writes. -/
def replaceField (key : String) (value : Value) (fields : Fields) : Fields :=
  fields.map fun f => if f.1 = key then (key, value) else f

/-- A field of a stored format, a legacy alias first where it holds a number (or null). -/
def aliased (legacy : Option Value) (holds : Option Value → Bool) (value : Value) : Value :=
  match holds legacy, legacy with
  | true, some v => v
  | _, _ => value

/-- What the legacy keys of a stored format make of the fields they stand for. -/
def withLegacy (raw parsed : Fields) : Fields :=
  let pointCap := (readField parsed "pointCap").getD .undefined
  let timeLimits := (readField parsed "timeLimitsSeconds").getD .undefined
  let maxDoubleHits := (readField parsed "maxDoubleHits").getD .undefined
  let legacyLimit := readField raw "timeLimitSeconds"
  replaceField "pointCap" (aliased (readField raw "firstToPoints") isNumber pointCap)
    (replaceField "timeLimitsSeconds"
      (aliased (legacyLimit.map sameLimits) (fun _ => isNumberOrNull legacyLimit) timeLimits)
      (replaceField "maxDoubleHits"
        (aliased (readField raw "maxDoubles") isNumberOrNull maxDoubleHits) parsed))

/-- A format with no key of the shared shape: three legacy keys over the defaults. -/
def legacyFields (raw : Fields) : Fields := [
  ("pointCap", aliased (readField raw "firstToPoints") isNumber (.number 10)),
  ("timeLimitsSeconds",
    sameLimits (aliased (readField raw "timeLimitSeconds") isNumberOrNull (.number 90))),
  ("maxDoubleHits", aliased (readField raw "maxDoubles") isNumberOrNull (.number 4))]

/-- The format a stored value stands for; none where it is out of domain. -/
def normalizeMatchFormatConfig : Value → Option Value
  | .object raw =>
    if sharedKeys.any fun key => key ∈ keys raw then
      (matchFormatConfigSchema.parse (.object raw)).bind fun parsed =>
        match parsed with
        | .object fields => matchFormatConfigSchema.parse (.object (withLegacy raw fields))
        | _ => none
    else matchFormatConfigSchema.parse (.object (legacyFields raw))
  | .array _ => matchFormatConfigSchema.parse (.object (legacyFields []))
  | _ => some defaultMatchFormatConfig

theorem plain_normalizeMatchFormatConfig {stored format : Value}
    (h : normalizeMatchFormatConfig stored = some format) : format.Plain := by
  cases stored with
  | object raw =>
    rw [normalizeMatchFormatConfig] at h
    split at h
    · obtain ⟨parsed, -, hFormat⟩ := Option.bind_eq_some_iff.mp h
      cases parsed with
      | object fields => exact matchFormatConfigSchema.plain _ _ hFormat
      | _ => exact nomatch hFormat
    · exact matchFormatConfigSchema.plain _ _ h
  | array items => exact matchFormatConfigSchema.plain _ _ h
  | _ => exact Option.some.inj h ▸ plain_defaultMatchFormatConfig

/-- An empty format is the default one. -/
example : normalizeMatchFormatConfig (.object []) = some defaultMatchFormatConfig := by rfl

end MyClash.MatchFormat
