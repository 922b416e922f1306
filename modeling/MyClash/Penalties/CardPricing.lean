import MyClash.Penalties.RulesetVersions

/-!
# What a queued card is worth

Which card an offence earns, and the pricer the tablet drives over its queue.
-/

namespace MyClash.Penalties

inductive PenaltyCard where
  | yellow
  | red
  | black
  deriving DecidableEq

inductive PenaltySource where
  | ruleset
  | direct
  deriving DecidableEq

/-! ## The sanction -/

structure PenaltyRulesetEntry where
  groupNumber : ℤ
  refNumber : String
  shortName : String
  description : String
  sanctions : List PenaltyCard

/-- A penalty already recorded, as the count of a group's offences reads it. -/
structure ExistingPenaltyForSanction where
  registrationId : String
  groupNumber : Option ℤ
  card : PenaltyCard
  source : PenaltySource
  voided : Bool

structure PenaltySanctionResult where
  card : PenaltyCard
  groupOccurrence : ℕ
  scoreDelta : ℤ
  causesMatchForfeit : Bool

def penaltyScoreDelta (card : PenaltyCard) : ℤ := if card = .red then -1 else 0

def penaltyCausesMatchForfeit (card : PenaltyCard) : Bool := card == .black

def ExistingPenaltyForSanction.sameGroup (registrationId : String) (groupNumber : ℤ)
    (penalty : ExistingPenaltyForSanction) : Bool :=
  !penalty.voided && penalty.source == .ruleset && penalty.registrationId == registrationId &&
    penalty.groupNumber == some groupNumber

/-- The nth offence takes the nth sanction; the last one repeats. -/
def computePenaltySanction (entry : PenaltyRulesetEntry)
    (existingPenalties : List ExistingPenaltyForSanction) (registrationId : String) :
    Except String PenaltySanctionResult :=
  let groupOccurrence :=
    (existingPenalties.filter (·.sameGroup registrationId entry.groupNumber)).length + 1
  match entry.sanctions[min groupOccurrence entry.sanctions.length - 1]? with
  | some card =>
    .ok ⟨card, groupOccurrence, penaltyScoreDelta card, penaltyCausesMatchForfeit card⟩
  | none =>
    let refNumber := entry.refNumber
    .error s!"Penalty entry {refNumber} has no sanction for occurrence {groupOccurrence}"

def computeDirectPenaltySanction (card : PenaltyCard) : PenaltySanctionResult :=
  ⟨card, 0, penaltyScoreDelta card, penaltyCausesMatchForfeit card⟩

/-! ## The pad -/

/-- A catalogue row as the pad receives it. -/
structure CatalogueEntry where
  id : String
  group_number : ℤ
  ref_number : String
  short_name : String
  description : String
  sanctions : List PenaltyCard
  deriving DecidableEq

def CatalogueEntry.entry (row : CatalogueEntry) : PenaltyRulesetEntry :=
  ⟨row.group_number, row.ref_number, row.short_name, row.description, row.sanctions⟩

structure CardPoints where
  yellow_card_points : Option ℤ
  red_card_points : Option ℤ
  black_card_points : Option ℤ

structure PricingRuleset extends CardPoints where
  penalty_ruleset_entries : List CatalogueEntry

/-- What is read of a registration that was never read is nothing, and not no offence. -/
abbrev Priors := List (String × List ExistingPenaltyForSanction)

structure QueuedCardPricing where
  ruleset : Option PricingRuleset
  priors : Option Priors

structure QueuedCard where
  registrationId : String
  rulesetEntryId : Option String
  directCard : Option PenaltyCard

structure PricedCard where
  card : PenaltyCard
  scoreDelta : ℤ
  groupNumber : Option ℤ
  source : PenaltySource

def cardPoints (points : CardPoints) (card : PenaltyCard) : ℤ :=
  (match card with
    | .yellow => points.yellow_card_points
    | .red => points.red_card_points
    | .black => points.black_card_points).getD 0

def resolveEntryCard (entry : CatalogueEntry) (registrationId : String)
    (priors : Option (List ExistingPenaltyForSanction)) : Except String (Option PenaltyCard) :=
  match priors with
  | none => .ok entry.sanctions.head?
  | some priors =>
    (computePenaltySanction entry.entry priors registrationId).map fun sanction =>
      some sanction.card

/-- The offences each registration has, as far as the pass has come. -/
abbrev Working := String → List ExistingPenaltyForSanction

def priceRulesetCard (ruleset : PricingRuleset) (entry : CatalogueEntry) (registrationId : String)
    (working : Working) : Except String (Working × Option PricedCard) := do
  let seen := working registrationId
  match ← resolveEntryCard entry registrationId (some seen) with
  | none => return (working, none)
  | some card =>
    return (Function.update working registrationId
        (seen ++ [⟨registrationId, some entry.group_number, card, .ruleset, false⟩]),
      some ⟨card, cardPoints ruleset.toCardPoints card, some entry.group_number, .ruleset⟩)

/-- A later row of one id takes an earlier one's place. -/
def byId (entries : List CatalogueEntry) (id : String) : Option CatalogueEntry :=
  entries.reverse.find? fun entry => entry.id = id

def workingOf (priors : Option Priors) : Working :=
  (priors.getD []).foldl (fun working row => Function.update working row.1 row.2) fun _ => []

/-- One card of the pass, and the offences to price the next one by. -/
def priceCard (pricing : QueuedCardPricing) (working : Working) (queued : QueuedCard) :
    Except String (Working × Option PricedCard) :=
  match queued.directCard with
  | some card =>
    .ok (working, some
      ⟨card,
        match pricing.ruleset with
        | some ruleset => cardPoints ruleset.toCardPoints card
        | none => penaltyScoreDelta card,
        none, .direct⟩)
  | none =>
    match pricing.ruleset, pricing.priors with
    | some ruleset, some _ =>
      match queued.rulesetEntryId.bind (byId ruleset.penalty_ruleset_entries) with
      | none => .ok (working, none)
      | some entry => priceRulesetCard ruleset entry queued.registrationId working
    | _, _ => .ok (working, none)

def priceFrom (pricing : QueuedCardPricing) (working : Working) :
    List QueuedCard → Except String (List (Option PricedCard))
  | [] => .ok []
  | queued :: rest => do
    let (working, priced) ← priceCard pricing working queued
    let later ← priceFrom pricing working rest
    return priced :: later

/-- `createCardPricer`, driven over a queue in its order. -/
def createCardPricer (pricing : QueuedCardPricing) (queue : List QueuedCard) :
    Except String (List (Option PricedCard)) :=
  priceFrom pricing (workingOf pricing.priors) queue

end MyClash.Penalties
