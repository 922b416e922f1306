import MyClash.Library.StableSort
import MyClash.Penalties.CardPricing

/-!
# A card on the server

`createPenalty` on the rows of `match_penalties`, what it counts a fighter's offences by, and the
two answers the tablet prices its queue with.
-/

namespace MyClash.Penalties

open StableSort

/-! ## The rows -/

structure RulesetRow extends CardPoints where
  id : String
  accumulation_scope : AccumulationScope

/-- A row of `penalty_ruleset_entries`. -/
structure RulesetEntryRow extends CatalogueEntry where
  ruleset_id : String

/-- The card rules, with the keys of their two tables. -/
structure CardTables where
  penalty_rulesets : List RulesetRow
  penalty_ruleset_entries : List RulesetEntryRow
  entryKey : (penalty_ruleset_entries.map fun row => row.id).Nodup

structure MatchPenalty where
  client_uuid : String
  match_id : String
  tournament_id : String
  registration_id : String
  ruleset_id : Option String
  ruleset_entry_id : Option String
  sequence : ℕ
  source : PenaltySource
  card : PenaltyCard
  group_number : Option ℤ
  ref_number : Option String
  short_name : Option String
  reason : Option String
  score_delta : ℤ
  causes_match_forfeit : Bool
  voided : Bool

structure CreatePenaltyDto where
  clientUuid : String
  registrationId : String
  rulesetEntryId : Option String
  directCard : Option PenaltyCard
  sequence : ℕ
  reason : Option String

/-- What the tablet prices of a card it sends. -/
def CreatePenaltyDto.queued (dto : CreatePenaltyDto) : QueuedCard :=
  ⟨dto.registrationId, dto.rulesetEntryId, dto.directCard⟩

/-- The bout, under the card rules it is played by. -/
structure MatchContext where
  id : String
  tournamentId : String
  redRegistrationId : String
  blueRegistrationId : String
  penaltyRulesetId : Option String

namespace CardTables

variable (tables : CardTables)

def loadPenaltyRulesetRow (rulesetId : String) : Option RulesetRow :=
  tables.penalty_rulesets.find? fun row => row.id = rulesetId

def getRuleset (rulesetId : String) : Except String (RulesetRow × List CatalogueEntry) :=
  match tables.loadPenaltyRulesetRow rulesetId with
  | none => .error s!"Penalty ruleset {rulesetId} not found"
  | some row =>
    .ok (row, (tables.penalty_ruleset_entries.filter fun entry => entry.ruleset_id = rulesetId).map
      RulesetEntryRow.toCatalogueEntry)

def getRulesetEntry (entryId : String) : Except String PenaltyRulesetEntry :=
  match tables.penalty_ruleset_entries.find? fun row => row.id = entryId with
  | none => .error s!"Penalty ruleset entry {entryId} not found"
  | some row => .ok row.entry

end CardTables

/-! ## The offences counted -/

def MatchPenalty.existing (row : MatchPenalty) : ExistingPenaltyForSanction :=
  ⟨row.registration_id, row.group_number, row.card, row.source, row.voided⟩

def MatchContext.holds (bout : MatchContext) (scope : AccumulationScope) (row : MatchPenalty) :
    Bool :=
  if scope = .bout then row.match_id == bout.id else row.tournament_id == bout.tournamentId

def existingInScope (bout : MatchContext) (scope : AccumulationScope)
    (match_penalties : List MatchPenalty) (registrationId : String) :
    List ExistingPenaltyForSanction :=
  (sortWith (fun a b => compare a.sequence b.sequence)
    (match_penalties.filter fun row =>
      row.registration_id == registrationId && row.source == .ruleset && !row.voided &&
        bout.holds scope row)).map MatchPenalty.existing

section Service

variable (tables : CardTables) (bout : MatchContext)

def getExistingPenaltiesForScope (match_penalties : List MatchPenalty) (rulesetId : String)
    (registrationId : String) : Except String (List ExistingPenaltyForSanction) := do
  let (ruleset, _) ← tables.getRuleset rulesetId
  return existingInScope bout ruleset.accumulation_scope match_penalties registrationId

/-- `GET /matches/:id/penalty-scope`. -/
def getPenaltyScopeForMatch (match_penalties : List MatchPenalty) :
    Except String (AccumulationScope × Priors) := do
  match bout.penaltyRulesetId with
  | none => return (.bout, [(bout.redRegistrationId, []), (bout.blueRegistrationId, [])])
  | some rulesetId =>
    let (ruleset, _) ← tables.getRuleset rulesetId
    let red ←
      getExistingPenaltiesForScope tables bout match_penalties rulesetId bout.redRegistrationId
    let blue ←
      getExistingPenaltiesForScope tables bout match_penalties rulesetId bout.blueRegistrationId
    return (ruleset.accumulation_scope,
      [(bout.redRegistrationId, red), (bout.blueRegistrationId, blue)])

/-- `GET /matches/:id/penalty-ruleset`; a bout with no card rules finds no built-in ones either. -/
def getEffectiveRulesetForMatch : Except String (Option PricingRuleset) :=
  match bout.penaltyRulesetId with
  | none => .ok none
  | some rulesetId =>
    (tables.getRuleset rulesetId).map fun ruleset => some ⟨ruleset.1.toCardPoints, ruleset.2⟩

/-- What the tablet prices by: an answer that failed is one it has never had. -/
def pricingOf (match_penalties : List MatchPenalty) : QueuedCardPricing where
  ruleset := (getEffectiveRulesetForMatch tables bout).toOption.join
  priors := (getPenaltyScopeForMatch tables bout match_penalties).toOption.map Prod.snd

/-! ## The card written -/

def savedCardOf (match_penalties : List MatchPenalty) (clientUuid : String) :
    Except String (Option MatchPenalty) :=
  match match_penalties.find? fun row => row.client_uuid = clientUuid with
  | some stored =>
    if stored.match_id ≠ bout.id then .error "This id is the id of another card"
    else .ok (some stored)
  | none => .ok none

def cardScoreDelta (points : CardPoints) (card : PenaltyCard) : ℤ :=
  let value :=
    if card = .yellow then points.yellow_card_points
    else if card = .red then points.red_card_points
    else points.black_card_points
  value.getD 0

def computeRulesetPenalty (match_penalties : List MatchPenalty) (dto : CreatePenaltyDto) :
    Except String PenaltySanctionResult :=
  match bout.penaltyRulesetId with
  | none => .error "No penalty ruleset is attached to this tournament or event"
  | some rulesetId => do
    let entry ← tables.getRulesetEntry (dto.rulesetEntryId.getD "")
    let previous ←
      getExistingPenaltiesForScope tables bout match_penalties rulesetId dto.registrationId
    computePenaltySanction entry previous dto.registrationId

def insertPayload (dto : CreatePenaltyDto) (sanction : PenaltySanctionResult)
    (entry : Option PenaltyRulesetEntry) : MatchPenalty where
  client_uuid := dto.clientUuid
  match_id := bout.id
  tournament_id := bout.tournamentId
  registration_id := dto.registrationId
  ruleset_id := if dto.directCard.isSome then none else bout.penaltyRulesetId
  ruleset_entry_id := dto.rulesetEntryId
  sequence := dto.sequence
  source := if dto.directCard.isSome then .direct else .ruleset
  card := sanction.card
  group_number := entry.map (·.groupNumber)
  ref_number := entry.map (·.refNumber)
  short_name := entry.map (·.shortName)
  reason := dto.reason
  score_delta :=
    match bout.penaltyRulesetId.bind tables.loadPenaltyRulesetRow with
    | some ruleset => cardScoreDelta ruleset.toCardPoints sanction.card
    | none => sanction.scoreDelta
  causes_match_forfeit := sanction.causesMatchForfeit
  voided := false

/-- The checks that ask more than the cards. -/
structure PenaltyChecks where
  trim : String → String
  /-- Who sends it may not score the bout. -/
  forbidden : Option String
  /-- Results frozen, the bout locked, over or between two rounds. -/
  refused : List MatchPenalty → CreatePenaltyDto → Option String

def sanctionOf (match_penalties : List MatchPenalty) (dto : CreatePenaltyDto) :
    Except String PenaltySanctionResult :=
  match dto.directCard with
  | some card => .ok (computeDirectPenaltySanction card)
  | none => computeRulesetPenalty tables bout match_penalties dto

/-- The entry a card that is not direct copies its group, reference and name from. -/
def entryOf (dto : CreatePenaltyDto) : Except String (Option PenaltyRulesetEntry) :=
  match dto.directCard, dto.rulesetEntryId with
  | none, some entryId => (tables.getRulesetEntry entryId).map some
  | _, _ => .ok none

def storeCard (checks : PenaltyChecks) (match_penalties : List MatchPenalty)
    (dto : CreatePenaltyDto) : Except String (List MatchPenalty × MatchPenalty) :=
  match checks.refused match_penalties dto with
  | some refusal => .error refusal
  | none =>
    if dto.registrationId ∉ [bout.redRegistrationId, bout.blueRegistrationId] then
      .error "Penalty registration must belong to the current match"
    else do
      let sanction ← sanctionOf tables bout match_penalties dto
      let entry ← entryOf tables dto
      let row := insertPayload tables bout dto sanction entry
      return (match_penalties ++ [row], row)

def createPenalty (checks : PenaltyChecks) (match_penalties : List MatchPenalty)
    (dto : CreatePenaltyDto) : Except String (List MatchPenalty × MatchPenalty) :=
  match checks.forbidden with
  | some refusal => .error refusal
  | none =>
    if dto.rulesetEntryId.isNone ∧ dto.directCard.isNone then
      .error "Either rulesetEntryId or directCard is required"
    else if dto.directCard.isSome ∧ checks.trim (dto.reason.getD "") = "" then
      .error "A reason is required for direct card penalties"
    else do
      match ← savedCardOf bout match_penalties dto.clientUuid with
      | some saved => return (match_penalties, saved)
      | none => storeCard tables bout checks match_penalties dto

/-- The queue goes out in its order: the rows it stored, unless one was refused. -/
def drain (checks : PenaltyChecks) (match_penalties : List MatchPenalty) :
    List CreatePenaltyDto → Except String (List MatchPenalty)
  | [] => .ok []
  | dto :: queue => do
    let (match_penalties, row) ← createPenalty tables bout checks match_penalties dto
    let stored ← drain checks match_penalties queue
    return row :: stored

end Service

end MyClash.Penalties
