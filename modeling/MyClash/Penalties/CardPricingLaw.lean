import MyClash.Library.ExceptBind
import MyClash.Penalties.CreatePenalty
import Mathlib.Data.List.Nodup

/-!
# The tablet's price is the server's

The pricer's working list and the rows the server counts hold the same offences of each fighter in
each group, after every card of the queue.
-/

namespace MyClash.Penalties

open ExceptBind StableSort

/-! ## Offences of a group -/

def offences (registrationId : String) (groupNumber : ℤ)
    (penalties : List ExistingPenaltyForSanction) : ℕ :=
  penalties.countP (·.sameGroup registrationId groupNumber)

theorem computePenaltySanction_congr {entry : PenaltyRulesetEntry} {registrationId : String}
    {a b : List ExistingPenaltyForSanction}
    (h : offences registrationId entry.groupNumber a =
      offences registrationId entry.groupNumber b) :
    computePenaltySanction entry a registrationId =
      computePenaltySanction entry b registrationId := by
  rw [offences, offences, List.countP_eq_length_filter, List.countP_eq_length_filter] at h
  rw [computePenaltySanction, computePenaltySanction, h]

/-- What a row counts for. -/
def MatchPenalty.counts (bout : MatchContext) (scope : AccumulationScope) (registrationId : String)
    (groupNumber : ℤ) (row : MatchPenalty) : Bool :=
  row.existing.sameGroup registrationId groupNumber && (row.registration_id == registrationId &&
    row.source == .ruleset && !row.voided && bout.holds scope row)

theorem offences_existingInScope (bout : MatchContext) (scope : AccumulationScope)
    (rows : List MatchPenalty) (registrationId : String) (groupNumber : ℤ) :
    offences registrationId groupNumber (existingInScope bout scope rows registrationId) =
      rows.countP (MatchPenalty.counts bout scope registrationId groupNumber) := by
  rw [offences, existingInScope, List.countP_map, (sortWith_perm _).countP_eq, List.countP_filter]
  rfl

section Queue

variable {tables : CardTables} {bout : MatchContext} {checks : PenaltyChecks}

/-- What a card that was stored anew wrote, and where its sanction comes from. -/
inductive Written (tables : CardTables) (bout : MatchContext) (rows : List MatchPenalty)
    (dto : CreatePenaltyDto) : MatchPenalty → Prop
  | direct (card : PenaltyCard) (hDirect : dto.directCard = some card) :
      Written tables bout rows dto
        (insertPayload tables bout dto (computeDirectPenaltySanction card) none)
  | ruleset {rulesetId entryId : String} {ruleset : RulesetRow × List CatalogueEntry}
      {entry : PenaltyRulesetEntry} {sanction : PenaltySanctionResult}
      (hDirect : dto.directCard = none) (hRuleset : bout.penaltyRulesetId = some rulesetId)
      (hEntryId : dto.rulesetEntryId = some entryId)
      (hRow : tables.getRuleset rulesetId = .ok ruleset)
      (hEntry : tables.getRulesetEntry entryId = .ok entry)
      (hSanction : computePenaltySanction entry
        (existingInScope bout ruleset.1.accumulation_scope rows dto.registrationId)
        dto.registrationId = .ok sanction) :
      Written tables bout rows dto (insertPayload tables bout dto sanction (some entry))

theorem storeCard_cases {rows rows' : List MatchPenalty} {dto : CreatePenaltyDto}
    {row : MatchPenalty} (hEither : ¬ (dto.rulesetEntryId.isNone ∧ dto.directCard.isNone))
    (h : storeCard tables bout checks rows dto = .ok (rows', row)) :
    dto.registrationId ∈ [bout.redRegistrationId, bout.blueRegistrationId] ∧
      rows' = rows ++ [row] ∧ Written tables bout rows dto row := by
  rw [storeCard] at h
  split at h
  · cases h
  split_ifs at h with hCorner
  obtain ⟨sanction, hSanction, h⟩ := bind_eq_ok.mp h
  obtain ⟨entry, hEntry, h⟩ := bind_eq_ok.mp h
  obtain ⟨rfl, rfl⟩ := Prod.mk.inj (Except.ok.inj h)
  refine ⟨hCorner, rfl, ?_⟩
  rw [sanctionOf] at hSanction
  rw [entryOf] at hEntry
  cases hDirect : dto.directCard with
  | some card =>
    rw [hDirect] at hSanction hEntry
    cases hSanction
    cases hEntry
    exact .direct card hDirect
  | none =>
    cases hEntryId : dto.rulesetEntryId with
    | none => exact absurd ⟨hEntryId ▸ rfl, hDirect ▸ rfl⟩ hEither
    | some entryId =>
      rw [hDirect] at hSanction
      rw [hDirect, hEntryId] at hEntry
      obtain ⟨named, hNamed, rfl⟩ := map_eq_ok.mp hEntry
      rw [computeRulesetPenalty] at hSanction
      cases hRuleset : bout.penaltyRulesetId with
      | none =>
        rw [hRuleset] at hSanction
        cases hSanction
      | some rulesetId =>
        rw [hRuleset] at hSanction
        obtain ⟨entry, hFound, hSanction⟩ := bind_eq_ok.mp hSanction
        obtain ⟨previous, hPrevious, hSanction⟩ := bind_eq_ok.mp hSanction
        obtain ⟨ruleset, hRow, hPrevious⟩ := bind_eq_ok.mp hPrevious
        rw [hEntryId, Option.getD_some, hNamed] at hFound
        cases hFound
        cases hPrevious
        exact .ruleset hDirect hRuleset hEntryId hRow hNamed hSanction

theorem createPenalty_cases {rows rows' : List MatchPenalty} {dto : CreatePenaltyDto}
    {row : MatchPenalty} (hFresh : savedCardOf bout rows dto.clientUuid = .ok none)
    (h : createPenalty tables bout checks rows dto = .ok (rows', row)) :
    dto.registrationId ∈ [bout.redRegistrationId, bout.blueRegistrationId] ∧
      rows' = rows ++ [row] ∧ Written tables bout rows dto row := by
  rw [createPenalty] at h
  split at h
  · cases h
  split_ifs at h with hEither
  rw [hFresh] at h
  exact storeCard_cases hEither h

/-! ## The tablet's answers -/

theorem cardScoreDelta_eq (points : CardPoints) (card : PenaltyCard) :
    cardScoreDelta points card = cardPoints points card := by
  cases card <;> rfl

theorem getRuleset_eq_ok {rulesetId : String} {ruleset : RulesetRow × List CatalogueEntry} :
    tables.getRuleset rulesetId = .ok ruleset ↔
      tables.loadPenaltyRulesetRow rulesetId = some ruleset.1 ∧
        ruleset.2 = (tables.penalty_ruleset_entries.filter fun entry =>
          entry.ruleset_id = rulesetId).map RulesetEntryRow.toCatalogueEntry := by
  rw [CardTables.getRuleset]
  cases tables.loadPenaltyRulesetRow rulesetId with
  | none => exact ⟨nofun, fun h => nomatch h.1⟩
  | some row =>
    constructor
    · rintro ⟨⟩
      exact ⟨rfl, rfl⟩
    · rintro ⟨hRow, hEntries⟩
      cases hRow
      rw [← hEntries]

/-- The ruleset the tablet prices by is the row the server reads. -/
theorem pricingOf_ruleset (rows : List MatchPenalty) {rulesetId : String}
    {ruleset : RulesetRow × List CatalogueEntry} (hRuleset : bout.penaltyRulesetId = some rulesetId)
    (hRow : tables.getRuleset rulesetId = .ok ruleset) :
    (pricingOf tables bout rows).ruleset = some ⟨ruleset.1.toCardPoints, ruleset.2⟩ := by
  rw [pricingOf, getEffectiveRulesetForMatch, hRuleset]
  dsimp only
  rw [hRow]
  rfl

theorem pricingOf_priors {rows : List MatchPenalty} {rulesetId : String}
    {ruleset : RulesetRow × List CatalogueEntry} (hRuleset : bout.penaltyRulesetId = some rulesetId)
    (hRow : tables.getRuleset rulesetId = .ok ruleset) :
    (pricingOf tables bout rows).priors = some
      [(bout.redRegistrationId,
          existingInScope bout ruleset.1.accumulation_scope rows bout.redRegistrationId),
        (bout.blueRegistrationId,
          existingInScope bout ruleset.1.accumulation_scope rows bout.blueRegistrationId)] := by
  simp only [pricingOf, getPenaltyScopeForMatch, hRuleset, getExistingPenaltiesForScope, hRow, bind,
    Except.bind, pure, Except.pure]
  rfl

/-- A colour named by hand costs on the tablet what it costs on the server. -/
theorem pricingOf_points (tables : CardTables) (bout : MatchContext) (rows : List MatchPenalty)
    (card : PenaltyCard) :
    (match (pricingOf tables bout rows).ruleset with
      | some ruleset => cardPoints ruleset.toCardPoints card
      | none => penaltyScoreDelta card) =
      match bout.penaltyRulesetId.bind tables.loadPenaltyRulesetRow with
      | some ruleset => cardScoreDelta ruleset.toCardPoints card
      | none => penaltyScoreDelta card := by
  cases hRuleset : bout.penaltyRulesetId with
  | none =>
    have hNone : (pricingOf tables bout rows).ruleset = none := by
      rw [pricingOf, getEffectiveRulesetForMatch, hRuleset]
      rfl
    rw [hNone]
    rfl
  | some rulesetId =>
    rw [Option.bind_some]
    cases hRow : tables.loadPenaltyRulesetRow rulesetId with
    | none =>
      have hNone : (pricingOf tables bout rows).ruleset = none := by
        rw [pricingOf, getEffectiveRulesetForMatch, hRuleset]
        dsimp only
        rw [CardTables.getRuleset, hRow]
        rfl
      rw [hNone]
    | some row =>
      have hGet : tables.getRuleset rulesetId = .ok (row, _) := getRuleset_eq_ok.mpr ⟨hRow, rfl⟩
      rw [pricingOf_ruleset rows hRuleset hGet]
      exact (cardScoreDelta_eq row.toCardPoints card).symm

/-- With one row an id, the catalogue's row of a named entry is the server's. -/
theorem byId_eq {rulesetId entryId : String} {ruleset : RulesetRow × List CatalogueEntry}
    {entry : PenaltyRulesetEntry} (hRow : tables.getRuleset rulesetId = .ok ruleset)
    (hEntry : tables.getRulesetEntry entryId = .ok entry)
    (hNamed : ∃ row ∈ ruleset.2, row.id = entryId) :
    ∃ row, byId ruleset.2 entryId = some row ∧ row.entry = entry := by
  have hFound : (byId ruleset.2 entryId).isSome := by
    obtain ⟨row, hRow, hId⟩ := hNamed
    exact List.find?_isSome.mpr ⟨row, List.mem_reverse.mpr hRow, decide_eq_true hId⟩
  obtain ⟨row, hById⟩ := Option.isSome_iff_exists.mp hFound
  have hFind : ruleset.2.reverse.find? (fun row => row.id = entryId) = some row := hById
  have hId : row.id = entryId := by simpa using List.find?_some hFind
  have hMem := List.mem_reverse.mp (List.mem_of_find?_eq_some hFind)
  rw [(getRuleset_eq_ok.mp hRow).2] at hMem
  obtain ⟨stored, hStored, rfl⟩ := List.mem_map.mp hMem
  have hStoredIn := (List.mem_filter.mp hStored).1
  rw [CardTables.getRulesetEntry] at hEntry
  split at hEntry
  · cases hEntry
  · rename_i found hGet
    have hFoundId : found.id = entryId := by simpa using List.find?_some hGet
    have hSame : stored = found := List.inj_on_of_nodup_map tables.entryKey hStoredIn
      (List.mem_of_find?_eq_some hGet) (hId.trans hFoundId.symm)
    cases hEntry
    exact ⟨_, hById, hSame ▸ rfl⟩

/-! ## The fold -/

/-- The tablet's working list holds the offences the server would count now. -/
def Agrees (tables : CardTables) (bout : MatchContext) (working : Working)
    (rows : List MatchPenalty) : Prop :=
  ∀ rulesetId ruleset, bout.penaltyRulesetId = some rulesetId →
    tables.getRuleset rulesetId = .ok ruleset →
    ∀ registrationId ∈ [bout.redRegistrationId, bout.blueRegistrationId], ∀ groupNumber,
      offences registrationId groupNumber (working registrationId) =
        rows.countP (MatchPenalty.counts bout ruleset.1.accumulation_scope registrationId
          groupNumber)

theorem agrees_workingOf (rows : List MatchPenalty) :
    Agrees tables bout (workingOf (pricingOf tables bout rows).priors) rows := by
  intro rulesetId ruleset hRuleset hRow registrationId hCorner groupNumber
  rw [pricingOf_priors hRuleset hRow, ← offences_existingInScope]
  congr 1
  simp only [workingOf, Option.getD_some, List.foldl_cons, List.foldl_nil]
  simp only [List.mem_cons, List.not_mem_nil, or_false] at hCorner
  by_cases hBlue : registrationId = bout.blueRegistrationId
  · rw [hBlue, Function.update_self]
  · rw [Function.update_of_ne hBlue, hCorner.resolve_right hBlue, Function.update_self]

/-- A stored card counts for its own fighter and group, when it is of the catalogue. -/
theorem insertPayload_counts (dto : CreatePenaltyDto) (sanction : PenaltySanctionResult)
    (entry : Option PenaltyRulesetEntry) (scope : AccumulationScope) (registrationId : String)
    (groupNumber : ℤ) :
    (insertPayload tables bout dto sanction entry).counts bout scope registrationId groupNumber =
      (dto.directCard.isNone && dto.registrationId == registrationId &&
        entry.map (·.groupNumber) == some groupNumber) := by
  have hHolds : bout.holds scope (insertPayload tables bout dto sanction entry) = true := by
    rw [MatchContext.holds]
    split_ifs <;> exact beq_self_eq_true _
  rw [MatchPenalty.counts, hHolds]
  cases hDirect : dto.directCard <;>
    simp [MatchPenalty.existing, ExistingPenaltyForSanction.sameGroup, insertPayload, hDirect]
  grind

theorem agrees_direct {working : Working} {rows : List MatchPenalty} {dto : CreatePenaltyDto}
    {card : PenaltyCard} (h : Agrees tables bout working rows)
    (hDirect : dto.directCard = some card) (sanction : PenaltySanctionResult) :
    Agrees tables bout working (rows ++ [insertPayload tables bout dto sanction none]) := by
  intro rulesetId ruleset hRuleset hRow registrationId hCorner groupNumber
  rw [List.countP_append, List.countP_singleton, insertPayload_counts, hDirect,
    h rulesetId ruleset hRuleset hRow registrationId hCorner groupNumber]
  rfl

theorem agrees_ruleset {working : Working} {rows : List MatchPenalty} {dto : CreatePenaltyDto}
    (h : Agrees tables bout working rows) (hDirect : dto.directCard = none)
    (sanction : PenaltySanctionResult) (entry : PenaltyRulesetEntry) (card : PenaltyCard) :
    Agrees tables bout
      (Function.update working dto.registrationId (working dto.registrationId ++
        [⟨dto.registrationId, some entry.groupNumber, card, .ruleset, false⟩]))
      (rows ++ [insertPayload tables bout dto sanction (some entry)]) := by
  intro rulesetId ruleset hRuleset hRow registrationId hCorner groupNumber
  have hBefore := h rulesetId ruleset hRuleset hRow registrationId hCorner groupNumber
  rw [List.countP_append, List.countP_singleton, insertPayload_counts, hDirect, ← hBefore]
  by_cases hSame : dto.registrationId = registrationId
  · subst hSame
    rw [Function.update_self, offences, List.countP_append, List.countP_singleton]
    simp [ExistingPenaltyForSanction.sameGroup, offences]
  · rw [Function.update_of_ne (Ne.symm hSame), beq_eq_false_iff_ne.mpr hSame]
    rfl

def MatchPenalty.priced (row : MatchPenalty) : PricedCard :=
  ⟨row.card, row.score_delta, row.group_number, row.source⟩

/-- The catalogue holds every entry the queue names. -/
def PricingRuleset.HoldsNamed (ruleset : PricingRuleset) (queue : List QueuedCard) : Prop :=
  ∀ queued ∈ queue, queued.directCard = none → ∀ entryId ∈ queued.rulesetEntryId,
    ∃ entry ∈ ruleset.penalty_ruleset_entries, entry.id = entryId

theorem insertPayload_score_delta {rulesetId : String} {ruleset : RulesetRow × List CatalogueEntry}
    (hRuleset : bout.penaltyRulesetId = some rulesetId)
    (hRow : tables.getRuleset rulesetId = .ok ruleset) (dto : CreatePenaltyDto)
    (sanction : PenaltySanctionResult) (entry : Option PenaltyRulesetEntry) :
    (insertPayload tables bout dto sanction entry).score_delta =
      cardPoints ruleset.1.toCardPoints sanction.card := by
  rw [insertPayload, hRuleset, Option.bind_some, (getRuleset_eq_ok.mp hRow).1]
  exact cardScoreDelta_eq _ _

/-- One card: the tablet prices it as the server stores it, and counts it as the server will. -/
theorem priceCard_eq_stored {working : Working} {rows read : List MatchPenalty}
    {dto : CreatePenaltyDto} {row : MatchPenalty} (hAgrees : Agrees tables bout working rows)
    (hCorner : dto.registrationId ∈ [bout.redRegistrationId, bout.blueRegistrationId])
    (hHolds : ∀ ruleset ∈ (pricingOf tables bout read).ruleset, ruleset.HoldsNamed [dto.queued])
    (hWritten : Written tables bout rows dto row) :
    ∃ working', priceCard (pricingOf tables bout read) working dto.queued =
        .ok (working', some row.priced) ∧ Agrees tables bout working' (rows ++ [row]) := by
  cases hWritten with
  | direct card hDirect =>
    refine ⟨working, ?_, agrees_direct hAgrees hDirect _⟩
    have hQueued : dto.queued.directCard = some card := hDirect
    have hPoints := congrArg (fun points =>
      (Except.ok (working, some ⟨card, points, none, .direct⟩) :
        Except String (Working × Option PricedCard))) (pricingOf_points tables bout read card)
    rw [priceCard, hQueued]
    refine hPoints.trans ?_
    rw [MatchPenalty.priced, insertPayload, hDirect]
    rfl
  | ruleset hDirect hRuleset hEntryId hRow hEntry hSanction =>
    rename_i rulesetId entryId ruleset entry sanction
    have hSeen := pricingOf_ruleset read hRuleset hRow
    have hNamed := hHolds _ hSeen dto.queued (List.mem_singleton.mpr rfl) hDirect entryId hEntryId
    obtain ⟨row, hById, rfl⟩ := byId_eq hRow hEntry hNamed
    have hCard : computePenaltySanction row.entry (working dto.queued.registrationId)
        dto.queued.registrationId = .ok sanction := by
      rw [← hSanction]
      have hOffences := offences_existingInScope bout ruleset.1.accumulation_scope rows
        dto.registrationId row.entry.groupNumber
      exact computePenaltySanction_congr
        ((hAgrees rulesetId ruleset hRuleset hRow _ hCorner _).trans hOffences.symm)
    refine ⟨_, ?_, agrees_ruleset hAgrees hDirect sanction row.entry sanction.card⟩
    have hQueued : dto.queued.directCard = none := hDirect
    have hQueuedEntry : dto.queued.rulesetEntryId = some entryId := hEntryId
    rw [priceCard, hQueued, hSeen, pricingOf_priors hRuleset hRow, hQueuedEntry]
    dsimp only
    rw [Option.bind_some, hById]
    dsimp only
    rw [priceRulesetCard, resolveEntryCard, hCard]
    have hPriced : (insertPayload tables bout dto sanction (some row.entry)).priced =
        ⟨sanction.card, cardPoints ruleset.1.toCardPoints sanction.card, some row.group_number,
          .ruleset⟩ := by
      rw [MatchPenalty.priced, insertPayload_score_delta hRuleset hRow, insertPayload, hDirect]
      rfl
    rw [hPriced]
    rfl

/-- No card of the queue is on the server yet, and each has an id of its own. -/
structure Unsaved (rows : List MatchPenalty) (queue : List CreatePenaltyDto) : Prop where
  own : (queue.map (·.clientUuid)).Nodup
  fresh : ∀ dto ∈ queue, ∀ row ∈ rows, row.client_uuid ≠ dto.clientUuid

theorem savedCardOf_fresh (bout : MatchContext) {rows : List MatchPenalty} {clientUuid : String}
    (h : ∀ row ∈ rows, row.client_uuid ≠ clientUuid) :
    savedCardOf bout rows clientUuid = .ok none := by
  have hNone : (rows.find? fun row => row.client_uuid = clientUuid) = none :=
    List.find?_eq_none.mpr fun row hRow => by simpa using h row hRow
  rw [savedCardOf, hNone]

theorem Written.client_uuid {rows : List MatchPenalty} {dto : CreatePenaltyDto}
    {row : MatchPenalty} (h : Written tables bout rows dto row) :
    row.client_uuid = dto.clientUuid := by
  cases h <;> rfl

theorem Unsaved.tail {rows : List MatchPenalty} {dto : CreatePenaltyDto}
    {queue : List CreatePenaltyDto} {row : MatchPenalty} (h : Unsaved rows (dto :: queue))
    (hWritten : Written tables bout rows dto row) : Unsaved (rows ++ [row]) queue := by
  obtain ⟨hDto, hQueue⟩ := List.nodup_cons.mp h.own
  refine ⟨hQueue, fun later hLater stored hStored => ?_⟩
  rcases List.mem_append.mp hStored with hStored | hStored
  · exact h.fresh later (List.mem_cons_of_mem dto hLater) stored hStored
  · cases List.mem_singleton.mp hStored
    rw [hWritten.client_uuid]
    exact fun hSame => hDto (List.mem_map.mpr ⟨later, hLater, hSame.symm⟩)

theorem priceFrom_eq_stored (read : List MatchPenalty) {queue : List CreatePenaltyDto} :
    ∀ {working : Working} {rows stored : List MatchPenalty}, Unsaved rows queue →
      Agrees tables bout working rows →
      (∀ ruleset ∈ (pricingOf tables bout read).ruleset,
        ruleset.HoldsNamed (queue.map CreatePenaltyDto.queued)) →
      drain tables bout checks rows queue = .ok stored →
      priceFrom (pricingOf tables bout read) working (queue.map CreatePenaltyDto.queued) =
        .ok (stored.map fun row => some row.priced) := by
  induction queue with
  | nil =>
    intro working rows stored _ _ _ hDrain
    cases hDrain
    rfl
  | cons dto queue ih =>
    intro working rows stored hUnsaved hAgrees hHolds hDrain
    obtain ⟨⟨rows', row⟩, hCreated, hDrain⟩ := bind_eq_ok.mp hDrain
    obtain ⟨later, hLater, hDrain⟩ := bind_eq_ok.mp hDrain
    cases hDrain
    have hFresh := savedCardOf_fresh bout (hUnsaved.fresh dto List.mem_cons_self)
    obtain ⟨hCorner, rfl, hWritten⟩ := createPenalty_cases hFresh hCreated
    obtain ⟨working', hPriced, hAgrees'⟩ := priceCard_eq_stored hAgrees hCorner
      (fun ruleset hRuleset queued hQueued => hHolds ruleset hRuleset queued
        (by rw [List.mem_singleton.mp hQueued]; exact List.mem_cons_self)) hWritten
    have hRest := ih (hUnsaved.tail hWritten) hAgrees'
      (fun ruleset hRuleset queued hQueued => hHolds ruleset hRuleset queued
        (List.mem_cons_of_mem _ hQueued)) hLater
    rw [List.map_cons, priceFrom, hPriced]
    simp only [bind, Except.bind]
    rw [hRest]
    rfl

/-- Whatever the server told the tablet before the queue went out, every card is priced as it is
stored. -/
theorem createCardPricer_eq_stored {rows stored : List MatchPenalty}
    {queue : List CreatePenaltyDto} (hUnsaved : Unsaved rows queue)
    (hHolds : ∀ ruleset ∈ (pricingOf tables bout rows).ruleset,
      ruleset.HoldsNamed (queue.map CreatePenaltyDto.queued))
    (hDrain : drain tables bout checks rows queue = .ok stored) :
    createCardPricer (pricingOf tables bout rows) (queue.map CreatePenaltyDto.queued) =
      .ok (stored.map fun row => some row.priced) :=
  priceFrom_eq_stored rows hUnsaved (agrees_workingOf rows) hHolds hDrain

end Queue

/-! ## A queue -/

def yellowRedGroup : CatalogueEntry := ⟨"e1", 1, "R1", "Out of bounds", "", [.yellow, .red]⟩

def redGroup : CatalogueEntry := ⟨"e2", 2, "R7", "Late hit", "", [.red]⟩

/-- One ruleset of two groups; a yellow card costs nothing, a red one two points. -/
def twoGroups : CardTables where
  penalty_rulesets := [⟨⟨some 0, some (-2), none⟩, "r1", .tournament⟩]
  penalty_ruleset_entries := [⟨yellowRedGroup, "r1"⟩, ⟨redGroup, "r1"⟩]
  entryKey := by decide

def poolBout : MatchContext := ⟨"m1", "t1", "red", "blue", some "r1"⟩

def noChecks : PenaltyChecks := ⟨id, none, fun _ _ => none⟩

/-- Red's yellow card of another bout of the Tournament. -/
def earlierYellow : MatchPenalty :=
  ⟨"c0", "m0", "t1", "red", some "r1", some "e1", 1, .ruleset, .yellow, some 1, some "R1",
    some "Out of bounds", none, 0, false, false⟩

/-- Two groups, both fighters and a direct card between them. -/
def mixedQueue : List CreatePenaltyDto :=
  [⟨"c1", "red", some "e1", none, 1, none⟩, ⟨"c2", "blue", some "e1", none, 2, none⟩,
    ⟨"c3", "red", none, some .black, 3, some "Violence"⟩, ⟨"c4", "blue", some "e2", none, 4, none⟩,
    ⟨"c5", "blue", some "e1", none, 5, none⟩]

theorem createCardPricer_eq_stored_mixed : ∃ stored,
    drain twoGroups poolBout noChecks [earlierYellow] mixedQueue = .ok stored ∧
      stored.map (fun row => (row.card, row.score_delta)) =
        [(.red, -2), (.yellow, 0), (.black, 0), (.red, -2), (.red, -2)] ∧
      createCardPricer (pricingOf twoGroups poolBout [earlierYellow])
          (mixedQueue.map CreatePenaltyDto.queued) =
        .ok (stored.map fun row => some row.priced) := by
  have hStored : (drain twoGroups poolBout noChecks [earlierYellow] mixedQueue).toOption.map
      (fun stored => stored.map fun row => (row.card, row.score_delta)) =
        some [(.red, -2), (.yellow, 0), (.black, 0), (.red, -2), (.red, -2)] := by
    decide +kernel
  have hUnsaved : Unsaved [earlierYellow] mixedQueue := by
    refine ⟨by decide, fun dto hDto row hRow => ?_⟩
    rw [List.mem_singleton.mp hRow]
    simp only [mixedQueue, List.mem_cons, List.not_mem_nil, or_false] at hDto
    rcases hDto with rfl | rfl | rfl | rfl | rfl <;> decide
  have hHolds : ∀ ruleset ∈ (pricingOf twoGroups poolBout [earlierYellow]).ruleset,
      ruleset.HoldsNamed (mixedQueue.map CreatePenaltyDto.queued) := by
    rintro ruleset ⟨⟩ queued hQueued - entryId hEntryId
    simp only [mixedQueue, List.map_cons, List.map_nil, List.mem_cons, List.not_mem_nil,
      or_false] at hQueued
    rcases hQueued with rfl | rfl | rfl | rfl | rfl <;> cases hEntryId
    · exact ⟨yellowRedGroup, by decide, rfl⟩
    · exact ⟨yellowRedGroup, by decide, rfl⟩
    · exact ⟨redGroup, by decide, rfl⟩
    · exact ⟨yellowRedGroup, by decide, rfl⟩
  cases hDrain : drain twoGroups poolBout noChecks [earlierYellow] mixedQueue with
  | error refusal =>
    rw [hDrain] at hStored
    cases hStored
  | ok stored =>
    rw [hDrain] at hStored
    exact ⟨stored, rfl, Option.some.inj hStored,
      createCardPricer_eq_stored hUnsaved hHolds hDrain⟩

end MyClash.Penalties
