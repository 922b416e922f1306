import MyClash.Pad.PadSeries
import Mathlib.Algebra.BigOperators.Group.List.Basic
import Mathlib.Algebra.Group.Prod

/-!
# The pad's score and the server's

A bout of one round, its sheet split into what the server has counted on its row and what the
tablet still holds. The pad shows what the server's recompute gives of the whole sheet, but for a
row of 0-0 that it reads as not scored.
-/

namespace MyClash.Pad

open MatchFormat Scoring Standings

universe u

/-! ## The rows of a sheet -/

/-- The columns written beside a hit: what it is worth to red and to blue. -/
def computeDeltas (mode : AfterblowMode) (ex : Exchange) : ℚ × ℚ :=
  match ex.type with
  | .clean =>
    match ex.firstStrikerColor with
    | some .red => (ex.firstStrikeValue.getD 0, 0)
    | some .blue => (0, ex.firstStrikeValue.getD 0)
    | none => (0, 0)
  | .afterblow =>
    let deltas :=
      computeAfterblowDeltas mode (ex.firstStrikeValue.getD 0) (ex.afterblowValue.getD 0)
    match ex.firstStrikerColor with
    | some .red => (deltas.1, deltas.2)
    | some .blue => (deltas.2, deltas.1)
    | none => (0, 0)
  | .double => (0, 0)
  | .noExchange => (0, 0)

def deltaOf (deltas : ℚ × ℚ) : Color → ℚ
  | .red => deltas.1
  | .blue => deltas.2

/-- A row of `listExchanges`. -/
def listedRow (mode : AfterblowMode) (ex : Exchange) : ExchangeRow :=
  let deltas := computeDeltas mode ex
  let scoringSide :=
    match ex.type with
    | .clean => ex.firstStrikerColor
    | .afterblow => ex.firstStrikerColor
    | _ => none
  { type := ex.type
    scoringSide
    scoreDelta := scoringSide.map (deltaOf deltas)
    defenderDelta :=
      if ex.type = .afterblow then scoringSide.map (deltaOf deltas.swap) else none
    round_number := some 1 }

/-- What a queued hit contributes, on the pad's own reading of the mode. -/
def localDeltas (mode : AfterblowMode) (ex : Exchange) : Option ℚ × Option ℚ :=
  match ex.type with
  | .clean => (some (ex.firstStrikeValue.getD 0), none)
  | .afterblow =>
    let deltas :=
      computeAfterblowDeltas mode (ex.firstStrikeValue.getD 0) (ex.afterblowValue.getD 0)
    (some deltas.1, some deltas.2)
  | .double => (none, none)
  | .noExchange => (none, none)

/-- A row of `pendingRowsForMatch`. -/
def pendingRow (mode : AfterblowMode) (ex : Exchange) : ExchangeRow where
  type := ex.type
  scoringSide := ex.firstStrikerColor
  scoreDelta := (localDeltas mode ex).1
  defenderDelta := (localDeltas mode ex).2
  round_number := some 1

/-- A priced card: its points are those the server stores. -/
def pricedRow {ι : Type u} (row : PenaltyRow ι) : Penalty ι where
  registration_id := row.registrationId
  score_delta := row.scoreDelta.getD 0
  voided := false
  round_number := some 1

def live (exchanges : List Exchange) : List Exchange := exchanges.filter fun ex => !ex.voided

/-! ## What a sheet adds up to -/

theorem addRow_listedRow (mode : AfterblowMode) (sum : ℚ × ℚ) (ex : Exchange) :
    addRow sum (listedRow mode ex) = sum + computeDeltas mode ex := by
  obtain ⟨type, striker, firstStrikeValue, afterblowValue, voided⟩ := ex
  cases type <;> rcases striker with _ | _ | _ <;>
    simp [addRow, listedRow, computeDeltas, deltaOf, Prod.ext_iff]

theorem addRow_pendingRow (mode : AfterblowMode) (sum : ℚ × ℚ) (ex : Exchange) :
    addRow sum (pendingRow mode ex) = sum + computeDeltas mode ex := by
  obtain ⟨type, striker, firstStrikeValue, afterblowValue, voided⟩ := ex
  cases type <;> rcases striker with _ | _ | _ <;>
    simp [addRow, pendingRow, localDeltas, computeDeltas, Prod.ext_iff]

def Tally.earned (t : Tally) : ℚ × ℚ := (t.redEarned, t.blueEarned)

theorem earned_countHit (mode : AfterblowMode) (t : Tally) (ex : Exchange) :
    Tally.earned (countHit mode t ex) = Tally.earned t + computeDeltas mode ex := by
  obtain ⟨type, striker, firstStrikeValue, afterblowValue, voided⟩ := ex
  cases type <;> rcases striker with _ | _ | _ <;>
    simp [Tally.earned, countHit, computeDeltas, Prod.ext_iff]

/-- A count that every hit moves by its own amount, over a sheet. -/
theorem foldl_add {α β M : Type*} [AddCommMonoid M] {step : α → β → α} (count : α → M)
    {amount : β → M} (h : ∀ a b, count (step a b) = count a + amount b) (l : List β) (a : α) :
    count (l.foldl step a) = count a + (l.map amount).sum := by
  induction l generalizing a with
  | nil => simp
  | cons b l ih => rw [List.foldl_cons, ih, h, List.map_cons, List.sum_cons, add_assoc]

/-- What the sides earned on a sheet. -/
def earnedOf (mode : AfterblowMode) (exchanges : List Exchange) : ℚ × ℚ :=
  ((live exchanges).map (computeDeltas mode)).sum

theorem earned_tallyOf (mode : AfterblowMode) (exchanges : List Exchange) :
    Tally.earned (tallyOf exchanges mode) = earnedOf mode exchanges := by
  rw [tallyOf, foldl_add Tally.earned (earned_countHit mode), earnedOf]
  exact zero_add _

theorem foldl_listedRow (mode : AfterblowMode) (exchanges : List Exchange) :
    (((live exchanges).map (listedRow mode)).foldl addRow (0, 0)) = earnedOf mode exchanges := by
  rw [List.foldl_map]
  exact (foldl_add id (addRow_listedRow mode) _ _).trans (zero_add _)

theorem foldl_pendingRow (mode : AfterblowMode) (exchanges : List Exchange) :
    (((live exchanges).map (pendingRow mode)).foldl addRow (0, 0)) = earnedOf mode exchanges := by
  rw [List.foldl_map]
  exact (foldl_add id (addRow_pendingRow mode) _ _).trans (zero_add _)

theorem live_append (l l' : List Exchange) : live (l ++ l') = live l ++ live l' :=
  List.filter_append l l'

theorem earnedOf_perm {mode : AfterblowMode} {sheet counted unsent : List Exchange}
    (h : sheet.Perm (counted ++ unsent)) :
    earnedOf mode sheet = earnedOf mode counted + earnedOf mode unsent := by
  have hLive : (live sheet).Perm (live counted ++ live unsent) := by
    rw [← live_append]
    exact h.filter _
  rw [earnedOf, (hLive.map _).sum_eq, List.map_append, List.sum_append, earnedOf, earnedOf]

/-! ### The doubles -/

def doublesOf (exchanges : List Exchange) : ℕ :=
  (live exchanges).countP fun ex => ex.type == .double

theorem doubles_foldl (mode : AfterblowMode) (exchanges : List Exchange) (t : Tally) :
    (exchanges.foldl (countHit mode) t).doubles =
      t.doubles + exchanges.countP fun ex => ex.type == .double := by
  have hStep : ∀ t ex, (countHit mode t ex).doubles =
      t.doubles + if ex.type == .double then 1 else 0 := by
    rintro t ⟨type, striker, firstStrikeValue, afterblowValue, voided⟩
    cases type <;> rcases striker with _ | _ | _ <;> rfl
  induction exchanges generalizing t with
  | nil => rfl
  | cons ex exchanges ih => rw [List.foldl_cons, ih, hStep, List.countP_cons]; omega

theorem doubles_tallyOf (mode : AfterblowMode) (exchanges : List Exchange) :
    (tallyOf exchanges mode).doubles = doublesOf exchanges :=
  (doubles_foldl mode _ _).trans (Nat.zero_add _)

theorem doublesOf_perm {sheet counted unsent : List Exchange}
    (h : sheet.Perm (counted ++ unsent)) :
    doublesOf sheet = doublesOf counted + doublesOf unsent := by
  have hLive : (live sheet).Perm (live counted ++ live unsent) := by
    rw [← live_append]
    exact h.filter _
  rw [doublesOf, hLive.countP_eq, List.countP_append, doublesOf, doublesOf]

theorem length_isDouble (row : Exchange → ExchangeRow) (hType : ∀ ex, (row ex).type = ex.type)
    (exchanges : List Exchange) :
    (((live exchanges).map row).filter PadSeriesArgs.isDouble).length = doublesOf exchanges := by
  rw [← List.countP_eq_length_filter, List.countP_map, doublesOf]
  refine List.countP_congr fun ex _ => ?_
  rw [Function.comp_apply, PadSeriesArgs.isDouble, hType]

/-! ### The cards -/

section Cards

variable {ι : Type u} [DecidableEq ι]

theorem cardTotal_cons (row : PenaltyRow ι) (rows : List (PenaltyRow ι)) (registrationId : ι) :
    cardTotal (row :: rows) registrationId =
      (if row.registrationId = registrationId then row.scoreDelta.getD 0 else 0) +
        cardTotal rows registrationId := by
  by_cases h : row.registrationId = registrationId
  · simp [cardTotal, h]
  · simp [cardTotal, h]

theorem addPenalty_pricedRow (red blue : ι) (sum : ℚ × ℚ) (row : PenaltyRow ι) :
    addPenalty red blue sum (pricedRow row) =
      sum + (if row.registrationId = red then row.scoreDelta.getD 0 else 0,
        if row.registrationId = blue then row.scoreDelta.getD 0 else 0) := by
  have hSide : ∀ (P : Prop) [Decidable P] (a b : ℚ),
      (if P then a + b else a) = a + if P then b else 0 := by
    intro P _ a b
    split
    · rfl
    · exact (add_zero a).symm
  exact Prod.ext (hSide _ _ _) (hSide _ _ _)

theorem foldl_pricedRow (red blue : ι) (rows : List (PenaltyRow ι)) (sum : ℚ × ℚ) :
    (rows.map pricedRow).foldl (addPenalty red blue) sum =
      sum + (cardTotal rows red, cardTotal rows blue) := by
  induction rows generalizing sum with
  | nil => exact (add_zero sum).symm
  | cons row rows ih =>
    rw [List.map_cons, List.foldl_cons, ih, addPenalty_pricedRow, cardTotal_cons, cardTotal_cons,
      add_assoc]
    rfl

theorem cardTotal_perm {sheet counted unsent : List (PenaltyRow ι)}
    (h : sheet.Perm (counted ++ unsent)) (registrationId : ι) :
    cardTotal sheet registrationId =
      cardTotal counted registrationId + cardTotal unsent registrationId := by
  rw [cardTotal, ((h.filter _).map _).sum_eq, List.filter_append, List.map_append,
    List.sum_append, cardTotal, cardTotal]

end Cards

/-! ## A split sheet -/

section Split

variable {ι : Type u} [DecidableEq ι]

/-- The score the server's recompute gives of some rows of the bout. -/
def scoreOf (bout : LoadedBout ι) (exchanges : List Exchange) (cards : List (PenaltyRow ι)) :
    MatchScore :=
  applyPenaltyDeltas
    (bout.engine.computeMatchScore bout.fight.format exchanges bout.afterblowMode bout.config)
    bout.fight cards

theorem scoreSingleFight_score (upperTrimmed : String → String) (bout : LoadedBout ι) :
    (scoreSingleFight upperTrimmed bout).score = scoreOf bout bout.exchanges bout.penaltyRows :=
  rfl

/-- A bout of one round: the rows the server has counted on its row, and those the tablet still
holds. Before the bout is scored its row is made at 0-0. -/
structure SplitBout (ι : Type u) [DecidableEq ι] where
  bout : LoadedBout ι
  engine : bout.engine = .tfV1
  bestOf : ℕ
  single : bestOf ≤ 1
  counted : List Exchange
  unsent : List Exchange
  countedCards : List (PenaltyRow ι)
  unsentCards : List (PenaltyRow ι)
  sheet : bout.exchanges.Perm (counted ++ unsent)
  cards : bout.penaltyRows.Perm (countedCards ++ unsentCards)
  server : ServerRounds
  round : server.currentRound = 1
  row : (server.redScore = (scoreOf bout counted countedCards).redScore ∧
      server.blueScore = (scoreOf bout counted countedCards).blueScore) ∨
    (counted = [] ∧ countedCards = [] ∧ server.redScore = 0 ∧ server.blueScore = 0 ∧
      server.awaitingRoundAdvance = false ∧ server.isOver = false)
  roundPresses : List RoundRow
  held : Bool

namespace SplitBout

variable (b : SplitBout ι)

def args : PadSeriesArgs ι where
  bestOf := b.bestOf
  format := b.bout.fight.format
  matchFormat := b.bout.config
  server := b.server
  redRegistrationId := b.bout.fight.redRegistrationId
  blueRegistrationId := b.bout.fight.blueRegistrationId
  exchanges := (live b.counted).map (listedRow b.bout.afterblowMode)
  penalties := b.countedCards.map pricedRow
  queued := (live b.unsent).map (pendingRow b.bout.afterblowMode)
  queuedPenalties := b.unsentCards.map pricedRow
  roundPresses := b.roundPresses
  held := b.held
  edition := b.bout.decisionEdition

/-- The pad shows what the recompute of the whole sheet gives. -/
def Agrees (upperTrimmed : String → String) : Prop :=
  let shown := padSeries upperTrimmed b.args
  let score := (scoreSingleFight upperTrimmed b.bout).score
  shown.redScore = score.redScore ∧ shown.blueScore = score.blueScore ∧
    shown.doubles = score.doubles

def earnedCounted : ℚ × ℚ := earnedOf b.bout.afterblowMode b.counted

def earnedUnsent : ℚ × ℚ := earnedOf b.bout.afterblowMode b.unsent

/-- The points earned on the server do not show in the score: there are none, or the unsent hits
alone take the other side to zero. -/
def Covered (pointCap : ℕ) (counted unsent : ℚ) : Prop :=
  counted = 0 ∨ (pointCap ≤ unsent ∧ pointCap ≤ counted + unsent)

/-- A row of 0-0 on a bout that counts down and is in play: both sides earned the cap, or what
they earned does not show. -/
def Readable : Prop :=
  b.bout.config.scoringDirection = .reverseZeroLoses → b.server.awaitingRoundAdvance = false →
    b.server.isOver = false → b.server.redScore = 0 → b.server.blueScore = 0 →
    (b.bout.config.pointCap ≤ b.earnedCounted.1 ∧ b.bout.config.pointCap ≤ b.earnedCounted.2) ∨
      (Covered b.bout.config.pointCap b.earnedCounted.1 b.earnedUnsent.1 ∧
        Covered b.bout.config.pointCap b.earnedCounted.2 b.earnedUnsent.2)

/-- The sheet stays below the doubles ceiling. -/
def BelowCeiling : Prop :=
  ∀ maxDoubles, getEffectiveMaxDoubles b.bout.fight.format b.bout.config = some maxDoubles →
    (tallyOf b.bout.exchanges b.bout.afterblowMode).doubles < maxDoubles

/-- Neither side earned more than the cap on what the server counted. -/
def WithinCap : Prop :=
  b.earnedCounted.1 ≤ b.bout.config.pointCap ∧ b.earnedCounted.2 ≤ b.bout.config.pointCap

end SplitBout

/-! ### The server's side -/

theorem scoreOf_eq {bout : LoadedBout ι} (hEngine : bout.engine = .tfV1)
    {exchanges : List Exchange} (cards : List (PenaltyRow ι))
    (hBelow : ∀ maxDoubles, getEffectiveMaxDoubles bout.fight.format bout.config =
      some maxDoubles → doublesOf exchanges < maxDoubles) :
    (scoreOf bout exchanges cards).redScore =
        (applyScoringDirection bout.config (earnedOf bout.afterblowMode exchanges).1
          (earnedOf bout.afterblowMode exchanges).2).1 +
            cardTotal cards bout.fight.redRegistrationId ∧
      (scoreOf bout exchanges cards).blueScore =
        (applyScoringDirection bout.config (earnedOf bout.afterblowMode exchanges).1
          (earnedOf bout.afterblowMode exchanges).2).2 +
            cardTotal cards bout.fight.blueRegistrationId ∧
      (scoreOf bout exchanges cards).doubles = doublesOf exchanges := by
  have hEarned := earned_tallyOf bout.afterblowMode exchanges
  have hDoubles := doubles_tallyOf bout.afterblowMode exchanges
  obtain ⟨hRed, hBlue, hCount⟩ := applyPenaltyDeltas_scores bout.fight cards
    (bout.engine.computeMatchScore bout.fight.format exchanges bout.afterblowMode bout.config)
  rw [scoreOf, hRed, hBlue, hCount, hEngine, Engine.computeMatchScore, computeMatchFormatScore,
    if_neg, ← hEarned]
  · exact ⟨rfl, rfl, hDoubles⟩
  · rw [hDoubles]
    split
    · rename_i maxDoubles hMax
      have hLt := hBelow maxDoubles hMax
      simp [Nat.not_le.mpr hLt]
    · exact Bool.false_ne_true

namespace SplitBout

variable {b : SplitBout ι}

theorem below_counted (h : b.BelowCeiling) : ∀ maxDoubles,
    getEffectiveMaxDoubles b.bout.fight.format b.bout.config = some maxDoubles →
      doublesOf b.counted < maxDoubles := by
  intro maxDoubles hMax
  have hLt := h maxDoubles hMax
  rw [doubles_tallyOf, doublesOf_perm b.sheet] at hLt
  exact Nat.lt_of_le_of_lt (Nat.le_add_right _ _) hLt

/-! ### The pad's side -/

theorem sum_cards (rows : List (PenaltyRow ι)) : b.args.sum [] (rows.map pricedRow) =
    (cardTotal rows b.bout.fight.redRegistrationId,
      cardTotal rows b.bout.fight.blueRegistrationId) :=
  (foldl_pricedRow _ _ rows _).trans (zero_add _)

theorem sum_unsent : b.args.sum b.args.queued [] = b.earnedUnsent := foldl_pendingRow _ _

theorem sum_counted : b.args.sum b.args.exchanges [] = b.earnedCounted := foldl_listedRow _ _

/-- What the cards counted on the server's row add to each side. -/
def carded (b : SplitBout ι) : ℚ × ℚ :=
  (cardTotal b.countedCards b.bout.fight.redRegistrationId,
    cardTotal b.countedCards b.bout.fight.blueRegistrationId)

def uncarded (b : SplitBout ι) : ℚ × ℚ :=
  (cardTotal b.unsentCards b.bout.fight.redRegistrationId,
    cardTotal b.unsentCards b.bout.fight.blueRegistrationId)

def earnedOnPad (b : SplitBout ι) : ℚ × ℚ := b.args.earnedOnServer b.args.serverScore b.carded

theorem shown_eq (upperTrimmed : String → String) :
    (padSeries upperTrimmed b.args).redScore =
        (applyScoringDirection b.bout.config (b.earnedOnPad.1 + b.earnedUnsent.1)
          (b.earnedOnPad.2 + b.earnedUnsent.2)).1 + b.carded.1 + b.uncarded.1 ∧
      (padSeries upperTrimmed b.args).blueScore =
        (applyScoringDirection b.bout.config (b.earnedOnPad.1 + b.earnedUnsent.1)
          (b.earnedOnPad.2 + b.earnedUnsent.2)).2 + b.carded.2 + b.uncarded.2 ∧
      (padSeries upperTrimmed b.args).doubles = doublesOf b.counted + doublesOf b.unsent := by
  have hCounted : b.args.sum [] b.args.penalties = b.carded := sum_cards b.countedCards
  have hUnsent : b.args.sum [] b.args.queuedPenalties = b.uncarded := sum_cards b.unsentCards
  have hSingle : b.args.bestOf ≤ 1 := b.single
  rw [padSeries, if_pos hSingle, PadSeriesArgs.singleRound, PadSeriesArgs.standing]
  simp only [PadSeriesArgs.scoreOnPad, hCounted, hUnsent, sum_unsent]
  refine ⟨rfl, rfl, ?_⟩
  exact congrArg₂ (· + ·) (length_isDouble _ (fun _ => rfl) _) (length_isDouble _ (fun _ => rfl) _)

theorem whole_eq (upperTrimmed : String → String) (h : b.BelowCeiling) :
    (scoreSingleFight upperTrimmed b.bout).score.redScore =
        (applyScoringDirection b.bout.config (b.earnedCounted.1 + b.earnedUnsent.1)
          (b.earnedCounted.2 + b.earnedUnsent.2)).1 + b.carded.1 + b.uncarded.1 ∧
      (scoreSingleFight upperTrimmed b.bout).score.blueScore =
        (applyScoringDirection b.bout.config (b.earnedCounted.1 + b.earnedUnsent.1)
          (b.earnedCounted.2 + b.earnedUnsent.2)).2 + b.carded.2 + b.uncarded.2 ∧
      (scoreSingleFight upperTrimmed b.bout).score.doubles =
        doublesOf b.counted + doublesOf b.unsent := by
  have hBelow : ∀ maxDoubles, getEffectiveMaxDoubles b.bout.fight.format b.bout.config =
      some maxDoubles → doublesOf b.bout.exchanges < maxDoubles := by
    intro maxDoubles hMax
    rw [← doubles_tallyOf b.bout.afterblowMode]
    exact h maxDoubles hMax
  obtain ⟨hRed, hBlue, hDoubles⟩ := scoreOf_eq b.engine b.bout.penaltyRows hBelow
  rw [scoreSingleFight_score, hRed, hBlue, hDoubles, earnedOf_perm b.sheet, cardTotal_perm b.cards,
    cardTotal_perm b.cards, doublesOf_perm b.sheet]
  exact ⟨(add_assoc _ _ _).symm, (add_assoc _ _ _).symm, rfl⟩

/-! ### What the row is read as -/

/-- A row of 0-0, of a bout that counts down and is in play. -/
def ReadsZero (b : SplitBout ι) : Prop :=
  b.bout.config.scoringDirection = .reverseZeroLoses ∧ b.server.awaitingRoundAdvance = false ∧
    b.server.isOver = false ∧ b.server.redScore = 0 ∧ b.server.blueScore = 0

def BothOut (b : SplitBout ι) : Prop :=
  b.bout.config.pointCap ≤ b.earnedCounted.1 ∧ b.bout.config.pointCap ≤ b.earnedCounted.2

theorem readable_iff : b.Readable ↔ (b.ReadsZero → b.BothOut ∨
    (Covered b.bout.config.pointCap b.earnedCounted.1 b.earnedUnsent.1 ∧
      Covered b.bout.config.pointCap b.earnedCounted.2 b.earnedUnsent.2)) :=
  ⟨fun h ⟨hDown, hAwait, hOver, hRed, hBlue⟩ => h hDown hAwait hOver hRed hBlue,
    fun h hDown hAwait hOver hRed hBlue => h ⟨hDown, hAwait, hOver, hRed, hBlue⟩⟩

theorem listed_eq : (b.args.exchanges.filter fun row =>
    row.round_number.getD 1 = b.args.server.currentRound) = b.args.exchanges := by
  refine List.filter_eq_self.mpr fun row hRow => ?_
  obtain ⟨ex, -, rfl⟩ := List.mem_map.mp hRow
  exact decide_eq_true b.round.symm

theorem serverScore_of_not_readsZero (h : ¬ b.ReadsZero) :
    b.args.serverScore = some (b.server.redScore, b.server.blueScore) := by
  rw [PadSeriesArgs.serverScore]
  by_cases hPlay : (!b.args.countsDown || b.args.server.awaitingRoundAdvance ||
      b.args.server.isOver) = true
  · exact if_pos hPlay
  · dsimp only
    rw [if_neg hPlay]
    refine if_pos (not_and_or.mp fun hZero => h ?_)
    obtain ⟨hDown, hOver⟩ := not_or.mp (mt Bool.or_eq_true_iff.mpr hPlay)
    obtain ⟨hDown, hAwait⟩ := not_or.mp (mt Bool.or_eq_true_iff.mpr hDown)
    have hCounts : b.args.countsDown = true := by simpa using hDown
    exact ⟨beq_iff_eq.mp hCounts, Bool.eq_false_of_not_eq_true hAwait,
      Bool.eq_false_of_not_eq_true hOver, hZero⟩

theorem wiped_eq_false (h : b.BelowCeiling) : b.args.wiped b.args.exchanges = false := by
  rw [PadSeriesArgs.wiped]
  split
  · rename_i limit hLimit
    have hLength : (b.args.exchanges.filter PadSeriesArgs.isDouble).length =
        doublesOf b.counted := length_isDouble _ (fun _ => rfl) _
    have hLt := below_counted h limit hLimit
    rw [hLength, decide_eq_false (Nat.not_le.mpr hLt), Bool.and_false]
  · rfl

theorem serverScore_of_readsZero (hZero : b.ReadsZero) (h : b.BelowCeiling) [Decidable b.BothOut] :
    b.args.serverScore =
      if b.BothOut then some (b.server.redScore, b.server.blueScore) else none := by
  obtain ⟨hDown, hAwait, hOver, hRed, hBlue⟩ := hZero
  have hPlay : ¬ (!b.args.countsDown || b.args.server.awaitingRoundAdvance ||
      b.args.server.isOver) = true := by
    have hCounts : b.args.countsDown = true := beq_iff_eq.mpr hDown
    have hAwait' : b.args.server.awaitingRoundAdvance = false := hAwait
    have hOver' : b.args.server.isOver = false := hOver
    rw [hCounts, hAwait', hOver']
    decide
  have hScored : ¬ (b.args.server.redScore ≠ 0 ∨ b.args.server.blueScore ≠ 0) :=
    not_or.mpr ⟨not_not.mpr hRed, not_not.mpr hBlue⟩
  rw [PadSeriesArgs.serverScore]
  dsimp only
  rw [if_neg hPlay, if_neg hScored, listed_eq, sum_counted, wiped_eq_false h, Bool.or_false]
  refine ite_congr (propext ?_) (fun _ => rfl) fun _ => rfl
  rw [Bool.and_eq_true, decide_eq_true_eq, decide_eq_true_eq]
  exact Iff.rfl

/-- A row the server has counted is turned back into what was earned. -/
theorem earnedOnServer_row (hCap : b.WithinCap) (h : b.BelowCeiling)
    (hRow : b.server.redScore = (scoreOf b.bout b.counted b.countedCards).redScore ∧
      b.server.blueScore = (scoreOf b.bout b.counted b.countedCards).blueScore) :
    b.args.earnedOnServer (some (b.server.redScore, b.server.blueScore)) b.carded =
      b.earnedCounted := by
  obtain ⟨hRed, hBlue, -⟩ := scoreOf_eq b.engine b.countedCards (below_counted h)
  rw [hRow.1, hRow.2, hRed, hBlue, PadSeriesArgs.earnedOnServer]
  dsimp only [carded]
  rw [add_sub_cancel_right, add_sub_cancel_right, applyScoringDirection]
  by_cases hDown : b.bout.config.scoringDirection = .reverseZeroLoses
  · have hCounts : b.args.countsDown = true := beq_iff_eq.mpr hDown
    rw [if_pos hCounts, if_neg (not_not.mpr hDown)]
    have hRedCap : max 0 ((b.bout.config.pointCap : ℚ) - b.earnedCounted.1) =
        b.bout.config.pointCap - b.earnedCounted.1 := max_eq_right (sub_nonneg.mpr hCap.1)
    have hBlueCap : max 0 ((b.bout.config.pointCap : ℚ) - b.earnedCounted.2) =
        b.bout.config.pointCap - b.earnedCounted.2 := max_eq_right (sub_nonneg.mpr hCap.2)
    dsimp only
    change ((b.bout.config.pointCap : ℚ) - max 0 (b.bout.config.pointCap - b.earnedCounted.1),
      (b.bout.config.pointCap : ℚ) - max 0 (b.bout.config.pointCap - b.earnedCounted.2)) = _
    rw [hRedCap, hBlueCap, sub_sub_cancel, sub_sub_cancel]
  · have hCounts : ¬ b.args.countsDown = true := fun hTrue => hDown (beq_iff_eq.mp hTrue)
    rw [if_neg hCounts, if_pos hDown]
    rfl

/-- A row made at 0-0 and read so is the score of an empty sheet. -/
theorem row_counted (h : b.BelowCeiling) (hRead : ¬ b.ReadsZero ∨ b.BothOut) :
    b.server.redScore = (scoreOf b.bout b.counted b.countedCards).redScore ∧
      b.server.blueScore = (scoreOf b.bout b.counted b.countedCards).blueScore := by
  rcases b.row with hRow | ⟨hCounted, hCards, hRed, hBlue, hAwait, hOver⟩
  · exact hRow
  · obtain ⟨hRedScore, hBlueScore, -⟩ := scoreOf_eq b.engine b.countedCards (below_counted h)
    have hNothing : b.earnedCounted = (0, 0) := by
      rw [earnedCounted, hCounted]
      rfl
    have hEarned : earnedOf b.bout.afterblowMode b.counted = (0, 0) := hNothing
    have hNone : ∀ registrationId, cardTotal b.countedCards registrationId = 0 := by
      intro registrationId
      rw [hCards]
      rfl
    have hZero : applyScoringDirection b.bout.config 0 0 = (0, 0) := by
      rw [applyScoringDirection]
      split_ifs with hDown
      · rfl
      · have hOut : b.BothOut := hRead.resolve_left
          (not_not.mpr ⟨not_not.mp hDown, hAwait, hOver, hRed, hBlue⟩)
        rw [BothOut, hNothing] at hOut
        rw [sub_zero, max_eq_left hOut.1]
    rw [hRedScore, hBlueScore, hEarned, hNone, hNone, hRed, hBlue, hZero]
    exact ⟨(add_zero _).symm, (add_zero _).symm⟩

theorem covered_iff (pointCap : ℕ) (counted unsent : ℚ) :
    max 0 ((pointCap : ℚ) - (0 + unsent)) = max 0 ((pointCap : ℚ) - (counted + unsent)) ↔
      Covered pointCap counted unsent := by
  rw [zero_add, Covered]
  constructor
  · intro hEq
    by_cases hUnsent : (pointCap : ℚ) ≤ unsent
    · rw [max_eq_left (sub_nonpos.mpr hUnsent), eq_comm, max_eq_left_iff, sub_nonpos] at hEq
      exact Or.inr ⟨hUnsent, hEq⟩
    · have hPos : 0 < (pointCap : ℚ) - unsent := sub_pos.mpr (not_le.mp hUnsent)
      rw [max_eq_right hPos.le] at hEq
      rw [hEq, lt_max_iff] at hPos
      have hSum := hPos.resolve_left (lt_irrefl 0)
      rw [max_eq_right hSum.le] at hEq
      exact Or.inl (by linarith)
  · rintro (rfl | ⟨hUnsent, hSum⟩)
    · rw [zero_add]
    · rw [max_eq_left (sub_nonpos.mpr hUnsent), max_eq_left (sub_nonpos.mpr hSum)]

theorem agrees_of_earned (upperTrimmed : String → String) (h : b.BelowCeiling) :
    b.Agrees upperTrimmed ↔
      applyScoringDirection b.bout.config (b.earnedOnPad.1 + b.earnedUnsent.1)
          (b.earnedOnPad.2 + b.earnedUnsent.2) =
        applyScoringDirection b.bout.config (b.earnedCounted.1 + b.earnedUnsent.1)
          (b.earnedCounted.2 + b.earnedUnsent.2) := by
  obtain ⟨hRed, hBlue, hDoubles⟩ := shown_eq (b := b) upperTrimmed
  obtain ⟨hRed', hBlue', hDoubles'⟩ := whole_eq upperTrimmed h
  rw [Agrees, hRed, hBlue, hDoubles, hRed', hBlue', hDoubles', add_left_inj, add_left_inj, add_left_inj,
    add_left_inj, Prod.ext_iff]
  exact ⟨fun hAgree => ⟨hAgree.1, hAgree.2.1⟩, fun hEq => ⟨hEq.1, hEq.2, rfl⟩⟩

theorem earnedOnPad_of_row (hCap : b.WithinCap) (h : b.BelowCeiling)
    (hRead : ¬ b.ReadsZero ∨ b.BothOut) : b.earnedOnPad = b.earnedCounted := by
  classical
  have hScore : b.args.serverScore = some (b.server.redScore, b.server.blueScore) := by
    by_cases hZero : b.ReadsZero
    · rw [serverScore_of_readsZero hZero h, if_pos (hRead.resolve_left (not_not.mpr hZero))]
    · exact serverScore_of_not_readsZero hZero
  rw [earnedOnPad, hScore]
  exact earnedOnServer_row hCap h (row_counted h hRead)

end SplitBout

/-- The pad shows the score and the doubles of the whole sheet, unless it reads a real row of 0-0
as not scored and points earned on the server then show. -/
theorem padSeries_agrees_iff (upperTrimmed : String → String) {b : SplitBout ι}
    (hCap : b.WithinCap) (hBelow : b.BelowCeiling) : b.Agrees upperTrimmed ↔ b.Readable := by
  classical
  rw [SplitBout.agrees_of_earned upperTrimmed hBelow, SplitBout.readable_iff]
  by_cases hRead : ¬ b.ReadsZero ∨ b.BothOut
  · rw [SplitBout.earnedOnPad_of_row hCap hBelow hRead]
    exact iff_of_true rfl fun hZero => Or.inl (hRead.resolve_left (not_not.mpr hZero))
  · obtain ⟨hZero, hOut⟩ := not_or.mp hRead
    have hZero : b.ReadsZero := not_not.mp hZero
    have hDown : ¬ b.bout.config.scoringDirection ≠ .reverseZeroLoses := not_not.mpr hZero.1
    have hNone : b.earnedOnPad = (0, 0) := by
      rw [SplitBout.earnedOnPad, SplitBout.serverScore_of_readsZero hZero hBelow, if_neg hOut]
      rfl
    rw [hNone, applyScoringDirection, applyScoringDirection, if_neg hDown, if_neg hDown,
      Prod.mk.injEq, SplitBout.covered_iff, SplitBout.covered_iff, and_comm]
    exact ⟨fun h _ => Or.inr h, fun h => (h hZero).resolve_left hOut⟩

/-! ### Two bouts -/

/-- A bracket bout that counts down from five. -/
def countdownBout (exchanges : List Exchange) (cards : List (PenaltyRow ℕ)) : LoadedBout ℕ where
  fight := ⟨1, 2, red_ne_blue, .running, ⟨some .singleElim, none⟩⟩
  engine := .tfV1
  decisionEdition := .edition2026_10
  config :=
    ⟨5, .reverseZeroLoses, none, .drawZeroScores, ⟨[.draw], none, [.suddenDeath], [.suddenDeath]⟩⟩
  afterblowMode := .full
  exchanges
  penaltyRows := cards

def cleanHit (color : Color) (value : ℚ) : Exchange := ⟨.clean, some color, some value, none, false⟩

def serverRow (redScore blueScore : ℚ) : ServerRounds := ⟨1, false, false, [], redScore, blueScore⟩

/-- Two points of red are counted, three of blue wait on the tablet. -/
def oneHitAhead : SplitBout ℕ where
  bout := countdownBout [cleanHit .red 2, cleanHit .blue 3] []
  engine := rfl
  bestOf := 1
  single := Nat.le_refl 1
  counted := [cleanHit .red 2]
  unsent := [cleanHit .blue 3]
  countedCards := []
  unsentCards := []
  sheet := .refl _
  cards := .refl _
  server := serverRow 5 3
  round := rfl
  row := by decide +kernel
  roundPresses := []
  held := false

theorem padSeries_agrees_oneHitAhead : oneHitAhead.Agrees id :=
  (padSeries_agrees_iff id (b := oneHitAhead)
    ⟨by decide +kernel, by decide +kernel⟩ nofun).mpr fun _ _ _ hRed => by
      have hFive : oneHitAhead.server.redScore = 5 := rfl
      rw [hFive] at hRed
      exact absurd hRed (by decide)

/-- Both fighters carded by two, then three points each on one afterblow. -/
def cardedToZero : SplitBout ℕ where
  bout := countdownBout [⟨.afterblow, some .red, some 3, some 3, false⟩]
    [⟨some (-2), 1⟩, ⟨some (-2), 2⟩]
  engine := rfl
  bestOf := 1
  single := Nat.le_refl 1
  counted := [⟨.afterblow, some .red, some 3, some 3, false⟩]
  unsent := []
  countedCards := [⟨some (-2), 1⟩, ⟨some (-2), 2⟩]
  unsentCards := []
  sheet := .refl _
  cards := .refl _
  server := serverRow 0 0
  round := rfl
  row := by decide +kernel
  roundPresses := []
  held := false

/-- The server's score is 0-0, and the pad shows 3-3. -/
theorem padSeries_disagrees_cardedToZero : cardedToZero.WithinCap ∧ cardedToZero.BelowCeiling ∧
    ((scoreSingleFight id cardedToZero.bout).score.redScore,
      (scoreSingleFight id cardedToZero.bout).score.blueScore) = (0, 0) ∧
    ((padSeries id cardedToZero.args).redScore, (padSeries id cardedToZero.args).blueScore) =
      (3, 3) ∧ ¬ cardedToZero.Agrees id := by
  have hServer : ((scoreSingleFight id cardedToZero.bout).score.redScore,
      (scoreSingleFight id cardedToZero.bout).score.blueScore) = (0, 0) := by
    decide +kernel
  have hPad : ((padSeries id cardedToZero.args).redScore,
      (padSeries id cardedToZero.args).blueScore) = (3, 3) := by
    decide +kernel
  refine ⟨⟨by decide +kernel, by decide +kernel⟩, nofun, hServer, hPad, fun hAgrees => ?_⟩
  have hRed : (3 : ℚ) = 0 :=
    (congrArg Prod.fst hPad).symm.trans (hAgrees.1.trans (congrArg Prod.fst hServer))
  exact absurd hRed (by decide)

end Split

end MyClash.Pad
