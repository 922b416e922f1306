import MyClash.Standings.Aggregates
import Mathlib.Data.List.Induction
import Mathlib.Tactic.Ring

/-!
# Three readers of a finished bout

The W, L and D columns, the win of the aggregates and the outcome behind the Swiss points, each
read from the same row.
-/

namespace MyClash.Standings

universe u

open MatchFormat

/-- A completed bout between two entrants, with its exchanges. -/
structure CompletedBout (ι : Type u) where
  redRegistrationId : ι
  blueRegistrationId : ι
  redScore : Option ℚ
  blueScore : Option ℚ
  winnerRegistrationId : Option ι
  endReason : Option String
  exchanges : List Exchange

structure FighterStats where
  wins : ℕ
  losses : ℕ
  draws : ℕ
  ptsScored : ℚ
  ptsConceded : ℚ
  aggregates : FighterAggregates

def FighterStats.empty : FighterStats := ⟨0, 0, 0, 0, 0, .zero⟩

def FighterStats.scored (s : FighterStats) (pts conceded : ℚ) : FighterStats :=
  { s with ptsScored := s.ptsScored + pts, ptsConceded := s.ptsConceded + conceded }

/-- `COLUMN_FOR`: the column an outcome is counted in. -/
def FighterStats.column (s : FighterStats) : BoutOutcome → FighterStats
  | .win => { s with wins := s.wins + 1 }
  | .loss => { s with losses := s.losses + 1 }
  | .draw => { s with draws := s.draws + 1 }

def FighterStats.aggregate (s : FighterStats) (a : FighterAggregates) : FighterStats :=
  { s with aggregates := s.aggregates.add a }

variable {ι : Type u} [DecidableEq ι]

/-- The outcomes the W, L and D columns count. -/
def columnOutcomes (m : CompletedBout ι) : BoutOutcome × BoutOutcome :=
  boutOutcomes
    { winnerRegistrationId := m.winnerRegistrationId
      redRegistrationId := some m.redRegistrationId
      blueRegistrationId := some m.blueRegistrationId
      redScore := some (m.redScore.getD 0)
      blueScore := some (m.blueScore.getD 0)
      endReason := m.endReason }

/-- The win the aggregate passes to the score formula. -/
def isWinner (m : CompletedBout ι) (regId : ι) : Bool := m.winnerRegistrationId == some regId

def aggregatesOf (mode : AfterblowMode) (m : CompletedBout ι) (regId : ι) : FighterAggregates :=
  computeAggregates regId m.redRegistrationId m.exchanges (isWinner m regId) mode

def modify (stats : ι → FighterStats) (regId : ι) (f : FighterStats → FighterStats) :
    ι → FighterStats :=
  Function.update stats regId (f (stats regId))

/-- One bout in the loop of `computeStandingsRows`. -/
def countBout (members : List ι) (mode : AfterblowMode) (stats : ι → FighterStats)
    (m : CompletedBout ι) : ι → FighterStats :=
  if m.redRegistrationId ∉ members ∨ m.blueRegistrationId ∉ members then stats
  else
    let rs := m.redScore.getD 0
    let bs := m.blueScore.getD 0
    let stats := modify stats m.redRegistrationId (·.scored rs bs)
    let stats := modify stats m.blueRegistrationId (·.scored bs rs)
    let stats := modify stats m.redRegistrationId (·.column (columnOutcomes m).1)
    let stats := modify stats m.blueRegistrationId (·.column (columnOutcomes m).2)
    let stats :=
      modify stats m.redRegistrationId (·.aggregate (aggregatesOf mode m m.redRegistrationId))
    modify stats m.blueRegistrationId (·.aggregate (aggregatesOf mode m m.blueRegistrationId))

def computeStandingsStats (members : List ι) (mode : AfterblowMode)
    (completedMatches : List (CompletedBout ι)) : ι → FighterStats :=
  completedMatches.foldl (countBout members mode) fun _ => .empty

/-- The outcomes of red and blue in the Swiss standings. -/
def outcomes (m : CompletedBout ι) : BoutOutcome × BoutOutcome :=
  if m.endReason = some "max_doubles" then (.loss, .loss)
  else if m.winnerRegistrationId = none then (.draw, .draw)
  else if m.winnerRegistrationId = some m.redRegistrationId then (.win, .loss)
  else (.loss, .win)

structure SwissPoints where
  win : ℚ
  draw : ℚ
  loss : ℚ
  bye : ℚ

def SwissPoints.of (points : SwissPoints) : BoutOutcome → ℚ
  | .win => points.win
  | .draw => points.draw
  | .loss => points.loss

structure SwissResultRecord (ι : Type u) where
  swissPts : ℚ
  bouts : List (ι × BoutOutcome)

def SwissResultRecord.push (points : SwissPoints) (record : SwissResultRecord ι) (opponentId : ι)
    (outcome : BoutOutcome) : SwissResultRecord ι where
  swissPts := record.swissPts + points.of outcome
  bouts := record.bouts ++ [(opponentId, outcome)]

/-- One bout in the loop of `swissRecords`: a side that is no entrant has no record. -/
def recordBout (entrants : List ι) (points : SwissPoints) (records : ι → SwissResultRecord ι)
    (m : CompletedBout ι) : ι → SwissResultRecord ι :=
  let records :=
    if m.redRegistrationId ∈ entrants then
      Function.update records m.redRegistrationId
        ((records m.redRegistrationId).push points m.blueRegistrationId (outcomes m).1)
    else records
  if m.blueRegistrationId ∈ entrants then
    Function.update records m.blueRegistrationId
      ((records m.blueRegistrationId).push points m.redRegistrationId (outcomes m).2)
  else records

/-- `byes` is the bye of each round that has one. -/
def swissRecords (entrants : List ι) (points : SwissPoints) (byes : List ι)
    (matches_ : List (CompletedBout ι)) : ι → SwissResultRecord ι :=
  matches_.foldl (recordBout entrants points) fun id =>
    ⟨if id ∈ entrants then byes.count id * points.bye else 0, []⟩

/-- The three readers name one outcome of the bout. -/
def SameOutcome (m : CompletedBout ι) : Prop :=
  outcomes m = columnOutcomes m ∧
    (isWinner m m.redRegistrationId ↔ (columnOutcomes m).1 = .win) ∧
    (isWinner m m.blueRegistrationId ↔ (columnOutcomes m).2 = .win)

instance (m : CompletedBout ι) : Decidable (SameOutcome m) :=
  inferInstanceAs (Decidable (_ ∧ _ ∧ _))

/-- A double loss names neither fighter; a bout with no stored winner is level on the board; a
stored winner is one of two fighters. -/
def Recorded (m : CompletedBout ι) : Prop :=
  if m.endReason = some "max_doubles" then
    m.winnerRegistrationId ≠ some m.redRegistrationId ∧
      m.winnerRegistrationId ≠ some m.blueRegistrationId
  else
    match m.winnerRegistrationId with
    | none => m.redScore.getD 0 = m.blueScore.getD 0
    | some winner =>
      m.redRegistrationId ≠ m.blueRegistrationId ∧
        (winner = m.redRegistrationId ∨ winner = m.blueRegistrationId)

theorem columnOutcomes_of_winner {m : CompletedBout ι} {winner : ι}
    (hReason : m.endReason ≠ some "max_doubles") (hWinner : m.winnerRegistrationId = some winner) :
    columnOutcomes m =
      if winner = m.redRegistrationId then (.win, .loss)
      else if winner = m.blueRegistrationId then (.loss, .win)
      else (.draw, .draw) := by
  simp only [columnOutcomes, boutOutcomes, isDoubleLossBout, winnerColorFrom, hWinner,
    Option.some.injEq, beq_iff_eq, if_neg hReason]
  split_ifs <;> rfl

theorem columnOutcomes_of_none {m : CompletedBout ι} (hReason : m.endReason ≠ some "max_doubles")
    (hWinner : m.winnerRegistrationId = none) :
    columnOutcomes m =
      match leadingColor (m.redScore.getD 0) (m.blueScore.getD 0) with
      | some .red => (.win, .loss)
      | some .blue => (.loss, .win)
      | none => (.draw, .draw) := by
  rcases hColor : leadingColor (m.redScore.getD 0) (m.blueScore.getD 0) with _ | _ | _ <;>
    simp [columnOutcomes, boutOutcomes, isDoubleLossBout, winnerColorFrom, hWinner, hReason, hColor]

theorem sameOutcome_iff (m : CompletedBout ι) : SameOutcome m ↔ Recorded m := by
  unfold SameOutcome Recorded
  by_cases hReason : m.endReason = some "max_doubles"
  · have hColumns : columnOutcomes m = (.loss, .loss) := by
      simp [columnOutcomes, boutOutcomes, isDoubleLossBout, hReason]
    simp [outcomes, hColumns, hReason, isWinner]
  · rw [if_neg hReason]
    cases hWinner : m.winnerRegistrationId with
    | none =>
      rw [columnOutcomes_of_none hReason hWinner, ← leadingColor_eq_none]
      cases hLeader : leadingColor (m.redScore.getD 0) (m.blueScore.getD 0) with
      | none => simp [outcomes, hReason, hWinner, isWinner]
      | some color => cases color <;> simp [outcomes, hReason, hWinner, isWinner]
    | some winner =>
      rw [columnOutcomes_of_winner hReason hWinner]
      by_cases hRed : winner = m.redRegistrationId
      · simp [outcomes, hReason, hWinner, isWinner, hRed]
      · by_cases hBlue : winner = m.blueRegistrationId
        · simp [outcomes, hReason, hWinner, isWinner, hBlue]
          grind
        · simp [outcomes, hReason, hWinner, isWinner, hRed, hBlue]

/-! ## The columns over a list of bouts -/

theorem modify_apply (stats : ι → FighterStats) (regId id : ι) (f : FighterStats → FighterStats) :
    modify stats regId f id = if id = regId then f (stats id) else stats id := by
  rw [modify, Function.update_apply]
  split_ifs with h
  · rw [h]
  · rfl

/-- What a row of the W, L and D columns, its aggregate and its Swiss record say together. -/
structure Tied (points : SwissPoints) (start : ℚ) (s : FighterStats) (r : SwissResultRecord ι) :
    Prop where
  aggregates_wins : s.aggregates.wins = s.wins
  wins : (r.bouts.map Prod.snd).count .win = s.wins
  losses : (r.bouts.map Prod.snd).count .loss = s.losses
  draws : (r.bouts.map Prod.snd).count .draw = s.draws
  swissPts : r.swissPts =
    start + s.wins * points.win + s.draws * points.draw + s.losses * points.loss

section Side

omit [DecidableEq ι]

variable {points : SwissPoints} {start : ℚ} {s : FighterStats} {r : SwissResultRecord ι}

theorem Tied.scored (h : Tied points start s r) (pts conceded : ℚ) :
    Tied points start (s.scored pts conceded) r := ⟨h.1, h.2, h.3, h.4, h.5⟩

/-- One side of a bout, counted by all three readers. -/
theorem Tied.side (h : Tied points start s r) {outcome : BoutOutcome} {a : FighterAggregates}
    (hWins : a.wins = (decide (outcome = .win)).toNat) (opponentId : ι) :
    Tied points start ((s.column outcome).aggregate a) (r.push points opponentId outcome) := by
  obtain ⟨hAggregates, hWin, hLoss, hDraw, hPts⟩ := h
  cases outcome <;>
    constructor <;>
    simp_all [FighterStats.column, FighterStats.aggregate, SwissResultRecord.push,
      SwissPoints.of] <;>
    ring

theorem aggregate_column (s : FighterStats) (a : FighterAggregates) (outcome : BoutOutcome) :
    (s.aggregate a).column outcome = (s.column outcome).aggregate a := by
  cases outcome <;> rfl

end Side

variable {members : List ι} {mode : AfterblowMode} {points : SwissPoints} {m : CompletedBout ι}

theorem aggregatesOf_wins (mode : AfterblowMode) {outcome : BoutOutcome} {regId : ι}
    (h : isWinner m regId ↔ outcome = .win) :
    (aggregatesOf mode m regId).wins = (decide (outcome = .win)).toNat := by
  rw [aggregatesOf, computeAggregates_wins]
  congr 1
  exact Bool.eq_iff_iff.mpr (h.trans decide_eq_true_iff.symm)

theorem tied_countBout {stats : ι → FighterStats} {records : ι → SwissResultRecord ι} {start : ℚ}
    (hRed : m.redRegistrationId ∈ members) (hBlue : m.blueRegistrationId ∈ members)
    (hSame : SameOutcome m) {id : ι} (h : Tied points start (stats id) (records id)) :
    Tied points start (countBout members mode stats m id)
      (recordBout members points records m id) := by
  obtain ⟨hOutcomes, hRedWins, hBlueWins⟩ := hSame
  have hRedSide := aggregatesOf_wins mode hRedWins
  have hBlueSide := aggregatesOf_wins mode hBlueWins
  rw [countBout, if_neg (by simp [hRed, hBlue]), recordBout, if_pos hBlue, if_pos hRed, hOutcomes]
  simp only [modify_apply, Function.update_apply]
  by_cases hIdRed : id = m.redRegistrationId
  · by_cases hIdBlue : id = m.blueRegistrationId
    · have hEq : m.blueRegistrationId = m.redRegistrationId := hIdBlue.symm.trans hIdRed
      subst hIdRed
      have hBoth := (((h.scored (m.redScore.getD 0) (m.blueScore.getD 0)).scored
        (m.blueScore.getD 0) (m.redScore.getD 0)).side hRedSide m.blueRegistrationId).side
        hBlueSide m.redRegistrationId
      simpa [hEq, aggregate_column] using hBoth
    · subst hIdRed
      have hOne := (h.scored (m.redScore.getD 0) (m.blueScore.getD 0)).side hRedSide
        m.blueRegistrationId
      simpa [hIdBlue] using hOne
  · by_cases hIdBlue : id = m.blueRegistrationId
    · subst hIdBlue
      have hOne := (h.scored (m.blueScore.getD 0) (m.redScore.getD 0)).side hBlueSide
        m.redRegistrationId
      simpa [hIdRed] using hOne
    · simpa [hIdRed, hIdBlue] using h

/-- Where every bout is recorded, a fighter's columns, aggregate and Swiss record say one thing. -/
theorem tied_of_recorded {bouts : List (CompletedBout ι)} {byes : List ι}
    (hMembers : ∀ m ∈ bouts, m.redRegistrationId ∈ members ∧ m.blueRegistrationId ∈ members)
    (hRecorded : ∀ m ∈ bouts, Recorded m) {id : ι} (hId : id ∈ members) :
    Tied points (byes.count id * points.bye) (computeStandingsStats members mode bouts id)
      (swissRecords members points byes bouts id) := by
  induction bouts using List.reverseRecOn with
  | nil =>
    constructor <;>
      simp [computeStandingsStats, swissRecords, FighterStats.empty, FighterAggregates.zero, hId]
  | append_singleton bouts m ih =>
    have hBefore := ih (fun b hb => hMembers b (List.mem_append_left _ hb))
      fun b hb => hRecorded b (List.mem_append_left _ hb)
    have hLast : m ∈ bouts ++ [m] := List.mem_append_right _ List.mem_cons_self
    rw [computeStandingsStats, swissRecords, List.foldl_append, List.foldl_append]
    exact tied_countBout (hMembers m hLast).1 (hMembers m hLast).2
      ((sameOutcome_iff m).mpr (hRecorded m hLast)) hBefore

/-- A ceiling that wiped the board to a draw, then a card against blue. -/
def cardAfterCeiling : CompletedBout ℕ where
  redRegistrationId := 1
  blueRegistrationId := 2
  redScore := some 0
  blueScore := some (-1)
  winnerRegistrationId := none
  endReason := some "max_doubles_draw"
  exchanges := []

/-- A win in the columns, no win in the aggregates, a draw in the Swiss points. -/
theorem cardAfterCeiling_three_outcomes :
    ¬ (∀ m ∈ [cardAfterCeiling], SameOutcome m) ∧ columnOutcomes cardAfterCeiling = (.win, .loss) ∧
      outcomes cardAfterCeiling = (.draw, .draw) ∧ isWinner cardAfterCeiling 1 = false := by
  decide +kernel

/-- The readers agree on every bout exactly when each is recorded, and every fighter's columns,
aggregate and Swiss points then count the same results. -/
theorem readers_agree_iff (mode : AfterblowMode) (points : SwissPoints) (byes : List ι)
    {bouts : List (CompletedBout ι)}
    (hMembers : ∀ m ∈ bouts, m.redRegistrationId ∈ members ∧ m.blueRegistrationId ∈ members) :
    ((∀ m ∈ bouts, SameOutcome m) ↔ ∀ m ∈ bouts, Recorded m) ∧
      ((∀ m ∈ bouts, SameOutcome m) → ∀ id ∈ members,
        Tied points (byes.count id * points.bye) (computeStandingsStats members mode bouts id)
          (swissRecords members points byes bouts id)) :=
  ⟨forall₂_congr fun m _ => sameOutcome_iff m, fun hSame _ hId =>
    tied_of_recorded hMembers (fun m hm => (sameOutcome_iff m).mp (hSame m hm)) hId⟩

theorem readers_agree_iff_card :
    ((∀ m ∈ [cardAfterCeiling], SameOutcome m) ↔ ∀ m ∈ [cardAfterCeiling], Recorded m) ∧
      ((∀ m ∈ [cardAfterCeiling], SameOutcome m) → ∀ id ∈ [1, 2],
        Tied ⟨3, 1, 0, 3⟩ (([] : List ℕ).count id * 3)
          (computeStandingsStats [1, 2] .full [cardAfterCeiling] id)
          (swissRecords [1, 2] ⟨3, 1, 0, 3⟩ [] [cardAfterCeiling] id)) :=
  readers_agree_iff .full ⟨3, 1, 0, 3⟩ [] (by simp [cardAfterCeiling])

end MyClash.Standings
