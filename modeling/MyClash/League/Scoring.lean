import Mathlib.Algebra.Order.Ring.Rat
import Mathlib.Data.List.Lex
import MyClash.Library.Buckets
import MyClash.Library.CompetitionRank
import MyClash.Library.OrderedMap
import MyClash.Library.RuleChain
import MyClash.Library.StableSort

/-!
# The standings of a league

The results counted for a league add up to one row a fighter in each ranking group. Every group is
a table of its own, sorted by the configured chain and numbered with shared places.
-/

namespace MyClash.League

open StableSort

/-- A text as its code units. -/
abbrev Text := List ℕ

inductive Medal where
  | gold
  | silver
  | bronze
  deriving DecidableEq

inductive LeagueTieBreaker where
  | totalPoints
  | participationCount
  | medalCount
  | doubleHitAverage

structure LeagueTournamentContribution where
  leagueId : Text
  tournamentId : Text
  eventId : Text
  fighterId : Text
  fighterName : Text
  clubName : Option Text
  clubCity : Option Text
  rankingGroupKey : Text
  finalRank : ℕ
  leaguePoints : ℚ
  medal : Option Medal
  doubleHits : ℚ
  deriving DecidableEq

structure PerTournament where
  tournamentId : Text
  eventId : Text
  finalRank : ℕ
  leaguePoints : ℚ
  deriving DecidableEq

structure LeagueRankingRow where
  leagueId : Text
  rankingGroupKey : Text
  fighterId : Text
  fighterName : Text
  clubName : Option Text
  clubCity : Option Text
  rank : ℕ
  totalPoints : ℚ
  participationCount : ℕ
  medalCount : ℕ
  doubleHitsTotal : ℚ
  doubleHitAverage : ℚ
  perTournament : List PerTournament
  deriving DecidableEq

/-- The code unit of the colon. -/
def colon : ℕ := 58

/-- The text the rows are kept under. -/
def LeagueTournamentContribution.key (c : LeagueTournamentContribution) : Text :=
  c.rankingGroupKey ++ colon :: c.fighterId

def LeagueTournamentContribution.perTournament (c : LeagueTournamentContribution) :
    PerTournament := ⟨c.tournamentId, c.eventId, c.finalRank, c.leaguePoints⟩

def blankRow (c : LeagueTournamentContribution) : LeagueRankingRow where
  leagueId := c.leagueId
  rankingGroupKey := c.rankingGroupKey
  fighterId := c.fighterId
  fighterName := c.fighterName
  clubName := c.clubName
  clubCity := c.clubCity
  rank := 0
  totalPoints := 0
  participationCount := 0
  medalCount := 0
  doubleHitsTotal := 0
  doubleHitAverage := 0
  perTournament := []

def LeagueRankingRow.count (row : LeagueRankingRow) (c : LeagueTournamentContribution) :
    LeagueRankingRow :=
  let participationCount := row.participationCount + 1
  let doubleHitsTotal := row.doubleHitsTotal + c.doubleHits
  { row with
    totalPoints := row.totalPoints + c.leaguePoints
    participationCount
    medalCount := row.medalCount + if c.medal.isSome then 1 else 0
    doubleHitsTotal
    doubleHitAverage := if 0 < participationCount then doubleHitsTotal / participationCount else 0
    perTournament := row.perTournament ++ [c.perTournament] }

/-- More points, participations and medals are better, a lower average of double hits. -/
def compareTieBreaker (tieBreaker : LeagueTieBreaker) (a b : LeagueRankingRow) : Ordering :=
  match tieBreaker with
  | .totalPoints => compare b.totalPoints a.totalPoints
  | .participationCount => compare b.participationCount a.participationCount
  | .medalCount => compare b.medalCount a.medalCount
  | .doubleHitAverage => compare a.doubleHitAverage b.doubleHitAverage

/-- For sorting only: the name and the id make it total. -/
def compareRankings (tieBreakers : List LeagueTieBreaker) :
    LeagueRankingRow → LeagueRankingRow → Ordering :=
  compareLex (RuleChain.compareChain compareTieBreaker tieBreakers)
    (compareLex (compareOn (·.fighterName)) (compareOn (·.fighterId)))

def apartOn (tieBreaker : LeagueTieBreaker) (a b : LeagueRankingRow) : Bool :=
  match tieBreaker with
  | .totalPoints => a.totalPoints ≠ b.totalPoints
  | .participationCount => a.participationCount ≠ b.participationCount
  | .medalCount => a.medalCount ≠ b.medalCount
  | .doubleHitAverage => a.doubleHitAverage ≠ b.doubleHitAverage

def tiedOnChain (tieBreakers : List LeagueTieBreaker) (a b : LeagueRankingRow) : Bool :=
  tieBreakers.all fun tieBreaker => !apartOn tieBreaker a b

/-- One row a fighter and group, in the order they were first met. -/
def byFighter (contributions : List LeagueTournamentContribution) :
    OrderedMap Text LeagueRankingRow :=
  OrderedMap.accumulate (·.key) (fun row c => (row.getD (blankRow c)).count c) contributions

/-- The table of one group, numbered on its own. -/
def rankGroup (tieBreakers : List LeagueTieBreaker) (rows : List LeagueRankingRow) :
    List LeagueRankingRow :=
  let sorted := sortWith (compareRankings tieBreakers) rows
  List.zipWith (fun row rank => { row with rank := rank }) sorted
    (CompetitionRank.number (tiedOnChain tieBreakers) sorted)

def computeRankingsFromContributions (tieBreakers : List LeagueTieBreaker)
    (contributions : List LeagueTournamentContribution) : List LeagueRankingRow :=
  let byGroup := Buckets.collect (·.rankingGroupKey) (byFighter contributions).values
  (sortWith compare (Buckets.keys byGroup)).flatMap fun groupKey =>
    rankGroup tieBreakers (Buckets.bucket byGroup groupKey)

/-- The stored column a tie-breaker reads. The average is stored as the text of the number. -/
def valueForKey (row : LeagueRankingRow) : LeagueTieBreaker → ℚ
  | .totalPoints => row.totalPoints
  | .participationCount => row.participationCount
  | .medalCount => row.medalCount
  | .doubleHitAverage => row.doubleHitAverage

inductive TieBreakDirection where
  | asc
  | desc

def tiebreakDirection : LeagueTieBreaker → TieBreakDirection
  | .totalPoints => .desc
  | .participationCount => .desc
  | .medalCount => .desc
  | .doubleHitAverage => .asc

structure LeagueDecidingTiebreak where
  key : LeagueTieBreaker
  direction : TieBreakDirection
  mine : ℚ
  theirs : ℚ

def decidingTiebreakBetween (above me : LeagueRankingRow) (tieBreakers : List LeagueTieBreaker) :
    Option LeagueDecidingTiebreak :=
  (tieBreakers.find? fun key => valueForKey me key ≠ valueForKey above key).map fun key =>
    { key
      direction := tiebreakDirection key
      mine := valueForKey me key
      theirs := valueForKey above key }

end MyClash.League
