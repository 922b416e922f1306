import MyClash.Standings.Ranking

/-!
# The chain of the Swiss standings

The organiser's tie-break keys are turned into the rules that rank. A key named twice is kept where
it comes first; the ranking is the one with every repeat left in.
-/

namespace MyClash.Swiss

open Standings StableSort RuleChain

universe u v

/-- `SWISS_TIEBREAK_KEYS` -/
inductive SwissTiebreakKey where
  | buchholz
  | buchholzCut1
  | sonnebornBerger
  | opponentWinPct
  | headToHead
  | score
  | wins
  | diff
  | ptsScored
  | doubles
  | hitsReceived
  | rulesetChain
  deriving DecidableEq

inductive RankBy where
  | swissPts
  | rulesetScore
  deriving DecidableEq

def SwissTiebreakKey.text : SwissTiebreakKey → String
  | buchholz => "buchholz"
  | buchholzCut1 => "buchholzCut1"
  | sonnebornBerger => "sonnebornBerger"
  | opponentWinPct => "opponentWinPct"
  | headToHead => "headToHead"
  | score => "score"
  | wins => "wins"
  | diff => "diff"
  | ptsScored => "ptsScored"
  | doubles => "doubles"
  | hitsReceived => "hitsReceived"
  | rulesetChain => "rulesetChain"

def directionFor (key : SwissTiebreakKey) : RankingDirection :=
  if key = .hitsReceived ∨ key = .doubles then .asc else .desc

def RankBy.primary (rankBy : RankBy) : RankingRule where
  key := match rankBy with
    | .rulesetScore => "score"
    | .swissPts => "swissPts"
  direction := .desc

def RankBy.fallback (rankBy : RankBy) : RankingRule where
  key := match rankBy with
    | .rulesetScore => "swissPts"
    | .swissPts => "score"
  direction := .desc

/-- The sentinel splices the ruleset's own chain in. -/
def rest (tiebreakChain : List SwissTiebreakKey) (rulesetChain : List RankingRule) :
    List RankingRule :=
  tiebreakChain.flatMap fun key =>
    if key = .rulesetChain then rulesetChain else [⟨key.text, directionFor key⟩]

def buildSwissRankingChain (rankBy : RankBy) (tiebreakChain : List SwissTiebreakKey)
    (rulesetChain : List RankingRule) : List RankingRule :=
  let deduped := dropRepeats RankingRule.key [rankBy.primary.key] (rest tiebreakChain rulesetChain)
  let seen := rankBy.primary.key :: deduped.map RankingRule.key
  rankBy.primary :: (deduped ++ if rankBy.fallback.key ∈ seen then [] else [rankBy.fallback])

/-- The chain spliced, with no rule dropped. -/
def splicedChain (rankBy : RankBy) (tiebreakChain : List SwissTiebreakKey)
    (rulesetChain : List RankingRule) : List RankingRule :=
  rankBy.primary :: (rest tiebreakChain rulesetChain ++ [rankBy.fallback])

theorem buildSwissRankingChain_eq (rankBy : RankBy) (tiebreakChain : List SwissTiebreakKey)
    (rulesetChain : List RankingRule) :
    buildSwissRankingChain rankBy tiebreakChain rulesetChain =
      dropRepeats RankingRule.key [] (splicedChain rankBy tiebreakChain rulesetChain) := by
  rw [splicedChain, dropRepeats, if_neg List.not_mem_nil, dropRepeats_concat]
  rfl

section Rank

variable {ι : Type u} {τ : Type v}

theorem decidingTiebreakBetween_dropRepeats (above me : StandingsRow ι τ)
    (chain : List RankingRule) :
    decidingTiebreakBetween above me (dropRepeats RankingRule.key [] chain) =
      decidingTiebreakBetween above me chain := by
  rw [decidingTiebreakBetween, decidingTiebreakBetween, find?_dropRepeats _ (by rintro _ ⟨⟩)]
  intro rule rule' hKey
  rw [hKey]

theorem compareChain_dropRepeats (chain : List RankingRule) :
    (compareChain compareRule (dropRepeats RankingRule.key [] chain) :
      StandingsRow ι τ → StandingsRow ι τ → Ordering) = compareChain compareRule chain := by
  funext a b
  rw [compareChain_eq_deciding?, compareChain_eq_deciding?, deciding?, deciding?,
    find?_dropRepeats _ (by rintro _ ⟨⟩)]
  -- whatever its direction, a rule separates two rows by its key
  intro rule rule' hKey
  simp only [ne_eq, compareRule_eq_iff, hKey]

/-- However the key is named again, and in whichever direction, the first rule of it has decided. -/
theorem applyRanking_dropRepeats [LinearOrder ι] [LinearOrder τ] (rows : List (StandingsRow ι τ))
    (chain : List RankingRule) :
    applyRanking rows (dropRepeats RankingRule.key [] chain) = applyRanking rows chain := by
  have hOrder : (rowOrder (dropRepeats RankingRule.key [] chain) :
      StandingsRow ι τ → StandingsRow ι τ → Ordering) = rowOrder chain := by
    rw [rowOrder, rowOrder, compareChain_dropRepeats]
  simp only [applyRanking, hOrder, decidingTiebreakBetween_dropRepeats]

/-- Of every configured chain, no key twice, the primary key first, and the standings of the chain
with its repeats, down to the key that put each row below the one above. -/
theorem buildSwissRankingChain_ranks [LinearOrder ι] [LinearOrder τ] (rankBy : RankBy)
    (tiebreakChain : List SwissTiebreakKey) (rulesetChain : List RankingRule) :
    ((buildSwissRankingChain rankBy tiebreakChain rulesetChain).map RankingRule.key).Nodup ∧
      (buildSwissRankingChain rankBy tiebreakChain rulesetChain).head? = some rankBy.primary ∧
      ∀ rows : List (StandingsRow ι τ),
        applyRanking rows (buildSwissRankingChain rankBy tiebreakChain rulesetChain) =
          applyRanking rows (splicedChain rankBy tiebreakChain rulesetChain) := by
  refine ⟨?_, rfl, fun rows => ?_⟩
  · rw [buildSwissRankingChain_eq]
    exact nodup_dropRepeats [] _
  · rw [buildSwissRankingChain_eq]
    exact applyRanking_dropRepeats rows _

end Rank

example : buildSwissRankingChain .swissPts [.buchholz, .rulesetChain, .doubles]
    [⟨"swissPts", .asc⟩, ⟨"doubles", .desc⟩] =
    [⟨"swissPts", .desc⟩, ⟨"buchholz", .desc⟩, ⟨"doubles", .desc⟩, ⟨"score", .desc⟩] := by
  decide

end MyClash.Swiss
