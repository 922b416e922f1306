import Mathlib.Algebra.BigOperators.Group.List.Basic
import Mathlib.Data.List.Perm.Basic
import Mathlib.Data.Nat.Cast.Order.Basic
import MyClash.League.Scoring

/-!
# What the league's standings say

Totals, places and shared places of the rows, and what of them depends on the order of the results.
-/

namespace MyClash.League

open StableSort

/-! ## The chain -/

def Better (tieBreaker : LeagueTieBreaker) (a b : LeagueRankingRow) : Prop :=
  match tiebreakDirection tieBreaker with
  | .desc => valueForKey b tieBreaker < valueForKey a tieBreaker
  | .asc => valueForKey a tieBreaker < valueForKey b tieBreaker

def Level (tieBreakers : List LeagueTieBreaker) (a b : LeagueRankingRow) : Prop :=
  ∀ tieBreaker ∈ tieBreakers, valueForKey a tieBreaker = valueForKey b tieBreaker

/-- The first tie-breaker on which the two differ prefers the first row. -/
def Ahead (tieBreakers : List LeagueTieBreaker) (a b : LeagueRankingRow) : Prop :=
  ∃ before tieBreaker after, tieBreakers = before ++ tieBreaker :: after ∧ Level before a b ∧
    Better tieBreaker a b

variable {tieBreakers : List LeagueTieBreaker} {a b : LeagueRankingRow}

theorem compareTieBreaker_eq_iff {tieBreaker : LeagueTieBreaker} :
    compareTieBreaker tieBreaker a b = .eq ↔ valueForKey a tieBreaker = valueForKey b tieBreaker := by
  cases tieBreaker with
  | totalPoints => exact compare_eq_iff_eq.trans eq_comm
  | participationCount => exact compare_eq_iff_eq.trans (eq_comm.trans Nat.cast_inj.symm)
  | medalCount => exact compare_eq_iff_eq.trans (eq_comm.trans Nat.cast_inj.symm)
  | doubleHitAverage => exact compare_eq_iff_eq

theorem compareTieBreaker_lt_iff {tieBreaker : LeagueTieBreaker} :
    compareTieBreaker tieBreaker a b = .lt ↔ Better tieBreaker a b := by
  cases tieBreaker with
  | totalPoints => exact compare_lt_iff_lt
  | participationCount => exact compare_lt_iff_lt.trans (Nat.cast_lt (α := ℚ)).symm
  | medalCount => exact compare_lt_iff_lt.trans (Nat.cast_lt (α := ℚ)).symm
  | doubleHitAverage => exact compare_lt_iff_lt

theorem level_iff :
    RuleChain.Level compareTieBreaker tieBreakers a b ↔ Level tieBreakers a b :=
  forall₂_congr fun _ _ => compareTieBreaker_eq_iff

theorem compareChain_lt_iff :
    RuleChain.compareChain compareTieBreaker tieBreakers a b = .lt ↔ Ahead tieBreakers a b := by
  rw [RuleChain.compareChain_lt_iff]
  simp only [RuleChain.Ahead, Ahead, level_iff, compareTieBreaker_lt_iff]

theorem compareChain_eq_iff :
    RuleChain.compareChain compareTieBreaker tieBreakers a b = .eq ↔ Level tieBreakers a b :=
  RuleChain.compareChain_eq_iff.trans level_iff

theorem tiedOnChain_iff : tiedOnChain tieBreakers a b = true ↔
    RuleChain.compareChain compareTieBreaker tieBreakers a b = .eq := by
  rw [RuleChain.compareChain_eq_iff, tiedOnChain, List.all_eq_true]
  refine forall₂_congr fun tieBreaker _ => ?_
  rw [compareTieBreaker_eq_iff]
  cases tieBreaker <;> simp [apartOn, valueForKey]

theorem decidingTiebreakBetween_eq_none_iff :
    decidingTiebreakBetween a b tieBreakers = none ↔ Level tieBreakers a b := by
  rw [decidingTiebreakBetween, Option.map_eq_none_iff, List.find?_eq_none]
  refine forall₂_congr fun tieBreaker _ => ?_
  rw [decide_eq_true_eq, not_not]
  exact eq_comm

instance (tieBreaker : LeagueTieBreaker) : Std.TransCmp (compareTieBreaker tieBreaker) := by
  cases tieBreaker with
  | totalPoints =>
    exact inferInstanceAs (Std.TransCmp fun a b : LeagueRankingRow =>
      compareOn (·.totalPoints) b a)
  | participationCount =>
    exact inferInstanceAs (Std.TransCmp fun a b : LeagueRankingRow =>
      compareOn (·.participationCount) b a)
  | medalCount =>
    exact inferInstanceAs (Std.TransCmp fun a b : LeagueRankingRow =>
      compareOn (·.medalCount) b a)
  | doubleHitAverage =>
    exact inferInstanceAs (Std.TransCmp (compareOn fun a : LeagueRankingRow =>
      a.doubleHitAverage))

instance : Std.TransCmp (compareRankings tieBreakers) :=
  inferInstanceAs (Std.TransCmp (compareLex (RuleChain.compareChain compareTieBreaker tieBreakers)
    (compareLex (compareOn (·.fighterName)) (compareOn (·.fighterId)))))

theorem fighterId_eq_of_compareRankings (h : compareRankings tieBreakers a b = .eq) :
    a.fighterId = b.fighterId := by
  rw [compareRankings, compareLex_eq_eq, compareLex_eq_eq] at h
  exact Std.LawfulEqOrd.eq_of_compare h.2.2

/-! ## The rows -/

/-- A fighter's contributions in a group. -/
def counted (contributions : List LeagueTournamentContribution) (group fighterId : Text) :
    List LeagueTournamentContribution :=
  contributions.filter fun c => c.rankingGroupKey = group ∧ c.fighterId = fighterId

/-- The row the contributions of one fighter add up to. -/
def tallyRow (first : LeagueTournamentContribution) (l : List LeagueTournamentContribution) :
    LeagueRankingRow :=
  { blankRow first with
    totalPoints := (l.map (·.leaguePoints)).sum
    participationCount := l.length
    medalCount := l.countP (·.medal.isSome)
    doubleHitsTotal := (l.map (·.doubleHits)).sum
    doubleHitAverage := if 0 < l.length then (l.map (·.doubleHits)).sum / l.length else 0
    perTournament := l.map (·.perTournament) }

theorem count_tallyRow (first c : LeagueTournamentContribution)
    (l : List LeagueTournamentContribution) :
    (tallyRow first l).count c = tallyRow first (l ++ [c]) := by
  simp [LeagueRankingRow.count, tallyRow, blankRow]

theorem foldl_count (l : List LeagueTournamentContribution) :
    l.foldl (fun row c => some ((row.getD (blankRow c)).count c)) none =
      l.head?.map fun first => tallyRow first l := by
  induction l using List.reverseRecOn with
  | nil => rfl
  | append_singleton l c ih =>
    rw [List.foldl_append, ih]
    cases l with
    | nil => simp [LeagueRankingRow.count, tallyRow, blankRow]
    | cons first l => simp [count_tallyRow]

theorem key_eq_iff {group group' fighterId fighterId' : Text} (h : colon ∉ fighterId)
    (h' : colon ∉ fighterId') : group ++ colon :: fighterId = group' ++ colon :: fighterId' ↔
      group = group' ∧ fighterId = fighterId' := by
  constructor
  · intro hEq
    rcases List.append_eq_append_iff.mp hEq with ⟨as, rfl, hTail⟩ | ⟨as, rfl, hTail⟩
    · cases as with
      | nil => simpa using hTail
      | cons first as =>
        rw [List.cons_append, List.cons.injEq] at hTail
        exact absurd (hTail.2 ▸ List.mem_append_right _ List.mem_cons_self) h
    · cases as with
      | nil => simpa [eq_comm] using hTail
      | cons first as =>
        rw [List.cons_append, List.cons.injEq] at hTail
        exact absurd (hTail.2 ▸ List.mem_append_right _ List.mem_cons_self) h'
  · rintro ⟨rfl, rfl⟩
    rfl

section Rows

variable {contributions : List LeagueTournamentContribution} {row : LeagueRankingRow}

theorem get?_byFighter (k : Text) : (byFighter contributions).get? k =
    (contributions.filter (·.key = k)).head?.map fun first =>
      tallyRow first (contributions.filter (·.key = k)) := by
  rw [byFighter, OrderedMap.get?_accumulate, foldl_count]

/-- A row stands for the contributions of one fighter in one group. -/
theorem mem_byFighter_iff (hIds : ∀ c ∈ contributions, colon ∉ c.fighterId) :
    row ∈ (byFighter contributions).values ↔
      ∃ first rest, counted contributions row.rankingGroupKey row.fighterId = first :: rest ∧
        row = tallyRow first (first :: rest) := by
  have hKey : ∀ c ∈ contributions, contributions.filter (·.key = c.key) =
      counted contributions c.rankingGroupKey c.fighterId := by
    intro c hc
    refine List.filter_congr fun other hOther => decide_eq_decide.mpr ?_
    exact key_eq_iff (hIds other hOther) (hIds c hc)
  constructor
  · intro hRow
    obtain ⟨⟨k, row⟩, hEntry, rfl⟩ := List.mem_map.mp hRow
    have hGet := OrderedMap.get?_eq_some_iff.mpr hEntry
    rw [get?_byFighter] at hGet
    obtain ⟨first, hFirst, rfl⟩ := Option.map_eq_some_iff.mp hGet
    obtain ⟨hMem, hFirstKey⟩ := List.mem_filter.mp (List.mem_of_mem_head? hFirst)
    obtain rfl := of_decide_eq_true hFirstKey
    rw [hKey first hMem] at hFirst ⊢
    obtain ⟨rest, hRest⟩ := List.head?_eq_some_iff.mp hFirst
    exact ⟨first, rest, hRest, by rw [hRest]⟩
  · rintro ⟨first, rest, hCounted, hRow⟩
    have hFirst : first ∈ counted contributions row.rankingGroupKey row.fighterId :=
      hCounted ▸ List.mem_cons_self
    obtain ⟨hMem, hOwn⟩ := List.mem_filter.mp hFirst
    obtain ⟨hGroup, hFighter⟩ := of_decide_eq_true hOwn
    have hFilter : contributions.filter (·.key = first.key) = first :: rest := by
      rw [hKey first hMem, hGroup, hFighter, hCounted]
    refine List.mem_map.mpr ⟨(first.key, row), ?_, rfl⟩
    rw [← OrderedMap.get?_eq_some_iff, get?_byFighter, hFilter, hRow]
    rfl

theorem nodup_byFighter (contributions : List LeagueTournamentContribution) :
    ((byFighter contributions).values.map fun row => (row.rankingGroupKey, row.fighterId)).Nodup := by
  have hKeys : (byFighter contributions).values.map
      (fun row => row.rankingGroupKey ++ colon :: row.fighterId) =
      (byFighter contributions).keys := by
    rw [OrderedMap.values, OrderedMap.keys, List.map_map]
    refine List.map_congr_left ?_
    rintro ⟨k, row⟩ hEntry
    have hGet := OrderedMap.get?_eq_some_iff.mpr hEntry
    rw [get?_byFighter] at hGet
    obtain ⟨first, hFirst, rfl⟩ := Option.map_eq_some_iff.mp hGet
    exact of_decide_eq_true (List.mem_filter.mp (List.mem_of_mem_head? hFirst)).2
  refine List.Nodup.of_map (fun pair : Text × Text => pair.1 ++ colon :: pair.2) ?_
  rw [List.map_map]
  exact hKeys ▸ (byFighter contributions).nodup

/-- The place of a row among the rows of its group. -/
def placeIn (tieBreakers : List LeagueTieBreaker) (rows : List LeagueRankingRow)
    (row : LeagueRankingRow) : ℕ :=
  1 + rows.countP fun other => other.rankingGroupKey = row.rankingGroupKey ∧
    RuleChain.compareChain compareTieBreaker tieBreakers other row = .lt

theorem rankGroup_eq (rows : List LeagueRankingRow) : rankGroup tieBreakers rows =
    (sortWith (compareRankings tieBreakers) rows).map fun row =>
      { row with
        rank := CompetitionRank.place (RuleChain.compareChain compareTieBreaker tieBreakers) rows
          row } := by
  have hSorted : (sortWith (compareRankings tieBreakers) rows).Pairwise fun a b =>
      (RuleChain.compareChain compareTieBreaker tieBreakers a b).isLE :=
    (show (sortWith (compareRankings tieBreakers) rows).Pairwise _ from pairwise_sortWith rows).imp fun h =>
      Ordering.isLE_left_of_isLE_then h
  have hPlace : ∀ row, CompetitionRank.place
      (RuleChain.compareChain compareTieBreaker tieBreakers)
      (sortWith (compareRankings tieBreakers) rows) row =
        CompetitionRank.place (RuleChain.compareChain compareTieBreaker tieBreakers) rows row :=
    fun row => congrArg (1 + ·) ((sortWith_perm rows).countP_eq _)
  rw [rankGroup, CompetitionRank.number_eq (fun _ _ => tiedOnChain_iff) hSorted,
    List.zipWith_map_right, List.zipWith_self]
  simp only [hPlace]

/-- The rows in the order of the standings, not yet numbered. -/
def table (tieBreakers : List LeagueTieBreaker) (contributions : List LeagueTournamentContribution) :
    List LeagueRankingRow :=
  let rows := (byFighter contributions).values
  (sortWith compare (Buckets.keys (Buckets.collect (·.rankingGroupKey) rows))).flatMap fun group =>
    sortWith (compareRankings tieBreakers) (rows.filter (·.rankingGroupKey = group))

theorem computeRankings_eq : computeRankingsFromContributions tieBreakers contributions =
    (table tieBreakers contributions).map fun row =>
      { row with rank := placeIn tieBreakers (byFighter contributions).values row } := by
  rw [computeRankingsFromContributions, table, List.map_flatMap]
  refine List.flatMap_congr fun group _ => ?_
  rw [rankGroup_eq, Buckets.bucket_collect]
  refine List.map_congr_left fun row hRow => ?_
  have hGroup : row.rankingGroupKey = group :=
    of_decide_eq_true (List.mem_filter.mp (mem_sortWith.mp hRow)).2
  rw [placeIn, CompetitionRank.place, List.countP_filter, hGroup]
  congr 3
  funext other
  rw [Bool.and_comm, Bool.decide_and]

theorem table_perm (tieBreakers : List LeagueTieBreaker)
    (contributions : List LeagueTournamentContribution) :
    (table tieBreakers contributions).Perm (byFighter contributions).values := by
  have hGroups : (table tieBreakers contributions).Perm
      ((sortWith compare (Buckets.keys (Buckets.collect (·.rankingGroupKey)
        (byFighter contributions).values))).flatMap fun group =>
          (byFighter contributions).values.filter (·.rankingGroupKey = group)) :=
    List.Perm.flatMap_left _ fun group _ => sortWith_perm _
  refine hGroups.trans (Buckets.flatMap_filter_perm LeagueRankingRow.rankingGroupKey ?_ ?_)
  · exact (sortWith_perm _).nodup_iff.mpr (Buckets.nodup_keys_collect _ _)
  · intro row hRow
    exact mem_sortWith.mpr (Buckets.mem_keys_collect.mpr ⟨row, hRow, rfl⟩)

/-! ## What the order of the contributions decides -/

/-- A row without its place, and without what it takes from the order of the contributions. -/
def core (row : LeagueRankingRow) : LeagueRankingRow :=
  { row with
    leagueId := []
    clubName := none
    clubCity := none
    rank := 0
    perTournament := [] }

theorem compareChain_core (tieBreakers : List LeagueTieBreaker) (a b : LeagueRankingRow) :
    RuleChain.compareChain compareTieBreaker tieBreakers (core a) (core b) =
      RuleChain.compareChain compareTieBreaker tieBreakers a b := by
  induction tieBreakers with
  | nil => rfl
  | cons tieBreaker tieBreakers ih =>
    rw [RuleChain.compareChain, RuleChain.compareChain, ih]
    cases tieBreaker <;> rfl

theorem core_tallyRow {first first' : LeagueTournamentContribution}
    {l l' : List LeagueTournamentContribution} (h : l'.Perm l)
    (hGroup : first'.rankingGroupKey = first.rankingGroupKey)
    (hFighter : first'.fighterId = first.fighterId)
    (hName : first'.fighterName = first.fighterName) :
    core (tallyRow first' l') = core (tallyRow first l) := by
  simp only [core, tallyRow, blankRow, hGroup, hFighter, hName, (h.map _).sum_eq, h.length_eq,
    h.countP_eq]

theorem mem_counted {c : LeagueTournamentContribution} {group fighterId : Text} :
    c ∈ counted contributions group fighterId ↔
      c ∈ contributions ∧ c.rankingGroupKey = group ∧ c.fighterId = fighterId := by
  rw [counted, List.mem_filter, decide_eq_true_eq]

/-- The rows of a permutation of the contributions are the same up to their cores. -/
theorem core_byFighter_subset {contributions' : List LeagueTournamentContribution}
    (hIds : ∀ c ∈ contributions, colon ∉ c.fighterId)
    (hNames : ∀ c ∈ contributions, ∀ c' ∈ contributions, c.fighterId = c'.fighterId →
      c.fighterName = c'.fighterName)
    (h : contributions'.Perm contributions)
    (hRow : row ∈ (byFighter contributions').values) :
    ∃ row' ∈ (byFighter contributions).values, core row' = core row := by
  have hIds' : ∀ c ∈ contributions', colon ∉ c.fighterId := fun c hc => hIds c (h.mem_iff.mp hc)
  obtain ⟨first', rest', hCounted', hRowEq⟩ := (mem_byFighter_iff hIds').mp hRow
  have hPerm : (counted contributions' row.rankingGroupKey row.fighterId).Perm
      (counted contributions row.rankingGroupKey row.fighterId) := h.filter _
  have hFirst' : first' ∈ counted contributions row.rankingGroupKey row.fighterId :=
    hPerm.mem_iff.mp (hCounted' ▸ List.mem_cons_self)
  obtain ⟨hMem', hGroup', hFighter'⟩ := mem_counted.mp hFirst'
  cases hCounted : counted contributions row.rankingGroupKey row.fighterId with
  | nil =>
    rw [hCounted] at hFirst'
    cases hFirst'
  | cons first rest =>
    obtain ⟨hMem, hGroup, hFighter⟩ := mem_counted.mp (hCounted ▸ List.mem_cons_self :
      first ∈ counted contributions row.rankingGroupKey row.fighterId)
    refine ⟨tallyRow first (first :: rest), (mem_byFighter_iff hIds).mpr ⟨first, rest, ?_, rfl⟩, ?_⟩
    · rw [← hCounted, ← hGroup, ← hFighter]
      rfl
    · rw [hRowEq, ← hCounted, ← hCounted']
      exact core_tallyRow hPerm.symm (hGroup.trans hGroup'.symm) (hFighter.trans hFighter'.symm)
        (hNames first hMem first' hMem' (hFighter.trans hFighter'.symm))

theorem nodup_core_byFighter : ((byFighter contributions).values.map core).Nodup := by
  refine List.Nodup.of_map (fun row => (row.rankingGroupKey, row.fighterId)) ?_
  rw [List.map_map]
  exact nodup_byFighter _

theorem core_byFighter_perm {contributions' : List LeagueTournamentContribution}
    (hIds : ∀ c ∈ contributions, colon ∉ c.fighterId)
    (hNames : ∀ c ∈ contributions, ∀ c' ∈ contributions, c.fighterId = c'.fighterId →
      c.fighterName = c'.fighterName)
    (h : contributions'.Perm contributions) :
    ((byFighter contributions').values.map core).Perm ((byFighter contributions).values.map core) := by
  have hIds' : ∀ c ∈ contributions', colon ∉ c.fighterId := fun c hc => hIds c (h.mem_iff.mp hc)
  have hNames' : ∀ c ∈ contributions', ∀ c' ∈ contributions', c.fighterId = c'.fighterId →
      c.fighterName = c'.fighterName :=
    fun c hc c' hc' => hNames c (h.mem_iff.mp hc) c' (h.mem_iff.mp hc')
  refine (List.perm_ext_iff_of_nodup nodup_core_byFighter nodup_core_byFighter).mpr fun row => ?_
  simp only [List.mem_map]
  constructor
  · rintro ⟨row', hRow', rfl⟩
    exact core_byFighter_subset hIds hNames h hRow'
  · rintro ⟨row', hRow', rfl⟩
    exact core_byFighter_subset hIds' hNames' h.symm hRow'

/-- Which of two rows stands first in the standings. -/
def Before (tieBreakers : List LeagueTieBreaker) (a b : LeagueRankingRow) : Prop :=
  compare a.rankingGroupKey b.rankingGroupKey = .lt ∨
    a.rankingGroupKey = b.rankingGroupKey ∧ compareRankings tieBreakers a b = .lt

theorem not_before_of_before (h : Before tieBreakers a b) : ¬ Before tieBreakers b a := by
  have hIrrefl : ∀ group : Text, compare group group ≠ .lt := by
    intro group
    rw [(Std.ReflCmp.compare_self : compare group group = .eq)]
    nofun
  rintro (hGroup' | ⟨hSame', hLt'⟩)
  · rcases h with hGroup | ⟨hSame, _⟩
    · exact Std.OrientedCmp.not_lt_of_lt hGroup hGroup'
    · exact hIrrefl _ (hSame ▸ hGroup')
  · rcases h with hGroup | ⟨_, hLt⟩
    · exact hIrrefl _ (hSame' ▸ hGroup)
    · exact Std.OrientedCmp.not_lt_of_lt hLt hLt'

theorem before_core (h : Before tieBreakers a b) : Before tieBreakers (core a) (core b) := by
  refine h.imp_right fun hSame => ⟨hSame.1, ?_⟩
  rw [compareRankings, compareLex, compareChain_core]
  exact hSame.2

theorem group_of_mem {group : Text} (h : row ∈ sortWith (compareRankings tieBreakers)
    ((byFighter contributions).values.filter (·.rankingGroupKey = group))) :
    row.rankingGroupKey = group :=
  of_decide_eq_true (List.mem_filter.mp (mem_sortWith.mp h)).2

theorem nodup_fighterId (contributions : List LeagueTournamentContribution) (group : Text) :
    (((byFighter contributions).values.filter (·.rankingGroupKey = group)).map
      (·.fighterId)).Nodup := by
  have hPairs := List.pairwise_map.mp (nodup_byFighter contributions)
  refine List.pairwise_map.mpr ((hPairs.filter (·.rankingGroupKey = group)).imp_of_mem ?_)
  intro a b ha hb hApart hSame
  have hGroup : a.rankingGroupKey = b.rankingGroupKey :=
    (of_decide_eq_true (List.mem_filter.mp ha).2).trans
      (of_decide_eq_true (List.mem_filter.mp hb).2).symm
  exact hApart (Prod.ext hGroup hSame)

theorem pairwise_table : (table tieBreakers contributions).Pairwise (Before tieBreakers) := by
  rw [table, List.pairwise_flatMap]
  constructor
  · intro group _
    have hLt : (sortWith (compareRankings tieBreakers)
        ((byFighter contributions).values.filter (·.rankingGroupKey = group))).Pairwise
          fun a b => compareRankings tieBreakers a b = .lt :=
      pairwise_lt_sortWith (·.fighterId) (fun _ _ => fighterId_eq_of_compareRankings)
        (nodup_fighterId contributions group)
    refine hLt.imp_of_mem fun ha hb hCmp => Or.inr ⟨?_, hCmp⟩
    exact (group_of_mem ha).trans (group_of_mem hb).symm
  · have hKeys : (sortWith compare (Buckets.keys (Buckets.collect (·.rankingGroupKey)
        (byFighter contributions).values))).Pairwise fun a b => compare a b = .lt :=
      pairwise_lt_sortWith id (fun _ _ h => Std.LawfulEqOrd.eq_of_compare h)
        (by rw [List.map_id]; exact Buckets.nodup_keys_collect _ _)
    refine hKeys.imp fun {group group'} hLt a ha b hb => Or.inl ?_
    rw [group_of_mem ha, group_of_mem hb]
    exact hLt

/-- The standings list the same cores for every order of the contributions. -/
theorem core_table_eq {contributions' : List LeagueTournamentContribution}
    (hIds : ∀ c ∈ contributions, colon ∉ c.fighterId)
    (hNames : ∀ c ∈ contributions, ∀ c' ∈ contributions, c.fighterId = c'.fighterId →
      c.fighterName = c'.fighterName)
    (h : contributions'.Perm contributions) :
    (table tieBreakers contributions').map core = (table tieBreakers contributions).map core := by
  have hPerm := ((table_perm tieBreakers contributions').map core).trans
    ((core_byFighter_perm hIds hNames h).trans ((table_perm tieBreakers contributions).map core).symm)
  have hBefore : ∀ contributions : List LeagueTournamentContribution,
      ((table tieBreakers contributions).map core).Pairwise (Before tieBreakers) :=
    fun _ => List.pairwise_map.mpr (pairwise_table.imp before_core)
  refine hPerm.eq_of_pairwise ?_ (hBefore _) (hBefore _)
  intro a b _ _ hab hba
  exact absurd hba (not_before_of_before hab)

theorem placeIn_congr {rows rows' : List LeagueRankingRow} {row' : LeagueRankingRow}
    (h : (rows'.map core).Perm (rows.map core)) (hRow : core row' = core row) :
    placeIn tieBreakers rows' row' = placeIn tieBreakers rows row := by
  have hCore : ∀ (rows : List LeagueRankingRow) (row : LeagueRankingRow),
      placeIn tieBreakers rows row = placeIn tieBreakers (rows.map core) (core row) := by
    intro rows row
    rw [placeIn, placeIn, List.countP_map]
    simp only [Function.comp_def, compareChain_core]
    rfl
  rw [hCore, hCore rows, hRow, placeIn, placeIn, h.countP_eq]

/-! ## The standings -/

instance (tieBreakers : List LeagueTieBreaker) (a b : LeagueRankingRow) :
    Decidable (Ahead tieBreakers a b) := decidable_of_iff _ compareChain_lt_iff

/-- The row adds up the contributions, and names the fighter as one of them does. -/
structure Totals (l : List LeagueTournamentContribution) (row : LeagueRankingRow) : Prop where
  totalPoints : row.totalPoints = (l.map (·.leaguePoints)).sum
  participationCount : row.participationCount = l.length
  medalCount : row.medalCount = l.countP (·.medal.isSome)
  doubleHitsTotal : row.doubleHitsTotal = (l.map (·.doubleHits)).sum
  doubleHitAverage : row.doubleHitAverage = row.doubleHitsTotal / row.participationCount
  perTournament : row.perTournament = l.map (·.perTournament)
  named : ∃ c ∈ l, row.fighterName = c.fighterName ∧ row.leagueId = c.leagueId ∧
    row.clubName = c.clubName ∧ row.clubCity = c.clubCity

/-- The two rows differ at most in the order of the contributions listed and in the contribution
that the league and the club are taken from. -/
structure SameRow (row' row : LeagueRankingRow) : Prop where
  eq : row' =
    { row with
      leagueId := row'.leagueId
      clubName := row'.clubName
      clubCity := row'.clubCity
      perTournament := row'.perTournament }
  perTournament : row'.perTournament.Perm row.perTournament

theorem totals_tallyRow (first : LeagueTournamentContribution)
    (rest : List LeagueTournamentContribution) :
    Totals (first :: rest) (tallyRow first (first :: rest)) where
  totalPoints := rfl
  participationCount := rfl
  medalCount := rfl
  doubleHitsTotal := rfl
  doubleHitAverage := by simp [tallyRow]
  perTournament := rfl
  named := ⟨first, List.mem_cons_self, rfl, rfl, rfl, rfl⟩

theorem Totals.withRank {l : List LeagueTournamentContribution} (h : Totals l row) (rank : ℕ) :
    Totals l { row with rank := rank } := ⟨h.1, h.2, h.3, h.4, h.5, h.6, h.7⟩

theorem sameRow_of_core {row' : LeagueRankingRow} (h : core row' = core row)
    (hList : row'.perTournament.Perm row.perTournament) (rank : ℕ) :
    SameRow { row' with rank := rank } { row with rank := rank } := by
  refine ⟨?_, hList⟩
  obtain ⟨league', group', fighter', name', club', city', rank', pts', parts', medals', hits', avg',
    list'⟩ := row'
  obtain ⟨league, group, fighter, name, club, city, rank'', pts, parts, medals, hits, avg,
    list⟩ := row
  simp only [core, LeagueRankingRow.mk.injEq] at h ⊢
  simp [h]

theorem mem_computeRankings : row ∈ computeRankingsFromContributions tieBreakers contributions ↔
    ∃ source ∈ (byFighter contributions).values,
      { source with rank := placeIn tieBreakers (byFighter contributions).values source } = row := by
  rw [computeRankings_eq, List.mem_map]
  simp only [(table_perm tieBreakers contributions).mem_iff]

theorem rank_eq_of_mem (hRow : row ∈ computeRankingsFromContributions tieBreakers contributions) :
    row.rank = placeIn tieBreakers (byFighter contributions).values row := by
  obtain ⟨source, _, rfl⟩ := mem_computeRankings.mp hRow
  exact placeIn_congr (.refl _) rfl

theorem placeIn_eq (row : LeagueRankingRow) :
    placeIn tieBreakers (byFighter contributions).values row =
      1 + (computeRankingsFromContributions tieBreakers contributions).countP fun other =>
        other.rankingGroupKey = row.rankingGroupKey ∧ Ahead tieBreakers other row := by
  rw [computeRankings_eq, List.countP_map, (table_perm tieBreakers contributions).countP_eq,
    placeIn]
  congr 2
  funext other
  refine decide_eq_decide.mpr (and_congr_right fun _ => ?_)
  rw [← compareChain_lt_iff, ← compareChain_core, ← compareChain_core tieBreakers _ row]
  rfl

/-- Within a group, a place is shared by level rows only. -/
theorem rank_eq_iff (ha : a ∈ computeRankingsFromContributions tieBreakers contributions)
    (hb : b ∈ computeRankingsFromContributions tieBreakers contributions)
    (hGroup : a.rankingGroupKey = b.rankingGroupKey) :
    a.rank = b.rank ↔ Level tieBreakers a b := by
  have hPlace : ∀ row : LeagueRankingRow, row.rankingGroupKey = b.rankingGroupKey →
      placeIn tieBreakers (byFighter contributions).values row =
        CompetitionRank.place (RuleChain.compareChain compareTieBreaker tieBreakers)
          ((computeRankingsFromContributions tieBreakers contributions).filter
            (·.rankingGroupKey = b.rankingGroupKey)) row := by
    intro row hRow
    rw [placeIn_eq, CompetitionRank.place, List.countP_filter, hRow]
    congr 2
    funext other
    rw [decide_eq_decide.mpr compareChain_lt_iff, ← Bool.decide_and, decide_eq_decide, and_comm]
  have ha' : a ∈ (computeRankingsFromContributions tieBreakers contributions).filter
      (·.rankingGroupKey = b.rankingGroupKey) := List.mem_filter.mpr ⟨ha, decide_eq_true hGroup⟩
  have hb' : b ∈ (computeRankingsFromContributions tieBreakers contributions).filter
      (·.rankingGroupKey = b.rankingGroupKey) := List.mem_filter.mpr ⟨hb, decide_eq_true rfl⟩
  rw [rank_eq_of_mem ha, rank_eq_of_mem hb, hPlace a hGroup, hPlace b rfl,
    CompetitionRank.place_eq_iff ha' hb', compareChain_eq_iff]

theorem totals_of_mem (hIds : ∀ c ∈ contributions, colon ∉ c.fighterId)
    (hRow : row ∈ (byFighter contributions).values) :
    Totals (counted contributions row.rankingGroupKey row.fighterId) row := by
  obtain ⟨first, rest, hCounted, hEq⟩ := (mem_byFighter_iff hIds).mp hRow
  rw [hCounted]
  conv_rhs => rw [hEq]
  exact totals_tallyRow first rest

theorem exists_row_iff (hIds : ∀ c ∈ contributions, colon ∉ c.fighterId) (group fighterId : Text) :
    (∃ row ∈ computeRankingsFromContributions tieBreakers contributions,
      row.rankingGroupKey = group ∧ row.fighterId = fighterId) ↔
      ∃ c ∈ contributions, c.rankingGroupKey = group ∧ c.fighterId = fighterId := by
  constructor
  · rintro ⟨row, hRow, rfl, rfl⟩
    obtain ⟨source, hSource, rfl⟩ := mem_computeRankings.mp hRow
    obtain ⟨first, rest, hCounted, _⟩ := (mem_byFighter_iff hIds).mp hSource
    exact ⟨first, mem_counted.mp (hCounted ▸ List.mem_cons_self)⟩
  · rintro ⟨c, hc, rfl, rfl⟩
    have hMem : c ∈ counted contributions c.rankingGroupKey c.fighterId :=
      mem_counted.mpr ⟨hc, rfl, rfl⟩
    cases hCounted : counted contributions c.rankingGroupKey c.fighterId with
    | nil =>
      rw [hCounted] at hMem
      cases hMem
    | cons first rest =>
      obtain ⟨_, hGroup, hFighter⟩ := mem_counted.mp (hCounted ▸ List.mem_cons_self :
        first ∈ counted contributions c.rankingGroupKey c.fighterId)
      have hSource : tallyRow first (first :: rest) ∈ (byFighter contributions).values := by
        refine (mem_byFighter_iff hIds).mpr ⟨first, rest, ?_, rfl⟩
        rw [← hCounted, ← hGroup, ← hFighter]
        rfl
      exact ⟨_, mem_computeRankings.mpr ⟨_, hSource, rfl⟩, hGroup, hFighter⟩

theorem forall₂_sameRow {contributions' : List LeagueTournamentContribution}
    (hIds : ∀ c ∈ contributions, colon ∉ c.fighterId)
    (hNames : ∀ c ∈ contributions, ∀ c' ∈ contributions, c.fighterId = c'.fighterId →
      c.fighterName = c'.fighterName)
    (h : contributions'.Perm contributions) :
    List.Forall₂ SameRow (computeRankingsFromContributions tieBreakers contributions')
      (computeRankingsFromContributions tieBreakers contributions) := by
  have hIds' : ∀ c ∈ contributions', colon ∉ c.fighterId := fun c hc => hIds c (h.mem_iff.mp hc)
  have hTable : (table tieBreakers contributions').map core =
      (table tieBreakers contributions).map core := core_table_eq hIds hNames h
  rw [computeRankings_eq, computeRankings_eq, List.forall₂_map_left_iff,
    List.forall₂_map_right_iff, List.forall₂_iff_get]
  have hLength : (table tieBreakers contributions').length =
      (table tieBreakers contributions).length := by
    simpa using congrArg List.length hTable
  refine ⟨hLength, fun i hi hi' => ?_⟩
  have hCore : core ((table tieBreakers contributions').get ⟨i, hi⟩) =
      core ((table tieBreakers contributions).get ⟨i, hi'⟩) := by
    have hGet := congrArg (fun l : List LeagueRankingRow => l[i]?) hTable
    simpa [hi, hi'] using hGet
  have hTotals' := totals_of_mem hIds'
    ((table_perm tieBreakers contributions').mem_iff.mp (List.get_mem _ ⟨i, hi⟩))
  have hTotals := totals_of_mem hIds
    ((table_perm tieBreakers contributions).mem_iff.mp (List.get_mem _ ⟨i, hi'⟩))
  have hGroup := congrArg LeagueRankingRow.rankingGroupKey hCore
  have hFighter := congrArg LeagueRankingRow.fighterId hCore
  rw [placeIn_congr (core_byFighter_perm hIds hNames h) hCore]
  refine sameRow_of_core hCore ?_ _
  rw [hTotals'.perTournament, hTotals.perTournament]
  refine List.Perm.map _ ?_
  rw [show ((table tieBreakers contributions').get ⟨i, hi⟩).rankingGroupKey = _ from hGroup,
    show ((table tieBreakers contributions').get ⟨i, hi⟩).fighterId = _ from hFighter]
  exact h.filter _

/-- The places, the totals and the shared places of the standings, and what of them the order of
the contributions decides. -/
theorem leagueStandings (tieBreakers : List LeagueTieBreaker)
    {contributions : List LeagueTournamentContribution}
    (hIds : ∀ c ∈ contributions, colon ∉ c.fighterId)
    (hNames : ∀ c ∈ contributions, ∀ c' ∈ contributions, c.fighterId = c'.fighterId →
      c.fighterName = c'.fighterName) :
    let out := computeRankingsFromContributions tieBreakers contributions
    (out.map fun row => (row.rankingGroupKey, row.fighterId)).Nodup ∧
      (∀ group fighterId, (∃ row ∈ out, row.rankingGroupKey = group ∧ row.fighterId = fighterId) ↔
        ∃ c ∈ contributions, c.rankingGroupKey = group ∧ c.fighterId = fighterId) ∧
      (∀ row ∈ out, Totals (counted contributions row.rankingGroupKey row.fighterId) row ∧
        row.rank = 1 + out.countP fun other =>
          other.rankingGroupKey = row.rankingGroupKey ∧ Ahead tieBreakers other row) ∧
      (∀ a ∈ out, ∀ b ∈ out, a.rankingGroupKey = b.rankingGroupKey →
        (a.rank = b.rank ↔ Level tieBreakers a b) ∧
          (Level tieBreakers a b ↔ decidingTiebreakBetween a b tieBreakers = none)) ∧
      ∀ contributions', contributions'.Perm contributions →
        List.Forall₂ SameRow (computeRankingsFromContributions tieBreakers contributions') out := by
  intro out
  refine ⟨?_, exists_row_iff hIds, ?_, ?_, fun _ => forall₂_sameRow hIds hNames⟩
  · have hPairs := ((table_perm tieBreakers contributions).map fun row =>
      (row.rankingGroupKey, row.fighterId)).nodup_iff.mpr (nodup_byFighter contributions)
    rw [show out = _ from computeRankings_eq, List.map_map]
    exact hPairs
  · intro row hRow
    refine ⟨?_, (rank_eq_of_mem hRow).trans (placeIn_eq row)⟩
    obtain ⟨source, hSource, rfl⟩ := mem_computeRankings.mp hRow
    exact (totals_of_mem hIds hSource).withRank _
  · intro a ha b hb hGroup
    exact ⟨rank_eq_iff ha hb hGroup, decidingTiebreakBetween_eq_none_iff.symm⟩

end Rows

/-- Gold in one tournament and silver in another, for one fighter. -/
def goldAndSilver : List LeagueTournamentContribution :=
  [⟨[1], [2], [3], [4], [5], none, none, [6], 1, 16, some .gold, 2⟩,
    ⟨[1], [7], [3], [4], [5], none, none, [6], 2, 13, some .silver, 1⟩]

/-- The row lists the two results as they came. -/
theorem order_shows_perTournament :
    goldAndSilver.reverse.Perm goldAndSilver ∧
      (∀ c ∈ goldAndSilver, colon ∉ c.fighterId ∧
        ∀ c' ∈ goldAndSilver, c.fighterId = c'.fighterId → c.fighterName = c'.fighterName) ∧
      computeRankingsFromContributions [.totalPoints] goldAndSilver.reverse ≠
        computeRankingsFromContributions [.totalPoints] goldAndSilver := by
  decide +kernel

theorem leagueStandings_goldAndSilver :
    let out := computeRankingsFromContributions [.totalPoints, .doubleHitAverage] goldAndSilver
    (out.map fun row => (row.rankingGroupKey, row.fighterId)).Nodup ∧
      (∀ group fighterId, (∃ row ∈ out, row.rankingGroupKey = group ∧ row.fighterId = fighterId) ↔
        ∃ c ∈ goldAndSilver, c.rankingGroupKey = group ∧ c.fighterId = fighterId) ∧
      (∀ row ∈ out, Totals (counted goldAndSilver row.rankingGroupKey row.fighterId) row ∧
        row.rank = 1 + out.countP fun other =>
          other.rankingGroupKey = row.rankingGroupKey ∧
            Ahead [.totalPoints, .doubleHitAverage] other row) ∧
      (∀ a ∈ out, ∀ b ∈ out, a.rankingGroupKey = b.rankingGroupKey →
        (a.rank = b.rank ↔ Level [.totalPoints, .doubleHitAverage] a b) ∧
          (Level [.totalPoints, .doubleHitAverage] a b ↔
            decidingTiebreakBetween a b [.totalPoints, .doubleHitAverage] = none)) ∧
      ∀ contributions', contributions'.Perm goldAndSilver →
        List.Forall₂ SameRow
          (computeRankingsFromContributions [.totalPoints, .doubleHitAverage] contributions') out :=
  leagueStandings [.totalPoints, .doubleHitAverage] (by decide) (by decide)

end MyClash.League
