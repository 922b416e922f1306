import Mathlib.Algebra.Order.Ring.Rat
import MyClash.Library.RuleChain
import MyClash.Library.StableSort

/-!
# The order of the standings

Rows are sorted by a declared chain of keys, then by name and id. Each row says which key put it
below the row above.
-/

namespace MyClash.Standings

open StableSort

universe u v

inductive RankingDirection where
  | asc
  | desc
  deriving DecidableEq

structure RankingRule where
  key : String
  direction : RankingDirection
  deriving DecidableEq

structure DecidingTiebreak where
  key : String
  direction : RankingDirection
  mine : ℚ
  theirs : ℚ
  deriving DecidableEq

/-- `τ` is the type of texts, ordered by code unit. -/
structure StandingsRow (ι : Type u) (τ : Type v) where
  rank : ℕ
  registrationId : ι
  displayName : τ
  stats : String → Option ℚ
  decidingTiebreak : Option DecidingTiebreak

variable {ι : Type u} {τ : Type v}

/-- A statistic the row does not have counts 0. -/
def StandingsRow.stat (row : StandingsRow ι τ) (key : String) : ℚ := (row.stats key).getD 0

/-- What the ranking reads of a row and leaves as it is. -/
def StandingsRow.data (row : StandingsRow ι τ) : ι × τ × (String → Option ℚ) :=
  (row.registrationId, row.displayName, row.stats)

def compareRule (rule : RankingRule) (a b : StandingsRow ι τ) : Ordering :=
  match rule.direction with
  | .desc => compare (b.stat rule.key) (a.stat rule.key)
  | .asc => compare (a.stat rule.key) (b.stat rule.key)

/-- The first key on which the two rows differ. -/
def decidingTiebreakBetween (above me : StandingsRow ι τ) (rankingChain : List RankingRule) :
    Option DecidingTiebreak :=
  (rankingChain.find? fun rule => me.stat rule.key ≠ above.stat rule.key).map fun rule =>
    { key := rule.key
      direction := rule.direction
      mine := me.stat rule.key
      theirs := above.stat rule.key }

section Order

variable [LinearOrder ι] [LinearOrder τ]

def rowOrder (rankingChain : List RankingRule) : StandingsRow ι τ → StandingsRow ι τ → Ordering :=
  compareLex (RuleChain.compareChain compareRule rankingChain)
    (compareLex (compareOn (·.displayName)) (compareOn (·.registrationId)))

def applyRanking (rows : List (StandingsRow ι τ)) (rankingChain : List RankingRule) :
    List (StandingsRow ι τ) :=
  let sorted := sortWith (rowOrder rankingChain) rows
  sorted.mapIdx fun i row =>
    { row with
      rank := i + 1
      decidingTiebreak :=
        match i with
        | 0 => none
        | i + 1 =>
          sorted[i]?.bind fun above => decidingTiebreakBetween above row rankingChain }

end Order

/-! ## What the chain says of two rows -/

/-- The key prefers the first row. -/
def RankingRule.Better (rule : RankingRule) (a b : StandingsRow ι τ) : Prop :=
  match rule.direction with
  | .desc => b.stat rule.key < a.stat rule.key
  | .asc => a.stat rule.key < b.stat rule.key

def Level (chain : List RankingRule) (a b : StandingsRow ι τ) : Prop :=
  ∀ rule ∈ chain, a.stat rule.key = b.stat rule.key

/-- The first key on which the two differ prefers the first row. -/
def Ahead (chain : List RankingRule) (a b : StandingsRow ι τ) : Prop :=
  ∃ before rule after, chain = before ++ rule :: after ∧ Level before a b ∧ rule.Better a b

theorem compareRule_eq_iff {rule : RankingRule} {a b : StandingsRow ι τ} :
    compareRule rule a b = .eq ↔ a.stat rule.key = b.stat rule.key := by
  rw [compareRule]
  split
  · rw [compare_eq_iff_eq, eq_comm]
  · exact compare_eq_iff_eq

theorem compareRule_lt_iff {rule : RankingRule} {a b : StandingsRow ι τ} :
    compareRule rule a b = .lt ↔ rule.Better a b := by
  rw [compareRule, RankingRule.Better]
  split
  · exact compare_lt_iff_lt
  · exact compare_lt_iff_lt

theorem level_iff {chain : List RankingRule} {a b : StandingsRow ι τ} :
    RuleChain.Level compareRule chain a b ↔ Level chain a b :=
  forall₂_congr fun _ _ => compareRule_eq_iff

theorem ahead_iff {chain : List RankingRule} {a b : StandingsRow ι τ} :
    RuleChain.Ahead compareRule chain a b ↔ Ahead chain a b := by
  simp only [RuleChain.Ahead, Ahead, level_iff, compareRule_lt_iff]

theorem level_append {chain chain' : List RankingRule} {a b : StandingsRow ι τ} :
    Level (chain ++ chain') a b ↔ Level chain a b ∧ Level chain' a b := List.forall_mem_append

theorem ahead_append {chain chain' : List RankingRule} {a b : StandingsRow ι τ} :
    Ahead (chain ++ chain') a b ↔ Ahead chain a b ∨ Level chain a b ∧ Ahead chain' a b := by
  rw [← ahead_iff, ← RuleChain.compareChain_lt_iff, RuleChain.compareChain_append,
    Ordering.then_eq_lt, RuleChain.compareChain_lt_iff, RuleChain.compareChain_eq_iff,
    RuleChain.compareChain_lt_iff, ahead_iff, level_iff, ahead_iff]

theorem ahead_cons {rule : RankingRule} {chain : List RankingRule} {a b : StandingsRow ι τ} :
    Ahead (rule :: chain) a b ↔
      rule.Better a b ∨ a.stat rule.key = b.stat rule.key ∧ Ahead chain a b := by
  rw [← ahead_iff, ← RuleChain.compareChain_lt_iff, RuleChain.compareChain, Ordering.then_eq_lt,
    compareRule_lt_iff, compareRule_eq_iff, RuleChain.compareChain_lt_iff, ahead_iff]

instance (chain : List RankingRule) (a b : StandingsRow ι τ) : Decidable (Level chain a b) :=
  inferInstanceAs (Decidable (∀ rule ∈ chain, _))

instance (rule : RankingRule) :
    Std.TransCmp (compareRule rule : StandingsRow ι τ → StandingsRow ι τ → Ordering) := by
  obtain ⟨key, direction⟩ := rule
  cases direction with
  | asc => exact inferInstanceAs (Std.TransCmp (compareOn fun row : StandingsRow ι τ => row.stat key))
  | desc =>
    exact inferInstanceAs (Std.TransCmp fun a b : StandingsRow ι τ =>
      compareOn (fun row : StandingsRow ι τ => row.stat key) b a)

/-! ## What the ranking returns -/

section Law

variable [LinearOrder ι] [LinearOrder τ] {chain : List RankingRule}
  {rows : List (StandingsRow ι τ)} {a b : StandingsRow ι τ}

/-- The order of two rows that no key separates. -/
def NamedBefore (a b : StandingsRow ι τ) : Prop :=
  a.displayName < b.displayName ∨
    a.displayName = b.displayName ∧ a.registrationId ≤ b.registrationId

instance (chain : List RankingRule) :
    Std.TransCmp (rowOrder chain : StandingsRow ι τ → StandingsRow ι τ → Ordering) :=
  inferInstanceAs (Std.TransCmp (compareLex (RuleChain.compareChain compareRule chain)
    (compareLex (compareOn (·.displayName)) (compareOn (·.registrationId)))))

theorem rowOrder_isLE_iff :
    (rowOrder chain a b).isLE ↔ Ahead chain a b ∨ Level chain a b ∧ NamedBefore a b := by
  rw [rowOrder, compareLex, compareLex, Ordering.isLE_then_iff_or, Ordering.isLE_then_iff_or,
    RuleChain.compareChain_lt_iff, ahead_iff, RuleChain.compareChain_eq_iff, level_iff, NamedBefore,
    compareOn, compareOn, compare_lt_iff_lt, compare_eq_iff_eq, ← compare_le_iff_le,
    Ordering.isLE_iff_ne_gt]

theorem registrationId_eq_of_rowOrder (h : rowOrder chain a b = .eq) :
    a.registrationId = b.registrationId := by
  rw [rowOrder, compareLex_eq_eq, compareLex_eq_eq] at h
  exact compare_eq_iff_eq.mp h.2.2

theorem applyRanking_eq_of_perm {rows' : List (StandingsRow ι τ)} (h : rows'.Perm rows)
    (hIds : (rows.map (·.registrationId)).Nodup) :
    applyRanking rows' chain = applyRanking rows chain := by
  have hSorted : sortWith (rowOrder chain) rows' = sortWith (rowOrder chain) rows :=
    sortWith_eq_of_perm (·.registrationId) (fun _ _ => registrationId_eq_of_rowOrder)
      ((h.map _).nodup_iff.mpr hIds) h
  rw [applyRanking, applyRanking, hSorted]

theorem map_applyRanking {β : Type*} (f : StandingsRow ι τ → β)
    (hf : ∀ row rank deciding,
      f { row with rank := rank, decidingTiebreak := deciding } = f row) :
    (applyRanking rows chain).map f = (sortWith (rowOrder chain) rows).map f := by
  refine List.ext_getElem (by simp [applyRanking]) ?_
  intro i _ _
  simp [applyRanking, hf]

theorem getElem?_applyRanking (i : ℕ) : (applyRanking rows chain)[i]? =
    (sortWith (rowOrder chain) rows)[i]?.map fun row =>
      { row with
        rank := i + 1
        decidingTiebreak :=
          match i with
          | 0 => none
          | i + 1 =>
            (sortWith (rowOrder chain) rows)[i]?.bind fun above =>
              decidingTiebreakBetween above row chain } := by
  rw [applyRanking, List.getElem?_mapIdx]

omit [LinearOrder ι] [LinearOrder τ] in
theorem decidingTiebreakBetween_eq_none_iff {above me : StandingsRow ι τ} :
    decidingTiebreakBetween above me chain = none ↔ Level chain above me := by
  rw [decidingTiebreakBetween, Option.map_eq_none_iff, List.find?_eq_none]
  refine forall₂_congr fun rule _ => ?_
  rw [decide_eq_true_eq, not_not]
  exact eq_comm

/-- The mark names the first key on which the two rows differ. -/
structure Decides (chain : List RankingRule) (above me : StandingsRow ι τ) (t : DecidingTiebreak) :
    Prop where
  decides : ∃ before rule after, chain = before ++ rule :: after ∧ Level before above me ∧
    t.key = rule.key ∧ t.direction = rule.direction
  mine : t.mine = me.stat t.key
  theirs : t.theirs = above.stat t.key
  apart : t.mine ≠ t.theirs

omit [LinearOrder ι] [LinearOrder τ] in
theorem decides_of_between {above me : StandingsRow ι τ} {t : DecidingTiebreak}
    (h : decidingTiebreakBetween above me chain = some t) : Decides chain above me t := by
  obtain ⟨rule, hFind, rfl⟩ := Option.map_eq_some_iff.mp h
  obtain ⟨hApart, before, after, rfl, hBefore⟩ := List.find?_eq_some_iff_append.mp hFind
  have hLevel : Level before above me := by
    intro other hOther
    have hSame := hBefore other hOther
    simp only [ne_eq, decide_not, Bool.not_not, decide_eq_true_eq] at hSame
    exact hSame.symm
  exact ⟨⟨before, rule, after, rfl, hLevel, rfl, rfl⟩, rfl, rfl, by simpa using hApart⟩

theorem pairwise_applyRanking :
    (applyRanking rows chain).Pairwise fun above below =>
      Ahead chain above below ∨ Level chain above below ∧ NamedBefore above below := by
  have hSorted : (sortWith (rowOrder chain) rows).Pairwise fun a b => (rowOrder chain a b).isLE :=
    pairwise_sortWith rows
  rw [List.pairwise_iff_getElem] at hSorted
  rw [List.pairwise_iff_getElem]
  intro i j hi hj hij
  simp only [applyRanking, List.length_mapIdx] at hi hj
  simp only [applyRanking, List.getElem_mapIdx]
  have hBefore := rowOrder_isLE_iff.mp (hSorted i j hi hj hij)
  exact hBefore

/-- What a ranking of the rows is: the same rows, in the order of the chain, each with its place
and with the key that put it below the row above. -/
structure Ranked (chain : List RankingRule) (rows out : List (StandingsRow ι τ)) : Prop where
  data : (out.map (·.data)).Perm (rows.map (·.data))
  ordered : out.Pairwise fun above below =>
    Ahead chain above below ∨ Level chain above below ∧ NamedBefore above below
  rank : ∀ i row, out[i]? = some row → row.rank = i + 1
  leader : ∀ row, out[0]? = some row → row.decidingTiebreak = none
  level : ∀ i above row, out[i]? = some above → out[i + 1]? = some row →
    (row.decidingTiebreak = none ↔ Level chain above row)
  deciding : ∀ i above row t, out[i]? = some above → out[i + 1]? = some row →
    row.decidingTiebreak = some t →
      Decides chain above row t ∧ RankingRule.Better ⟨t.key, t.direction⟩ above row

theorem decidingTiebreak_applyRanking {i : ℕ} {above row : StandingsRow ι τ}
    (hAbove : (applyRanking rows chain)[i]? = some above)
    (hRow : (applyRanking rows chain)[i + 1]? = some row) :
    row.decidingTiebreak = decidingTiebreakBetween above row chain := by
  rw [getElem?_applyRanking] at hAbove hRow
  obtain ⟨above', hAbove', rfl⟩ := Option.map_eq_some_iff.mp hAbove
  obtain ⟨row', hRow', rfl⟩ := Option.map_eq_some_iff.mp hRow
  simp only [hAbove', Option.bind_some]
  rfl

theorem Decides.better {above me : StandingsRow ι τ} {t : DecidingTiebreak}
    (h : Decides chain above me t)
    (hOrder : Ahead chain above me ∨ Level chain above me ∧ NamedBefore above me) :
    RankingRule.Better ⟨t.key, t.direction⟩ above me := by
  obtain ⟨⟨before, rule, after, rfl, hLevel, hKey, hDirection⟩, hMine, hTheirs, hApart⟩ := h
  have hRule : rule = ⟨t.key, t.direction⟩ := by rw [hKey, hDirection]
  rw [← hRule, ← compareRule_lt_iff]
  have hLE := Ordering.isLE_left_of_isLE_then (rowOrder_isLE_iff.mpr hOrder)
  refine RuleChain.lt_of_deciding? hLE (level_iff.mpr hLevel) fun hEq => hApart ?_
  rw [hMine, hTheirs, hKey]
  exact (compareRule_eq_iff.mp hEq).symm

theorem ranked_applyRanking (rows : List (StandingsRow ι τ)) (chain : List RankingRule) :
    Ranked chain rows (applyRanking rows chain) where
  data := by
    rw [map_applyRanking (·.data) fun _ _ _ => rfl]
    exact (sortWith_perm rows).map _
  ordered := pairwise_applyRanking
  rank i row h := by
    rw [getElem?_applyRanking] at h
    obtain ⟨_, _, rfl⟩ := Option.map_eq_some_iff.mp h
    rfl
  leader row h := by
    rw [getElem?_applyRanking] at h
    obtain ⟨_, _, rfl⟩ := Option.map_eq_some_iff.mp h
    rfl
  level i above row hAbove hRow := by
    rw [decidingTiebreak_applyRanking hAbove hRow]
    exact decidingTiebreakBetween_eq_none_iff
  deciding i above row t hAbove hRow ht := by
    rw [decidingTiebreak_applyRanking hAbove hRow] at ht
    obtain ⟨hi, rfl⟩ := List.getElem?_eq_some_iff.mp hAbove
    obtain ⟨hj, rfl⟩ := List.getElem?_eq_some_iff.mp hRow
    have hDecides := decides_of_between ht
    exact ⟨hDecides, hDecides.better
      (List.pairwise_iff_getElem.mp pairwise_applyRanking i (i + 1) hi hj (Nat.lt_succ_self i))⟩

/-- One ranking for every order of the rows. -/
theorem applyRanking_ranks (hIds : (rows.map (·.registrationId)).Nodup)
    (chain : List RankingRule) :
    (∀ rows', rows'.Perm rows → applyRanking rows' chain = applyRanking rows chain) ∧
      Ranked chain rows (applyRanking rows chain) :=
  ⟨fun _ h => applyRanking_eq_of_perm h hIds, ranked_applyRanking rows chain⟩

/-- Three rows, two of them level on the points and told apart by their doubles. -/
theorem applyRanking_ranks_three :
    let stats (pts doubles : ℚ) : String → Option ℚ := fun key =>
      if key = "pts" then some pts else if key = "doubles" then some doubles else none
    let rows : List (StandingsRow ℕ ℕ) :=
      [⟨0, 1, 11, stats 3 2, none⟩, ⟨0, 2, 12, stats 3 1, none⟩, ⟨0, 3, 13, stats 6 0, none⟩]
    let chain : List RankingRule := [⟨"pts", .desc⟩, ⟨"doubles", .asc⟩]
    (∀ rows', rows'.Perm rows → applyRanking rows' chain = applyRanking rows chain) ∧
      Ranked chain rows (applyRanking rows chain) :=
  applyRanking_ranks (by decide) _

end Law

end MyClash.Standings
