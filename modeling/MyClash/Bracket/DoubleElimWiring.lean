import MyClash.Bracket.DoubleElimShape
import MyClash.Bracket.SingleElimPlay

/-!
# The wiring of a double elimination

The winners bracket is the main part of a single elimination under other names. Its losers
from the entry round on are what the losers bracket takes in, two rounds of it for each
round they come from; the finals take what both brackets put out.
-/

namespace MyClash.Bracket

open Knockout

namespace DoubleElim

def wbRef (r : SlotRef) : MatchRef := .wb r.round r.position

/-- The winners bracket of `2 ^ W` seats, `surplus` of them behind a play-in. -/
def wbNodes (fighterCount W surplus : ℕ) : List (Node MatchRef) :=
  ((mainSlots false (decide (0 < surplus)) fighterCount (2 ^ W)
    (if 0 < surplus then 2 ^ W - surplus else 0) surplus W).map BracketSlot.node).map
      (Node.map wbRef)

def lbCount (J k : ℕ) : ℕ := 2 ^ J / (4 * 2 ^ ((k - 1) / 2))

def lbRoundNodes (J E k : ℕ) : List (Node MatchRef) :=
  (List.range' 1 (lbCount J k)).map fun pos =>
    ⟨.lb k pos, (lbSources k pos E).1, (lbSources k pos E).2⟩

def lbNodes (J E L : ℕ) : List (Node MatchRef) := (List.range' 1 L).flatMap (lbRoundNodes J E)

/-- Who takes the second chance to the grand final. -/
def secondChance (W L : ℕ) : MatchSource :=
  if 0 < L then .winnerOf (.lb L 1) else .loserOf (.wb W 1)

def finalsNodes (W L : ℕ) (reset : Bool) : SecondChanceTarget → List (Node MatchRef)
  | .bronze => []
  | .gold => ⟨.gf, .winnerOf (.wb W 1), secondChance W L⟩ ::
      if reset then [⟨.gfReset, .loserOf .gf, .winnerOf .gf⟩] else []

/-- The losers of `n` winners-bracket rounds from `start` on. -/
def drops (W start n : ℕ) : List MatchSource :=
  (List.range' start n).flatMap fun round =>
    (List.range' 1 (2 ^ (W - round))).map fun pos => .loserOf (.wb round pos)

def lbWinners (J k : ℕ) : List MatchSource :=
  (List.range' 1 (lbCount J k)).map fun pos => .winnerOf (.lb k pos)

theorem lbCount_eq {J k : ℕ} (hk : 1 ≤ k) (hLe : k ≤ 2 * (J - 1)) :
    lbCount J k = 2 ^ (J - 2 - (k - 1) / 2) := by
  have hFour : 4 * 2 ^ ((k - 1) / 2) = 2 ^ (2 + (k - 1) / 2) := by
    rw [Nat.pow_add]
  rw [lbCount, hFour, Nat.pow_div (by omega) (by decide)]
  congr 1
  omega

theorem drops_succ (W start n : ℕ) :
    drops W start (n + 1) = drops W start n ++
      (List.range' 1 (2 ^ (W - (start + n)))).map fun pos => .loserOf (.wb (start + n) pos) := by
  rw [drops, List.range'_1_concat, List.flatMap_append, List.flatMap_singleton, drops]

theorem drops_append (W start m n : ℕ) :
    drops W start m ++ drops W (start + m) n = drops W start (m + n) := by
  rw [drops, drops, drops, ← List.flatMap_append, List.range'_append_1]

theorem lbNodes_succ (J E L : ℕ) :
    lbNodes J E (L + 1) = lbNodes J E L ++ lbRoundNodes J E (L + 1) := by
  rw [lbNodes, List.range'_1_concat, List.flatMap_append, List.flatMap_singleton, lbNodes,
    Nat.add_comm 1 L]

theorem lbSources_noBye (k pos E : ℕ) :
    (lbSources k pos E).1.isBye = false ∧ (lbSources k pos E).2.isBye = false := by
  rw [lbSources]
  split
  · exact ⟨rfl, rfl⟩
  · split <;> exact ⟨rfl, rfl⟩

theorem lbRound_advances {opn : List MatchSource} {J E k : ℕ}
    (hOpen : opn.Perm ((List.range' 1 (lbCount J k)).flatMap fun pos =>
      [(lbSources k pos E).1, (lbSources k pos E).2])) :
    Advances opn (lbRoundNodes J E k) (lbWinners J k) :=
  Advances.of_positions _ (MatchRef.lb k) (fun pos => (lbSources k pos E).1)
    (fun pos => (lbSources k pos E).2) (fun pos => (lbSources_noBye k pos E).1)
    (fun pos => (lbSources_noBye k pos E).2) hOpen

/-- The consolidation and the drop round pair what stands next to each other. -/
theorem flatMap_pairs (f : ℕ → MatchSource) (n : ℕ) :
    ((List.range' 1 n).flatMap fun pos => [f (2 * pos - 1), f (2 * pos)]) =
      (List.range' 1 (n * 2)).map f := by
  rw [← flatMap_adjacent]
  refine List.flatMap_congr fun pos hPos => ?_
  have hOne := (List.mem_range'_1.mp hPos).1
  rw [show (pos - 1) * 2 + 1 = 2 * pos - 1 by omega, show (pos - 1) * 2 + 2 = 2 * pos by omega]

/-- The losers bracket up to round `k` takes in one more winners-bracket round at every
even round. -/
theorem lb_advances {W J E : ℕ} (hEntry : E + J = W + 1) {k : ℕ} (hk : 1 ≤ k)
    (hLe : k ≤ 2 * (J - 1)) :
    Advances (drops W E (k / 2 + 1)) (lbNodes J E k) (lbWinners J k) := by
  induction k, hk using Nat.le_induction with
  | base =>
    have hCount : lbCount J 1 * 2 = 2 ^ (W - E) := by
      rw [lbCount_eq (Nat.le_refl 1) hLe, ← Nat.pow_succ]
      congr 1
      omega
    rw [drops_succ, lbNodes, List.range'_one, List.flatMap_singleton]
    refine lbRound_advances (.of_eq ?_)
    rw [Nat.add_zero, ← hCount, ← flatMap_pairs]
    rfl
  | succ k hk ih =>
    have hBefore := ih (by omega)
    rw [lbNodes_succ]
    by_cases hEven : (k + 1) % 2 = 0
    · -- the survivors meet the losers of the next winners-bracket round
      have hHalf : (k + 1) / 2 = k / 2 + 1 := by omega
      have hSame : lbCount J (k + 1) = lbCount J k := by
        rw [lbCount_eq hk (by omega), lbCount_eq (Nat.succ_pos k) hLe]
        congr 1
        omega
      have hDropped : 2 ^ (W - (E + (k / 2 + 1))) = lbCount J (k + 1) := by
        rw [lbCount_eq (Nat.succ_pos k) hLe]
        congr 1
        omega
      rw [hHalf, drops_succ, hDropped]
      refine (hBefore.frame _).append (lbRound_advances ?_)
      have hSources : ∀ pos, lbSources (k + 1) pos E =
          (.winnerOf (.lb k pos), .loserOf (.wb (E + (k / 2 + 1)) pos)) := by
        intro pos
        rw [lbSources, if_neg (by omega), if_pos hEven, hHalf]
        rfl
      simp only [hSources]
      refine .trans (.of_eq ?_) (flatMap_pair_perm _ _ _).symm
      rw [lbWinners, hSame]
    · -- the survivors meet each other
      have hHalf : (k + 1) / 2 = k / 2 := by omega
      have hDouble : lbCount J (k + 1) * 2 = lbCount J k := by
        rw [lbCount_eq hk (by omega), lbCount_eq (Nat.succ_pos k) hLe, ← Nat.pow_succ]
        congr 1
        omega
      rw [hHalf]
      refine hBefore.append (lbRound_advances (.of_eq ?_))
      have hSources : ∀ pos, lbSources (k + 1) pos E =
          (.winnerOf (.lb k (2 * pos - 1)), .winnerOf (.lb k (2 * pos))) := by
        intro pos
        rw [lbSources, if_neg (by omega), if_neg hEven]
        rfl
      simp only [hSources]
      rw [lbWinners, ← hDouble, ← flatMap_pairs]

/-! ## The winners bracket -/

theorem mainSlots_noBye {playIn : Bool} {fighterCount size byeSeedCount m rounds : ℕ}
    {s : BracketSlot}
    (hs : s ∈ mainSlots false playIn fighterCount size byeSeedCount m rounds) :
    s.homeSource.isBye = false ∧ s.awaySource.isBye = false := by
  have hSeat : ∀ seed,
      (Bracket.seatSource false playIn fighterCount byeSeedCount seed).isBye = false := by
    intro seed
    rw [Bracket.seatSource, Bool.false_and, if_neg Bool.false_ne_true]
    split <;> rfl
  rw [mainSlots, List.mem_append, List.mem_append] at hs
  rcases hs with (hs | hs) | hs
  · obtain ⟨pos, -, rfl⟩ := List.mem_map.mp hs
    exact ⟨rfl, rfl⟩
  · obtain ⟨⟨pair, pos⟩, -, rfl⟩ := List.mem_map.mp hs
    exact ⟨hSeat pair.1, hSeat pair.2⟩
  · obtain ⟨round, -, hs⟩ := List.mem_flatMap.mp hs
    obtain ⟨pos, -, rfl⟩ := List.mem_map.mp hs
    exact ⟨rfl, rfl⟩

section WinnersBracket

variable {fighterCount W surplus : ℕ}

theorem wbNodes_noBye : ∀ n ∈ wbNodes fighterCount W surplus,
    n.home.isBye = false ∧ n.away.isBye = false := by
  intro n hn
  obtain ⟨node, hNode, rfl⟩ := List.mem_map.mp hn
  obtain ⟨s, hs, rfl⟩ := List.mem_map.mp hNode
  obtain ⟨hHome, hAway⟩ := mainSlots_noBye hs
  exact ⟨(Feed.isBye_map wbRef _).trans hHome, (Feed.isBye_map wbRef _).trans hAway⟩

theorem wb_advances (hW : 1 ≤ W) (hField : fighterCount = 2 ^ W + surplus)
    (hFit : surplus ≤ 2 ^ W) :
    Advances ((List.range' 1 fighterCount).map Feed.seed) (wbNodes fighterCount W surplus)
      [.winnerOf (.wb W 1)] := by
  obtain ⟨k, rfl⟩ : ∃ k, W = k + 1 := ⟨W - 1, by omega⟩
  have hMain := (mainSlots_advances_default hField hFit).map wbRef
  rw [seedFeeds, List.map_map] at hMain
  exact hMain

/-- The losers of the winners bracket, round by round. -/
theorem wb_losers (hW : 1 ≤ W) : (wbNodes fighterCount W surplus).flatMap Node.losers =
    ((List.range' 1 surplus).map fun pos => .loserOf (.wb 0 pos)) ++ drops W 1 W := by
  obtain ⟨k, rfl⟩ : ∃ k, W = k + 1 := ⟨W - 1, by omega⟩
  have hKeys : (wbNodes fighterCount (k + 1) surplus).map Node.key =
      ((mainSlots false (decide (0 < surplus)) fighterCount (2 ^ (k + 1))
        (if 0 < surplus then 2 ^ (k + 1) - surplus else 0) surplus (k + 1)).map
          BracketSlot.ref).map wbRef := by
    rw [wbNodes, List.map_map, List.map_map, List.map_map]
    rfl
  have hRounds : drops (k + 1) 1 (k + 1) =
      ((List.range' 1 (2 ^ k)).map fun pos => (.loserOf (.wb 1 pos) : MatchSource)) ++
        drops (k + 1) 2 k := by
    rw [drops, List.range'_succ, List.flatMap_cons]
    rfl
  rw [flatMap_losers wbNodes_noBye, hKeys, mainSlots, hRounds, drops]
  simp only [List.map_append, map_ref_playIn, map_ref_firstRound, map_ref_winnerSlots,
    List.map_map, List.map_flatMap, List.append_assoc, Nat.add_sub_cancel]
  congr 2
  refine List.flatMap_congr fun round hRound => ?_
  have hLe := List.mem_range'_1.mp hRound
  rw [Nat.pow_div (by omega) (by decide)]
  rfl

end WinnersBracket

/-! ## The whole bracket -/

/-- A losers bracket that fits its winners bracket: complete in the gold mode, one or two
rounds short in the bronze mode. -/
structure Ladder (W J E L : ℕ) (target : SecondChanceTarget) : Prop where
  rounds_pos : 1 ≤ W
  depth_pos : 1 ≤ J
  depth_le : J ≤ W
  entry : E + J = W + 1
  gold : target = .gold → L = 2 * (J - 1)
  bronze : target = .bronze → 1 ≤ L ∧ L + 1 ≤ 2 * (J - 1) ∧ 2 * (J - 1) ≤ L + 2

/-- Whoever comes out of the losers bracket. -/
def survivors (W J L : ℕ) : SecondChanceTarget → List MatchSource
  | .gold => [secondChance W L]
  | .bronze => lbWinners J L

/-- What is left on top: in the bronze mode the winner of the winners bracket next to the
survivors of the last losers-bracket round, else the two of the last bout. -/
def ending (W J L : ℕ) (reset : Bool) : SecondChanceTarget → List MatchSource
  | .bronze => .winnerOf (.wb W 1) :: lbWinners J L
  | .gold =>
    if reset then [.winnerOf .gfReset, .loserOf .gfReset] else [.winnerOf .gf, .loserOf .gf]

/-- The losers nobody waits for: those of the losers bracket, and those who lose outside
the rounds it takes in. -/
def outright (W surplus J E L : ℕ) : List MatchSource :=
  (lbNodes J E L).flatMap Node.losers ++
    (((List.range' 1 surplus).map fun pos => .loserOf (.wb 0 pos)) ++ drops W 1 (E - 1) ++
      drops W (E + L / 2 + 1) (W - (E + L / 2)))

def allNodes (fighterCount W surplus J E L : ℕ) (reset : Bool) (target : SecondChanceTarget) :
    List (Node MatchRef) :=
  wbNodes fighterCount W surplus ++ lbNodes J E L ++ finalsNodes W L reset target

section Whole

variable {W J E L : ℕ} {target : SecondChanceTarget}

/-- The last winners-bracket round whose losers have a second chance. -/
theorem Ladder.last_eq (h : Ladder W J E L target) :
    E + L / 2 = if target = .gold then W else W - 1 := by
  have hEntry := h.entry
  have hPos := h.depth_pos
  cases target with
  | gold =>
    have hGold := h.gold rfl
    rw [if_pos rfl]
    omega
  | bronze =>
    have hBronze := h.bronze rfl
    rw [if_neg (by decide)]
    omega

theorem Ladder.last_le (h : Ladder W J E L target) : E + L / 2 ≤ W := by
  rw [h.last_eq]
  split <;> omega

theorem Ladder.losers_advances (h : Ladder W J E L target) :
    Advances (drops W E (L / 2 + 1)) (lbNodes J E L) (survivors W J L target) := by
  have hEntry := h.entry
  cases target with
  | gold =>
    have hGold := h.gold rfl
    rcases Nat.eq_zero_or_pos L with rfl | hL
    · obtain rfl : E = W := by
        have hPos := h.depth_pos
        omega
      have hFinal : drops E E (0 / 2 + 1) = survivors E J 0 .gold := by
        rw [drops_succ, Nat.add_zero, Nat.sub_self]
        rfl
      rw [hFinal]
      exact Advances.nil _
    · have hAdvances := lb_advances hEntry hL (Nat.le_of_eq hGold)
      have hOne : lbWinners J L = survivors W J L .gold := by
        have hCount : lbCount J L = 1 := by
          rw [lbCount_eq hL (Nat.le_of_eq hGold), hGold, show J - 2 - (2 * (J - 1) - 1) / 2 = 0 by
            omega, Nat.pow_zero]
        rw [lbWinners, hCount, survivors, secondChance, if_pos hL]
        rfl
      rwa [hOne] at hAdvances
  | bronze =>
    obtain ⟨hL, hLe, -⟩ := h.bronze rfl
    exact lb_advances hEntry hL (by omega)

theorem Ladder.drops_split (h : Ladder W J E L target) :
    drops W 1 W = drops W 1 (E - 1) ++ drops W E (L / 2 + 1) ++
      drops W (E + L / 2 + 1) (W - (E + L / 2)) := by
  have hLast := h.last_le
  have hEntry := h.entry
  have hDepth := h.depth_le
  have hStart : drops W 1 (E - 1) ++ drops W E (L / 2 + 1) = drops W 1 (E + L / 2) := by
    have hAppend := drops_append W 1 (E - 1) (L / 2 + 1)
    rwa [show 1 + (E - 1) = E by omega, show E - 1 + (L / 2 + 1) = E + L / 2 by omega] at hAppend
  have hAppend := drops_append W 1 (E + L / 2) (W - (E + L / 2))
  rw [hStart, Nat.add_comm (E + L / 2) 1, hAppend, Nat.add_sub_cancel' hLast]

theorem finals_flow (reset : Bool) (rest : List MatchSource) :
    Flow ([.winnerOf (.wb W 1)] ++ survivors W J L target ++ rest)
      (finalsNodes W L reset target) (ending W J L reset target ++ rest) := by
  have hSecond : (secondChance W L).isBye = false := by
    rw [secondChance]
    split <;> rfl
  cases target with
  | bronze => exact .done (.refl _)
  | gold =>
    refine @Flow.bout _ _ rest _ _ _ ?_ (.of_eq ?_) ?_
    · simp [Node.feeds, Node.sides]
    · simp [Node.feeds, Node.sides, hSecond, survivors]
    · cases reset with
      | false => exact .done (.of_eq (by simp [Node.produces, Node.losers, hSecond, ending]))
      | true =>
        refine @Flow.bout _ _ rest _ _ _ ?_ ?_ (.done (.of_eq ?_))
        · simp [Node.feeds, Node.sides]
        · simpa [Node.feeds, Node.sides, Node.produces, Node.losers, hSecond] using
            List.Perm.swap _ _ rest
        · simp [Node.produces, Node.losers, ending]

/-- From the seeds to the places on top, with everyone else out. -/
theorem Ladder.flow (h : Ladder W J E L target) {fighterCount surplus : ℕ}
    (hField : fighterCount = 2 ^ W + surplus) (hFit : surplus ≤ 2 ^ W) (reset : Bool) :
    Flow ((List.range' 1 fighterCount).map Feed.seed)
      (allNodes fighterCount W surplus J E L reset target)
      (ending W J L reset target ++ outright W surplus J E L) := by
  have hWinners := wb_advances h.rounds_pos hField hFit
  rw [Advances, wb_losers h.rounds_pos, h.drops_split] at hWinners
  have hLosers := Flow.frame ([.winnerOf (.wb W 1)] ++
    (((List.range' 1 surplus).map fun pos => .loserOf (.wb 0 pos)) ++ drops W 1 (E - 1) ++
      drops W (E + L / 2 + 1) (W - (E + L / 2)))) h.losers_advances
  have hFinals : Flow _ (finalsNodes W L reset target) (ending W J L reset target ++ _) :=
    finals_flow reset (outright W surplus J E L)
  refine ((hWinners.to_perm ?_).append hLosers).append (hFinals.of_perm ?_)
  · refine List.perm_iff_count.mpr fun x => ?_
    simp only [List.count_append]
    omega
  · refine List.perm_iff_count.mpr fun x => ?_
    rw [outright]
    simp only [List.count_append]
    omega

/-! ## The order of the bouts -/

def rank (W L : ℕ) : MatchRef → ℕ
  | .wb round _ => round
  | .lb round _ => W + round
  | .gf => W + L + 1
  | .gfReset => W + L + 2

theorem wb_ranked (hW : 1 ≤ W) (fighterCount surplus : ℕ) :
    Ranked (rank W L) (wbNodes fighterCount W surplus) := by
  obtain ⟨k, rfl⟩ : ∃ k, W = k + 1 := ⟨W - 1, by omega⟩
  have hRef : Function.Injective wbRef := by
    intro a b h
    cases a
    cases b
    cases h
    rfl
  exact ordered_mainSlots.ranked.map hRef fun _ => rfl

theorem wb_rank_le (hW : 1 ≤ W) {fighterCount surplus : ℕ} {n : Node MatchRef}
    (hn : n ∈ wbNodes fighterCount W surplus) : ∃ round position, n.key = .wb round position ∧
      round ≤ W := by
  obtain ⟨k, rfl⟩ : ∃ k, W = k + 1 := ⟨W - 1, by omega⟩
  obtain ⟨node, hNode, rfl⟩ := List.mem_map.mp hn
  obtain ⟨s, hs, rfl⟩ := List.mem_map.mp hNode
  refine ⟨s.round, s.position, rfl, ?_⟩
  have hRound := mainSlots_round hs
  omega

theorem mem_lbNodes {n : Node MatchRef} (hn : n ∈ lbNodes J E L) : ∃ k position, 1 ≤ k ∧ k ≤ L ∧
    n = ⟨.lb k position, (lbSources k position E).1, (lbSources k position E).2⟩ := by
  obtain ⟨k, hk, hn⟩ := List.mem_flatMap.mp hn
  obtain ⟨position, -, rfl⟩ := List.mem_map.mp hn
  have hLe := List.mem_range'_1.mp hk
  exact ⟨k, position, hLe.1, by omega, rfl⟩

/-- The bouts a losers-bracket slot waits for. -/
theorem lbSources_reads {k position : ℕ} {x : MatchSource}
    (hx : x = (lbSources k position E).1 ∨ x = (lbSources k position E).2) :
    (∃ pos, x = .winnerOf (.lb (k - 1) pos)) ∨ ∃ pos, x = .loserOf (.wb (E + k / 2) pos) := by
  rw [lbSources] at hx
  split at hx
  · rename_i hOne
    subst hOne
    rcases hx with rfl | rfl
    · exact Or.inr ⟨_, rfl⟩
    · exact Or.inr ⟨_, rfl⟩
  · split at hx
    · rcases hx with rfl | rfl
      · exact Or.inl ⟨_, rfl⟩
      · exact Or.inr ⟨_, rfl⟩
    · rcases hx with rfl | rfl
      · exact Or.inl ⟨_, rfl⟩
      · exact Or.inl ⟨_, rfl⟩

theorem lb_ranked (hLast : E + L / 2 ≤ W) {L' : ℕ} (hLe : L' ≤ L) :
    Ranked (rank W L) (lbNodes J E L') := by
  induction L' with
  | zero => exact Ranked.nil _
  | succ k ih =>
    have hReads : ∀ position x,
        x = (lbSources (k + 1) position E).1 ∨ x = (lbSources (k + 1) position E).2 →
        ∀ r, x.reads? = some r → rank W L r < W + (k + 1) := by
      intro position x hx r hr
      rcases lbSources_reads hx with ⟨pos, rfl⟩ | ⟨pos, rfl⟩
      · cases hr
        exact Nat.add_lt_add_left (Nat.lt_succ_self k) W
      · cases hr
        have hHalf : (k + 1) / 2 ≤ L / 2 := Nat.div_le_div_right hLe
        simp only [rank]
        omega
    rw [lbNodes_succ]
    refine (ih (by omega)).append ⟨?_, ?_, ?_, ?_⟩ ?_
    · rw [lbRoundNodes, List.map_map]
      exact List.Nodup.map (fun a b h => by cases h; rfl) (List.nodup_range' 1)
    · refine List.pairwise_map.mpr (List.pairwise_of_forall fun _ _ => Nat.le_refl _)
    · intro n hn r hr
      obtain ⟨position, -, rfl⟩ := List.mem_map.mp hn
      exact hReads position _ (Or.inl rfl) r hr
    · intro n hn r hr
      obtain ⟨position, -, rfl⟩ := List.mem_map.mp hn
      exact hReads position _ (Or.inr rfl) r hr
    · intro x hx y hy
      obtain ⟨k', position, -, hk', rfl⟩ := mem_lbNodes hx
      obtain ⟨position', -, rfl⟩ := List.mem_map.mp hy
      exact Nat.add_lt_add_left (Nat.lt_succ_of_le hk') W

theorem finals_ranked (reset : Bool) : Ranked (rank W L) (finalsNodes W L reset target) := by
  have hSecond : ∀ r, (secondChance W L).reads? = some r → rank W L r < W + L + 1 := by
    intro r hr
    rw [secondChance] at hr
    split at hr <;> cases hr <;> simp only [rank] <;> omega
  cases target with
  | bronze => exact Ranked.nil _
  | gold =>
    have hGf : Ranked (rank W L) [⟨.gf, .winnerOf (.wb W 1), secondChance W L⟩] := by
      refine ⟨List.nodup_singleton _, List.pairwise_singleton _ _, fun n hn r hr => ?_,
        fun n hn r hr => ?_⟩
      · rw [List.mem_singleton.mp hn] at hr ⊢
        cases hr
        simp only [rank]
        omega
      · rw [List.mem_singleton.mp hn] at hr ⊢
        exact hSecond r hr
    cases reset with
    | false => exact hGf
    | true =>
      refine hGf.append ⟨List.nodup_singleton _, List.pairwise_singleton _ _, fun n hn r hr => ?_,
        fun n hn r hr => ?_⟩ fun x hx y hy => ?_
      · rw [List.mem_singleton.mp hn] at hr ⊢
        cases hr
        simp only [rank]
        omega
      · rw [List.mem_singleton.mp hn] at hr ⊢
        cases hr
        simp only [rank]
        omega
      · rw [List.mem_singleton.mp hx, List.mem_singleton.mp hy]
        simp only [rank]
        omega

theorem mem_finalsNodes {reset : Bool} {n : Node MatchRef}
    (hn : n ∈ finalsNodes W L reset target) :
    target = .gold ∧ (n = ⟨.gf, .winnerOf (.wb W 1), secondChance W L⟩ ∨
      reset = true ∧ n = ⟨.gfReset, .loserOf .gf, .winnerOf .gf⟩) := by
  cases target with
  | bronze => cases hn
  | gold =>
    refine ⟨rfl, ?_⟩
    rcases List.mem_cons.mp hn with rfl | hn
    · exact Or.inl rfl
    · cases reset with
      | false => cases hn
      | true => exact Or.inr ⟨rfl, List.mem_singleton.mp hn⟩

theorem Ladder.ranked (h : Ladder W J E L target) (fighterCount surplus : ℕ) (reset : Bool) :
    Ranked (rank W L) (allNodes fighterCount W surplus J E L reset target) := by
  refine ((wb_ranked h.rounds_pos fighterCount surplus).append
    (lb_ranked h.last_le (Nat.le_refl L)) ?_).append (finals_ranked reset) ?_
  · intro x hx y hy
    obtain ⟨round, position, hKey, hLe⟩ := wb_rank_le h.rounds_pos hx
    obtain ⟨k, position', hPos, -, rfl⟩ := mem_lbNodes hy
    rw [hKey]
    simp only [rank]
    omega
  · intro x hx y hy
    have hLast : W + L < rank W L y.key := by
      obtain ⟨-, rfl | ⟨-, rfl⟩⟩ := mem_finalsNodes hy
      · exact Nat.lt_succ_self _
      · exact Nat.lt_succ_of_lt (Nat.lt_succ_self _)
    refine Nat.lt_of_le_of_lt ?_ hLast
    rcases List.mem_append.mp hx with hx | hx
    · obtain ⟨round, position, hKey, hLe⟩ := wb_rank_le h.rounds_pos hx
      rw [hKey]
      exact Nat.le_add_right_of_le hLe
    · obtain ⟨k, position', -, hk, rfl⟩ := mem_lbNodes hx
      exact Nat.add_le_add_left hk W

theorem allNodes_noBye {fighterCount surplus : ℕ} {reset : Bool} :
    ∀ n ∈ allNodes fighterCount W surplus J E L reset target,
      n.home.isBye = false ∧ n.away.isBye = false := by
  intro n hn
  rcases List.mem_append.mp hn with hn | hn
  · rcases List.mem_append.mp hn with hn | hn
    · exact wbNodes_noBye n hn
    · obtain ⟨k, position, -, -, rfl⟩ := mem_lbNodes hn
      exact lbSources_noBye k position E
  · obtain ⟨-, rfl | ⟨-, rfl⟩⟩ := mem_finalsNodes hn
    · refine ⟨rfl, ?_⟩
      rw [secondChance]
      split <;> rfl
    · exact ⟨rfl, rfl⟩

/-! ## The number of bouts -/

theorem length_drops (start : ℕ) {n : ℕ} (hLe : start + n ≤ W + 1) :
    (drops W start n).length + 2 ^ (W + 1 - (start + n)) = 2 ^ (W + 1 - start) := by
  induction n with
  | zero => simp [drops]
  | succ n ih =>
    have hBefore := ih (by omega)
    have hHalf : 2 ^ (W + 1 - (start + n)) = 2 ^ (W - (start + n)) * 2 := by
      rw [← Nat.pow_succ]
      congr 1
      omega
    rw [drops_succ, List.length_append, List.length_map, List.length_range',
      show W + 1 - (start + (n + 1)) = W - (start + n) by omega]
    omega

theorem length_wbNodes (hW : 1 ≤ W) {fighterCount surplus : ℕ}
    (hField : fighterCount = 2 ^ W + surplus) (hFit : surplus ≤ 2 ^ W) :
    (wbNodes fighterCount W surplus).length + 1 = fighterCount := by
  have hLength := (wb_advances hW hField hFit).length_eq wbNodes_noBye
  rw [List.length_map, List.length_range', List.length_singleton] at hLength
  omega

theorem Ladder.length_lbNodes (h : Ladder W J E L target) :
    (lbNodes J E L).length + (survivors W J L target).length +
      2 ^ (W - (E + L / 2)) = 2 ^ J := by
  have hNoBye : ∀ n ∈ lbNodes J E L, n.home.isBye = false ∧ n.away.isBye = false := by
    intro n hn
    obtain ⟨k, position, -, -, rfl⟩ := mem_lbNodes hn
    exact lbSources_noBye k position E
  have hLength := h.losers_advances.length_eq hNoBye
  have hLast := h.last_le
  have hEntry := h.entry
  have hDrops := length_drops (W := W) E (n := L / 2 + 1) (by omega)
  rw [show W + 1 - (E + (L / 2 + 1)) = W - (E + L / 2) by omega,
    show W + 1 - E = J by omega] at hDrops
  omega

end Whole

/-! ## Who waits to the end -/

section Final

variable {W J E L surplus : ℕ} {target : SecondChanceTarget} {reset : Bool}

theorem mem_drops {start n : ℕ} {x : MatchSource} (hx : x ∈ drops W start n) :
    ∃ round position, start ≤ round ∧ round < start + n ∧ x = .loserOf (.wb round position) := by
  obtain ⟨round, hRound, hx⟩ := List.mem_flatMap.mp hx
  obtain ⟨position, -, rfl⟩ := List.mem_map.mp hx
  have hLe := List.mem_range'_1.mp hRound
  exact ⟨round, position, hLe.1, hLe.2, rfl⟩

/-- A loser nobody waits for lost in the losers bracket or outside the rounds it takes in. -/
theorem mem_outright {x : MatchSource} (hE : 1 ≤ E) (hx : x ∈ outright W surplus J E L) :
    (∃ k position, x = .loserOf (.lb k position)) ∨
      ∃ round position, (round < E ∨ E + L / 2 < round) ∧ x = .loserOf (.wb round position) := by
  rcases List.mem_append.mp hx with hx | hx
  · obtain ⟨n, hn, rfl⟩ := eq_of_mem_losers hx
    obtain ⟨k, position, -, -, rfl⟩ := mem_lbNodes hn
    exact Or.inl ⟨k, position, rfl⟩
  · rcases List.mem_append.mp hx with hx | hx
    · rcases List.mem_append.mp hx with hx | hx
      · obtain ⟨position, -, rfl⟩ := List.mem_map.mp hx
        exact Or.inr ⟨0, position, Or.inl hE, rfl⟩
      · obtain ⟨round, position, -, hLt, rfl⟩ := mem_drops hx
        exact Or.inr ⟨round, position, Or.inl (by omega), rfl⟩
    · obtain ⟨round, position, hLe, -, rfl⟩ := mem_drops hx
      exact Or.inr ⟨round, position, Or.inr hLe, rfl⟩

theorem mem_ending {x : MatchSource} (hx : x ∈ ending W J L reset target) :
    (target = .bronze ∧ (x = .winnerOf (.wb W 1) ∨ x ∈ lbWinners J L)) ∨
      (target = .gold ∧ reset = true ∧ (x = .winnerOf .gfReset ∨ x = .loserOf .gfReset)) ∨
      (target = .gold ∧ reset = false ∧ (x = .winnerOf .gf ∨ x = .loserOf .gf)) := by
  cases target with
  | bronze => exact Or.inl ⟨rfl, List.mem_cons.mp hx⟩
  | gold =>
    cases reset with
    | true => exact Or.inr (Or.inl ⟨rfl, rfl, List.mem_pair.mp hx⟩)
    | false => exact Or.inr (Or.inr ⟨rfl, rfl, List.mem_pair.mp hx⟩)

theorem winnerOf_wb_mem_ending {round position : ℕ} :
    .winnerOf (.wb round position) ∈ ending W J L reset target ↔
      target = .bronze ∧ round = W ∧ position = 1 := by
  cases target with
  | bronze => simp [ending, lbWinners]
  | gold => cases reset <;> simp [ending]

theorem winnerOf_lb_mem_ending {k position : ℕ} :
    .winnerOf (.lb k position) ∈ ending W J L reset target ↔
      target = .bronze ∧ k = L ∧ .winnerOf (.lb k position) ∈ lbWinners J k := by
  cases target with
  | bronze =>
    simp only [ending, List.mem_cons, Feed.winnerOf.injEq, reduceCtorEq, false_or, true_and]
    constructor
    · intro hMem
      obtain ⟨position', -, hEq⟩ := List.mem_map.mp hMem
      cases hEq
      exact ⟨rfl, hMem⟩
    · rintro ⟨rfl, hMem⟩
      exact hMem
  | gold => cases reset <;> simp [ending]

/-- The kinds of feeds that wait to the end. -/
theorem mem_final {x : MatchSource} (hE : 1 ≤ E)
    (hx : x ∈ ending W J L reset target ++ outright W surplus J E L) :
    (∃ r, x = .winnerOf r) ∨ (x = .loserOf .gf ∧ reset = false) ∨
      (x = .loserOf .gfReset ∧ reset = true) ∨ (∃ k position, x = .loserOf (.lb k position)) ∨
      ∃ round position, x = .loserOf (.wb round position) := by
  rcases List.mem_append.mp hx with hx | hx
  · rcases mem_ending hx with ⟨-, rfl | hx⟩ | ⟨-, hReset, rfl | rfl⟩ | ⟨-, hReset, rfl | rfl⟩
    · exact Or.inl ⟨_, rfl⟩
    · obtain ⟨position, -, rfl⟩ := List.mem_map.mp hx
      exact Or.inl ⟨_, rfl⟩
    · exact Or.inl ⟨_, rfl⟩
    · exact Or.inr (Or.inr (Or.inl ⟨rfl, hReset⟩))
    · exact Or.inl ⟨_, rfl⟩
    · exact Or.inr (Or.inl ⟨rfl, hReset⟩)
  · rcases mem_outright hE hx with ⟨k, position, rfl⟩ | ⟨round, position, -, rfl⟩
    · exact Or.inr (Or.inr (Or.inr (Or.inl ⟨k, position, rfl⟩)))
    · exact Or.inr (Or.inr (Or.inr (Or.inr ⟨round, position, rfl⟩)))

theorem Ladder.entry_pos (h : Ladder W J E L target) : 1 ≤ E := by
  have hEntry := h.entry
  have hDepth := h.depth_le
  omega

theorem loserOf_wb_mem_final (h : Ladder W J E L target) {fighterCount round position : ℕ}
    (hKey : .wb round position ∈ (wbNodes fighterCount W surplus).map Node.key) :
    .loserOf (.wb round position) ∈ ending W J L reset target ++ outright W surplus J E L ↔
      ¬ (E ≤ round ∧ round ≤ E + L / 2) := by
  constructor
  · intro hMem
    rcases List.mem_append.mp hMem with hMem | hMem
    · rcases mem_ending hMem with ⟨-, hEq | hEq⟩ | ⟨-, -, hEq | hEq⟩ | ⟨-, -, hEq | hEq⟩
      · cases hEq
      · obtain ⟨_, -, hEq⟩ := List.mem_map.mp hEq
        cases hEq
      · cases hEq
      · cases hEq
      · cases hEq
      · cases hEq
    · rcases mem_outright h.entry_pos hMem with ⟨k, pos, hEq⟩ | ⟨r, pos, hOutside, hEq⟩
      · cases hEq
      · cases hEq
        omega
  · intro hOutside
    have hLost : .loserOf (.wb round position) ∈
        (wbNodes fighterCount W surplus).flatMap Node.losers := by
      rw [flatMap_losers wbNodes_noBye]
      exact List.mem_map_of_mem hKey
    refine List.mem_append_right _ (List.mem_append_right _ ?_)
    rw [wb_losers h.rounds_pos, h.drops_split, List.mem_append, List.mem_append,
      List.mem_append] at hLost
    rcases hLost with hLost | (hLost | hLost) | hLost
    · exact List.mem_append_left _ (List.mem_append_left _ hLost)
    · exact List.mem_append_left _ (List.mem_append_right _ hLost)
    · obtain ⟨r, pos, hLe, hLt, hEq⟩ := mem_drops hLost
      cases hEq
      exact absurd ⟨hLe, by omega⟩ hOutside
    · exact List.mem_append_right _ hLost

/-- A winners-bracket key of the whole bracket is one of the winners bracket. -/
theorem wb_key_mem {fighterCount round position : ℕ}
    (hKey : .wb round position ∈
      (allNodes fighterCount W surplus J E L reset target).map Node.key) :
    .wb round position ∈ (wbNodes fighterCount W surplus).map Node.key := by
  obtain ⟨n, hn, hEq⟩ := List.mem_map.mp hKey
  refine List.mem_map.mpr ⟨n, ?_, hEq⟩
  rcases List.mem_append.mp hn with hn | hn
  · rcases List.mem_append.mp hn with hn | hn
    · exact hn
    · obtain ⟨k, position', -, -, rfl⟩ := mem_lbNodes hn
      cases hEq
  · obtain ⟨-, rfl | ⟨-, rfl⟩⟩ := mem_finalsNodes hn <;> cases hEq

theorem lb_key_mem {fighterCount k position : ℕ} (hW : 1 ≤ W)
    (hKey : .lb k position ∈
      (allNodes fighterCount W surplus J E L reset target).map Node.key) :
    .winnerOf (.lb k position) ∈ lbWinners J k := by
  obtain ⟨n, hn, hEq⟩ := List.mem_map.mp hKey
  rcases List.mem_append.mp hn with hn | hn
  · rcases List.mem_append.mp hn with hn | hn
    · obtain ⟨round, position', hWb, -⟩ := wb_rank_le hW hn
      rw [hWb] at hEq
      cases hEq
    · obtain ⟨k', -, hn⟩ := List.mem_flatMap.mp hn
      obtain ⟨position', hPosition, rfl⟩ := List.mem_map.mp hn
      cases hEq
      exact List.mem_map_of_mem hPosition
  · obtain ⟨-, rfl | ⟨-, rfl⟩⟩ := mem_finalsNodes hn <;> cases hEq

theorem winnerOf_mem_final {r : MatchRef} (hE : 1 ≤ E) :
    .winnerOf r ∈ ending W J L reset target ++ outright W surplus J E L ↔
      .winnerOf r ∈ ending W J L reset target := by
  refine ⟨fun hMem => ?_, List.mem_append_left _⟩
  rcases List.mem_append.mp hMem with hMem | hMem
  · exact hMem
  · rcases mem_outright hE hMem with ⟨k, pos, hEq⟩ | ⟨round, pos, -, hEq⟩ <;> cases hEq

end Final

end DoubleElim

end MyClash.Bracket
