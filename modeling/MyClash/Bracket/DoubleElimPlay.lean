import MyClash.Bracket.DoubleElimWiring

/-!
# A double elimination played to its end

What the fighters who wait on a feed have lost so far, kept by every bout. At the end it
tells how often everyone has lost.
-/

namespace MyClash.Bracket

open Knockout

namespace DoubleElim

/-- One loss, in a winners-bracket round that the losers bracket takes in. -/
def OnceSent (E L : ℕ) (lost : List MatchRef) : Prop :=
  ∃ round position, E ≤ round ∧ round ≤ E + L / 2 ∧ lost = [.wb round position]

/-- What a fighter who waits on a feed has lost; who has lost what on the way to the reset
depends on who won the grand final. -/
def Allowed (E L : ℕ) (homeWinsGf : Bool) : MatchSource → List MatchRef → Prop
  | .seed _, lost => lost = []
  | .bye, _ => True
  | .winnerOf (.wb _ _), lost => lost = []
  | .loserOf (.wb round position), lost => lost = [.wb round position]
  | .winnerOf (.lb _ _), lost => OnceSent E L lost
  | .loserOf (.lb k position), lost =>
    ∃ first, OnceSent E L first ∧ lost = first ++ [.lb k position]
  | .winnerOf .gf, lost => if homeWinsGf then lost = [] else OnceSent E L lost
  | .loserOf .gf, lost =>
    if homeWinsGf then ∃ first, OnceSent E L first ∧ lost = first ++ [.gf] else lost = [.gf]
  | .winnerOf .gfReset, lost => lost = [.gf] ∨ OnceSent E L lost
  | .loserOf .gfReset, lost =>
    ∃ first, (first = [.gf] ∨ OnceSent E L first) ∧ lost = first ++ [.gfReset]

section Fairness

variable {W J E L : ℕ} {target : SecondChanceTarget} {homeWinsGf : Bool}

theorem fair_of_sides {Allowed : MatchSource → List MatchRef → Prop} {homeWins : Bool}
    {n : Node MatchRef} (Before : List MatchRef → Prop)
    (hNoBye : n.home.isBye = false ∧ n.away.isBye = false)
    (hHome : ∀ lost, Allowed n.home lost → Before lost)
    (hAway : ∀ lost, Allowed n.away lost → Before lost)
    (hWins : ∀ lost, Before lost → Allowed (.winnerOf n.key) lost)
    (hLoses : ∀ lost, Before lost → Allowed (.loserOf n.key) (lost ++ [n.key])) :
    Fair Allowed homeWins n where
  wins lost h := by
    rw [Node.winnerFeed, hNoBye.1, hNoBye.2] at h
    simp only [Bool.false_eq_true, if_false, Bool.false_or] at h
    split at h
    · exact hWins lost (hHome lost h)
    · exact hWins lost (hAway lost h)
  loses lost h := by
    rw [Node.loserFeed] at h
    split at h
    · exact hLoses lost (hAway lost h)
    · exact hLoses lost (hHome lost h)

theorem wb_fair (hW : 1 ≤ W) {fighterCount surplus : ℕ} {n : Node MatchRef}
    (hn : n ∈ wbNodes fighterCount W surplus) (homeWins : Bool) :
    Fair (Allowed E L homeWinsGf) homeWins n := by
  obtain ⟨k, rfl⟩ : ∃ k, W = k + 1 := ⟨W - 1, by omega⟩
  have hNoBye := wbNodes_noBye n hn
  obtain ⟨node, hNode, rfl⟩ := List.mem_map.mp hn
  obtain ⟨s, hs, rfl⟩ := List.mem_map.mp hNode
  have hFresh : ∀ x ∈ s.node.sides, ∀ lost, Allowed E L homeWinsGf (x.map wbRef) lost →
      lost = [] := by
    intro x hx lost hLost
    cases x with
    | seed n => exact hLost
    | winnerOf r => exact hLost
    | loserOf r => cases (mainSlots_reads hs hx rfl).2
    | bye =>
      rcases List.mem_pair.mp hx with hEq | hEq
      · have hBye := (mainSlots_noBye hs).1
        rw [show s.homeSource = .bye from hEq.symm] at hBye
        cases hBye
      · have hBye := (mainSlots_noBye hs).2
        rw [show s.awaySource = .bye from hEq.symm] at hBye
        cases hBye
  refine fair_of_sides (· = []) hNoBye (hFresh _ List.mem_cons_self)
    (hFresh _ (List.mem_cons_of_mem _ List.mem_cons_self)) ?_ ?_
  · rintro lost rfl
    rfl
  · rintro lost rfl
    rfl

theorem lb_fair {n : Node MatchRef} (hn : n ∈ lbNodes J E L) (homeWins : Bool) :
    Fair (Allowed E L homeWinsGf) homeWins n := by
  obtain ⟨k, position, -, hLe, rfl⟩ := mem_lbNodes hn
  have hHalf : k / 2 ≤ L / 2 := Nat.div_le_div_right hLe
  have hOnce : ∀ x, x = (lbSources k position E).1 ∨ x = (lbSources k position E).2 →
      ∀ lost, Allowed E L homeWinsGf x lost → OnceSent E L lost := by
    intro x hx lost hLost
    rcases lbSources_reads hx with ⟨pos, rfl⟩ | ⟨pos, rfl⟩
    · exact hLost
    · exact ⟨E + k / 2, pos, Nat.le_add_right _ _, by omega, hLost⟩
  exact fair_of_sides (OnceSent E L) (lbSources_noBye k position E) (hOnce _ (Or.inl rfl))
    (hOnce _ (Or.inr rfl)) (fun _ h => h) fun lost h => ⟨lost, h, rfl⟩

theorem Ladder.second_once (h : Ladder W J E L .gold) {lost : List MatchRef}
    (hLost : Allowed E L homeWinsGf (secondChance W L) lost) : OnceSent E L lost := by
  rw [secondChance] at hLost
  split at hLost
  · exact hLost
  · have hEntry := h.entry
    have hDepth := h.depth_pos
    have hGold := h.gold rfl
    exact ⟨W, 1, by omega, by omega, hLost⟩

/-- The grand final: the winners-bracket entrant comes unbeaten, the other with one loss. -/
theorem Ladder.gf_fair (h : Ladder W J E L .gold) :
    Fair (Allowed E L homeWinsGf) homeWinsGf
      ⟨.gf, .winnerOf (.wb W 1), secondChance W L⟩ := by
  have hSecond : (secondChance W L).isBye = false := by
    rw [secondChance]
    split <;> rfl
  cases homeWinsGf with
  | false =>
    constructor
    · intro lost hLost
      simp only [Node.winnerFeed, Feed.isBye_winnerOf, hSecond, Bool.false_eq_true, if_false,
        Bool.or_self] at hLost
      exact h.second_once hLost
    · rintro lost rfl
      rfl
  | true =>
    constructor
    · intro lost hLost
      simp only [Node.winnerFeed, Feed.isBye_winnerOf, hSecond, Bool.false_eq_true, if_false,
        Bool.or_true, if_true] at hLost
      exact hLost
    · intro lost hLost
      exact ⟨lost, h.second_once hLost, rfl⟩

theorem reset_fair (homeWins : Bool) :
    Fair (Allowed E L false) homeWins ⟨.gfReset, .loserOf .gf, .winnerOf .gf⟩ := by
  refine fair_of_sides (fun lost => lost = [.gf] ∨ OnceSent E L lost) ⟨rfl, rfl⟩ ?_ ?_ ?_ ?_
  · exact fun lost hLost => Or.inl hLost
  · exact fun lost hLost => Or.inr hLost
  · exact fun lost hLost => hLost
  · exact fun lost hLost => ⟨lost, hLost, rfl⟩

end Fairness

/-- Out after `lost`: twice if the loser of their first bout was sent on, else once. -/
def OutAfter (nodes : List (Node MatchRef)) (lost : List MatchRef) : Prop :=
  ∃ first, lost.head? = some first ∧
    (.loserOf first ∈ nodes.flatMap Node.sides → lost.length = 2) ∧
    (.loserOf first ∉ nodes.flatMap Node.sides → lost.length = 1)

section Run

variable {W J E L fighterCount surplus : ℕ} {target : SecondChanceTarget} {reset : Bool}
  {homeWins : MatchRef → Bool} {board : MatchRef → Result}

theorem Ladder.fair (h : Ladder W J E L target)
    (hReset : reset = true → homeWins .gf = false) :
    ∀ n ∈ allNodes fighterCount W surplus J E L reset target,
      Fair (Allowed E L (homeWins .gf)) (homeWins n.key) n := by
  intro n hn
  rcases List.mem_append.mp hn with hn | hn
  · rcases List.mem_append.mp hn with hn | hn
    · exact wb_fair h.rounds_pos hn _
    · exact lb_fair hn _
  · obtain ⟨rfl, rfl | ⟨hOn, rfl⟩⟩ := mem_finalsNodes hn
    · exact h.gf_fair
    · rw [hReset hOn]
      exact reset_fair _

/-- Every bout gets both its fighters, and everyone ends on a feed that tells what they
lost. -/
theorem Ladder.seated (h : Ladder W J E L target) (hField : fighterCount = 2 ^ W + surplus)
    (hFit : surplus ≤ 2 ^ W) (hReset : reset = true → homeWins .gf = false)
    (hPlayed : Played homeWins (allNodes fighterCount W surplus J E L reset target) board) :
    Seated (Allowed E L (homeWins .gf)) board (List.range' 1 fighterCount)
        (lostAt board (allNodes fighterCount W surplus J E L reset target))
        (ending W J L reset target ++ outright W surplus J E L) ∧
      ∀ n ∈ allNodes fighterCount W surplus J E L reset target,
        ∀ x ∈ n.feeds, ∃ f ∈ List.range' 1 fighterCount, x.side board = some f := by
  have hStart : Seated (Allowed E L (homeWins .gf)) board (List.range' 1 fighterCount)
      (fun _ => []) ((List.range' 1 fighterCount).map Feed.seed) := by
    refine ⟨?_, ?_⟩
    · rw [List.map_map]
      exact .refl _
    · intro x hx f _
      obtain ⟨n, -, rfl⟩ := List.mem_map.mp hx
      rfl
  have hRun := hStart.run (List.nodup_range' 1) (h.flow hField hFit reset) (h.fair hReset) hPlayed
  simpa only [List.nil_append] using hRun

section Count

variable (h : Ladder W J E L target) (hField : fighterCount = 2 ^ W + surplus)
  (hFit : surplus ≤ 2 ^ W)

include h hField hFit

theorem Ladder.count_winnerOf {r : MatchRef}
    (hKey : r ∈ (allNodes fighterCount W surplus J E L reset target).map Node.key) :
    ((allNodes fighterCount W surplus J E L reset target).flatMap Node.sides).count
      (.winnerOf r) = if .winnerOf r ∈ ending W J L reset target then 0 else 1 := by
  rw [(h.flow hField hFit reset).count_winnerOf (h.ranked fighterCount surplus reset).nodup hKey]
  · simp only [winnerOf_mem_final h.entry_pos]
  · intro hMem
    obtain ⟨_, -, hEq⟩ := List.mem_map.mp hMem
    cases hEq

theorem Ladder.count_loserOf {r : MatchRef}
    (hKey : r ∈ (allNodes fighterCount W surplus J E L reset target).map Node.key) :
    ((allNodes fighterCount W surplus J E L reset target).flatMap Node.sides).count
        (.loserOf r) =
      if .loserOf r ∈ ending W J L reset target ++ outright W surplus J E L then 0 else 1 := by
  rw [(h.flow hField hFit reset).count_loserOf (h.ranked fighterCount surplus reset).nodup
    allNodes_noBye hKey]
  intro hMem
  obtain ⟨_, -, hEq⟩ := List.mem_map.mp hMem
  cases hEq

theorem Ladder.key_of_final {x : MatchSource}
    (hx : x ∈ ending W J L reset target ++ outright W surplus J E L) {r : MatchRef}
    (hr : x.reads? = some r) :
    r ∈ (allNodes fighterCount W surplus J E L reset target).map Node.key := by
  have hMem := (h.flow hField hFit reset).balance.mem_iff.mpr (List.mem_append_right _ hx)
  rcases List.mem_append.mp hMem with hMem | hMem
  · obtain ⟨n, -, rfl⟩ := List.mem_map.mp hMem
    cases hr
  · obtain ⟨n, hn, hKey⟩ := reads?_of_mem_produces hMem
    rw [hKey] at hr
    cases hr
    exact List.mem_map_of_mem hn

/-- A loser who does not wait to the end goes on. -/
theorem Ladder.loserOf_sides {r : MatchRef}
    (hKey : r ∈ (allNodes fighterCount W surplus J E L reset target).map Node.key) :
    .loserOf r ∈ (allNodes fighterCount W surplus J E L reset target).flatMap Node.sides ↔
      .loserOf r ∉ ending W J L reset target ++ outright W surplus J E L := by
  rw [← List.count_pos_iff, h.count_loserOf hField hFit hKey]
  split <;> simp_all

/-- A winner who goes nowhere waits to the end. -/
theorem Ladder.winnerOf_sides {r : MatchRef}
    (hKey : r ∈ (allNodes fighterCount W surplus J E L reset target).map Node.key) :
    .winnerOf r ∈ (allNodes fighterCount W surplus J E L reset target).flatMap Node.sides ↔
      .winnerOf r ∉ ending W J L reset target := by
  rw [← List.count_pos_iff, h.count_winnerOf hField hFit hKey]
  split <;> simp_all

theorem Ladder.sentOn_of_once {first : List MatchRef} (hOnce : OnceSent E L first)
    {r : MatchRef} (hr : r ∈ first)
    (hKey : r ∈ (allNodes fighterCount W surplus J E L reset target).map Node.key) :
    .loserOf r ∈ (allNodes fighterCount W surplus J E L reset target).flatMap Node.sides := by
  obtain ⟨round, position, hLe, hLast, rfl⟩ := hOnce
  obtain rfl := List.mem_singleton.mp hr
  rw [h.loserOf_sides hField hFit hKey]
  rw [loserOf_wb_mem_final h (wb_key_mem hKey)]
  exact fun hNot => hNot ⟨hLe, hLast⟩

/-- Two losses, the first of them sent on. -/
theorem Ladder.outAfter_twice {first lost : List MatchRef} {last : MatchRef}
    (hOnce : OnceSent E L first) (hEq : lost = first ++ [last])
    (hKeys : ∀ r ∈ lost,
      r ∈ (allNodes fighterCount W surplus J E L reset target).map Node.key) :
    OutAfter (allNodes fighterCount W surplus J E L reset target) lost := by
  have hFirst := hOnce
  obtain ⟨round, position, -, -, rfl⟩ := hOnce
  subst hEq
  refine ⟨.wb round position, rfl, fun _ => rfl, fun hNot => ?_⟩
  exact absurd (h.sentOn_of_once hField hFit hFirst List.mem_cons_self
    (hKeys _ List.mem_cons_self)) hNot

/-- One loss, in the bout whose loser goes nowhere. -/
theorem Ladder.outAfter_once {r : MatchRef}
    (hFinal : .loserOf r ∈ ending W J L reset target ++ outright W surplus J E L) :
    OutAfter (allNodes fighterCount W surplus J E L reset target) [r] := by
  have hKey := h.key_of_final hField hFit hFinal rfl
  refine ⟨r, rfl, fun hSent => ?_, fun _ => rfl⟩
  exact absurd hFinal ((h.loserOf_sides hField hFit hKey).mp hSent)

/-- The winners-bracket entrant, beaten in the grand final and in the reset. -/
theorem Ladder.outAfter_reset
    (hFinal : .loserOf .gfReset ∈ ending W J L reset target ++ outright W surplus J E L)
    (hKey : .gf ∈ (allNodes fighterCount W surplus J E L reset target).map Node.key) :
    OutAfter (allNodes fighterCount W surplus J E L reset target) [.gf, .gfReset] := by
  refine ⟨.gf, rfl, fun _ => rfl, fun hNot => ?_⟩
  refine absurd ((h.loserOf_sides hField hFit hKey).mpr fun hGf => ?_) hNot
  have hOn : reset = true := by
    simpa using mem_final h.entry_pos hFinal
  have hOff : reset = false := by
    simpa using mem_final h.entry_pos hGf
  rw [hOn] at hOff
  cases hOff

/-- Whoever does not stand at the end is out after one loss or two. -/
theorem Ladder.eliminated (hReset : reset = true → homeWins .gf = false)
    (hPlayed : Played homeWins (allNodes fighterCount W surplus J E L reset target) board)
    {f : ℕ} (hf : f ∈ List.range' 1 fighterCount)
    (hOut : ¬ ∃ n ∈ allNodes fighterCount W surplus J E L reset target,
      (board n.key).winner = some f ∧ .winnerOf n.key ∉
        (allNodes fighterCount W surplus J E L reset target).flatMap Node.sides) :
    OutAfter (allNodes fighterCount W surplus J E L reset target)
      (lostAt board (allNodes fighterCount W surplus J E L reset target) f) := by
  obtain ⟨hSeated, -⟩ := h.seated hField hFit hReset hPlayed
  obtain ⟨x, hx, hSide⟩ := List.mem_map.mp (hSeated.seats.mem_iff.mpr (List.mem_map_of_mem hf))
  have hAllowed := hSeated.allowed x hx f hSide
  generalize hLost : lostAt board (allNodes fighterCount W surplus J E L reset target) f = lost
    at hAllowed ⊢
  have hKeys : ∀ r ∈ lost,
      r ∈ (allNodes fighterCount W surplus J E L reset target).map Node.key := by
    rw [← hLost]
    exact fun r hr => (mem_lostAt.mp hr).1
  cases x with
  | seed n => exact absurd (mem_final h.entry_pos hx) (by simp)
  | bye => cases hSide
  | winnerOf r =>
    have hKey := h.key_of_final hField hFit hx rfl
    obtain ⟨n, hn, rfl⟩ := List.mem_map.mp hKey
    refine absurd ⟨n, hn, hSide, ?_⟩ hOut
    rw [h.winnerOf_sides hField hFit hKey, not_not]
    exact (winnerOf_mem_final h.entry_pos).mp hx
  | loserOf r =>
    cases r with
    | wb round position =>
      obtain rfl : lost = [.wb round position] := hAllowed
      exact h.outAfter_once hField hFit hx
    | lb k position =>
      obtain ⟨first, hFirst, hEq⟩ := hAllowed
      exact h.outAfter_twice hField hFit hFirst hEq hKeys
    | gf =>
      rw [Allowed] at hAllowed
      split at hAllowed
      · obtain ⟨first, hFirst, hEq⟩ := hAllowed
        exact h.outAfter_twice hField hFit hFirst hEq hKeys
      · subst hAllowed
        exact h.outAfter_once hField hFit hx
    | gfReset =>
      obtain ⟨first, rfl | hFirst, hEq⟩ := hAllowed
      · subst hEq
        exact h.outAfter_reset hField hFit hx (hKeys _ List.mem_cons_self)
      · exact h.outAfter_twice hField hFit hFirst hEq hKeys

end Count

end Run

end DoubleElim

end MyClash.Bracket
