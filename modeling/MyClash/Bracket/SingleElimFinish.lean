import MyClash.Bracket.SingleElimLaw
import MyClash.Bracket.DoubleElimWiring

/-!
# Where everyone goes out of a single elimination

Whoever wins a main slot is the champion or loses in a deeper round, and nobody loses twice
there.
-/

namespace MyClash.Bracket

open Knockout

namespace Laid

variable {b : SingleElimBracket} {main bronze : List BracketSlot}

theorem main_subset (h : Laid b main bronze) {s : BracketSlot} (hs : s ∈ main) : s ∈ b.slots := by
  rw [h.slots]
  exact List.mem_append_left _ hs

theorem result_eq (h : Laid b main bronze) (homeWins : SlotRef → Bool) {s : BracketSlot}
    (hs : s ∈ b.slots) :
    b.played homeWins s.ref = s.node.bout (homeWins s.ref) (b.played homeWins) :=
  h.ordered.played_all homeWins s.node (List.mem_map_of_mem hs)

theorem eq_of_ref (h : Laid b main bronze) {s s' : BracketSlot} (hs : s ∈ b.slots)
    (hs' : s' ∈ b.slots) (hRef : s.ref = s'.ref) : s = s' := by
  have hNodup : (b.slots.map BracketSlot.ref).Nodup := h.ordered.refs.imp SlotRef.Before.ne
  exact List.inj_on_of_nodup_map hNodup hs hs' hRef

/-- The winner of a main slot other than the final goes on to a deeper one. -/
theorem next (h : Laid b main bronze) {s : BracketSlot} (hs : s ∈ main)
    (hNot : s.ref ≠ ⟨b.rounds, 1⟩) :
    ∃ s' ∈ main, s.round < s'.round ∧ .winnerOf s.ref ∈ s'.node.sides := by
  have hKey : s.ref ∈ (main.map BracketSlot.node).map Node.key :=
    mem_map_ref.mpr (List.mem_map_of_mem hs)
  have hCount := Flow.count_winnerOf h.advances h.main_nodup hKey (fun hMem => by
    obtain ⟨n, -, hEq⟩ := List.mem_map.mp hMem
    cases hEq)
  rw [if_neg fun hMem => hNot (eq_of_winnerOf_mem hMem)] at hCount
  have hMem : .winnerOf s.ref ∈ (main.map BracketSlot.node).flatMap Node.sides :=
    List.count_pos_iff.mp (by omega)
  obtain ⟨node, hNode, hSide⟩ := List.mem_flatMap.mp hMem
  obtain ⟨s', hs', rfl⟩ := List.mem_map.mp hNode
  exact ⟨s', hs', h.ordered.reads s' (h.main_subset hs') _ hSide _ rfl, hSide⟩

/-- Whoever stands in a main slot wins it or loses it. -/
theorem wins_or_loses (h : Laid b main bronze) (homeWins : SlotRef → Bool) {s : BracketSlot}
    (hs : s ∈ main) {x : Source} (hx : x ∈ s.node.sides) {f : ℕ}
    (hSide : x.side (b.played homeWins) = some f) :
    (b.played homeWins s.ref).winner = some f ∨ (b.played homeWins s.ref).loser = some f := by
  have hResult := h.result_eq homeWins (h.main_subset hs)
  have hBye : x.isBye = false := by
    cases x with
    | bye => cases hSide
    | seed n => rfl
    | winnerOf r => rfl
    | loserOf r => rfl
  have hBoard : b.played homeWins s.node.key = s.node.bout (homeWins s.ref) (b.played homeWins) :=
    hResult
  have hFeed : x ∈ s.node.feeds := List.mem_filter.mpr ⟨hx, by simp [hBye]⟩
  have hKept := Node.produces_perm hBoard (List.ne_nil_of_mem hFeed) fun y hy => by
    obtain ⟨hy, hNotBye⟩ := List.mem_filter.mp hy
    exact h.filled homeWins hs hy (by simpa using hNotBye)
  have hMem : some f ∈ s.node.produces.map (Feed.side (b.played homeWins)) :=
    hKept.mem_iff.mpr (List.mem_map.mpr ⟨x, hFeed, hSide⟩)
  obtain ⟨y, hy, hEq⟩ := List.mem_map.mp hMem
  rcases List.mem_cons.mp hy with rfl | hy
  · exact Or.inl hEq
  · rw [Node.losers] at hy
    split at hy
    · cases hy
    · rw [List.mem_singleton.mp hy] at hEq
      exact Or.inr hEq

/-- The winner of a main slot wins the final or loses in a deeper main slot. -/
theorem climbs (h : Laid b main bronze) (homeWins : SlotRef → Bool) {f : ℕ} :
    ∀ n, ∀ s ∈ main, b.rounds - s.round ≤ n → (b.played homeWins s.ref).winner = some f →
      (b.played homeWins ⟨b.rounds, 1⟩).winner = some f ∨
        ∃ s' ∈ main, s.round < s'.round ∧ (b.played homeWins s'.ref).loser = some f := by
  intro n
  induction n with
  | zero =>
    intro s hs hLe hWins
    rcases h.main_round s hs with hRound | ⟨hRound, hPosition⟩
    · omega
    · have hRef : s.ref = ⟨b.rounds, 1⟩ := by rw [BracketSlot.ref, hRound, hPosition]
      rw [← hRef]
      exact Or.inl hWins
  | succ n ih =>
    intro s hs hLe hWins
    by_cases hFinal : s.ref = ⟨b.rounds, 1⟩
    · rw [← hFinal]
      exact Or.inl hWins
    obtain ⟨s', hs', hLt, hSide⟩ := h.next hs hFinal
    rcases h.wins_or_loses homeWins hs' hSide hWins with hWins' | hLoses
    · rcases ih s' hs' (by omega) hWins' with hChampion | ⟨s'', hs'', hLt', hLoses⟩
      · exact Or.inl hChampion
      · exact Or.inr ⟨s'', hs'', hLt.trans hLt', hLoses⟩
    · exact Or.inr ⟨s', hs', hLt, hLoses⟩

/-- The loser of a main slot waits to the end, for nobody. -/
theorem fighter_of_loser (h : Laid b main bronze) (homeWins : SlotRef → Bool) {s : BracketSlot}
    (hs : s ∈ main) {f : ℕ} (hLoses : (b.played homeWins s.ref).loser = some f) :
    f ∈ List.range' 1 b.fighterCount := by
  have hBoard : b.played homeWins s.node.key = s.node.bout (homeWins s.ref) (b.played homeWins) :=
    h.result_eq homeWins (h.main_subset hs)
  have hNoBye := Node.noBye_of_loser hBoard hLoses
  have hLoser : .loserOf s.ref ∈ (main.map BracketSlot.node).flatMap Node.losers := by
    refine List.mem_flatMap.mpr ⟨s.node, List.mem_map_of_mem hs, ?_⟩
    rw [Node.losers, hNoBye.1, hNoBye.2]
    exact List.mem_singleton.mpr rfl
  obtain ⟨g, hg, hSide⟩ := (h.seated homeWins).1.fighter (List.mem_append_right _ hLoser)
  rw [Feed.side_loserOf, hLoses] at hSide
  cases hSide
  exact hg

/-- A fighter loses in at most one main slot. -/
theorem loses_once (h : Laid b main bronze) (homeWins : SlotRef → Bool) {s s' : BracketSlot}
    (hs : s ∈ main) (hs' : s' ∈ main) {f : ℕ}
    (hLoses : (b.played homeWins s.ref).loser = some f)
    (hLoses' : (b.played homeWins s'.ref).loser = some f) : s = s' := by
  obtain ⟨champion, -, -, hLosses⟩ := h.champion homeWins
  have hCount := hLosses f (h.fighter_of_loser homeWins hs hLoses)
  rw [← length_lostAt] at hCount
  have hMem : ∀ t ∈ main, (b.played homeWins t.ref).loser = some f →
      t.ref ∈ lostAt (b.played homeWins) (main.map BracketSlot.node) f := fun t ht hLost =>
    mem_lostAt.mpr ⟨mem_map_ref.mpr (List.mem_map_of_mem ht), hLost⟩
  have hLe : (lostAt (b.played homeWins) (main.map BracketSlot.node) f).length ≤ 1 := by
    rw [hCount]
    split <;> omega
  have hEq : s.ref = s'.ref := by
    match hLost : lostAt (b.played homeWins) (main.map BracketSlot.node) f with
    | [] => exact absurd (hLost ▸ hMem s hs hLoses) List.not_mem_nil
    | [r] =>
      have hHere := hMem s hs hLoses
      have hThere := hMem s' hs' hLoses'
      rw [hLost, List.mem_singleton] at hHere hThere
      exact hHere.trans hThere.symm
    | _ :: _ :: _ =>
      rw [hLost] at hLe
      simp at hLe
  exact h.eq_of_ref (h.main_subset hs) (h.main_subset hs') hEq

/-- The winner of the final has lost nowhere in the main slots. -/
theorem champion_unbeaten (h : Laid b main bronze) (homeWins : SlotRef → Bool) {f : ℕ}
    (hWins : (b.played homeWins ⟨b.rounds, 1⟩).winner = some f) {s : BracketSlot} (hs : s ∈ main) :
    (b.played homeWins s.ref).loser ≠ some f := by
  obtain ⟨champion, hField, hChampion, hLosses⟩ := h.champion homeWins
  obtain rfl : f = champion := Option.some.inj (hWins.symm.trans hChampion)
  intro hLoses
  have hCount := hLosses f hField
  rw [if_pos rfl, ← length_lostAt, List.length_eq_zero_iff] at hCount
  have hMem := mem_lostAt.mpr ⟨mem_map_ref.mpr (List.mem_map_of_mem hs), hLoses⟩
  rw [hCount] at hMem
  cases hMem

/-- Everyone wins the final or loses in a main slot. -/
theorem champion_or_loses (h : Laid b main bronze) (homeWins : SlotRef → Bool) {f : ℕ}
    (hf : f ∈ List.range' 1 b.fighterCount) :
    (b.played homeWins ⟨b.rounds, 1⟩).winner = some f ∨
      ∃ s ∈ main, (b.played homeWins s.ref).loser = some f := by
  obtain ⟨champion, -, hChampion, hLosses⟩ := h.champion homeWins
  by_cases hEq : f = champion
  · exact Or.inl (hEq ▸ hChampion)
  · have hCount := hLosses f hf
    rw [if_neg hEq, lossesIn] at hCount
    obtain ⟨node, hNode, hLost⟩ := List.countP_pos_iff.mp (Nat.lt_of_lt_of_eq Nat.zero_lt_one
      hCount.symm)
    obtain ⟨s, hs, rfl⟩ := List.mem_map.mp hNode
    exact Or.inr ⟨s, hs, beq_iff_eq.mp hLost⟩

theorem fighter_of_winner (h : Laid b main bronze) (homeWins : SlotRef → Bool) {s : BracketSlot}
    (hs : s ∈ main) {f : ℕ} (hWins : (b.played homeWins s.ref).winner = some f) :
    f ∈ List.range' 1 b.fighterCount := by
  rcases h.climbs homeWins _ s hs (Nat.le_refl _) hWins with hChampion | ⟨s', hs', -, hLoses⟩
  · obtain ⟨champion, hField, hEq, -⟩ := h.champion homeWins
    obtain rfl : f = champion := Option.some.inj (hChampion.symm.trans hEq)
    exact hField
  · exact h.fighter_of_loser homeWins hs' hLoses

/-! ### The final and the bronze bout -/

/-- Both finalists are fed by bouts or seeds. -/
def FinalMeets (b : SingleElimBracket) (main : List BracketSlot) : Prop :=
  ∀ s ∈ main, s.round = b.rounds → s.homeSource.isBye = false ∧ s.awaySource.isBye = false

theorem final_decided (h : Laid b main bronze) (hMeets : FinalMeets b main)
    (homeWins : SlotRef → Bool) : ∃ s ∈ main, s.ref = ⟨b.rounds, 1⟩ ∧
      ∃ champion runnerUp, b.played homeWins s.ref = ⟨some champion, some runnerUp⟩ := by
  obtain ⟨s, hs, hRef⟩ := h.final_slot
  obtain ⟨hHome, hAway⟩ := hMeets s hs (congrArg SlotRef.round hRef)
  obtain ⟨f, -, hF⟩ := h.fighter homeWins hs List.mem_cons_self hHome
  obtain ⟨g, -, hG⟩ := h.fighter homeWins hs (List.mem_cons_of_mem _ List.mem_cons_self) hAway
  refine ⟨s, hs, hRef, ?_⟩
  rw [h.result_eq homeWins (h.main_subset hs), Node.bout_two _ hF hG]
  split
  · exact ⟨f, g, rfl⟩
  · exact ⟨g, f, rfl⟩

/-- Two different semi-final losers meet in the bronze bout. -/
theorem bronze_decided (h : Laid b main bronze) (homeWins : SlotRef → Bool) {s : BracketSlot}
    (hs : s ∈ bronze) {f g : ℕ} (hResult : b.played homeWins s.ref = ⟨some f, some g⟩) :
    f ≠ g ∧ ∀ x, x = f ∨ x = g →
      ∃ semi ∈ main, semi.round + 1 = b.rounds ∧ (b.played homeWins semi.ref).loser = some x := by
  obtain ⟨hTwo, hEq⟩ := h.bronze_eq s hs
  have hSlot : s ∈ b.slots := by
    rw [h.slots]
    exact List.mem_append_right _ hs
  obtain ⟨first, hFirst, hFirstRef⟩ := List.mem_map.mp (h.semiFinal_mem hTwo (Or.inl rfl))
  obtain ⟨second, hSecond, hSecondRef⟩ := List.mem_map.mp (h.semiFinal_mem hTwo (Or.inr rfl))
  have hRound : ∀ semi : BracketSlot, ∀ position, semi.ref = ⟨b.rounds - 1, position⟩ →
      semi.round + 1 = b.rounds := by
    intro semi position hRef
    have hRound : semi.round = b.rounds - 1 := congrArg SlotRef.round hRef
    omega
  rw [h.result_eq homeWins hSlot, hEq] at hResult
  have hHome : (bracketSlot b.rounds 2 (.loserOf ⟨b.rounds - 1, 1⟩)
      (.loserOf ⟨b.rounds - 1, 2⟩)).node.home.side (b.played homeWins) =
        (b.played homeWins first.ref).loser := by rw [hFirstRef]; rfl
  have hAway : (bracketSlot b.rounds 2 (.loserOf ⟨b.rounds - 1, 1⟩)
      (.loserOf ⟨b.rounds - 1, 2⟩)).node.away.side (b.played homeWins) =
        (b.played homeWins second.ref).loser := by rw [hSecondRef]; rfl
  have hDistinct : ∀ x, (b.played homeWins first.ref).loser = some x →
      (b.played homeWins second.ref).loser ≠ some x := by
    intro x hLost hLost'
    have hSame := h.loses_once homeWins hFirst hSecond hLost hLost'
    rw [hSame, hSecondRef] at hFirstRef
    cases hFirstRef
  cases hLost : (b.played homeWins first.ref).loser with
  | none =>
    rw [hLost] at hHome
    rw [Node.bout, hHome, hAway] at hResult
    cases hLost' : (b.played homeWins second.ref).loser <;> rw [hLost'] at hResult <;>
      simp [bracketSlot, BracketSlot.node] at hResult
  | some x =>
    rw [hLost] at hHome
    cases hLost' : (b.played homeWins second.ref).loser with
    | none =>
      rw [hLost'] at hAway
      rw [Node.bout, hHome, hAway] at hResult
      simp [bracketSlot, BracketSlot.node] at hResult
    | some y =>
      rw [hLost'] at hAway
      have hNe : x ≠ y := fun hEq => hDistinct x hLost (hEq ▸ hLost')
      have hX := And.intro hFirst (And.intro (hRound first 1 hFirstRef) hLost)
      have hY := And.intro hSecond (And.intro (hRound second 2 hSecondRef) hLost')
      rw [Node.bout_two _ hHome hAway] at hResult
      split at hResult
      · cases hResult
        exact ⟨hNe, by rintro _ (rfl | rfl); exacts [⟨_, hX⟩, ⟨_, hY⟩]⟩
      · cases hResult
        exact ⟨hNe.symm, by rintro _ (rfl | rfl); exacts [⟨_, hY⟩, ⟨_, hX⟩]⟩

/-- Whoever stands on a side is of the field. -/
theorem side_mem (h : Laid b main bronze) (homeWins : SlotRef → Bool) {s : BracketSlot}
    (hs : s ∈ b.slots) {x : Source} (hx : x ∈ s.node.sides) {f : ℕ}
    (hSide : x.side (b.played homeWins) = some f) : f ∈ List.range' 1 b.fighterCount := by
  rw [h.slots, List.mem_append] at hs
  rcases hs with hMain | hBronze
  · rcases h.wins_or_loses homeWins hMain hx hSide with hWins | hLoses
    · exact h.fighter_of_winner homeWins hMain hWins
    · exact h.fighter_of_loser homeWins hMain hLoses
  · obtain ⟨hTwo, position, hPosition, rfl⟩ := h.bronze_side
      (List.mem_flatMap.mpr ⟨s.node, List.mem_map_of_mem hBronze, hx⟩)
    obtain ⟨semi, hSemi, hRef⟩ := List.mem_map.mp (h.semiFinal_mem hTwo hPosition)
    refine h.fighter_of_loser homeWins hSemi ?_
    rw [hRef]
    exact hSide

theorem result_of_loser (h : Laid b main bronze) (homeWins : SlotRef → Bool) {s : BracketSlot}
    (hs : s ∈ b.slots) {f : ℕ} (hLoses : (b.played homeWins s.ref).loser = some f) :
    ∃ w, b.played homeWins s.ref = ⟨some w, some f⟩ := by
  rw [h.result_eq homeWins hs] at hLoses ⊢
  exact Node.bout_of_loser hLoses

/-- The last round of the main slots is the final. -/
theorem eq_final (h : Laid b main bronze) {final s : BracketSlot} (hFinal : final ∈ main)
    (hRef : final.ref = ⟨b.rounds, 1⟩) (hs : s ∈ main) (hRound : b.rounds ≤ s.round) :
    s = final := by
  refine h.eq_of_ref (h.main_subset hs) (h.main_subset hFinal) ?_
  rcases h.main_round s hs with hLt | ⟨hEq, hPosition⟩
  · omega
  · rw [hRef, BracketSlot.ref, hEq, hPosition]

/-- The two of a decided bout are of the field. -/
theorem fighters_of_result (h : Laid b main bronze) (homeWins : SlotRef → Bool)
    {s : BracketSlot} (hs : s ∈ b.slots) {f g : ℕ}
    (hResult : b.played homeWins s.ref = ⟨some f, some g⟩) :
    f ∈ List.range' 1 b.fighterCount ∧ g ∈ List.range' 1 b.fighterCount := by
  rw [h.slots, List.mem_append] at hs
  rcases hs with hMain | hBronze
  · exact ⟨h.fighter_of_winner homeWins hMain (by rw [hResult]),
      h.fighter_of_loser homeWins hMain (by rw [hResult])⟩
  · obtain ⟨-, hSemi⟩ := h.bronze_decided homeWins hBronze hResult
    obtain ⟨s, hs, -, hF⟩ := hSemi f (Or.inl rfl)
    obtain ⟨t, ht, -, hG⟩ := hSemi g (Or.inr rfl)
    exact ⟨h.fighter_of_loser homeWins hs hF, h.fighter_of_loser homeWins ht hG⟩

end Laid

/-! ## Every bracket that can be played -/

theorem finalMeets_explicit {b : SingleElimBracket} {main bronze : List BracketSlot}
    (h : Laid b main bronze) (hTwo : 2 ≤ b.rounds) : Laid.FinalMeets b main := by
  intro s hs hRound
  have hFinal := h.final_mem hTwo
  rcases h.main_round s hs with hLt | ⟨-, hPosition⟩
  · omega
  · have hRef : s.ref = ⟨b.rounds, 1⟩ := by rw [BracketSlot.ref, hRound, hPosition]
    rw [h.eq_of_ref (h.main_subset hs) (h.main_subset hFinal) hRef]
    exact ⟨rfl, rfl⟩

theorem exists_laid {fighterCount : ℕ} {size : Option ℕ} {b : SingleElimBracket}
    (h : singleElimBracket fighterCount size = .ok b) {homeWins : SlotRef → Bool}
    (hFilled : ∀ s ∈ b.slots, b.isBronze s = false → ∀ x ∈ s.node.sides, x.isBye = false →
      (x.side (b.played homeWins)).isSome) :
    ∃ main bronze, Laid b main bronze ∧ Laid.FinalMeets b main := by
  obtain ⟨hTwo, hCount, k, hRounds, hMode⟩ := singleElimBracket_ok h
  rcases hMode with ⟨rfl, hLe, hSlots⟩ | ⟨rfl, m, hField, hFit, hSlots⟩
  · have hHalf : 2 ^ k ≤ fighterCount := by
      by_contra hSmall
      obtain ⟨s, hs, hNotBronze, x, hx, hBye, hNobody⟩ :=
        unfilled_of_small hTwo hRounds (by omega) hSlots homeWins
      have hSome := hFilled s hs hNotBronze x hx hBye
      rw [hNobody] at hSome
      cases hSome
    have hLaid := laid_of_advances hCount hRounds hSlots (mainSlots_advances_explicit hLe hHalf)
    refine ⟨_, _, hLaid, ?_⟩
    cases k with
    | zero =>
      obtain rfl : fighterCount = 2 := by
        rw [Nat.zero_add, Nat.pow_one] at hLe
        omega
      have hMain : ∀ s ∈ mainSlots true false 2 2 0 0 1,
          s.homeSource.isBye = false ∧ s.awaySource.isBye = false := by decide +kernel
      exact fun s hs _ => hMain s hs
    | succ k => exact finalMeets_explicit hLaid (by omega)
  · exact ⟨_, _, laid_of_advances hCount hRounds hSlots (mainSlots_advances_default hField hFit),
      fun s hs _ => DoubleElim.mainSlots_noBye hs⟩

end MyClash.Bracket
