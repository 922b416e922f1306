import MyClash.Bracket.DoubleElimLaw

/-!
# Where everyone goes out of a double elimination

Which bout decides the title, and the slot everyone else is found at: a loser of the losers
bracket, of the play-in or of a round before the entry round, or in the bronze mode a winner
of the last losers-bracket round.
-/

namespace MyClash.Bracket

open Knockout

/-- The bout that decides first and second. -/
def DoubleElimBracket.deciding (b : DoubleElimBracket) (homeWins : MatchRef → Bool) : MatchRef :=
  match b.secondChanceTarget with
  | .bronze => .wb b.wbRounds 1
  | .gold => if b.grandFinalReset && !homeWins .gf then .gfReset else .gf

namespace DoubleElim

section Slots

variable {b : DoubleElimBracket} {s : DoubleElimSlot}

theorem of_selfRef_wb {round position : ℕ} (h : b.selfRef s = .wb round position) :
    s.round = round ∧ s.position = position ∧ round ≤ b.wbRounds := by
  rw [DoubleElimBracket.selfRef] at h
  split at h
  · cases h
    exact ⟨rfl, rfl, by assumption⟩
  · split at h
    · cases h
    · split at h <;> cases h

theorem of_selfRef_lb {k position : ℕ} (h : b.selfRef s = .lb k position) :
    s.round = b.wbRounds + k ∧ s.position = position ∧ 1 ≤ k ∧ k ≤ b.lbRounds := by
  rw [DoubleElimBracket.selfRef] at h
  split at h
  · cases h
  · split at h
    · cases h
      exact ⟨by omega, rfl, by omega, by omega⟩
    · split at h <;> cases h

theorem selfRef_gf (hRound : s.round = b.wbRounds + b.lbRounds + 1) : b.selfRef s = .gf := by
  rw [DoubleElimBracket.selfRef, if_neg (by omega), if_neg (by omega), if_pos hRound]

theorem selfRef_reset (hRound : s.round = b.wbRounds + b.lbRounds + 1 + 1) :
    b.selfRef s = .gfReset := by
  rw [DoubleElimBracket.selfRef, if_neg (by omega), if_neg (by omega), if_neg (by omega)]

end Slots

section Finish

variable {shape : DoubleElimShape} {fighterCount surplus depth : ℕ}
  (h : Sized shape fighterCount surplus depth) (homeWins : MatchRef → Bool)

include h

theorem Sized.eq_of_selfRef {s s' : DoubleElimSlot} (hs : s ∈ (ofShape shape).slots)
    (hs' : s' ∈ (ofShape shape).slots)
    (hRef : (ofShape shape).selfRef s = (ofShape shape).selfRef s') : s = s' := by
  have hNodup : ((ofShape shape).slots.map (ofShape shape).selfRef).Nodup := by
    have hKeys := (h.ladder.ranked fighterCount surplus shape.grandFinalReset).nodup
    rw [← h.nodes, DoubleElimBracket.nodes, List.map_map] at hKeys
    exact hKeys
  exact List.inj_on_of_nodup_map hNodup hs hs' hRef

omit h in
/-- A bout that is fought is a slot's. -/
theorem slot_of_key {r : MatchRef}
    (hKey : r ∈ ((ofShape shape).fought homeWins).map Node.key) :
    ∃ s ∈ (ofShape shape).slots, (ofShape shape).selfRef s = r ∧
      (ofShape shape).node s ∈ (ofShape shape).fought homeWins := by
  obtain ⟨n, hn, rfl⟩ := List.mem_map.mp hKey
  have hNode : n ∈ (ofShape shape).nodes := by
    rw [DoubleElimBracket.fought] at hn
    split at hn
    · exact (List.mem_filter.mp hn).1
    · exact hn
  obtain ⟨s, hs, rfl⟩ := List.mem_map.mp hNode
  exact ⟨s, hs, rfl, hn⟩

omit h in
/-- Past the losers bracket there are only the grand final and the reset. -/
theorem mem_finals {s : DoubleElimSlot} (hRounds : 1 ≤ shape.wbRounds)
    (hs : s ∈ (ofShape shape).slots) (hRound : shape.wbRounds + shape.lbRounds < s.round) :
    s.position = 1 ∧ (s.round = shape.wbRounds + shape.lbRounds + 1 ∨
      s.round = shape.wbRounds + shape.lbRounds + 1 + 1) := by
  have hSlot := mem_slots hRounds hs
  rw [ofShape] at hs
  simp only [List.mem_append] at hs
  rcases hs with ((hs | hs) | hs) | hs
  · obtain ⟨pos, -, rfl⟩ := List.mem_map.mp hs
    have hLe := hSlot.1 rfl
    omega
  · rcases List.mem_append.mp hs with hs | hs
    · obtain ⟨entry, -, rfl⟩ := List.mem_map.mp hs
      have hLe := hSlot.1 rfl
      omega
    · obtain ⟨round, -, hs⟩ := List.mem_flatMap.mp hs
      obtain ⟨pos, -, rfl⟩ := List.mem_map.mp hs
      have hLe := hSlot.1 rfl
      omega
  · obtain ⟨k, -, hs⟩ := List.mem_flatMap.mp hs
    obtain ⟨pos, -, rfl⟩ := List.mem_map.mp hs
    obtain ⟨j, -, hLe, hEq⟩ := hSlot.2 rfl
    omega
  · cases hTarget : shape.secondChanceTarget with
    | bronze =>
      rw [hTarget] at hs
      cases hs
    | gold =>
      rw [hTarget, buildFinalsSlots] at hs
      rcases List.mem_cons.mp hs with rfl | hs
      · exact ⟨rfl, Or.inl rfl⟩
      · split at hs
        · rw [List.mem_singleton.mp hs]
          exact ⟨rfl, Or.inr rfl⟩
        · cases hs

/-- A reset is fought only after the grand final was lost to the losers-bracket entrant. -/
theorem Sized.reset_fought {n : Node MatchRef} (hn : n ∈ (ofShape shape).fought homeWins)
    (hKey : n.key = .gfReset) : (shape.grandFinalReset && !homeWins .gf) = true := by
  rw [h.fought] at hn
  rcases List.mem_append.mp hn with hn | hn
  · rcases List.mem_append.mp hn with hn | hn
    · obtain ⟨round, position, hWb, -⟩ := wb_rank_le h.rounds_pos hn
      rw [hWb] at hKey
      cases hKey
    · obtain ⟨k, position, -, -, rfl⟩ := mem_lbNodes hn
      cases hKey
  · obtain ⟨-, rfl | ⟨hReset, -⟩⟩ := mem_finalsNodes hn
    · cases hKey
    · exact hReset

theorem Sized.result_eq {n : Node MatchRef} (hn : n ∈ (ofShape shape).fought homeWins) :
    (ofShape shape).played homeWins n.key =
      n.bout (homeWins n.key) ((ofShape shape).played homeWins) := by
  rw [h.fought] at hn
  exact h.played homeWins n hn

/-- Every bout that is fought has its winner and its loser. -/
theorem Sized.decided {n : Node MatchRef} (hn : n ∈ (ofShape shape).fought homeWins) :
    ∃ f ∈ List.range' 1 fighterCount, ∃ g ∈ List.range' 1 fighterCount,
      (ofShape shape).played homeWins n.key = ⟨some f, some g⟩ := by
  obtain ⟨f, hf, hHome⟩ := h.fighter homeWins hn (x := n.home) (by simp [Node.sides])
  obtain ⟨g, hg, hAway⟩ := h.fighter homeWins hn (x := n.away) (by simp [Node.sides])
  rw [h.result_eq homeWins hn, Node.bout_two _ hHome hAway]
  split
  · exact ⟨f, hf, g, hg, rfl⟩
  · exact ⟨g, hg, f, hf, rfl⟩

theorem Sized.seats : Seated (Allowed shape.repechageEntryRound shape.lbRounds (homeWins .gf))
    ((ofShape shape).played homeWins) (List.range' 1 fighterCount)
    (lostAt ((ofShape shape).played homeWins) (allNodes fighterCount shape.wbRounds surplus depth
      shape.repechageEntryRound shape.lbRounds (shape.grandFinalReset && !homeWins .gf)
      shape.secondChanceTarget))
    (ending shape.wbRounds depth shape.lbRounds (shape.grandFinalReset && !homeWins .gf)
      shape.secondChanceTarget ++
        outright shape.wbRounds surplus depth shape.repechageEntryRound shape.lbRounds) :=
  (h.ladder.seated h.field h.fits reset_of_fought (h.played homeWins)).1

/-- A feed that waits to the end is put out by a bout that is fought. -/
theorem Sized.key_of_final {x : MatchSource}
    (hx : x ∈ ending shape.wbRounds depth shape.lbRounds
        (shape.grandFinalReset && !homeWins .gf) shape.secondChanceTarget ++
      outright shape.wbRounds surplus depth shape.repechageEntryRound shape.lbRounds)
    {r : MatchRef} (hr : x.reads? = some r) :
    r ∈ ((ofShape shape).fought homeWins).map Node.key := by
  rw [h.fought]
  exact h.ladder.key_of_final h.field h.fits hx hr

/-- The two of the deciding bout wait to the end. -/
theorem Sized.deciding_final :
    .winnerOf ((ofShape shape).deciding homeWins) ∈ ending shape.wbRounds depth shape.lbRounds
        (shape.grandFinalReset && !homeWins .gf) shape.secondChanceTarget ++
      outright shape.wbRounds surplus depth shape.repechageEntryRound shape.lbRounds ∧
    .loserOf ((ofShape shape).deciding homeWins) ∈ ending shape.wbRounds depth shape.lbRounds
        (shape.grandFinalReset && !homeWins .gf) shape.secondChanceTarget ++
      outright shape.wbRounds surplus depth shape.repechageEntryRound shape.lbRounds := by
  have hDeciding : (ofShape shape).deciding homeWins = match shape.secondChanceTarget with
    | .bronze => .wb shape.wbRounds 1
    | .gold => if shape.grandFinalReset && !homeWins .gf then .gfReset else .gf := rfl
  rw [hDeciding]
  cases hTarget : shape.secondChanceTarget with
  | gold =>
    simp only
    cases hReset : shape.grandFinalReset && !homeWins .gf <;> simp [ending]
  | bronze =>
    have hWinner : .winnerOf (.wb shape.wbRounds 1) ∈ ending shape.wbRounds depth shape.lbRounds
        (shape.grandFinalReset && !homeWins .gf) .bronze ++
          outright shape.wbRounds surplus depth shape.repechageEntryRound shape.lbRounds := by
      simp [ending]
    refine ⟨hWinner, ?_⟩
    have hLadder := h.ladder
    rw [hTarget] at hLadder
    have hKey := h.key_of_final homeWins (by rw [hTarget]; exact hWinner) rfl
    rw [h.fought, hTarget] at hKey
    refine (loserOf_wb_mem_final hLadder (wb_key_mem hKey)).mpr ?_
    have hLast := hLadder.last_eq
    rw [if_neg (by decide)] at hLast
    have hPos := h.rounds_pos
    omega

/-- With a bronze bout the last round of the losers bracket is that bout alone. -/
theorem Sized.bronze_only (hBronze : shape.secondChanceTarget = .bronze)
    (hMatch : shape.bronzeMatch = true) {s t : DoubleElimSlot} (hs : s ∈ (ofShape shape).slots)
    (ht : t ∈ (ofShape shape).slots) (hS : s.round = shape.wbRounds + shape.lbRounds)
    (hT : t.round = shape.wbRounds + shape.lbRounds) : s = t := by
  have hLb := (h.bronze hBronze).2
  rw [hMatch, if_pos rfl] at hLb
  have hCount : lbCount depth shape.lbRounds = 1 := by
    rw [lbCount_eq (by omega) (by omega), hLb.2,
      show depth - 2 - (2 * (depth - 1) - 1 - 1) / 2 = 0 by omega, Nat.pow_zero]
  have hRef : ∀ u ∈ (ofShape shape).slots, u.round = shape.wbRounds + shape.lbRounds →
      (ofShape shape).selfRef u = .lb shape.lbRounds 1 := by
    intro u hu hRound
    have hLast : (ofShape shape).selfRef u = .lb shape.lbRounds u.position :=
      selfRef_lb (b := ofShape shape) hRound (by omega) (Nat.le_refl _)
    have hKey := h.key_mem hu
    rw [hLast] at hKey
    have hMem := lb_key_mem h.rounds_pos hKey
    rw [lbWinners, hCount] at hMem
    obtain ⟨position, hPosition, hEq⟩ := List.mem_map.mp hMem
    cases hEq
    have hOne := List.mem_range'_1.mp hPosition
    rw [hLast, show u.position = 1 by omega]
  exact h.eq_of_selfRef hs ht ((hRef s hs hS).trans (hRef t ht hT).symm)

/-- First and second are two fighters. -/
theorem Sized.title : ∃ n ∈ (ofShape shape).fought homeWins,
    n.key = (ofShape shape).deciding homeWins ∧
      ∃ f ∈ List.range' 1 fighterCount, ∃ g ∈ List.range' 1 fighterCount, f ≠ g ∧
        (ofShape shape).played homeWins n.key = ⟨some f, some g⟩ := by
  obtain ⟨hWinner, hLoser⟩ := h.deciding_final homeWins
  obtain ⟨n, hn, hKey⟩ := List.mem_map.mp (h.key_of_final homeWins hWinner rfl)
  obtain ⟨f, hf, g, hg, hResult⟩ := h.decided homeWins hn
  refine ⟨n, hn, hKey, f, hf, g, hg, ?_, hResult⟩
  rintro rfl
  have hSame := Seated.eq_of_side (h.seats homeWins).seats List.nodup_range' hWinner hLoser (by
    rw [Feed.side_winnerOf, Feed.side_loserOf, ← hKey, hResult])
  cases hSame

/-- Where a fighter is found who is not in the deciding bout. -/
inductive WentOut (shape : DoubleElimShape) : MatchSource → Prop
  | losers (k position : ℕ) : WentOut shape (.loserOf (.lb k position))
  | early (round position : ℕ) (h : round < shape.repechageEntryRound) :
      WentOut shape (.loserOf (.wb round position))
  | survivor (position : ℕ) (h : shape.secondChanceTarget = .bronze) :
      WentOut shape (.winnerOf (.lb shape.lbRounds position))

theorem Sized.found {f : ℕ} (hf : f ∈ List.range' 1 fighterCount) :
    ∃ x, x.side ((ofShape shape).played homeWins) = some f ∧
      (∃ r ∈ ((ofShape shape).fought homeWins).map Node.key, x.reads? = some r) ∧
        (x = .winnerOf ((ofShape shape).deciding homeWins) ∨
          x = .loserOf ((ofShape shape).deciding homeWins) ∨ WentOut shape x) := by
  obtain ⟨x, hx, hSide⟩ :=
    List.mem_map.mp ((h.seats homeWins).seats.mem_iff.mpr (List.mem_map_of_mem hf))
  refine ⟨x, hSide, ?_⟩
  have hDeciding : (ofShape shape).deciding homeWins = match shape.secondChanceTarget with
    | .bronze => .wb shape.wbRounds 1
    | .gold => if shape.grandFinalReset && !homeWins .gf then .gfReset else .gf := rfl
  have hReads : ∀ r, x.reads? = some r →
      ∃ r ∈ ((ofShape shape).fought homeWins).map Node.key, x.reads? = some r :=
    fun r hr => ⟨r, h.key_of_final homeWins hx hr, hr⟩
  rcases List.mem_append.mp hx with hEnd | hOut
  · rcases mem_ending hEnd with ⟨hTarget, rfl | hLb⟩ | ⟨hTarget, hReset, hEq⟩ |
      ⟨hTarget, hReset, hEq⟩
    · rw [hDeciding, hTarget]
      exact ⟨hReads _ rfl, Or.inl rfl⟩
    · obtain ⟨position, -, rfl⟩ := List.mem_map.mp hLb
      exact ⟨hReads _ rfl, Or.inr (Or.inr (.survivor position hTarget))⟩
    · rw [hDeciding, hTarget, hReset]
      rcases hEq with rfl | rfl
      · exact ⟨hReads _ rfl, Or.inl rfl⟩
      · exact ⟨hReads _ rfl, Or.inr (Or.inl rfl)⟩
    · rw [hDeciding, hTarget, hReset]
      rcases hEq with rfl | rfl
      · exact ⟨hReads _ rfl, Or.inl rfl⟩
      · exact ⟨hReads _ rfl, Or.inr (Or.inl rfl)⟩
  · rcases mem_outright h.ladder.entry_pos hOut with ⟨k, position, rfl⟩ |
      ⟨round, position, hOutside, rfl⟩
    · exact ⟨hReads _ rfl, Or.inr (Or.inr (.losers k position))⟩
    · refine ⟨hReads _ rfl, ?_⟩
      rcases hOutside with hEarly | hLate
      · exact Or.inr (Or.inr (.early round position hEarly))
      · -- past the last round taken in there is only the final of the bronze mode
        obtain ⟨s, hs, hRef, -⟩ := slot_of_key homeWins (h.key_of_final homeWins hx rfl)
        obtain ⟨hRound, hPosition, hLe⟩ := of_selfRef_wb hRef
        have hLast := h.ladder.last_eq
        change round ≤ shape.wbRounds at hLe
        have hWb : round = shape.wbRounds ∧ shape.secondChanceTarget = .bronze := by
          cases hTarget : shape.secondChanceTarget with
          | gold =>
            rw [hTarget, if_pos rfl] at hLast
            omega
          | bronze =>
            rw [hTarget, if_neg (by decide)] at hLast
            exact ⟨by omega, rfl⟩
        have hOne := h.position_of_last hs (hRound.trans hWb.1)
        rw [hDeciding, hWb.2, ← hPosition, hOne, hWb.1]
        exact Or.inr (Or.inl rfl)

end Finish

end DoubleElim

end MyClash.Bracket
