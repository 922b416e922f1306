import MyClash.Bracket.SingleElimWiring

/-!
# A single elimination played to its end

What holds of every bracket `singleElimBracket` gives and of every play of it: the wiring,
the fighters every slot gets, the champion, and one loss for everyone else.
-/

namespace MyClash.Bracket

open Knockout

namespace SlotRef

/-- The order of the slots: by round, then by position. -/
def Before (a b : SlotRef) : Prop :=
  a.round < b.round ∨ a.round = b.round ∧ a.position < b.position

theorem Before.ne {a b : SlotRef} (h : a.Before b) : a ≠ b := by
  rintro rfl
  rcases h with h | ⟨-, h⟩
  · exact Nat.lt_irrefl _ h
  · exact Nat.lt_irrefl _ h

theorem Before.round_le {a b : SlotRef} (h : a.Before b) : a.round ≤ b.round := by
  rcases h with h | ⟨h, -⟩
  · exact Nat.le_of_lt h
  · exact Nat.le_of_eq h

end SlotRef

/-- Slots in order, each side reading a round before its own. -/
structure Ordered (slots : List BracketSlot) : Prop where
  refs : (slots.map BracketSlot.ref).Pairwise SlotRef.Before
  reads : ∀ s ∈ slots, ∀ x ∈ s.node.sides, ∀ k, x.reads? = some k → k.round < s.round

theorem Ordered.ranked {slots : List BracketSlot} (h : Ordered slots) :
    Ranked SlotRef.round (slots.map BracketSlot.node) where
  nodup := by
    rw [List.map_map]
    exact h.refs.imp SlotRef.Before.ne
  sorted := by
    have hRefs := List.pairwise_map.mp h.refs
    exact List.pairwise_map.mpr (hRefs.imp SlotRef.Before.round_le)
  home_lt n hn k hk := by
    obtain ⟨s, hs, rfl⟩ := List.mem_map.mp hn
    exact h.reads s hs s.homeSource List.mem_cons_self k hk
  away_lt n hn k hk := by
    obtain ⟨s, hs, rfl⟩ := List.mem_map.mp hn
    exact h.reads s hs s.awaySource (by simp [Node.sides, BracketSlot.node]) k hk

theorem pairwise_round (round n : ℕ) :
    ((List.range' 1 n).map fun pos => (⟨round, pos⟩ : SlotRef)).Pairwise SlotRef.Before :=
  List.pairwise_map.mpr ((List.pairwise_lt_range' 1).imp fun h => Or.inr ⟨rfl, h⟩)

theorem map_ref_playIn (fighterCount byeSeedCount m : ℕ) :
    (playInSlots fighterCount byeSeedCount m).map BracketSlot.ref =
      (List.range' 1 m).map fun pos => ⟨0, pos⟩ := by
  rw [playInSlots, List.map_map]
  rfl

theorem map_ref_firstRound (k : ℕ) (seat : ℕ → Source) :
    (firstRoundSlots (2 ^ (k + 1)) seat).map BracketSlot.ref =
      (List.range' 1 (2 ^ k)).map fun pos => ⟨1, pos⟩ := by
  have hPositions : ((buildSeedingOrder (2 ^ (k + 1))).zipIdx 1).map Prod.snd =
      List.range' 1 (2 ^ k) := by
    rw [List.zipIdx_map_snd, buildSeedingOrder_pow, List.length_map, length_seedsAfter]
  rw [firstRoundSlots, List.map_map, ← hPositions, List.map_map]
  rfl

theorem map_ref_winnerSlots (bracketSize rounds : ℕ) :
    (winnerSlots bracketSize rounds).map BracketSlot.ref =
      (List.range' 2 (rounds - 1)).flatMap fun round =>
        (List.range' 1 (bracketSize / 2 ^ round)).map fun pos => ⟨round, pos⟩ := by
  rw [winnerSlots, List.map_flatMap]
  refine List.flatMap_congr fun round _ => ?_
  rw [List.map_map]
  rfl

/-- The slots without the bronze bout. -/
def mainSlots (useLegacyByeMode hasPlayInRound : Bool)
    (fighterCount bracketSize byeSeedCount playInMatchCount rounds : ℕ) : List BracketSlot :=
  playInSlots fighterCount byeSeedCount playInMatchCount ++
    firstRoundSlots bracketSize
      (seatSource useLegacyByeMode hasPlayInRound fighterCount byeSeedCount) ++
    winnerSlots bracketSize rounds

section Slots

variable {legacy playIn : Bool} {fighterCount byeSeedCount m k : ℕ}

/-- Before the bronze bout every slot is below the last round or is its first. -/
theorem mainSlots_round {s : BracketSlot}
    (hs : s ∈ mainSlots legacy playIn fighterCount (2 ^ (k + 1)) byeSeedCount m (k + 1)) :
    s.round < k + 1 ∨ s.round = k + 1 ∧ s.position = 1 := by
  have hRef : s.ref ∈ (mainSlots legacy playIn fighterCount (2 ^ (k + 1)) byeSeedCount m
      (k + 1)).map BracketSlot.ref := List.mem_map_of_mem hs
  rw [mainSlots, List.map_append, List.map_append, map_ref_playIn, map_ref_firstRound,
    map_ref_winnerSlots] at hRef
  simp only [List.mem_append, List.mem_map, List.mem_flatMap, List.mem_range'_1] at hRef
  rcases hRef with (⟨pos, hPos, hEq⟩ | ⟨pos, hPos, hEq⟩) | ⟨round, hRound, pos, hPos, hEq⟩
  · have hZero : 0 = s.round := congrArg SlotRef.round hEq
    omega
  · have hOne : 1 = s.round := congrArg SlotRef.round hEq
    have hPosition : pos = s.position := congrArg SlotRef.position hEq
    rcases Nat.eq_zero_or_pos k with rfl | hk
    · simp only [Nat.pow_zero] at hPos
      omega
    · omega
  · have hEqRound : round = s.round := congrArg SlotRef.round hEq
    have hPosition : pos = s.position := congrArg SlotRef.position hEq
    by_cases hLast : round = k + 1
    · rw [hLast, Nat.div_self (Nat.two_pow_pos _)] at hPos
      omega
    · omega

theorem mainSlots_refs :
    ((mainSlots legacy playIn fighterCount (2 ^ (k + 1)) byeSeedCount m (k + 1)).map
      BracketSlot.ref).Pairwise SlotRef.Before := by
  rw [mainSlots, List.map_append, List.map_append, map_ref_playIn, map_ref_firstRound,
    map_ref_winnerSlots]
  refine List.pairwise_append.mpr ⟨List.pairwise_append.mpr
    ⟨pairwise_round 0 m, pairwise_round 1 (2 ^ k), ?_⟩, List.pairwise_flatMap.mpr ⟨?_, ?_⟩, ?_⟩
  · intro a ha b hb
    obtain ⟨pos, -, rfl⟩ := List.mem_map.mp ha
    obtain ⟨pos', -, rfl⟩ := List.mem_map.mp hb
    exact Or.inl (by simp)
  · exact fun round _ => pairwise_round round _
  · refine List.Pairwise.imp ?_ (List.pairwise_lt_range' 1)
    intro round round' hLt a ha b hb
    obtain ⟨pos, -, rfl⟩ := List.mem_map.mp ha
    obtain ⟨pos', -, rfl⟩ := List.mem_map.mp hb
    exact Or.inl hLt
  · intro a ha b hb
    obtain ⟨round, hRound, hb⟩ := List.mem_flatMap.mp hb
    obtain ⟨pos', -, rfl⟩ := List.mem_map.mp hb
    have hTwo := (List.mem_range'_1.mp hRound).1
    rcases List.mem_append.mp ha with ha | ha
    · obtain ⟨pos, -, rfl⟩ := List.mem_map.mp ha
      exact Or.inl (by simp only; omega)
    · obtain ⟨pos, -, rfl⟩ := List.mem_map.mp ha
      exact Or.inl (by simp only; omega)

theorem seatSource_reads {seed : ℕ} {r : SlotRef}
    (h : (seatSource legacy playIn fighterCount byeSeedCount seed).reads? = some r) :
    r.round = 0 := by
  rw [seatSource] at h
  split at h
  · cases h
  · split at h
    · cases h
      rfl
    · cases h

theorem mainSlots_reads {s : BracketSlot}
    (hs : s ∈ mainSlots legacy playIn fighterCount (2 ^ (k + 1)) byeSeedCount m (k + 1))
    {x : Source} (hx : x ∈ s.node.sides) {r : SlotRef} (hr : x.reads? = some r) :
    r.round < s.round ∧ x = .winnerOf r := by
  rw [mainSlots, List.mem_append, List.mem_append] at hs
  rcases hs with (hs | hs) | hs
  · obtain ⟨pos, -, rfl⟩ := List.mem_map.mp hs
    rcases List.mem_pair.mp hx with rfl | rfl <;> cases hr
  · obtain ⟨⟨pair, pos⟩, -, rfl⟩ := List.mem_map.mp hs
    have hSeat : ∃ seed, x = seatSource legacy playIn fighterCount byeSeedCount seed := by
      rcases List.mem_pair.mp hx with rfl | rfl
      · exact ⟨pair.1, rfl⟩
      · exact ⟨pair.2, rfl⟩
    obtain ⟨seed, rfl⟩ := hSeat
    refine ⟨(seatSource_reads hr).trans_lt Nat.zero_lt_one, ?_⟩
    rw [seatSource] at hr ⊢
    split at hr
    · cases hr
    · split at hr
      · cases hr
        simp_all
      · cases hr
  · obtain ⟨round, hRound, hs⟩ := List.mem_flatMap.mp hs
    obtain ⟨pos, -, rfl⟩ := List.mem_map.mp hs
    have hTwo := (List.mem_range'_1.mp hRound).1
    rcases List.mem_pair.mp hx with rfl | rfl
    · cases hr
      exact ⟨Nat.sub_lt (by omega) Nat.zero_lt_one, rfl⟩
    · cases hr
      exact ⟨Nat.sub_lt (by omega) Nat.zero_lt_one, rfl⟩

theorem ordered_mainSlots :
    Ordered (mainSlots legacy playIn fighterCount (2 ^ (k + 1)) byeSeedCount m (k + 1)) where
  refs := mainSlots_refs
  reads _ hs _ hx _ hr := (mainSlots_reads hs hx hr).1

theorem ordered_singleElimSlots :
    Ordered (singleElimSlots legacy playIn fighterCount (2 ^ (k + 1)) byeSeedCount m (k + 1)) where
  refs := by
    rw [singleElimSlots, ← mainSlots, List.map_append]
    refine List.pairwise_append.mpr ⟨mainSlots_refs, ?_, ?_⟩
    · rw [bronzeSlots]
      split <;> simp
    · intro a ha b hb
      obtain ⟨s, hs, rfl⟩ := List.mem_map.mp ha
      rw [bronzeSlots] at hb
      split at hb
      · rw [List.map_singleton, List.mem_singleton] at hb
        subst hb
        rcases mainSlots_round hs with hRound | ⟨hRound, hPosition⟩
        · exact Or.inl hRound
        · exact Or.inr ⟨hRound, hPosition ▸ Nat.one_lt_two⟩
      · cases hb
  reads s hs x hx r hr := by
    rw [singleElimSlots, ← mainSlots, List.mem_append] at hs
    rcases hs with hs | hs
    · exact (mainSlots_reads hs hx hr).1
    · rw [bronzeSlots] at hs
      split at hs
      · rw [List.mem_singleton] at hs
        subst hs
        rcases List.mem_pair.mp hx with rfl | rfl
        · cases hr
          exact Nat.lt_succ_self k
        · cases hr
          exact Nat.lt_succ_self k
      · cases hs

theorem mainSlots_advances_explicit (hSize : fighterCount ≤ 2 ^ (k + 1))
    (hHalf : 2 ^ k ≤ fighterCount) :
    Advances (seedFeeds 1 fighterCount)
      ((mainSlots true false fighterCount (2 ^ (k + 1)) byeSeedCount 0 (k + 1)).map
        BracketSlot.node) [.winnerOf ⟨k + 1, 1⟩] := by
  rw [mainSlots, List.map_append, List.map_append]
  have hNoBye : ∀ seed, seed ≤ 2 ^ k →
      (seatSource true false fighterCount byeSeedCount seed).isBye = false := by
    intro seed hSeed
    have hNot : ¬ fighterCount < seed := by omega
    simp [seatSource, hNot, Feed.isBye]
  have hFirst := firstRound_advances hNoBye (.of_eq (seats_explicit hSize).symm)
  exact hFirst.append (winnerSlots_advances (Nat.succ_pos k))

theorem mainSlots_advances_default (hCount : fighterCount = 2 ^ (k + 1) + m)
    (hFit : m ≤ 2 ^ (k + 1)) :
    Advances (seedFeeds 1 fighterCount)
      ((mainSlots false (decide (0 < m)) fighterCount (2 ^ (k + 1))
        (if 0 < m then 2 ^ (k + 1) - m else 0) m (k + 1)).map BracketSlot.node)
      [.winnerOf ⟨k + 1, 1⟩] := by
  rw [mainSlots, List.map_append, List.map_append]
  have hNoBye : ∀ hasPlayIn byeSeeds seed,
      (seatSource false hasPlayIn fighterCount byeSeeds seed).isBye = false := by
    intro hasPlayIn byeSeeds seed
    rw [seatSource]
    split
    · simp_all
    · split <;> rfl
  rcases Nat.eq_zero_or_pos m with rfl | hm
  · have hFirst := firstRound_advances (k := k) (fun seed _ => hNoBye false 0 seed)
      (.of_eq seats_full.symm)
    obtain rfl : fighterCount = 2 ^ (k + 1) := hCount
    exact hFirst.append (winnerSlots_advances (Nat.succ_pos k))
  · rw [decide_eq_true hm, if_pos hm]
    have hSeeds : seedFeeds 1 fighterCount = seedFeeds 1 (2 ^ (k + 1) - m) ++
        seedFeeds (2 ^ (k + 1) - m + 1) (m + m) := by
      rw [Nat.add_comm (2 ^ (k + 1) - m) 1, seedFeeds_append]
      congr 1
      omega
    have hPlayIn := (playIn_advances fighterCount (2 ^ (k + 1) - m) m (by omega)).frame
      (seedFeeds 1 (2 ^ (k + 1) - m))
    have hSeats := seats_playIn fighterCount (2 ^ (k + 1) - m) m
    rw [Nat.sub_add_cancel hFit] at hSeats
    have hFirst := firstRound_advances (k := k) (fun seed _ => hNoBye true (2 ^ (k + 1) - m) seed)
      (List.perm_append_comm.trans (.of_eq hSeats.symm))
    have hAll := (hPlayIn.append hFirst).append (winnerSlots_advances (Nat.succ_pos k))
    exact hAll.of_perm ((List.Perm.of_eq hSeeds).trans List.perm_append_comm) (.refl _)

end Slots

end MyClash.Bracket
