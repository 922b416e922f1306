import MyClash.Bracket.SingleElimLaw
import MyClash.Library.ListSchedule
import MyClash.Schedule.Branches
import Mathlib.Data.List.Dedup
import Mathlib.Logic.Relation

/-!
# Branches and sub-trees

A unit folds positions by halves, while a play-in feeds the slot its seed is drawn into. Up the
rounds the two agree; from round 0 they agree only when there is at most one play-in bout.
-/

namespace MyClash.Schedule

open Knockout StableSort Buckets
open MyClash.Bracket

/-! ## The drawn bracket -/

/-- The bracket of `2 ^ (k + 1)` with `m` play-in bouts, whose winners take the last seats. -/
structure Drawn (b : SingleElimBracket) (k m : ℕ) : Prop where
  rounds : b.rounds = k + 1
  playIns : b.playInMatchCount = m
  few : m < 2 ^ (k + 1)
  slots : ∃ legacy fighterCount byeSeedCount,
    b.slots = singleElimSlots legacy (decide (0 < m)) fighterCount (2 ^ (k + 1)) byeSeedCount m
      (k + 1) ∧
    (0 < m → legacy = false ∧ byeSeedCount = 2 ^ (k + 1) - m)

theorem drawn_of_ok {fighterCount : ℕ} {size : Option ℕ} {b : SingleElimBracket}
    (h : singleElimBracket fighterCount size = .ok b) : ∃ k m, Drawn b k m := by
  rw [singleElimBracket] at h
  split at h
  · cases h
  rename_i hTwo
  have hTwo : 2 ≤ fighterCount := Nat.le_of_not_lt hTwo
  cases hSize : resolveBracketSize fighterCount size with
  | error message =>
    rw [hSize] at h
    cases h
  | ok bracketSize =>
    rw [hSize] at h
    simp only at h
    split at h
    · cases h
    obtain ⟨k, rfl, hMode⟩ := resolveBracketSize_ok hTwo hSize
    cases h
    have hPos := Nat.two_pow_pos (k + 1)
    rcases hMode with ⟨rfl, -⟩ | ⟨rfl, hLe, hFit, hPower⟩
    · refine ⟨k, 0, Nat.log2_two_pow, by simp, hPos, true, fighterCount,
        2 ^ (k + 1) - fighterCount, ?_, by rintro ⟨⟩⟩
      simp [Nat.log2_two_pow]
    · by_cases hIs : isPowerOf2 fighterCount = true
      · refine ⟨k, 0, Nat.log2_two_pow, by simp [hIs], hPos, false, fighterCount, 0, ?_, by rintro ⟨⟩⟩
        simp [hIs, Nat.log2_two_pow]
      · have hNe : fighterCount ≠ 2 ^ (k + 1) := fun hEq => hIs (hPower.mpr hEq)
        have hNeTwice : fighterCount ≠ 2 ^ (k + 1) * 2 := by
          rintro rfl
          exact hIs (by rw [← Nat.pow_succ]; exact isPowerOf2_pow _)
        have hLt : 0 < fighterCount - 2 ^ (k + 1) := by omega
        refine ⟨k, fighterCount - 2 ^ (k + 1), Nat.log2_two_pow, by simp [hIs], by omega, false,
          fighterCount, 2 ^ (k + 1) - (fighterCount - 2 ^ (k + 1)), ?_, fun _ => ⟨rfl, rfl⟩⟩
        simp [hIs, hLt, Nat.log2_two_pow]

/-- The bout `t` decides who stands on a side of the bout `s`. -/
def Feeds (b : SingleElimBracket) (t s : SlotRef) : Prop :=
  ∃ slot ∈ b.slots, slot.ref = s ∧ ∃ x ∈ slot.node.sides, x.reads? = some t

/-- The sub-tree that feeds a slot, with the slot itself. -/
def SubTree (b : SingleElimBracket) : SlotRef → SlotRef → Prop := Relation.ReflTransGen (Feeds b)

def refsOf (b : SingleElimBracket) : List SlotRef := b.slots.map BracketSlot.ref

section Drawn

variable {b : SingleElimBracket} {k m : ℕ}

theorem winnerRound_count {round : ℕ} (h : round ≤ k + 1) :
    2 ^ (k + 1) / 2 ^ round = 2 ^ (k + 1 - round) :=
  Nat.pow_div h (by decide)

theorem Drawn.mem_refsOf (h : Drawn b k m) {r : SlotRef} :
    r ∈ refsOf b ↔ (r.round = 0 ∧ 1 ≤ r.position ∧ r.position ≤ m) ∨
      (1 ≤ r.round ∧ r.round ≤ k + 1 ∧ 1 ≤ r.position ∧ r.position ≤ 2 ^ (k + 1 - r.round)) ∨
      (1 ≤ k ∧ r = ⟨k + 1, 2⟩) := by
  obtain ⟨legacy, fighterCount, byeSeedCount, hSlots, -⟩ := h.slots
  have hBronze : (bronzeSlots (2 ^ (k + 1)) (k + 1)).map BracketSlot.ref =
      if 1 ≤ k then [⟨k + 1, 2⟩] else [] := by
    rw [bronzeSlots]
    cases k with
    | zero => rfl
    | succ k =>
      have hFour : 4 ≤ 2 ^ (k + 1 + 1) := by
        have hPos := Nat.two_pow_pos k
        omega
      rw [if_pos hFour, if_pos (Nat.le_add_left 1 k)]
      rfl
  obtain ⟨round, position⟩ := r
  rw [refsOf, hSlots, singleElimSlots, List.map_append, List.map_append, List.map_append,
    map_ref_playIn, map_ref_firstRound, map_ref_winnerSlots, hBronze]
  simp only [List.mem_append, List.mem_map, List.mem_flatMap, List.mem_range'_1,
    SlotRef.mk.injEq]
  constructor
  · rintro (((⟨pos, hPos, rfl, rfl⟩ | ⟨pos, hPos, rfl, rfl⟩) |
      ⟨round', hRound, pos, hPos, rfl, rfl⟩) | hMem)
    · omega
    · right
      left
      rw [Nat.add_sub_cancel]
      omega
    · rw [winnerRound_count (by omega)] at hPos
      omega
    · split at hMem
      · rename_i hk
        obtain ⟨rfl, rfl⟩ := SlotRef.mk.inj (List.mem_singleton.mp hMem)
        exact Or.inr (Or.inr ⟨hk, rfl, rfl⟩)
      · cases hMem
  · rintro (⟨rfl, hLe, hm⟩ | ⟨hOne, hLast, hLe, hm⟩ | ⟨hk, rfl, rfl⟩)
    · exact Or.inl (Or.inl (Or.inl ⟨position, by omega, rfl, rfl⟩))
    · by_cases hFirst : round = 1
      · subst hFirst
        rw [Nat.add_sub_cancel] at hm
        exact Or.inl (Or.inl (Or.inr ⟨position, by omega, rfl, rfl⟩))
      · refine Or.inl (Or.inr ⟨round, by omega, position, ?_, rfl, rfl⟩)
        rw [winnerRound_count hLast]
        omega
    · rw [if_pos hk]
      exact Or.inr (List.mem_singleton.mpr rfl)

theorem seat_reads {legacy : Bool} {fighterCount byeSeedCount seed : ℕ} {t : SlotRef}
    (h : (seatSource legacy (decide (0 < m)) fighterCount byeSeedCount seed).reads? = some t) :
    0 < m ∧ t.round = 0 ∧ 1 ≤ t.position ∧ seed = byeSeedCount + t.position := by
  rw [seatSource] at h
  split at h
  · cases h
  · split at h
    · rename_i hSeat
      rw [Bool.and_eq_true, decide_eq_true_eq, decide_eq_true_eq] at hSeat
      obtain rfl := Option.some.inj h
      exact ⟨hSeat.1, rfl, by simp only; omega, by simp only; omega⟩
    · cases h

/-- The pair drawn at a position of round 1. -/
theorem pair_of_mem_seedingOrder {pair : ℕ × ℕ} {pos : ℕ}
    (h : (pair, pos) ∈ (buildSeedingOrder (2 ^ (k + 1))).zipIdx 1) :
    1 ≤ pos ∧ (seedsAfter k)[pos - 1]? = some pair.1 ∧ pair.2 = 2 ^ (k + 1) + 1 - pair.1 := by
  obtain ⟨hOne, hPair⟩ := List.mk_mem_zipIdx_iff_le_and_getElem?_sub.mp h
  rw [buildSeedingOrder_pow, List.getElem?_map, Option.map_eq_some_iff] at hPair
  obtain ⟨seed, hSeed, rfl⟩ := hPair
  exact ⟨hOne, hSeed, rfl⟩

/-- Below the last round a slot is fed out of round 0, or by the two slots of the round below. -/
theorem Drawn.feeds_cases (h : Drawn b k m) {t s : SlotRef} (hFeeds : Feeds b t s)
    (hRound : s.round ≤ max 1 k) :
    (s.round = 1 ∧ t.round = 0 ∧ 1 ≤ t.position ∧ ∃ seed,
      (seedsAfter k)[s.position - 1]? = some seed ∧ 0 < m ∧ (seed = 2 ^ (k + 1) - m + t.position ∨
        2 ^ (k + 1) + 1 - seed = 2 ^ (k + 1) - m + t.position)) ∨
    (t.round + 1 = s.round ∧ 1 ≤ t.round ∧ 1 ≤ t.position ∧ (t.position + 1) / 2 = s.position) := by
  obtain ⟨legacy, fighterCount, byeSeedCount, hSlots, hPlayIn⟩ := h.slots
  obtain ⟨slot, hSlot, rfl, x, hx, hReads⟩ := hFeeds
  rw [hSlots, singleElimSlots] at hSlot
  rcases List.mem_append.mp hSlot with hSlot | hSlot
  · rcases List.mem_append.mp hSlot with hSlot | hSlot
    · rcases List.mem_append.mp hSlot with hSlot | hSlot
      · obtain ⟨pos, -, rfl⟩ := List.mem_map.mp hSlot
        rcases List.mem_pair.mp hx with rfl | rfl
        · cases hReads
        · cases hReads
      · left
        obtain ⟨⟨pair, pos⟩, hPair, rfl⟩ := List.mem_map.mp hSlot
        obtain ⟨-, hSeed, hComplement⟩ := pair_of_mem_seedingOrder hPair
        rcases List.mem_pair.mp hx with rfl | rfl
        · obtain ⟨hm, hZero, hOne, hEq⟩ := seat_reads hReads
          rw [(hPlayIn hm).2] at hEq
          exact ⟨rfl, hZero, hOne, pair.1, hSeed, hm, Or.inl hEq⟩
        · obtain ⟨hm, hZero, hOne, hEq⟩ := seat_reads hReads
          rw [(hPlayIn hm).2, hComplement] at hEq
          exact ⟨rfl, hZero, hOne, pair.1, hSeed, hm, Or.inr hEq⟩
    · right
      obtain ⟨round, hRange, hSlot⟩ := List.mem_flatMap.mp hSlot
      obtain ⟨pos, hPos, rfl⟩ := List.mem_map.mp hSlot
      have hTwo := (List.mem_range'_1.mp hRange).1
      have hOne := (List.mem_range'_1.mp hPos).1
      rcases List.mem_pair.mp hx with rfl | rfl
      · obtain rfl := Option.some.inj hReads
        simp only [ref_bracketSlot]
        omega
      · obtain rfl := Option.some.inj hReads
        simp only [ref_bracketSlot]
        omega
  · obtain ⟨hk, rfl⟩ := mem_bronzeSlots hSlot
    simp only [ref_bracketSlot] at hRound
    omega

/-- The last play-in bout feeds the slot of the first seed. -/
theorem Drawn.feeds_first (h : Drawn b k m) (hm : 0 < m) {seed pos : ℕ}
    (hSeed : (seedsAfter k)[pos]? = some seed) (hLow : 2 ^ (k + 1) - m < 2 ^ (k + 1) + 1 - seed) :
    Feeds b ⟨0, 2 ^ (k + 1) + 1 - seed - (2 ^ (k + 1) - m)⟩ ⟨1, pos + 1⟩ := by
  obtain ⟨legacy, fighterCount, byeSeedCount, hSlots, hPlayIn⟩ := h.slots
  obtain ⟨rfl, rfl⟩ := hPlayIn hm
  have hPair : ((seed, 2 ^ (k + 1) + 1 - seed), pos + 1) ∈
      (buildSeedingOrder (2 ^ (k + 1))).zipIdx 1 := by
    refine List.mk_mem_zipIdx_iff_le_and_getElem?_sub.mpr ⟨by omega, ?_⟩
    rw [buildSeedingOrder_pow, List.getElem?_map, Nat.add_sub_cancel, hSeed]
    rfl
  have hSlot : bracketSlot 1 (pos + 1)
      (seatSource false (decide (0 < m)) fighterCount (2 ^ (k + 1) - m) seed)
      (seatSource false (decide (0 < m)) fighterCount (2 ^ (k + 1) - m) (2 ^ (k + 1) + 1 - seed)) ∈
      b.slots := by
    rw [hSlots, singleElimSlots]
    exact List.mem_append_left _ (List.mem_append_left _ (List.mem_append_right _
      (List.mem_map.mpr ⟨_, hPair, rfl⟩)))
  refine ⟨_, hSlot, rfl, _, List.mem_cons_of_mem _ (List.mem_singleton.mpr rfl), ?_⟩
  simp [seatSource, hm, hLow, Feed.reads?]

/-- A slot below the last round feeds the slot it halves into. -/
theorem Drawn.feeds_next (h : Drawn b k m) {round position : ℕ} (hOne : 1 ≤ round) (hLe : round ≤ k)
    (hPos : 1 ≤ position) (hLast : position ≤ 2 ^ (k + 1 - round)) :
    Feeds b ⟨round, position⟩ ⟨round + 1, (position + 1) / 2⟩ := by
  obtain ⟨legacy, fighterCount, byeSeedCount, hSlots, -⟩ := h.slots
  have hHalf : 2 ^ (k + 1 - round) = 2 ^ (k + 1 - (round + 1)) * 2 := by
    rw [← Nat.pow_succ]
    congr 1
    omega
  have hMem : bracketSlot (round + 1) ((position + 1) / 2)
      (.winnerOf ⟨round + 1 - 1, ((position + 1) / 2 - 1) * 2 + 1⟩)
      (.winnerOf ⟨round + 1 - 1, ((position + 1) / 2 - 1) * 2 + 2⟩) ∈ b.slots := by
    rw [hSlots, singleElimSlots]
    refine List.mem_append_left _ (List.mem_append_right _ (List.mem_flatMap.mpr
      ⟨round + 1, List.mem_range'_1.mpr (by omega), List.mem_map.mpr ⟨_, ?_, rfl⟩⟩))
    rw [winnerRound_count (by omega), List.mem_range'_1]
    omega
  by_cases hOdd : position % 2 = 1
  · refine ⟨_, hMem, rfl, _, List.mem_cons_self, congrArg some (SlotRef.mk.injEq .. ▸ ?_)⟩
    omega
  · refine ⟨_, hMem, rfl, _, List.mem_cons_of_mem _ (List.mem_singleton.mpr rfl),
      congrArg some (SlotRef.mk.injEq .. ▸ ?_)⟩
    omega

end Drawn

/-! ## Where seeds 1 and 2 are drawn -/

theorem head_seedsAfter (k : ℕ) : (seedsAfter k)[0]? = some 1 := by
  induction k with
  | zero => rfl
  | succ k ih =>
    obtain ⟨rest, hSeeds⟩ : ∃ rest, seedsAfter k = 1 :: rest := by
      cases hSeeds : seedsAfter k with
      | nil =>
        rw [hSeeds] at ih
        cases ih
      | cons first rest =>
        rw [hSeeds] at ih
        exact ⟨rest, by rw [Option.some.inj ih]⟩
    rw [seedsAfter, insertComplements, hSeeds]
    rfl

/-- Seed 2 is in the lower half of the draw. -/
theorem two_mem_lowerHalf (k : ℕ) : ∃ upper lower, seedsAfter (k + 1) = upper ++ lower ∧
    upper.length = 2 ^ k ∧ 2 ∈ lower := by
  induction k with
  | zero => exact ⟨[1], [2], rfl, rfl, List.mem_singleton.mpr rfl⟩
  | succ k ih =>
    obtain ⟨upper, lower, hSeeds, hLength, hTwo⟩ := ih
    have hSplit : seedsAfter (k + 1 + 1) =
        (upper.flatMap fun s => [s, (seedsAfter (k + 1)).length * 2 + 1 - s]) ++
          lower.flatMap fun s => [s, (seedsAfter (k + 1)).length * 2 + 1 - s] := by
      rw [seedsAfter, insertComplements]
      nth_rewrite 2 [hSeeds]
      exact List.flatMap_append
    refine ⟨_, _, hSplit, ?_, List.mem_flatMap.mpr ⟨2, hTwo, List.mem_cons_self⟩⟩
    simp [List.length_flatMap, hLength, Nat.pow_succ]

theorem index_of_two {k i : ℕ} (hk : 1 ≤ k) (h : (seedsAfter k)[i]? = some 2) :
    2 ^ (k - 1) ≤ i := by
  obtain ⟨k, rfl⟩ := Nat.exists_eq_add_of_le' hk
  obtain ⟨upper, lower, hSeeds, hLength, hTwo⟩ := two_mem_lowerHalf k
  have hNodup : (upper ++ lower).Nodup := by
    rw [← hSeeds]
    exact (seedsAfter_perm (k + 1)).nodup_iff.mpr (List.nodup_range' 1)
  rw [Nat.add_sub_cancel]
  by_contra hNot
  rw [hSeeds, List.getElem?_append_left (by omega)] at h
  exact (List.nodup_append.mp hNodup).2.2 2 (List.mem_of_getElem? h) 2 hTwo rfl

theorem index_of_one {k i : ℕ} (h : (seedsAfter k)[i]? = some 1) : i = 0 := by
  have hNodup : (seedsAfter k).Nodup :=
    (seedsAfter_perm k).nodup_iff.mpr (List.nodup_range' 1)
  have hZero := head_seedsAfter k
  have hLt := (List.getElem?_eq_some_iff.mp hZero).1
  exact ((List.getElem?_inj hLt hNodup).mp (hZero.trans h.symm)).symm

/-! ## Folding -/

section Fold

def inputOf (r : SlotRef) : BracketSlotInput SlotRef := ⟨r, r.round, r.position⟩

/-- Where a slot of the spread round or below folds to. -/
def foldOf (spreadRound : ℕ) (r : SlotRef) : ℕ := foldedPosition spreadRound (inputOf r)

theorem foldOf_self (spreadRound position : ℕ) :
    foldOf spreadRound ⟨spreadRound, position⟩ = position := by
  simp [foldOf, foldedPosition, inputOf]

/-- A slot and the slot it halves into fold alike. -/
theorem foldOf_next {spreadRound round position : ℕ} (h : round < spreadRound) :
    foldOf spreadRound ⟨round + 1, (position + 1) / 2⟩ = foldOf spreadRound ⟨round, position⟩ := by
  have hTwice : 2 ^ (spreadRound - round) = 2 * 2 ^ (spreadRound - (round + 1)) := by
    rw [← Nat.pow_succ']
    congr 1
    omega
  have hPos := Nat.two_pow_pos (spreadRound - (round + 1))
  simp only [foldOf, foldedPosition, inputOf]
  rw [hTwice, ← Nat.div_div_eq_div_mul]
  congr 1
  omega

theorem foldOf_le {spreadRound n : ℕ} {r : SlotRef}
    (h : r.position ≤ n * 2 ^ (spreadRound - r.round)) : foldOf spreadRound r ≤ n := by
  have hPos := Nat.two_pow_pos (spreadRound - r.round)
  simp only [foldOf, foldedPosition, inputOf]
  rw [Nat.div_le_iff_le_mul_add_pred hPos]
  rw [Nat.mul_comm] at h
  omega

theorem one_le_foldOf {spreadRound : ℕ} {r : SlotRef} (h : 1 ≤ r.position) :
    1 ≤ foldOf spreadRound r := by
  have hPos := Nat.two_pow_pos (spreadRound - r.round)
  simp only [foldOf, foldedPosition, inputOf]
  rw [Nat.le_div_iff_mul_le hPos]
  omega

theorem foldOf_one (spreadRound round : ℕ) : foldOf spreadRound ⟨round, 1⟩ = 1 := by
  have hPos := Nat.two_pow_pos (spreadRound - round)
  simp only [foldOf, foldedPosition, inputOf]
  rw [Nat.add_sub_cancel_left, Nat.div_self hPos]

theorem le_of_foldOf_eq_one {spreadRound : ℕ} {r : SlotRef} (h : foldOf spreadRound r = 1) :
    r.position ≤ 2 ^ (spreadRound - r.round) := by
  have hPos := Nat.two_pow_pos (spreadRound - r.round)
  simp only [foldOf, foldedPosition, inputOf] at h
  by_contra hNot
  have hTwo : 2 ≤ (r.position + 2 ^ (spreadRound - r.round) - 1) / 2 ^ (spreadRound - r.round) := by
    rw [Nat.le_div_iff_mul_le hPos]
    omega
  omega

end Fold

/-! ## The units of a bracket -/

def inputsOf (b : SingleElimBracket) : List (BracketSlotInput SlotRef) := (refsOf b).map inputOf

def branchesOf (b : SingleElimBracket) (liceCount : ℕ) : GroupBracketBranchesResult SlotRef :=
  groupBracketBranches (inputsOf b) liceCount ⟨none, none⟩

/-- Each slot is in one unit, and the unit of an anchor is the sub-tree that feeds it. -/
structure BranchLaw (b : SingleElimBracket) (liceCount : ℕ) : Prop where
  once : ((branchesOf b liceCount).units.flatMap (·.matchIds)).Perm (refsOf b)
  subTree : ∀ unit ∈ (branchesOf b liceCount).units, ∀ anchor, unit.anchor = some anchor →
    ∀ r, r ∈ unit.matchIds ↔ r ∈ refsOf b ∧ SubTree b r anchor

section Units

variable {b : SingleElimBracket} {k m liceCount : ℕ}

theorem map_matchId_inputsOf (b : SingleElimBracket) :
    (inputsOf b).map (·.matchId) = refsOf b := by
  rw [inputsOf, List.map_map]
  exact List.map_id _

theorem foldl_max_eq {n : ℕ} {l : List ℕ} (hMem : n ∈ l) (hLe : ∀ x ∈ l, x ≤ n) :
    l.foldl max 0 = n := by
  have hGe : n ≤ l.foldl max 0 := ListSchedule.actor_le_foldl_max (fun x => x) hMem 0
  rcases ListSchedule.foldl_max_cases (fun x => x) l 0 with hZero | ⟨x, hx, hEq⟩
  · have hEq : l.foldl max 0 = 0 := hZero
    omega
  · have hEq : l.foldl max 0 = x := hEq
    have hLeX := hLe x hx
    omega

theorem map_round_inputsOf (b : SingleElimBracket) :
    (inputsOf b).map (·.round) = (refsOf b).map (·.round) := by
  rw [inputsOf, List.map_map]
  rfl

/-- Every main round has a first slot. -/
theorem Drawn.first_mem (h : Drawn b k m) {round : ℕ} (hOne : 1 ≤ round) (hLe : round ≤ k + 1) :
    ⟨round, 1⟩ ∈ refsOf b :=
  h.mem_refsOf.mpr (Or.inr (Or.inl ⟨hOne, hLe, Nat.le_refl 1, Nat.one_le_two_pow⟩))

theorem Drawn.round_le (h : Drawn b k m) {r : SlotRef} (hr : r ∈ refsOf b) : r.round ≤ k + 1 := by
  rcases h.mem_refsOf.mp hr with ⟨hZero, -⟩ | ⟨-, hLe, -⟩ | ⟨-, rfl⟩
  · omega
  · exact hLe
  · exact Nat.le_refl _

theorem Drawn.maxRound_eq (h : Drawn b k m) : maxRound (inputsOf b) = k + 1 := by
  rw [maxRound, map_round_inputsOf]
  refine foldl_max_eq (List.mem_map_of_mem (h.first_mem (Nat.le_add_left 1 k) (Nat.le_refl _))) ?_
  intro x hx
  obtain ⟨r, hr, rfl⟩ := List.mem_map.mp hx
  exact h.round_le hr

theorem Drawn.spread_bounds (h : Drawn b k m) (hLices : 2 ≤ liceCount) :
    1 ≤ spreadRoundOf (inputsOf b) liceCount ∧
      spreadRoundOf (inputsOf b) liceCount ≤ max 1 k ∧
      2 ^ (k + 1 - spreadRoundOf (inputsOf b) liceCount) ≤ liceCount := by
  have hLog : 1 ≤ Nat.log2 liceCount := (Nat.le_log2 (by omega)).mpr (by omega)
  have hPow : 2 ^ Nat.log2 liceCount ≤ liceCount := Nat.log2_self_le (by omega)
  rw [spreadRoundOf, h.maxRound_eq]
  refine ⟨by omega, by omega, le_trans (Nat.pow_le_pow_right (by decide) ?_) hPow⟩
  omega

/-- Two rounds and two lices: the bracket spreads. -/
theorem Drawn.units_eq (h : Drawn b k m) (hLices : 2 ≤ liceCount) (hRounds : 1 ≤ k ∨ 1 ≤ m) :
    (branchesOf b liceCount).units =
      spreadUnits (inputsOf b) (spreadRoundOf (inputsOf b) liceCount) := by
  have hOne := h.first_mem (Nat.le_refl 1) (Nat.le_add_left 1 k)
  have hDistinct : ¬ ((inputsOf b).map (·.round)).dedup.length ≤ 1 := by
    rw [map_round_inputsOf]
    obtain ⟨round, hRound, hNe⟩ : ∃ round ∈ (refsOf b).map (·.round), round ≠ 1 := by
      rcases hRounds with hk | hm
      · exact ⟨_, List.mem_map_of_mem (h.first_mem (Nat.le_add_left 1 k) (Nat.le_refl _)),
          by dsimp only; omega⟩
      · have hPlayIn : ⟨0, 1⟩ ∈ refsOf b := h.mem_refsOf.mpr (Or.inl ⟨rfl, Nat.le_refl 1, hm⟩)
        exact ⟨0, List.mem_map.mpr ⟨⟨0, 1⟩, hPlayIn, rfl⟩,
          by decide⟩
    have hPair : [1, round] ⊆ ((refsOf b).map (·.round)).dedup := by
      intro x hx
      rcases List.mem_pair.mp hx with rfl | rfl
      · exact List.mem_dedup.mpr (List.mem_map_of_mem hOne)
      · exact List.mem_dedup.mpr hRound
    have hLength := (List.subperm_of_subset (by simp [hNe.symm]) hPair).length_le
    rw [List.length_cons, List.length_singleton] at hLength
    omega
  have hSome : (inputsOf b).length ≠ 0 := by
    rw [inputsOf, List.length_map]
    exact Nat.pos_iff_ne_zero.mp (List.length_pos_of_mem hOne)
  have hSpread : branchesOf b liceCount = spreadBranches (inputsOf b) liceCount := rfl
  rw [hSpread, spreadBranches, if_neg hSome]
  dsimp only
  rw [if_neg (by omega)]

theorem mem_anchor_bucket {spreadRound p : ℕ} {r : SlotRef} :
    r ∈ ordered (bucket (anchorBuckets (inputsOf b) spreadRound) p) ↔
      r ∈ refsOf b ∧ r.round ≤ spreadRound ∧ foldOf spreadRound r = p := by
  rw [(ordered_perm _).mem_iff, anchorBuckets, bucket_collect, List.mem_map]
  simp only [List.mem_filter, decide_eq_true_eq, inputsOf, List.mem_map]
  constructor
  · rintro ⟨s, ⟨⟨⟨r, hr, rfl⟩, hRound⟩, hFold⟩, rfl⟩
    exact ⟨hr, hRound, hFold⟩
  · rintro ⟨hr, hRound, hFold⟩
    exact ⟨inputOf r, ⟨⟨⟨r, hr, rfl⟩, hRound⟩, hFold⟩, rfl⟩

/-- The unit of an anchor holds what folds to it. -/
theorem unit_of_anchor {spreadRound : ℕ} {unit : BranchUnit SlotRef} {anchor : SlotRef}
    (hUnit : unit ∈ spreadUnits (inputsOf b) spreadRound) (hAnchor : unit.anchor = some anchor) :
    anchor.round = spreadRound ∧ ∀ r, r ∈ unit.matchIds ↔
      r ∈ refsOf b ∧ r.round ≤ spreadRound ∧ foldOf spreadRound r = anchor.position := by
  rcases List.mem_append.mp hUnit with hUnit | hUnit
  · obtain ⟨p, -, rfl⟩ := List.mem_map.mp hUnit
    obtain rfl := Option.some.inj hAnchor
    exact ⟨rfl, fun r => mem_anchor_bucket⟩
  · split at hUnit
    · rw [List.mem_singleton.mp hUnit] at hAnchor
      cases hAnchor
    · cases hUnit

/-- Up the rounds, what folds to an anchor feeds it. -/
theorem Drawn.subTree_of_fold (h : Drawn b k m) {spreadRound : ℕ} (hSpread : spreadRound ≤ max 1 k)
    {r : SlotRef} (hr : r ∈ refsOf b) (hOne : 1 ≤ r.round) (hLe : r.round ≤ spreadRound) :
    SubTree b r ⟨spreadRound, foldOf spreadRound r⟩ := by
  obtain ⟨d, hd⟩ := Nat.exists_eq_add_of_le hLe
  induction d generalizing r with
  | zero =>
    obtain ⟨round, position⟩ := r
    obtain rfl : spreadRound = round := hd
    rw [foldOf_self]
    exact .refl
  | succ d ih =>
    obtain ⟨round, position⟩ := r
    simp only at hOne hLe hd
    have hBelow : round ≤ k := by omega
    rcases h.mem_refsOf.mp hr with ⟨hZero, -⟩ | ⟨-, -, hPos, hLast⟩ | ⟨-, hEq⟩
    · simp only at hZero
      omega
    · simp only at hPos hLast
      have hHalf : 2 ^ (k + 1 - round) = 2 ^ (k + 1 - (round + 1)) * 2 := by
        rw [← Nat.pow_succ]
        congr 1
        omega
      have hNext : ⟨round + 1, (position + 1) / 2⟩ ∈ refsOf b :=
        h.mem_refsOf.mpr (Or.inr (Or.inl ⟨by simp only; omega, by simp only; omega,
          by simp only; omega, by simp only; omega⟩))
      have hTree := ih hNext (by simp only; omega) (by simp only; omega) (by simp only; omega)
      rw [foldOf_next (by omega)] at hTree
      exact .head (h.feeds_next hOne hBelow hPos hLast) hTree
    · obtain ⟨rfl, -⟩ := SlotRef.mk.inj hEq
      omega

/-- What feeds an anchor from round 1 on folds to it. -/
theorem Drawn.fold_of_subTree (h : Drawn b k m) {anchor r : SlotRef}
    (hSpread : anchor.round ≤ max 1 k) (hTree : SubTree b r anchor) :
    r.round ≤ anchor.round ∧ (1 ≤ r.round → foldOf anchor.round r = anchor.position) := by
  induction hTree using Relation.ReflTransGen.head_induction_on with
  | refl => exact ⟨Nat.le_refl _, fun _ => foldOf_self _ _⟩
  | head hFeeds hRest ih =>
    rename_i t s
    obtain ⟨hLe, hFold⟩ := ih
    rcases h.feeds_cases hFeeds (hLe.trans hSpread) with ⟨hOne, hZero, -⟩ | ⟨hNext, hOne, -, hHalf⟩
    · exact ⟨by omega, fun hContra => by omega⟩
    · refine ⟨by omega, fun _ => ?_⟩
      obtain ⟨tRound, tPosition⟩ := t
      obtain ⟨sRound, sPosition⟩ := s
      simp only at hNext hHalf hLe
      subst hNext hHalf
      rw [← hFold (Nat.le_add_left 1 tRound)]
      exact (foldOf_next hLe).symm

theorem Feeds.mem_refsOf {t s : SlotRef} (h : Feeds b t s) : s ∈ refsOf b := by
  obtain ⟨slot, hSlot, rfl, -⟩ := h
  exact List.mem_map_of_mem hSlot

/-- The seed of round 1 whose opponent comes out of a play-in bout. -/
theorem Drawn.seed_of_playIn (h : Drawn b k m) {t s : SlotRef} (hFeeds : Feeds b t s)
    (hRound : s.round ≤ max 1 k) (hZero : t.round = 0) :
    s.round = 1 ∧ 1 ≤ s.position ∧ ∃ seed, (seedsAfter k)[s.position - 1]? = some seed ∧
      1 ≤ seed ∧ seed ≤ 2 ^ k ∧ 1 ≤ t.position ∧
      (seed + m = 2 ^ (k + 1) + t.position ∨ seed + t.position = m + 1) := by
  have hPos := Nat.two_pow_pos (k + 1)
  have hFew := h.few
  rcases h.feeds_cases hFeeds hRound with ⟨hOne, -, hT, seed, hSeed, hm, hEq⟩ | ⟨-, hNot, -⟩
  · have hRange := List.mem_range'_1.mp
      ((seedsAfter_perm k).mem_iff.mp (List.mem_of_getElem? hSeed))
    refine ⟨hOne, ?_, seed, hSeed, hRange.1, by omega, hT, by omega⟩
    rcases h.mem_refsOf.mp hFeeds.mem_refsOf with ⟨hNone, -⟩ | ⟨-, -, hS, -⟩ | ⟨-, rfl⟩
    · omega
    · exact hS
    · exact Nat.le_add_left 1 1
  · omega

theorem Drawn.feeds_last (h : Drawn b k m) (hm : 0 < m) : Feeds b ⟨0, m⟩ ⟨1, 1⟩ := by
  have hFew := h.few
  have hFirst := h.feeds_first hm (head_seedsAfter k) (by omega)
  have hEq : 2 ^ (k + 1) + 1 - 1 - (2 ^ (k + 1) - m) = m := by omega
  rwa [hEq] at hFirst

/-- A single play-in bout feeds the first slot and no other. -/
theorem Drawn.first_of_playIn (h : Drawn b k m) (hm : m ≤ 1) {t s : SlotRef} (hFeeds : Feeds b t s)
    (hRound : s.round ≤ max 1 k) (hZero : t.round = 0) : t = ⟨0, 1⟩ ∧ s = ⟨1, 1⟩ := by
  obtain ⟨hOne, hPos, seed, hSeed, hSeedPos, hSeedLe, hT, hEq⟩ :=
    h.seed_of_playIn hFeeds hRound hZero
  have hPow : 2 ^ (k + 1) = 2 * 2 ^ k := Nat.pow_succ'
  have hPowPos := Nat.two_pow_pos k
  obtain ⟨tRound, tPosition⟩ := t
  obtain ⟨sRound, sPosition⟩ := s
  simp only at hZero hOne hPos hT hEq hSeed
  obtain rfl : seed = 1 := by omega
  have hIndex := index_of_one hSeed
  rw [SlotRef.mk.injEq, SlotRef.mk.injEq]
  omega

/-- A bracket of one round and no play-in has nothing to spread. -/
theorem Drawn.units_final (h : Drawn b 0 0) :
    (branchesOf b liceCount).units = [convergeUnit (ordered (inputsOf b))] := by
  have hOne := h.first_mem (Nat.le_refl 1) (Nat.le_refl 1)
  have hSame : ((inputsOf b).map (·.round)).dedup.length ≤ 1 := by
    rw [map_round_inputsOf]
    have hSub : ((refsOf b).map (·.round)).dedup ⊆ [1] := by
      intro x hx
      obtain ⟨r, hr, rfl⟩ := List.mem_map.mp (List.mem_dedup.mp hx)
      rcases h.mem_refsOf.mp hr with ⟨-, hPos, hNone⟩ | ⟨hLow, hLast, -⟩ | ⟨hContra, -⟩
      · omega
      · exact List.mem_singleton.mpr (by omega)
      · omega
    exact (List.subperm_of_subset (List.nodup_dedup _) hSub).length_le
  have hSome : (inputsOf b).length ≠ 0 := by
    rw [inputsOf, List.length_map]
    exact Nat.pos_iff_ne_zero.mp (List.length_pos_of_mem hOne)
  have hSpread : branchesOf b liceCount = spreadBranches (inputsOf b) liceCount := rfl
  rw [hSpread, spreadBranches, if_neg hSome]
  dsimp only
  rw [if_pos (Or.inr hSame)]

/-- One play-in bout at most: it folds to the first anchor, whose first slot it feeds. -/
theorem Drawn.branchLaw (h : Drawn b k m) (hLices : 2 ≤ liceCount) (hm : m ≤ 1) :
    BranchLaw b liceCount := by
  have hOnce : ((branchesOf b liceCount).units.flatMap (·.matchIds)).Perm (refsOf b) := by
    rw [← map_matchId_inputsOf]
    exact (grouped_groupBracketBranches _ _ _).perm
  refine ⟨hOnce, fun unit hUnit anchor hAnchor r => ?_⟩
  by_cases hRounds : 1 ≤ k ∨ 1 ≤ m
  · obtain ⟨hOneSpread, hSpread, -⟩ := h.spread_bounds hLices
    rw [h.units_eq hLices hRounds] at hUnit
    obtain ⟨hRound, hMem⟩ := unit_of_anchor hUnit hAnchor
    rw [hMem, ← hRound]
    rw [← hRound] at hOneSpread hSpread
    refine and_congr_right fun hr => ⟨fun ⟨hLe, hFold⟩ => ?_, fun hTree => ?_⟩
    · have hAnchorEq : (⟨anchor.round, foldOf anchor.round r⟩ : SlotRef) = anchor := by rw [hFold]
      rcases Nat.eq_zero_or_pos r.round with hZero | hOne
      · obtain ⟨hm', rfl⟩ : 0 < m ∧ r = ⟨0, m⟩ := by
          rcases h.mem_refsOf.mp hr with ⟨-, hPos, hLast⟩ | ⟨hNot, -⟩ | ⟨-, rfl⟩
          · obtain ⟨round, position⟩ := r
            rw [SlotRef.mk.injEq]
            simp only at hZero hPos hLast
            omega
          · omega
          · simp only at hZero
            omega
        have hTree := h.subTree_of_fold hSpread (h.first_mem (Nat.le_refl 1) (Nat.le_add_left 1 k))
          (Nat.le_refl 1) hOneSpread
        obtain rfl : m = 1 := by omega
        rw [foldOf_one] at hTree hAnchorEq
        rw [← hAnchorEq]
        exact .head (h.feeds_last hm') hTree
      · rw [← hAnchorEq]
        exact h.subTree_of_fold hSpread hr hOne hLe
    · obtain ⟨hLe, hFold⟩ := h.fold_of_subTree hSpread hTree
      refine ⟨hLe, ?_⟩
      rcases Nat.eq_zero_or_pos r.round with hZero | hOne
      · rcases Relation.ReflTransGen.cases_head hTree with rfl | ⟨s, hFeeds, hRest⟩
        · omega
        · obtain ⟨hLeS, hFoldS⟩ := h.fold_of_subTree hSpread hRest
          obtain ⟨rfl, rfl⟩ := h.first_of_playIn hm hFeeds (hLeS.trans hSpread) hZero
          rw [foldOf_one, ← hFoldS (Nat.le_refl 1), foldOf_one]
      · exact hFold hOne
  · obtain ⟨rfl, rfl⟩ : k = 0 ∧ m = 0 := by omega
    rw [h.units_final, List.mem_singleton] at hUnit
    rw [hUnit] at hAnchor
    cases hAnchor

/-- With two play-in bouts or more the last but one feeds the half of seed 2, and still folds to
the first anchor as soon as the last one does. -/
theorem Drawn.few_of_branchLaw (h : Drawn b k m) (hLices : 2 ≤ liceCount)
    (hLaw : BranchLaw b liceCount) : m ≤ 1 := by
  by_contra hNot
  have hFew := h.few
  have hk : 1 ≤ k := by
    by_contra hZero
    obtain rfl : k = 0 := by omega
    omega
  obtain ⟨hOneSpread, hSpread, -⟩ := h.spread_bounds hLices
  generalize hSpreadEq : spreadRoundOf (inputsOf b) liceCount = spread at hOneSpread hSpread
  have hFirst := h.first_mem hOneSpread (by omega : spread ≤ k + 1)
  have hUnits := h.units_eq hLices (Or.inl hk)
  rw [hSpreadEq] at hUnits
  -- the unit of the first anchor
  have hKey : 1 ∈ keys (anchorBuckets (inputsOf b) spread) := by
    refine mem_keys_collect.mpr ⟨inputOf ⟨spread, 1⟩, List.mem_filter.mpr
      ⟨List.mem_map_of_mem hFirst, ?_⟩, foldOf_one spread spread⟩
    exact decide_eq_true (Nat.le_refl spread)
  have hUnit : anchorUnit spread 1 (ordered (bucket (anchorBuckets (inputsOf b) spread) 1)) ∈
      (branchesOf b liceCount).units := by
    rw [hUnits, spreadUnits]
    exact List.mem_append_left _ (List.mem_map.mpr ⟨1, mem_sortWith.mpr hKey, rfl⟩)
  have hTree := hLaw.subTree _ hUnit ⟨spread, 1⟩ rfl
  have hFold : ∀ r, r ∈ refsOf b ∧ r.round ≤ spread ∧ foldOf spread r = 1 ↔
      r ∈ refsOf b ∧ SubTree b r ⟨spread, 1⟩ := fun r => mem_anchor_bucket.symm.trans (hTree r)
  -- the last play-in bout is in its sub-tree, so it folds to it
  have hLast : SubTree b ⟨0, m⟩ ⟨spread, 1⟩ := by
    have hUp := h.subTree_of_fold hSpread (h.first_mem (Nat.le_refl 1) (Nat.le_add_left 1 k))
      (Nat.le_refl 1) hOneSpread
    rw [foldOf_one] at hUp
    exact .head (h.feeds_last (by omega)) hUp
  have hMemLast : ⟨0, m⟩ ∈ refsOf b :=
    h.mem_refsOf.mpr (Or.inl ⟨rfl, by simp only; omega, Nat.le_refl m⟩)
  have hLe := le_of_foldOf_eq_one ((hFold ⟨0, m⟩).mpr ⟨hMemLast, hLast⟩).2.2
  simp only [Nat.sub_zero] at hLe
  -- and so does the one before it
  have hMemBefore : ⟨0, m - 1⟩ ∈ refsOf b :=
    h.mem_refsOf.mpr (Or.inl ⟨rfl, by simp only; omega, by simp only; omega⟩)
  have hFoldBefore : foldOf spread ⟨0, m - 1⟩ = 1 := by
    have hUpper : foldOf spread ⟨0, m - 1⟩ ≤ 1 := foldOf_le (by simp only [Nat.sub_zero]; omega)
    have hLower : 1 ≤ foldOf spread ⟨0, m - 1⟩ := one_le_foldOf (by simp only; omega)
    omega
  have hBefore := ((hFold ⟨0, m - 1⟩).mp ⟨hMemBefore, Nat.zero_le _, hFoldBefore⟩).2
  rcases Relation.ReflTransGen.cases_head hBefore with hEq | ⟨s, hFeeds, hRest⟩
  · have hRound := congrArg SlotRef.round hEq
    simp only at hRound
    omega
  · obtain ⟨hLeS, hFoldS⟩ := h.fold_of_subTree hSpread hRest
    obtain ⟨hOne, hPos, seed, hSeed, hSeedPos, hSeedLe, -, hEq⟩ :=
      h.seed_of_playIn hFeeds (hLeS.trans hSpread) rfl
    have hPow : 2 ^ (k + 1) = 2 * 2 ^ k := Nat.pow_succ'
    have hTwoLe : 2 ^ 1 ≤ 2 ^ k := Nat.pow_le_pow_right Nat.two_pos hk
    simp only at hEq
    obtain rfl : seed = 2 := by omega
    have hIndex := index_of_two hk hSeed
    have hLeft := le_of_foldOf_eq_one (hFoldS (by omega))
    have hHalf : 2 ^ (spread - 1) ≤ 2 ^ (k - 1) := Nat.pow_le_pow_right Nat.two_pos (by omega)
    rw [hOne] at hLeft
    simp only at hLeft
    omega

/-- The units are the sub-trees exactly when there is at most one play-in bout. -/
theorem Drawn.branchLaw_iff (h : Drawn b k m) (hLices : 2 ≤ liceCount) :
    BranchLaw b liceCount ↔ b.playInMatchCount ≤ 1 := by
  rw [h.playIns]
  exact ⟨h.few_of_branchLaw hLices, h.branchLaw hLices⟩

end Units

end MyClash.Schedule
