import MyClash.Bracket.SingleElimPlay

/-!
# When a single elimination can be played to its end

The law of a bracket is met by every bracket whose explicit size, if any, is at most twice
the field. Past that a slot of round 1 has two byes, and the slot it feeds waits for ever.
-/

namespace MyClash.Bracket

open Knockout

namespace SingleElimBracket

def sides (b : SingleElimBracket) : List Source := b.nodes.flatMap Node.sides

def outsideBronze (b : SingleElimBracket) : List (Node SlotRef) :=
  (b.slots.filter fun s => !b.isBronze s).map BracketSlot.node

end SingleElimBracket

/-- Both sides have their fighter. -/
def fought (board : SlotRef → Result) (s : BracketSlot) : Prop :=
  ∀ x ∈ s.node.sides, (x.side board).isSome

/-- What one play of a bracket has to come to. -/
structure PlayLaw (b : SingleElimBracket) (board : SlotRef → Result) : Prop where
  filled : ∀ s ∈ b.slots, b.isBronze s = false → ∀ x ∈ s.node.sides, x.isBye = false →
    (x.side board).isSome
  bronze : (∀ s ∈ b.slots, b.isSemiFinal s → fought board s) →
    ∀ s ∈ b.slots, b.isBronze s → fought board s
  champion : ∃ s ∈ b.slots, b.isFinal s ∧ ∃ champion ∈ List.range' 1 b.fighterCount,
    (board s.ref).winner = some champion ∧ ∀ f ∈ List.range' 1 b.fighterCount,
      lossesIn board b.outsideBronze f = if f = champion then 0 else 1

structure BracketLaw (b : SingleElimBracket) : Prop where
  seeds : ∀ n ∈ List.range' 1 b.fighterCount, b.sides.count (.seed n) = 1
  refs : ∀ x ∈ b.sides, ∀ k, x.reads? = some k → k ∈ b.slots.map BracketSlot.ref
  winners : ∀ s ∈ b.slots, b.isFinal s = false → b.isBronze s = false →
    b.sides.count (.winnerOf s.ref) = 1
  plays : ∀ homeWins, PlayLaw b (b.played homeWins)

/-! ## What the generator accepts -/

theorem resolveBracketSize_ok {fighterCount bracketSize : ℕ} {size : Option ℕ}
    (hTwo : 2 ≤ fighterCount) (h : resolveBracketSize fighterCount size = .ok bracketSize) :
    ∃ k, bracketSize = 2 ^ (k + 1) ∧
      (size = some bracketSize ∧ fighterCount ≤ bracketSize ∨
        size = none ∧ bracketSize ≤ fighterCount ∧ fighterCount ≤ bracketSize * 2 ∧
          (isPowerOf2 fighterCount = true ↔ fighterCount = bracketSize)) := by
  cases size with
  | some requested =>
    simp only [resolveBracketSize] at h
    split at h
    · cases h
    · rename_i hPower
      split at h
      · cases h
      · rename_i hLe
        cases h
        have hIs : isPowerOf2 bracketSize = true := by
          simp only [not_or, Nat.not_lt, not_not] at hPower
          simp [isPowerOf2, hPower.2]
          omega
        obtain ⟨j, hj⟩ := pow_of_isPowerOf2 (by omega) hIs
        exact ⟨j, hj, Or.inl ⟨rfl, Nat.le_of_not_lt hLe⟩⟩
  | none =>
    simp only [resolveBracketSize] at h
    by_cases hIs : isPowerOf2 fighterCount = true
    · rw [if_pos hIs] at h
      cases h
      obtain ⟨j, hj⟩ := pow_of_isPowerOf2 hTwo hIs
      exact ⟨j, hj, Or.inr ⟨rfl, Nat.le_refl _, by omega, by simp [hIs]⟩⟩
    · rw [if_neg hIs] at h
      cases h
      obtain ⟨k, hk, hLt, hLe⟩ := highestPowerOf2Below_spec hTwo
      rw [hk]
      have hOne : 2 ≤ 2 ^ k := by
        by_contra hNot
        have hPos := Nat.two_pow_pos k
        obtain rfl : fighterCount = 2 := by omega
        exact hIs rfl
      obtain ⟨j, hj⟩ := pow_of_isPowerOf2 hOne (isPowerOf2_pow k)
      exact ⟨j, hj, Or.inr ⟨rfl, by omega, hLe, by simp [hIs]; omega⟩⟩

/-- The sizes of a bracket the generator gives, and the slots it writes for them. -/
theorem singleElimBracket_ok {fighterCount : ℕ} {size : Option ℕ} {b : SingleElimBracket}
    (h : singleElimBracket fighterCount size = .ok b) :
    2 ≤ fighterCount ∧ b.fighterCount = fighterCount ∧ ∃ k, b.rounds = k + 1 ∧
      (size = some (2 ^ (k + 1)) ∧ fighterCount ≤ 2 ^ (k + 1) ∧
          b.slots = singleElimSlots true false fighterCount (2 ^ (k + 1))
            (2 ^ (k + 1) - fighterCount) 0 (k + 1) ∨
        size = none ∧ ∃ m, fighterCount = 2 ^ (k + 1) + m ∧ m ≤ 2 ^ (k + 1) ∧
          b.slots = singleElimSlots false (decide (0 < m)) fighterCount (2 ^ (k + 1))
            (if 0 < m then 2 ^ (k + 1) - m else 0) m (k + 1)) := by
  rw [singleElimBracket] at h
  split at h
  · cases h
  rename_i hTwo
  have hTwo : 2 ≤ fighterCount := Nat.le_of_not_lt hTwo
  cases hSize : resolveBracketSize fighterCount size with
  | error message =>
    rw [hSize] at h
    cases h
  | ok bracketSize =>
    rw [hSize] at h
    simp only at h
    split at h
    · cases h
    obtain ⟨k, rfl, hMode⟩ := resolveBracketSize_ok hTwo hSize
    cases h
    refine ⟨hTwo, rfl, k, Nat.log2_two_pow, ?_⟩
    rcases hMode with ⟨rfl, hLe⟩ | ⟨rfl, hLe, hFit, hPower⟩
    · exact Or.inl ⟨rfl, hLe, by simp [Nat.log2_two_pow]⟩
    · refine Or.inr ⟨rfl, fighterCount - 2 ^ (k + 1), by omega, by omega, ?_⟩
      by_cases hIs : isPowerOf2 fighterCount = true
      · simp [hPower.mp hIs, Nat.log2_two_pow, isPowerOf2_pow]
      · have hLt : 0 < fighterCount - 2 ^ (k + 1) := by
          have hNe : fighterCount ≠ 2 ^ (k + 1) := fun hEq => hIs (hPower.mpr hEq)
          omega
        simp [hIs, hLt, Nat.log2_two_pow]

/-! ## The law -/

section Law

variable {legacy playIn : Bool} {fighterCount byeSeedCount m k : ℕ}

theorem mem_bronzeSlots {s : BracketSlot} (hs : s ∈ bronzeSlots (2 ^ (k + 1)) (k + 1)) :
    1 ≤ k ∧ s = bracketSlot (k + 1) 2 (.loserOf ⟨k, 1⟩) (.loserOf ⟨k, 2⟩) := by
  rw [bronzeSlots] at hs
  split at hs
  · rename_i hFour
    refine ⟨?_, List.mem_singleton.mp hs⟩
    by_contra hNot
    obtain rfl : k = 0 := by omega
    exact absurd hFour (by decide)
  · cases hs

/-- With a bronze bout the final takes the winners of the two semi-finals. -/
theorem final_mem_winnerSlots (hk : 1 ≤ k) :
    bracketSlot (k + 1) 1 (.winnerOf ⟨k, 1⟩) (.winnerOf ⟨k, 2⟩) ∈
      winnerSlots (2 ^ (k + 1)) (k + 1) := by
  refine List.mem_flatMap.mpr ⟨k + 1, List.mem_range'_1.mpr (by omega), ?_⟩
  rw [Nat.div_self (Nat.two_pow_pos _)]
  exact List.mem_singleton.mpr rfl

end Law

/-- A bracket laid out as its main slots, which let one fighter through, and the bronze
bout behind them. -/
structure Laid (b : SingleElimBracket) (main bronze : List BracketSlot) : Prop where
  slots : b.slots = main ++ bronze
  ordered : Ordered b.slots
  advances : Advances (seedFeeds 1 b.fighterCount) (main.map BracketSlot.node)
    [.winnerOf ⟨b.rounds, 1⟩]
  main_round : ∀ s ∈ main, s.round < b.rounds ∨ s.round = b.rounds ∧ s.position = 1
  main_reads : ∀ s ∈ main, ∀ x ∈ s.node.sides, ∀ r, x.reads? = some r → x = .winnerOf r
  bronze_eq : ∀ s ∈ bronze, 2 ≤ b.rounds ∧
    s = bracketSlot b.rounds 2 (.loserOf ⟨b.rounds - 1, 1⟩) (.loserOf ⟨b.rounds - 1, 2⟩)
  final_mem : 2 ≤ b.rounds →
    bracketSlot b.rounds 1 (.winnerOf ⟨b.rounds - 1, 1⟩) (.winnerOf ⟨b.rounds - 1, 2⟩) ∈ main

theorem laid_of_advances {b : SingleElimBracket} {legacy playIn : Bool}
    {fighterCount byeSeedCount m k : ℕ} (hCount : b.fighterCount = fighterCount)
    (hRounds : b.rounds = k + 1)
    (hSlots : b.slots = singleElimSlots legacy playIn fighterCount (2 ^ (k + 1)) byeSeedCount m
      (k + 1))
    (hAdvances : Advances (seedFeeds 1 fighterCount)
      ((mainSlots legacy playIn fighterCount (2 ^ (k + 1)) byeSeedCount m (k + 1)).map
        BracketSlot.node) [.winnerOf ⟨k + 1, 1⟩]) :
    Laid b (mainSlots legacy playIn fighterCount (2 ^ (k + 1)) byeSeedCount m (k + 1))
      (bronzeSlots (2 ^ (k + 1)) (k + 1)) where
  slots := hSlots
  ordered := hSlots ▸ ordered_singleElimSlots
  advances := by rwa [hCount, hRounds]
  main_round s hs := by
    rw [hRounds]
    exact mainSlots_round hs
  main_reads s hs x hx r hr := (mainSlots_reads hs hx hr).2
  bronze_eq s hs := by
    obtain ⟨hk, rfl⟩ := mem_bronzeSlots hs
    rw [hRounds]
    exact ⟨Nat.succ_le_succ hk, rfl⟩
  final_mem hTwo := by
    rw [hRounds] at hTwo ⊢
    exact List.mem_append_right _ (final_mem_winnerSlots (Nat.le_of_succ_le_succ hTwo))

theorem Ordered.played_all {b : SingleElimBracket} (h : Ordered b.slots)
    (homeWins : SlotRef → Bool) : Played homeWins b.nodes (b.played homeWins) :=
  h.ranked.played homeWins noResults

namespace Laid

variable {b : SingleElimBracket} {main bronze : List BracketSlot}

theorem isBronze_main (h : Laid b main bronze) {s : BracketSlot} (hs : s ∈ main) :
    b.isBronze s = false := by
  rw [SingleElimBracket.isBronze, Bool.and_eq_false_iff, beq_eq_false_iff_ne, beq_eq_false_iff_ne]
  rcases h.main_round s hs with hRound | ⟨-, hPosition⟩
  · exact Or.inl (Nat.ne_of_lt hRound)
  · exact Or.inr (by omega)

theorem isBronze_bronze (h : Laid b main bronze) {s : BracketSlot} (hs : s ∈ bronze) :
    b.isBronze s = true := by
  rw [(h.bronze_eq s hs).2]
  simp [SingleElimBracket.isBronze, bracketSlot]

theorem mem_main (h : Laid b main bronze) {s : BracketSlot} (hs : s ∈ b.slots)
    (hNot : b.isBronze s = false) : s ∈ main := by
  rw [h.slots, List.mem_append] at hs
  rcases hs with hs | hs
  · exact hs
  · rw [h.isBronze_bronze hs] at hNot
    cases hNot

theorem mem_bronze (h : Laid b main bronze) {s : BracketSlot} (hs : s ∈ b.slots)
    (hIs : b.isBronze s = true) : s ∈ bronze := by
  rw [h.slots, List.mem_append] at hs
  rcases hs with hs | hs
  · rw [h.isBronze_main hs] at hIs
    cases hIs
  · exact hs

theorem outsideBronze_eq (h : Laid b main bronze) :
    b.outsideBronze = main.map BracketSlot.node := by
  have hMain : main.filter (fun s => !b.isBronze s) = main :=
    List.filter_eq_self.mpr fun s hs => by simp [h.isBronze_main hs]
  have hBronze : bronze.filter (fun s => !b.isBronze s) = [] :=
    List.filter_eq_nil_iff.mpr fun s hs => by simp [h.isBronze_bronze hs]
  rw [SingleElimBracket.outsideBronze, h.slots, List.filter_append, hMain, hBronze,
    List.append_nil]

theorem main_nodup (h : Laid b main bronze) :
    ((main.map BracketSlot.node).map Node.key).Nodup := by
  have hNodup := h.ordered.ranked.nodup
  rw [h.slots, List.map_append, List.map_append] at hNodup
  exact hNodup.of_append_left

theorem mem_map_ref {slots : List BracketSlot} {r : SlotRef} :
    r ∈ (slots.map BracketSlot.node).map Node.key ↔ r ∈ slots.map BracketSlot.ref := by
  rw [List.map_map]
  rfl

theorem reads_mem (h : Laid b main bronze) {s : BracketSlot} (hs : s ∈ main) {x : Source}
    (hx : x ∈ s.node.sides) {r : SlotRef} (hr : x.reads? = some r) :
    r ∈ main.map BracketSlot.ref := by
  have hMem := Flow.reads_mem h.advances (fun x hx => ?_)
    (List.mem_flatMap.mpr ⟨s.node, List.mem_map_of_mem hs, hx⟩) hr
  · rwa [List.map_map] at hMem
  · obtain ⟨n, -, rfl⟩ := List.mem_map.mp hx
    rfl

/-- Both semi-finals stand in the main slots of a bracket with a bronze bout. -/
theorem semiFinal_mem (h : Laid b main bronze) (hTwo : 2 ≤ b.rounds) {position : ℕ}
    (hPosition : position = 1 ∨ position = 2) :
    ⟨b.rounds - 1, position⟩ ∈ main.map BracketSlot.ref := by
  have hFinal := h.final_mem hTwo
  rcases hPosition with rfl | rfl
  · exact h.reads_mem hFinal List.mem_cons_self rfl
  · exact h.reads_mem hFinal (List.mem_cons_of_mem _ List.mem_cons_self) rfl

theorem sides_eq (h : Laid b main bronze) :
    b.sides = (main.map BracketSlot.node).flatMap Node.sides ++
      (bronze.map BracketSlot.node).flatMap Node.sides := by
  rw [SingleElimBracket.sides, SingleElimBracket.nodes, h.slots, List.map_append,
    List.flatMap_append]

theorem bronze_side (h : Laid b main bronze) {x : Source}
    (hx : x ∈ (bronze.map BracketSlot.node).flatMap Node.sides) :
    2 ≤ b.rounds ∧ ∃ position, (position = 1 ∨ position = 2) ∧
      x = .loserOf ⟨b.rounds - 1, position⟩ := by
  obtain ⟨node, hNode, hx⟩ := List.mem_flatMap.mp hx
  obtain ⟨s, hs, rfl⟩ := List.mem_map.mp hNode
  obtain ⟨hTwo, hEq⟩ := h.bronze_eq s hs
  rw [hEq] at hx
  refine ⟨hTwo, ?_⟩
  rcases List.mem_pair.mp hx with rfl | rfl
  · exact ⟨1, Or.inl rfl, rfl⟩
  · exact ⟨2, Or.inr rfl, rfl⟩

/-- The bronze bout takes in nothing but two losers. -/
theorem count_sides (h : Laid b main bronze) {x : Source} (hx : ∀ r, x ≠ .loserOf r) :
    b.sides.count x = ((main.map BracketSlot.node).flatMap Node.sides).count x := by
  rw [h.sides_eq, List.count_append, Nat.add_eq_left, List.count_eq_zero]
  intro hMem
  obtain ⟨-, position, -, hEq⟩ := h.bronze_side hMem
  exact hx _ hEq

/-! ### Every play -/

theorem played_main (h : Laid b main bronze) (homeWins : SlotRef → Bool) :
    Played homeWins (main.map BracketSlot.node) (b.played homeWins) := by
  intro node hNode
  refine h.ordered.played_all homeWins node ?_
  rw [SingleElimBracket.nodes, h.slots, List.map_append]
  exact List.mem_append_left _ hNode

/-- A fighter of the main slots has lost once if they wait as somebody's loser. -/
def lossesOf : Source → ℕ
  | .loserOf _ => 1
  | _ => 0

def HasLost (x : Source) (lost : List SlotRef) : Prop := lost.length = lossesOf x

theorem lossesOf_side (h : Laid b main bronze) {s : BracketSlot} (hs : s ∈ main) {x : Source}
    (hx : x ∈ s.node.sides) : lossesOf x = 0 := by
  cases x with
  | loserOf r => cases h.main_reads s hs _ hx r rfl
  | seed n => rfl
  | bye => rfl
  | winnerOf r => rfl

theorem fair (h : Laid b main bronze) (homeWins : SlotRef → Bool) :
    ∀ node ∈ main.map BracketSlot.node, Fair HasLost (homeWins node.key) node := by
  intro node hNode
  obtain ⟨s, hs, rfl⟩ := List.mem_map.mp hNode
  have hHome := h.lossesOf_side hs List.mem_cons_self
  have hAway := h.lossesOf_side hs (List.mem_cons_of_mem _ List.mem_cons_self)
  constructor
  · intro lost hLost
    rw [HasLost, Node.winnerFeed] at hLost
    rw [HasLost, hLost]
    split
    · exact hAway
    · split
      · exact hHome
      · exact hAway
  · intro lost hLost
    rw [HasLost, Node.loserFeed] at hLost
    rw [HasLost, List.length_append, hLost]
    split
    · rw [hAway]
      rfl
    · rw [hHome]
      rfl

/-- Every fighter ends as the winner of the final or as the loser of one main slot. -/
theorem seated (h : Laid b main bronze) (homeWins : SlotRef → Bool) :
    Seated HasLost (b.played homeWins) (List.range' 1 b.fighterCount)
        (lostAt (b.played homeWins) (main.map BracketSlot.node))
        ([.winnerOf ⟨b.rounds, 1⟩] ++ (main.map BracketSlot.node).flatMap Node.losers) ∧
      ∀ node ∈ main.map BracketSlot.node, ∀ x ∈ node.feeds,
        ∃ f ∈ List.range' 1 b.fighterCount, x.side (b.played homeWins) = some f := by
  have hStart : Seated HasLost (b.played homeWins) (List.range' 1 b.fighterCount) (fun _ => [])
      (seedFeeds 1 b.fighterCount) := by
    refine ⟨?_, ?_⟩
    · rw [seedFeeds, List.map_map]
      exact .refl _
    · intro x hx f _
      obtain ⟨n, -, rfl⟩ := List.mem_map.mp hx
      rfl
  have hRun := hStart.run (List.nodup_range' 1) h.advances (h.fair homeWins)
    (h.played_main homeWins)
  simpa only [List.nil_append] using hRun

theorem fighter (h : Laid b main bronze) (homeWins : SlotRef → Bool) {s : BracketSlot}
    (hs : s ∈ main) {x : Source} (hx : x ∈ s.node.sides) (hBye : x.isBye = false) :
    ∃ f ∈ List.range' 1 b.fighterCount, x.side (b.played homeWins) = some f :=
  (h.seated homeWins).2 s.node (List.mem_map_of_mem hs) x
    (List.mem_filter.mpr ⟨hx, by simp [hBye]⟩)

theorem filled (h : Laid b main bronze) (homeWins : SlotRef → Bool) {s : BracketSlot}
    (hs : s ∈ main) {x : Source} (hx : x ∈ s.node.sides) (hBye : x.isBye = false) :
    (x.side (b.played homeWins)).isSome := by
  obtain ⟨f, -, hf⟩ := h.fighter homeWins hs hx hBye
  rw [hf]
  rfl

/-- A bout that was fought has a loser. -/
theorem loser_of_fought (h : Laid b main bronze) (homeWins : SlotRef → Bool) {s : BracketSlot}
    (hs : s ∈ b.slots) (hFought : fought (b.played homeWins) s) :
    (b.played homeWins s.ref).loser.isSome := by
  obtain ⟨home, hHome⟩ := Option.isSome_iff_exists.mp (hFought s.homeSource List.mem_cons_self)
  obtain ⟨away, hAway⟩ := Option.isSome_iff_exists.mp
    (hFought s.awaySource (List.mem_cons_of_mem _ List.mem_cons_self))
  have hResult := h.ordered.played_all homeWins s.node (List.mem_map_of_mem hs)
  rw [Node.bout_two _ hHome hAway] at hResult
  change b.played homeWins s.ref = _ at hResult
  rw [hResult]
  split <;> rfl

theorem champion (h : Laid b main bronze) (homeWins : SlotRef → Bool) :
    ∃ champion ∈ List.range' 1 b.fighterCount,
      (b.played homeWins ⟨b.rounds, 1⟩).winner = some champion ∧
      ∀ f ∈ List.range' 1 b.fighterCount,
        lossesIn (b.played homeWins) (main.map BracketSlot.node) f =
          if f = champion then 0 else 1 := by
  have hSeated := (h.seated homeWins).1
  have hMem := hSeated.seats.mem_iff.mp (List.mem_map_of_mem List.mem_cons_self)
  obtain ⟨champion, hField, hWinner⟩ := List.mem_map.mp hMem
  refine ⟨champion, hField, hWinner.symm, fun f hf => ?_⟩
  obtain ⟨x, hx, hSide⟩ := List.mem_map.mp (hSeated.seats.mem_iff.mpr (List.mem_map_of_mem hf))
  rw [← length_lostAt, hSeated.allowed x hx f hSide]
  rcases List.mem_append.mp hx with hx | hx
  · rw [List.mem_singleton.mp hx] at hSide ⊢
    rw [if_pos (Option.some.inj (hSide.symm.trans hWinner.symm))]
    rfl
  · obtain ⟨node, -, rfl⟩ := eq_of_mem_losers hx
    have hNe : f ≠ champion := by
      rintro rfl
      have hEq := Seated.eq_of_side hSeated.seats List.nodup_range' (List.mem_append_right _ hx)
        List.mem_cons_self (hSide.trans hWinner)
      cases hEq
    rw [if_neg hNe]
    rfl

theorem final_slot (h : Laid b main bronze) : ∃ s ∈ main, s.ref = ⟨b.rounds, 1⟩ := by
  have hMem := h.advances.balance.mem_iff.mpr
    (List.mem_append_right _ (List.mem_append_left _ List.mem_cons_self))
  rcases List.mem_append.mp hMem with hMem | hMem
  · obtain ⟨n, -, hEq⟩ := List.mem_map.mp hMem
    cases hEq
  · obtain ⟨node, hNode, hKey⟩ := reads?_of_mem_produces hMem
    obtain ⟨s, hs, rfl⟩ := List.mem_map.mp hNode
    exact ⟨s, hs, (Option.some.inj hKey).symm⟩

theorem playLaw (h : Laid b main bronze) (homeWins : SlotRef → Bool) :
    PlayLaw b (b.played homeWins) where
  filled s hs hNot x hx hBye := h.filled homeWins (h.mem_main hs hNot) hx hBye
  bronze hSemis s hs hIs := by
    intro x hx
    have hSide := List.mem_flatMap.mpr
      ⟨s.node, List.mem_map_of_mem (h.mem_bronze hs hIs), hx⟩
    obtain ⟨hTwo, position, hPosition, rfl⟩ := h.bronze_side hSide
    obtain ⟨semi, hSemi, hRef⟩ := List.mem_map.mp (h.semiFinal_mem hTwo hPosition)
    have hSlot : semi ∈ b.slots := by
      rw [h.slots]
      exact List.mem_append_left _ hSemi
    have hRound : semi.round = b.rounds - 1 := congrArg SlotRef.round hRef
    have hIsSemi : b.isSemiFinal semi := by
      rw [SingleElimBracket.isSemiFinal, beq_iff_eq]
      omega
    have hLoser := h.loser_of_fought homeWins hSlot (hSemis semi hSlot hIsSemi)
    rwa [hRef] at hLoser
  champion := by
    obtain ⟨s, hs, hRef⟩ := h.final_slot
    obtain ⟨champion, hField, hWinner, hLosses⟩ := h.champion homeWins
    have hRound : s.round = b.rounds := congrArg SlotRef.round hRef
    have hPosition : s.position = 1 := congrArg SlotRef.position hRef
    refine ⟨s, ?_, ?_, champion, hField, ?_, ?_⟩
    · rw [h.slots]
      exact List.mem_append_left _ hs
    · simp [SingleElimBracket.isFinal, hRound, hPosition]
    · rw [hRef, hWinner]
    · rwa [h.outsideBronze_eq]

theorem lawful (h : Laid b main bronze) : BracketLaw b where
  seeds n hn := by
    have hFinal : (.seed n : Source) ∉
        [.winnerOf ⟨b.rounds, 1⟩] ++ (main.map BracketSlot.node).flatMap Node.losers := by
      intro hMem
      rcases List.mem_append.mp hMem with hMem | hMem
      · cases List.mem_singleton.mp hMem
      · obtain ⟨_, -, hEq⟩ := eq_of_mem_losers hMem
        cases hEq
    rw [h.count_sides (fun r hEq => by cases hEq), Flow.count_seed h.advances hFinal, seedFeeds]
    refine List.count_eq_one_of_mem ?_ (List.mem_map_of_mem hn)
    exact List.Nodup.map (fun _ _ hEq => by cases hEq; rfl) (List.nodup_range' 1)
  refs x hx r hr := by
    rw [h.slots, List.map_append]
    refine List.mem_append_left _ ?_
    rw [h.sides_eq, List.mem_append] at hx
    rcases hx with hx | hx
    · obtain ⟨node, hNode, hx⟩ := List.mem_flatMap.mp hx
      obtain ⟨s, hs, rfl⟩ := List.mem_map.mp hNode
      exact h.reads_mem hs hx hr
    · obtain ⟨hTwo, position, hPosition, rfl⟩ := h.bronze_side hx
      cases hr
      exact h.semiFinal_mem hTwo hPosition
  winners s hs hFinal hBronze := by
    rw [h.count_sides fun r hEq => by cases hEq]
    have hMain := h.mem_main hs hBronze
    have hKey : s.ref ∈ (main.map BracketSlot.node).map Node.key :=
      mem_map_ref.mpr (List.mem_map_of_mem hMain)
    rw [Flow.count_winnerOf h.advances h.main_nodup hKey, if_neg]
    · intro hMem
      have hRef : s.ref = ⟨b.rounds, 1⟩ := eq_of_winnerOf_mem hMem
      have hRound : s.round = b.rounds := congrArg SlotRef.round hRef
      have hPosition : s.position = 1 := congrArg SlotRef.position hRef
      simp [SingleElimBracket.isFinal, hRound, hPosition] at hFinal
    · intro hMem
      obtain ⟨n, -, hEq⟩ := List.mem_map.mp hMem
      cases hEq
  plays := h.playLaw

end Laid

theorem laid_default {fighterCount k m : ℕ} {b : SingleElimBracket}
    (hCount : b.fighterCount = fighterCount) (hRounds : b.rounds = k + 1)
    (hField : fighterCount = 2 ^ (k + 1) + m) (hFit : m ≤ 2 ^ (k + 1))
    (hSlots : b.slots = singleElimSlots false (decide (0 < m)) fighterCount (2 ^ (k + 1))
      (if 0 < m then 2 ^ (k + 1) - m else 0) m (k + 1)) : ∃ main bronze, Laid b main bronze :=
  ⟨_, _, laid_of_advances hCount hRounds hSlots (mainSlots_advances_default hField hFit)⟩

theorem laid_explicit {fighterCount k : ℕ} {b : SingleElimBracket}
    (hCount : b.fighterCount = fighterCount) (hRounds : b.rounds = k + 1)
    (hSize : fighterCount ≤ 2 ^ (k + 1)) (hHalf : 2 ^ k ≤ fighterCount)
    (hSlots : b.slots = singleElimSlots true false fighterCount (2 ^ (k + 1))
      (2 ^ (k + 1) - fighterCount) 0 (k + 1)) : ∃ main bronze, Laid b main bronze :=
  ⟨_, _, laid_of_advances hCount hRounds hSlots (mainSlots_advances_explicit hSize hHalf)⟩

/-! ## Two byes in one slot -/

/-- The last pair of the upper half: both its seeds are past the field. -/
theorem exists_two_byes {fighterCount k : ℕ} (hSmall : fighterCount < 2 ^ k) :
    ∃ pos ∈ List.range' 1 (2 ^ k), bracketSlot 1 pos .bye .bye ∈
      firstRoundSlots (2 ^ (k + 1))
        (seatSource true false fighterCount (2 ^ (k + 1) - fighterCount)) := by
  have hSeed : 2 ^ k ∈ seedsAfter k := by
    rw [(seedsAfter_perm k).mem_iff, List.mem_range'_1]
    omega
  have hPair : (2 ^ k, 2 ^ (k + 1) + 1 - 2 ^ k) ∈ buildSeedingOrder (2 ^ (k + 1)) := by
    rw [buildSeedingOrder_pow]
    exact List.mem_map_of_mem hSeed
  rw [← List.zipIdx_map_fst 1 (buildSeedingOrder (2 ^ (k + 1)))] at hPair
  obtain ⟨⟨pair, pos⟩, hEntry, hEq⟩ := List.mem_map.mp hPair
  have hBye : ∀ seed, 2 ^ k ≤ seed →
      seatSource true false fighterCount (2 ^ (k + 1) - fighterCount) seed = .bye := by
    intro seed hLe
    have hLt : fighterCount < seed := by omega
    simp [seatSource, hLt]
  refine ⟨pos, ?_, List.mem_map.mpr ⟨(pair, pos), hEntry, ?_⟩⟩
  · have hPosition := List.mem_map_of_mem (f := Prod.snd) hEntry
    rw [List.zipIdx_map_snd, buildSeedingOrder_pow, List.length_map, length_seedsAfter] at hPosition
    exact hPosition
  · obtain rfl : pair = (2 ^ k, 2 ^ (k + 1) + 1 - 2 ^ k) := hEq
    simp only [hBye _ (Nat.le_refl _)]
    rw [hBye _ (by rw [Nat.pow_succ]; omega)]

/-- Nobody comes out of such a slot, and the slot of round 2 that it feeds waits for ever. -/
theorem unfilled_of_small {fighterCount k : ℕ} {b : SingleElimBracket}
    (hTwo : 2 ≤ fighterCount) (hRounds : b.rounds = k + 1) (hSmall : fighterCount < 2 ^ k)
    (hSlots : b.slots = singleElimSlots true false fighterCount (2 ^ (k + 1))
      (2 ^ (k + 1) - fighterCount) 0 (k + 1)) (homeWins : SlotRef → Bool) :
    ∃ s ∈ b.slots, b.isBronze s = false ∧ ∃ x ∈ s.node.sides, x.isBye = false ∧
      x.side (b.played homeWins) = none := by
  obtain ⟨pos, hPos, hSlot⟩ := exists_two_byes hSmall
  have hk : 2 ≤ k := by
    by_contra hNot
    have hLe : 2 ^ k ≤ 2 ^ 1 := Nat.pow_le_pow_right (by decide) (by omega)
    omega
  have hOrdered : Ordered b.slots := hSlots ▸ ordered_singleElimSlots
  have hNode : (bracketSlot 1 pos .bye .bye).node ∈ b.nodes := by
    refine List.mem_map_of_mem ?_
    rw [hSlots, singleElimSlots]
    exact List.mem_append_left _ (List.mem_append_left _ (List.mem_append_right _ hSlot))
  have hNobody : b.played homeWins ⟨1, pos⟩ = ⟨none, none⟩ :=
    hOrdered.played_all homeWins _ hNode
  have hHalf : 2 ^ k = 2 ^ (k - 1) * 2 := by
    rw [← Nat.pow_succ]
    congr 1
    omega
  have hNext : (.winnerOf ⟨1, pos⟩ : Source) ∈ winnerFeeds 1 (2 ^ (k - 1) * 2) := by
    rw [← hHalf]
    exact List.mem_map_of_mem hPos
  rw [← flatMap_adjacent_winners] at hNext
  obtain ⟨next, hRange, hSide⟩ := List.mem_flatMap.mp hNext
  have hRound : bracketSlot 2 next (.winnerOf ⟨1, (next - 1) * 2 + 1⟩)
      (.winnerOf ⟨1, (next - 1) * 2 + 2⟩) ∈ b.slots := by
    rw [hSlots, singleElimSlots]
    refine List.mem_append_left _ (List.mem_append_right _ ?_)
    refine List.mem_flatMap.mpr ⟨2, List.mem_range'_1.mpr (by omega), ?_⟩
    have hCount : 2 ^ (k + 1) / 2 ^ 2 = 2 ^ (k - 1) := by
      rw [Nat.pow_div (by omega) (by decide)]
      rfl
    rw [hCount]
    exact List.mem_map_of_mem hRange
  refine ⟨_, hRound, ?_, _, hSide, rfl, ?_⟩
  · rw [SingleElimBracket.isBronze, hRounds, Bool.and_eq_false_iff]
    exact Or.inl (beq_eq_false_iff_ne.mpr (by simp only [bracketSlot]; omega))
  · rw [Feed.side_winnerOf, hNobody]

theorem not_lawful_of_small {fighterCount k : ℕ} {b : SingleElimBracket}
    (hTwo : 2 ≤ fighterCount) (hRounds : b.rounds = k + 1) (hSmall : fighterCount < 2 ^ k)
    (hSlots : b.slots = singleElimSlots true false fighterCount (2 ^ (k + 1))
      (2 ^ (k + 1) - fighterCount) 0 (k + 1)) : ¬ BracketLaw b := by
  intro hLaw
  obtain ⟨s, hs, hNotBronze, x, hx, hBye, hNobody⟩ :=
    unfilled_of_small hTwo hRounds hSmall hSlots fun _ => true
  have hFilled := (hLaw.plays fun _ => true).filled s hs hNotBronze x hx hBye
  rw [hNobody] at hFilled
  cases hFilled

/-- A bracket can be played to its end exactly when its explicit size, if any, is at most
twice the field. -/
theorem singleElimBracket_lawful_iff {fighterCount : ℕ} {size : Option ℕ} {b : SingleElimBracket}
    (h : singleElimBracket fighterCount size = .ok b) :
    BracketLaw b ↔ ∀ bracketSize, size = some bracketSize → bracketSize ≤ 2 * fighterCount := by
  obtain ⟨hTwo, hCount, k, hRounds, hMode⟩ := singleElimBracket_ok h
  rcases hMode with ⟨rfl, hLe, hSlots⟩ | ⟨rfl, m, hField, hFit, hSlots⟩
  · constructor
    · intro hLaw bracketSize hEq
      cases hEq
      by_contra hOver
      exact not_lawful_of_small hTwo hRounds (by rw [Nat.pow_succ] at hOver; omega) hSlots hLaw
    · intro hBound
      have hHalf := hBound _ rfl
      obtain ⟨main, bronze, hLaid⟩ := laid_explicit hCount hRounds hLe
        (by rw [Nat.pow_succ] at hHalf; omega) hSlots
      exact hLaid.lawful
  · constructor
    · intro _ bracketSize hEq
      cases hEq
    · intro _
      obtain ⟨main, bronze, hLaid⟩ := laid_default hCount hRounds hField hFit hSlots
      exact hLaid.lawful

/-- Thirteen fighters: a play-in of five bouts, and every play comes to its end. -/
theorem singleElimBracket_lawful_thirteen :
    ∃ b, singleElimBracket 13 none = .ok b ∧ BracketLaw b := by
  have hOk : (singleElimBracket 13 none).isOk = true := by decide +kernel
  cases h : singleElimBracket 13 none with
  | error message =>
    rw [h] at hOk
    cases hOk
  | ok b => exact ⟨b, rfl, (singleElimBracket_lawful_iff h).mpr fun _ hSize => by cases hSize⟩

/-- Two fighters in a bracket of eight: seeds 4 and 5 are both byes, so the slot that waits
for their winner is never filled. -/
theorem singleElimBracket_two_byes :
    ∃ b, singleElimBracket 2 (some 8) = .ok b ∧ ¬ BracketLaw b := by
  have hPlayed : (singleElimBracket 2 (some 8)).toOption.map (fun b =>
      (decide (bracketSlot 2 1 (.winnerOf ⟨1, 1⟩) (.winnerOf ⟨1, 2⟩) ∈ b.slots), b.rounds,
        (b.played (fun _ => true) ⟨1, 2⟩).winner)) = some (true, 3, none) := by
    decide +kernel
  cases h : singleElimBracket 2 (some 8) with
  | error message =>
    rw [h] at hPlayed
    cases hPlayed
  | ok b =>
    refine ⟨b, rfl, fun hLaw => ?_⟩
    rw [h] at hPlayed
    simp only [Except.toOption, Option.map_some, Option.some.injEq, Prod.mk.injEq,
      decide_eq_true_eq] at hPlayed
    obtain ⟨hSlot, hRounds, hNobody⟩ := hPlayed
    have hFilled := (hLaw.plays fun _ => true).filled _ hSlot
      (by simp [SingleElimBracket.isBronze, hRounds, bracketSlot]) (.winnerOf ⟨1, 2⟩)
      (by simp [Node.sides]) rfl
    rw [Feed.side_winnerOf, hNobody] at hFilled
    cases hFilled

end MyClash.Bracket
