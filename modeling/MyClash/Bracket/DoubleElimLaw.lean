import MyClash.Bracket.DoubleElimPlay

/-!
# The law of a double elimination

Every accepted bracket, over every assignment of outcomes: the references, the seeds, who
goes on and who does not, and how many losses put a fighter out.
-/

namespace MyClash.Bracket

open Knockout

namespace DoubleElimBracket

/-- `f` won a bout whose winner goes nowhere. -/
def Standing (b : DoubleElimBracket) (homeWins : MatchRef → Bool) (f : ℕ) : Prop :=
  ∃ n ∈ b.fought homeWins, (b.played homeWins n.key).winner = some f ∧
    .winnerOf n.key ∉ (b.fought homeWins).flatMap Node.sides

instance (b : DoubleElimBracket) (homeWins : MatchRef → Bool) (f : ℕ) :
    Decidable (b.Standing homeWins f) :=
  inferInstanceAs (Decidable (∃ n ∈ b.fought homeWins, _ ∧ _))

/-- The losses of `f`, first to last. -/
def losses (b : DoubleElimBracket) (homeWins : MatchRef → Bool) (f : ℕ) : List MatchRef :=
  lostAt (b.played homeWins) (b.fought homeWins) f

/-- The bouts that end the bronze mode: the winners-bracket final and the last round of the
losers bracket. -/
def EndsBronze (b : DoubleElimBracket) (s : DoubleElimSlot) : Prop :=
  b.secondChanceTarget = .bronze ∧ (s.round = b.wbRounds ∨ s.round = b.wbRounds + b.lbRounds)

/-- The loser of this bout goes on to a bout that comes to be fought. -/
def SentOn (b : DoubleElimBracket) (homeWins : MatchRef → Bool) (r : MatchRef) : Prop :=
  .loserOf r ∈ (b.fought homeWins).flatMap Node.sides

/-- A losers-bracket slot waits for a loser of the round of this bout. -/
def RoundFeedsLosers (b : DoubleElimBracket) : MatchRef → Prop
  | .wb round _ => ∃ s ∈ b.slots, s.slotSection = .LB ∧
      ∃ position, .loserOf (.wb round position) ∈ (b.node s).sides
  | _ => False

end DoubleElimBracket

/-- The law of a bracket, given which winners end it and after which bouts a loser has a
second chance. -/
structure DoubleElimLaw (b : DoubleElimBracket) (total : ℕ) (Ends : DoubleElimSlot → Prop)
    (SecondChance : (MatchRef → Bool) → MatchRef → Prop) : Prop where
  refs : ∀ x ∈ b.sides, ∀ r, x.reads? = some r → r ∈ b.slots.map b.selfRef
  seeds : ∀ n ∈ List.range' 1 b.fighterCount, b.sides.count (.seed n) = 1
  winners : ∀ s ∈ b.slots, s.slotSection = .WB ∨ s.slotSection = .LB →
    (¬ Ends s → b.sides.count (.winnerOf (b.selfRef s)) = 1) ∧
      (Ends s → b.sides.count (.winnerOf (b.selfRef s)) = 0)
  losers : ∀ s ∈ b.slots, s.slotSection = .WB → b.sides.count (.loserOf (b.selfRef s)) =
    if b.repechageEntryRound ≤ s.round ∧
      ¬ (b.secondChanceTarget = .bronze ∧ s.round = b.wbRounds) then 1 else 0
  filled : ∀ homeWins, ∀ n ∈ b.fought homeWins, ∀ x ∈ n.sides,
    (x.side (b.played homeWins)).isSome
  eliminated : ∀ homeWins, ∀ f ∈ List.range' 1 b.fighterCount, ¬ b.Standing homeWins f →
    ∃ first, (b.losses homeWins f).head? = some first ∧
      (SecondChance homeWins first → (b.losses homeWins f).length = 2) ∧
      (¬ SecondChance homeWins first → (b.losses homeWins f).length = 1)
  total_eq : b.slots.length = total

/-- The law with no winner left out and second chances from the losers bracket alone. -/
def StatedLaw (b : DoubleElimBracket) (total : ℕ) : Prop :=
  DoubleElimLaw b total (fun _ => False) fun _ => b.RoundFeedsLosers

namespace DoubleElim

/-! ## The nodes of the slots -/

section Nodes

variable {shape : DoubleElimShape} {fighterCount surplus depth : ℕ}

theorem selfRef_wb {b : DoubleElimBracket} {s : DoubleElimSlot} (h : s.round ≤ b.wbRounds) :
    b.selfRef s = .wb s.round s.position := if_pos h

theorem selfRef_lb {b : DoubleElimBracket} {s : DoubleElimSlot} {k : ℕ}
    (hRound : s.round = b.wbRounds + k) (hPos : 1 ≤ k) (hLe : k ≤ b.lbRounds) :
    b.selfRef s = .lb k s.position := by
  rw [DoubleElimBracket.selfRef, if_neg (by omega), if_pos (by omega), hRound,
    Nat.add_sub_cancel_left]

theorem playIn_nodes (b : DoubleElimBracket) (fighterCount byeSeedCount m : ℕ) :
    (buildPlayInSlots fighterCount byeSeedCount m).map b.node =
      ((playInSlots fighterCount byeSeedCount m).map BracketSlot.node).map (Node.map wbRef) := by
  rw [buildPlayInSlots, playInSlots, List.map_map, List.map_map, List.map_map]
  refine List.map_congr_left fun pos _ => ?_
  simp only [Function.comp_apply, DoubleElimBracket.node]
  rw [selfRef_wb (Nat.zero_le _)]
  rfl

theorem seatSource_map (playIn : Bool) (fighterCount byeSeedCount seed : ℕ) :
    (Bracket.seatSource false playIn fighterCount byeSeedCount seed).map wbRef =
      seatSource playIn byeSeedCount seed := by
  rw [Bracket.seatSource, seatSource, Bool.false_and, if_neg Bool.false_ne_true]
  split <;> rfl

theorem winners_nodes (b : DoubleElimBracket) (hRounds : 1 ≤ b.wbRounds)
    (fighterCount byeSeedCount size : ℕ) (playIn : Bool) :
    (buildWinnersSlots size byeSeedCount playIn b.wbRounds).map b.node =
      ((firstRoundSlots size (Bracket.seatSource false playIn fighterCount byeSeedCount) ++
        winnerSlots size b.wbRounds).map BracketSlot.node).map (Node.map wbRef) := by
  rw [buildWinnersSlots, firstRoundSlots, winnerSlots]
  simp only [List.map_append, List.map_map, List.map_flatMap]
  congr 1
  · refine List.map_congr_left fun entry _ => ?_
    simp only [Function.comp_apply, DoubleElimBracket.node]
    rw [selfRef_wb hRounds]
    simp only [node_bracketSlot, Node.map, seatSource_map]
    rfl
  · refine List.flatMap_congr fun round hRound => ?_
    have hLe := List.mem_range'_1.mp hRound
    refine List.map_congr_left fun pos _ => ?_
    simp only [Function.comp_apply, DoubleElimBracket.node]
    rw [selfRef_wb (by simp only [slot]; omega)]
    rfl

theorem losers_nodes (b : DoubleElimBracket) (J E : ℕ) :
    (buildLosersSlots (2 ^ J) E b.wbRounds b.lbRounds).map b.node = lbNodes J E b.lbRounds := by
  rw [buildLosersSlots, lbNodes, List.map_flatMap]
  refine List.flatMap_congr fun k hk => ?_
  have hLe := List.mem_range'_1.mp hk
  rw [lbRoundNodes, List.map_map]
  refine List.map_congr_left fun pos _ => ?_
  simp only [Function.comp_apply, DoubleElimBracket.node]
  rw [selfRef_lb (k := k) rfl hLe.1 (by omega)]
  rfl

theorem finals_nodes (b : DoubleElimBracket) (reset : Bool) (target : SecondChanceTarget) :
    (buildFinalsSlots b.wbRounds b.lbRounds reset target).map b.node =
      finalsNodes b.wbRounds b.lbRounds reset target := by
  cases target with
  | bronze => rfl
  | gold =>
    have hGf : ∀ home away, b.selfRef (slot (b.wbRounds + b.lbRounds + 1) 1 .GF home away) =
        .gf := by
      intro home away
      rw [DoubleElimBracket.selfRef, if_neg (by simp only [slot]; omega),
        if_neg (by simp only [slot]; omega)]
      exact if_pos rfl
    have hReset : ∀ home away,
        b.selfRef (slot (b.wbRounds + b.lbRounds + 1 + 1) 1 .RESET home away) = .gfReset := by
      intro home away
      rw [DoubleElimBracket.selfRef, if_neg (by simp only [slot]; omega),
        if_neg (by simp only [slot]; omega), if_neg (by simp only [slot]; omega)]
    rw [buildFinalsSlots, finalsNodes, List.map_cons, DoubleElimBracket.node, hGf]
    cases reset with
    | false => rfl
    | true =>
      simp only [if_true, List.map_cons, List.map_nil, DoubleElimBracket.node, hReset]
      rfl

theorem Sized.nodes (h : Sized shape fighterCount surplus depth) :
    (ofShape shape).nodes = allNodes fighterCount shape.wbRounds surplus depth
      shape.repechageEntryRound shape.lbRounds shape.grandFinalReset
      shape.secondChanceTarget := by
  have hPlayIn := playIn_nodes (ofShape shape) fighterCount shape.byeSeedCount surplus
  have hWinners : (buildWinnersSlots (2 ^ shape.wbRounds) shape.byeSeedCount shape.hasPlayInRound
      shape.wbRounds).map (ofShape shape).node = _ :=
    winners_nodes (ofShape shape) h.rounds_pos fighterCount _ _ _
  have hLosers : (buildLosersSlots (2 ^ depth) shape.repechageEntryRound shape.wbRounds
      shape.lbRounds).map (ofShape shape).node = _ :=
    losers_nodes (ofShape shape) depth shape.repechageEntryRound
  have hFinals : (buildFinalsSlots shape.wbRounds shape.lbRounds shape.grandFinalReset
      shape.secondChanceTarget).map (ofShape shape).node = _ :=
    finals_nodes (ofShape shape) shape.grandFinalReset shape.secondChanceTarget
  have hSlots : (ofShape shape).slots = buildPlayInSlots fighterCount shape.byeSeedCount surplus ++
      buildWinnersSlots (2 ^ shape.wbRounds) shape.byeSeedCount shape.hasPlayInRound
        shape.wbRounds ++
      buildLosersSlots (2 ^ depth) shape.repechageEntryRound shape.wbRounds shape.lbRounds ++
      buildFinalsSlots shape.wbRounds shape.lbRounds shape.grandFinalReset
        shape.secondChanceTarget := by
    rw [ofShape, h.fighters, h.playIn, h.size, h.entrySize]
  rw [DoubleElimBracket.nodes, hSlots, List.map_append, List.map_append, List.map_append, hPlayIn,
    hWinners, hLosers, hFinals, allNodes, wbNodes, mainSlots, h.byeSeeds, h.hasPlayIn]
  simp only [List.map_append, List.append_assoc]
  rfl

theorem Sized.ladder (h : Sized shape fighterCount surplus depth) :
    Ladder shape.wbRounds depth shape.repechageEntryRound shape.lbRounds
      shape.secondChanceTarget where
  rounds_pos := h.rounds_pos
  depth_pos := h.depth_pos
  depth_le := h.depth_le
  entry := h.entryRound
  gold := h.gold
  bronze hBronze := by
    obtain ⟨-, hLb⟩ := h.bronze hBronze
    split at hLb <;> omega

theorem mem_slots {s : DoubleElimSlot} (hRounds : 1 ≤ shape.wbRounds)
    (hs : s ∈ (ofShape shape).slots) :
    (s.slotSection = .WB → s.round ≤ shape.wbRounds) ∧
      (s.slotSection = .LB → ∃ k, 1 ≤ k ∧ k ≤ shape.lbRounds ∧ s.round = shape.wbRounds + k) := by
  rw [ofShape] at hs
  simp only [List.mem_append] at hs
  rcases hs with ((hs | hs) | hs) | hs
  · obtain ⟨pos, -, rfl⟩ := List.mem_map.mp hs
    exact ⟨fun _ => Nat.zero_le _, fun h => by cases h⟩
  · rcases List.mem_append.mp hs with hs | hs
    · obtain ⟨entry, -, rfl⟩ := List.mem_map.mp hs
      exact ⟨fun _ => hRounds, fun h => by cases h⟩
    · obtain ⟨round, hRound, hs⟩ := List.mem_flatMap.mp hs
      obtain ⟨pos, -, rfl⟩ := List.mem_map.mp hs
      have hLe := List.mem_range'_1.mp hRound
      exact ⟨fun _ => by simp only [slot]; omega, fun h => by cases h⟩
  · obtain ⟨k, hk, hs⟩ := List.mem_flatMap.mp hs
    obtain ⟨pos, -, rfl⟩ := List.mem_map.mp hs
    have hLe := List.mem_range'_1.mp hk
    exact ⟨by rintro ⟨⟩, fun _ => ⟨k, hLe.1, by omega, rfl⟩⟩
  · cases hTarget : shape.secondChanceTarget with
    | bronze =>
      rw [hTarget] at hs
      cases hs
    | gold =>
      rw [hTarget, buildFinalsSlots] at hs
      rcases List.mem_cons.mp hs with rfl | hs
      · exact ⟨by rintro ⟨⟩, by rintro ⟨⟩⟩
      · split at hs
        · rw [List.mem_singleton.mp hs]
          exact ⟨by rintro ⟨⟩, by rintro ⟨⟩⟩
        · cases hs

/-- The bouts that come to be fought are those of a bracket without the reset it skips. -/
theorem Sized.fought (h : Sized shape fighterCount surplus depth) (homeWins : MatchRef → Bool) :
    (ofShape shape).fought homeWins = allNodes fighterCount shape.wbRounds surplus depth
      shape.repechageEntryRound shape.lbRounds (shape.grandFinalReset && !homeWins .gf)
      shape.secondChanceTarget := by
  rw [DoubleElimBracket.fought, h.nodes]
  change (if shape.grandFinalReset && homeWins .gf then _ else _) = _
  cases hReset : shape.grandFinalReset with
  | false => rfl
  | true =>
    cases homeWins .gf with
    | false => rfl
    | true =>
      have hKept : ∀ n ∈ wbNodes fighterCount shape.wbRounds surplus ++
          lbNodes depth shape.repechageEntryRound shape.lbRounds, (n.key != .gfReset) = true := by
        intro n hn
        rcases List.mem_append.mp hn with hn | hn
        · obtain ⟨round, position, hKey, -⟩ := wb_rank_le h.rounds_pos hn
          rw [hKey]
          rfl
        · obtain ⟨k, position, -, -, rfl⟩ := mem_lbNodes hn
          rfl
      simp only [Bool.and_self, if_true, Bool.not_true, Bool.and_false]
      rw [allNodes, List.filter_append, List.filter_eq_self.mpr hKept, allNodes]
      cases shape.secondChanceTarget <;> rfl

/-! ## The law -/

theorem mem_map_selfRef {b : DoubleElimBracket} {r : MatchRef} :
    r ∈ b.nodes.map Node.key ↔ r ∈ b.slots.map b.selfRef := by
  rw [DoubleElimBracket.nodes, List.map_map]
  rfl

section Law

variable (h : Sized shape fighterCount surplus depth)

include h

theorem Sized.flow : Flow ((List.range' 1 fighterCount).map Feed.seed) (ofShape shape).nodes
    (ending shape.wbRounds depth shape.lbRounds shape.grandFinalReset shape.secondChanceTarget ++
      outright shape.wbRounds surplus depth shape.repechageEntryRound shape.lbRounds) := by
  rw [h.nodes]
  exact h.ladder.flow h.field h.fits _

theorem Sized.key_mem {s : DoubleElimSlot} (hs : s ∈ (ofShape shape).slots) :
    (ofShape shape).selfRef s ∈ (allNodes fighterCount shape.wbRounds surplus depth
      shape.repechageEntryRound shape.lbRounds shape.grandFinalReset
      shape.secondChanceTarget).map Node.key := by
  rw [← h.nodes, mem_map_selfRef]
  exact List.mem_map_of_mem hs

/-- The slot of the winners-bracket final is the only one of its round. -/
theorem Sized.position_of_last {s : DoubleElimSlot} (hs : s ∈ (ofShape shape).slots)
    (hLast : s.round = shape.wbRounds) : s.position = 1 := by
  have hKey := h.key_mem hs
  rw [selfRef_wb (Nat.le_of_eq hLast)] at hKey
  obtain ⟨n, hn, hEq⟩ := List.mem_map.mp hKey
  obtain ⟨k, hk⟩ : ∃ k, shape.wbRounds = k + 1 := ⟨shape.wbRounds - 1, by
    have hPos := h.rounds_pos
    omega⟩
  rcases List.mem_append.mp hn with hn | hn
  · rcases List.mem_append.mp hn with hn | hn
    · obtain ⟨node, hNode, rfl⟩ := List.mem_map.mp hn
      obtain ⟨m, hm, rfl⟩ := List.mem_map.mp hNode
      rw [hk] at hm
      have hRound := mainSlots_round hm
      change MatchRef.wb m.round m.position = .wb s.round s.position at hEq
      injection hEq with hSame hPosition
      omega
    · obtain ⟨k, position, -, -, rfl⟩ := mem_lbNodes hn
      cases hEq
  · obtain ⟨-, rfl | ⟨-, rfl⟩⟩ := mem_finalsNodes hn <;> cases hEq

theorem Sized.refs : ∀ x ∈ (ofShape shape).sides, ∀ r, x.reads? = some r →
    r ∈ (ofShape shape).slots.map (ofShape shape).selfRef := by
  intro x hx r hr
  refine mem_map_selfRef.mp (h.flow.reads_mem (fun x hx => ?_) hx hr)
  obtain ⟨n, -, rfl⟩ := List.mem_map.mp hx
  rfl

theorem Sized.seeds : ∀ n ∈ List.range' 1 (ofShape shape).fighterCount,
    (ofShape shape).sides.count (.seed n) = 1 := by
  intro n hn
  have hFighters : (ofShape shape).fighterCount = fighterCount := h.fighters
  rw [hFighters] at hn
  rw [DoubleElimBracket.sides, h.flow.count_seed fun hMem => ?_]
  · refine List.count_eq_one_of_mem ?_ (List.mem_map_of_mem hn)
    exact List.Nodup.map (fun _ _ hEq => by cases hEq; rfl) (List.nodup_range' 1)
  · exact absurd (mem_final h.ladder.entry_pos hMem) (by simp)

/-- The winners that nobody waits for in the bronze mode. -/
theorem Sized.winnerOf_mem_ending {s : DoubleElimSlot} (hs : s ∈ (ofShape shape).slots)
    (hSection : s.slotSection = .WB ∨ s.slotSection = .LB) :
    .winnerOf ((ofShape shape).selfRef s) ∈ ending shape.wbRounds depth shape.lbRounds
      shape.grandFinalReset shape.secondChanceTarget ↔ (ofShape shape).EndsBronze s := by
  have hKey := h.key_mem hs
  have hSlot := mem_slots h.rounds_pos hs
  have hEnds : (ofShape shape).EndsBronze s ↔ shape.secondChanceTarget = .bronze ∧
      (s.round = shape.wbRounds ∨ s.round = shape.wbRounds + shape.lbRounds) := Iff.rfl
  rw [hEnds]
  rcases hSection with hWb | hLb
  · have hRound := hSlot.1 hWb
    rw [selfRef_wb hRound, winnerOf_wb_mem_ending]
    constructor
    · exact fun ⟨hBronze, hLast, _⟩ => ⟨hBronze, Or.inl hLast⟩
    · rintro ⟨hBronze, hRound'⟩
      have hLb := h.ladder.bronze hBronze
      have hLast : s.round = shape.wbRounds := by omega
      exact ⟨hBronze, hLast, h.position_of_last hs hLast⟩
  · obtain ⟨k, hPos, hLe, hRound⟩ := hSlot.2 hLb
    have hRef : (ofShape shape).selfRef s = .lb k s.position := selfRef_lb hRound hPos hLe
    rw [hRef] at hKey ⊢
    rw [winnerOf_lb_mem_ending]
    constructor
    · rintro ⟨hBronze, rfl, -⟩
      exact ⟨hBronze, Or.inr hRound⟩
    · rintro ⟨hBronze, hRound'⟩
      exact ⟨hBronze, by omega, lb_key_mem h.rounds_pos hKey⟩

theorem Sized.winners : ∀ s ∈ (ofShape shape).slots,
    s.slotSection = .WB ∨ s.slotSection = .LB →
    (¬ (ofShape shape).EndsBronze s →
        (ofShape shape).sides.count (.winnerOf ((ofShape shape).selfRef s)) = 1) ∧
      ((ofShape shape).EndsBronze s →
        (ofShape shape).sides.count (.winnerOf ((ofShape shape).selfRef s)) = 0) := by
  intro s hs hSection
  have hIff := h.winnerOf_mem_ending hs hSection
  rw [DoubleElimBracket.sides, h.nodes, h.ladder.count_winnerOf h.field h.fits (h.key_mem hs)]
  exact ⟨fun hNot => if_neg fun hMem => hNot (hIff.mp hMem), fun hEnds => if_pos (hIff.mpr hEnds)⟩

theorem Sized.losers : ∀ s ∈ (ofShape shape).slots, s.slotSection = .WB →
    (ofShape shape).sides.count (.loserOf ((ofShape shape).selfRef s)) =
      if (ofShape shape).repechageEntryRound ≤ s.round ∧
        ¬ ((ofShape shape).secondChanceTarget = .bronze ∧ s.round = (ofShape shape).wbRounds)
      then 1 else 0 := by
  intro s hs hSection
  have hKey := h.key_mem hs
  have hRound : s.round ≤ shape.wbRounds := (mem_slots h.rounds_pos hs).1 hSection
  rw [DoubleElimBracket.sides, h.nodes, h.ladder.count_loserOf h.field h.fits hKey]
  rw [selfRef_wb hRound] at hKey ⊢
  change _ = if shape.repechageEntryRound ≤ s.round ∧
    ¬ (shape.secondChanceTarget = .bronze ∧ s.round = shape.wbRounds) then 1 else 0
  have hFinal : .loserOf (.wb s.round s.position) ∈ ending shape.wbRounds depth shape.lbRounds
      shape.grandFinalReset shape.secondChanceTarget ++ outright shape.wbRounds surplus depth
        shape.repechageEntryRound shape.lbRounds ↔ _ :=
    loserOf_wb_mem_final h.ladder (wb_key_mem hKey)
  -- the last round taken in is the final's, or in the bronze mode the one before it
  have hTaken : (shape.repechageEntryRound ≤ s.round ∧
      s.round ≤ shape.repechageEntryRound + shape.lbRounds / 2) ↔
        shape.repechageEntryRound ≤ s.round ∧
          ¬ (shape.secondChanceTarget = .bronze ∧ s.round = shape.wbRounds) := by
    have hPos := h.rounds_pos
    rw [h.ladder.last_eq]
    cases shape.secondChanceTarget
    · simp [hRound]
    · simp only [reduceCtorEq, if_false, true_and]
      omega
  by_cases hSent : shape.repechageEntryRound ≤ s.round ∧
      s.round ≤ shape.repechageEntryRound + shape.lbRounds / 2
  · rw [if_neg fun hMem => hFinal.mp hMem hSent, if_pos (hTaken.mp hSent)]
  · rw [if_pos (hFinal.mpr hSent), if_neg fun hIn => hSent (hTaken.mpr hIn)]

theorem Sized.played (homeWins : MatchRef → Bool) :
    Played homeWins (allNodes fighterCount shape.wbRounds surplus depth
      shape.repechageEntryRound shape.lbRounds (shape.grandFinalReset && !homeWins .gf)
      shape.secondChanceTarget) ((ofShape shape).played homeWins) := by
  rw [DoubleElimBracket.played, h.fought]
  exact (h.ladder.ranked _ _ _).played homeWins noResults

omit h in
theorem reset_of_fought {reset homeWinsGf : Bool} (h : (reset && !homeWinsGf) = true) :
    homeWinsGf = false := by
  simp_all

theorem Sized.fighter (homeWins : MatchRef → Bool) {n : Node MatchRef}
    (hn : n ∈ (ofShape shape).fought homeWins) {x : MatchSource} (hx : x ∈ n.sides) :
    ∃ f ∈ List.range' 1 fighterCount, x.side ((ofShape shape).played homeWins) = some f := by
  rw [h.fought] at hn
  obtain ⟨hHome, hAway⟩ := allNodes_noBye n hn
  refine (h.ladder.seated h.field h.fits reset_of_fought (h.played homeWins)).2 n hn x ?_
  rcases List.mem_pair.mp hx with rfl | rfl
  · simp [Node.feeds, Node.sides, hHome]
  · simp [Node.feeds, Node.sides, hAway]

theorem Sized.filled (homeWins : MatchRef → Bool) :
    ∀ n ∈ (ofShape shape).fought homeWins, ∀ x ∈ n.sides,
      (x.side ((ofShape shape).played homeWins)).isSome := by
  intro n hn x hx
  obtain ⟨f, -, hf⟩ := h.fighter homeWins hn hx
  rw [hf]
  rfl

theorem Sized.eliminated (homeWins : MatchRef → Bool) :
    ∀ f ∈ List.range' 1 (ofShape shape).fighterCount, ¬ (ofShape shape).Standing homeWins f →
      OutAfter ((ofShape shape).fought homeWins) ((ofShape shape).losses homeWins f) := by
  intro f hf hOut
  have hFighters : (ofShape shape).fighterCount = fighterCount := h.fighters
  rw [hFighters] at hf
  rw [DoubleElimBracket.Standing, h.fought] at hOut
  rw [DoubleElimBracket.losses, h.fought]
  exact h.ladder.eliminated h.field h.fits reset_of_fought (h.played homeWins) hf hOut

theorem Sized.length : (ofShape shape).slots.length =
    shape.playInMatchCount + (shape.bracketSize - 1) +
      (shape.repechageEntrySize - 2 -
        (if shape.secondChanceTarget = .bronze then (if shape.bronzeMatch then 1 else 2) else 0)) +
      (if shape.secondChanceTarget = .bronze then 0
        else 1 + (if shape.grandFinalReset then 1 else 0)) := by
  have hNodes := congrArg List.length h.nodes
  rw [DoubleElimBracket.nodes, List.length_map, allNodes, List.length_append,
    List.length_append] at hNodes
  have hWinners := length_wbNodes h.rounds_pos h.field h.fits
  have hLosers := h.ladder.length_lbNodes
  rw [h.ladder.last_eq] at hLosers
  have hField := h.field
  rw [hNodes, h.playIn, h.size, h.entrySize]
  have hPos := h.rounds_pos
  have hSize := Nat.two_pow_pos shape.wbRounds
  cases hTarget : shape.secondChanceTarget with
  | gold =>
    rw [hTarget] at hLosers
    simp only [if_true, Nat.sub_self, Nat.pow_zero, survivors, List.length_singleton] at hLosers
    cases shape.grandFinalReset <;> simp [finalsNodes] <;> omega
  | bronze =>
    obtain ⟨-, hLb⟩ := h.bronze hTarget
    rw [hTarget] at hLosers
    simp only [reduceCtorEq, if_false, survivors, lbWinners, List.length_map,
      List.length_range'] at hLosers
    rw [show shape.wbRounds - (shape.wbRounds - 1) = 1 by omega] at hLosers
    cases hMatch : shape.bronzeMatch
    · rw [hMatch] at hLb
      obtain ⟨hDepth, hLb⟩ := hLb
      have hCount : lbCount depth shape.lbRounds = 2 := by
        rw [lbCount_eq (by omega) (by omega), hLb,
          show depth - 2 - (2 * (depth - 1) - 2 - 1) / 2 = 1 by omega, Nat.pow_one]
      rw [hCount] at hLosers
      simp only [finalsNodes, List.length_nil, Bool.false_eq_true, if_false, if_true]
      omega
    · rw [hMatch] at hLb
      obtain ⟨hDepth, hLb⟩ := hLb
      have hCount : lbCount depth shape.lbRounds = 1 := by
        rw [lbCount_eq (by omega) (by omega), hLb,
          show depth - 2 - (2 * (depth - 1) - 1 - 1) / 2 = 0 by omega, Nat.pow_zero]
      rw [hCount] at hLosers
      simp only [finalsNodes, List.length_nil, if_true]
      omega

end Law

end Nodes

end DoubleElim

/-- Every accepted bracket is lawful: the bronze mode ends in its final and its last
losers-bracket round, and a fighter has a second chance when their loss sends them on to a
bout that comes to be fought. -/
theorem doubleElimBracket_lawful {fighterCount : ℕ} {options : DoubleElimOptions}
    {b : DoubleElimBracket} (h : doubleElimBracket fighterCount options = .ok b) :
    ∃ total, totalDoubleElimMatches fighterCount options = .ok total ∧
      DoubleElimLaw b total b.EndsBronze b.SentOn := by
  rw [doubleElimBracket] at h
  cases hShape : DoubleElim.resolveDoubleElimShape fighterCount options with
  | error message =>
    rw [hShape] at h
    cases h
  | ok shape =>
    rw [hShape] at h
    cases h
    obtain ⟨surplus, depth, hSized⟩ := DoubleElim.resolveDoubleElimShape_sized hShape
    rw [totalDoubleElimMatches, hShape]
    exact ⟨_, rfl, hSized.refs, hSized.seeds, hSized.winners, hSized.losers, hSized.filled,
      hSized.eliminated, hSized.length⟩

/-- Eight fighters in the classical bracket. -/
theorem doubleElimBracket_lawful_eight : ∃ b, doubleElimBracket 8 {} = .ok b ∧
    ∃ total, totalDoubleElimMatches 8 {} = .ok total ∧
      DoubleElimLaw b total b.EndsBronze b.SentOn := by
  have hOk : (doubleElimBracket 8 {}).isOk = true := by decide +kernel
  cases h : doubleElimBracket 8 {} with
  | error message =>
    rw [h] at hOk
    cases hOk
  | ok b => exact ⟨b, rfl, doubleElimBracket_lawful h⟩

theorem of_toOption_map {β : Type} {x : Except String DoubleElimBracket}
    {f : DoubleElimBracket → β} {v : β} (h : x.toOption.map f = some v) :
    ∃ b, x = .ok b ∧ f b = v := by
  cases x with
  | error message => cases h
  | ok b => exact ⟨b, rfl, Option.some.inj h⟩

/-- In the bronze mode nobody waits for the winner of the winners bracket; of two fighters
the loser of the first bout comes back without a losers bracket; and with a reset the
winners-bracket entrant is out after the grand final and the reset. -/
theorem doubleElimBracket_not_as_stated :
    (∃ b, doubleElimBracket 4 { secondChanceTarget := some .bronze } = .ok b ∧
      ∀ total, ¬ StatedLaw b total) ∧
    (∃ b, doubleElimBracket 2 {} = .ok b ∧ ∀ total, ¬ StatedLaw b total) ∧
    ∃ b, doubleElimBracket 4 { grandFinalReset := some true } = .ok b ∧
      ∀ total, ¬ StatedLaw b total := by
  refine ⟨?_, ?_, ?_⟩
  · have hRun : (doubleElimBracket 4 { secondChanceTarget := some .bronze }).toOption.map
        (fun b => b.slots.any fun s => s.slotSection == .WB &&
          b.sides.count (.winnerOf (b.selfRef s)) == 0) = some true := by
      decide +kernel
    obtain ⟨b, hOk, hAny⟩ := of_toOption_map hRun
    obtain ⟨s, hs, hSlot⟩ := List.any_eq_true.mp hAny
    rw [Bool.and_eq_true, beq_iff_eq, beq_iff_eq] at hSlot
    refine ⟨b, hOk, fun total hLaw => ?_⟩
    have hOne := (hLaw.winners s hs (Or.inl hSlot.1)).1 id
    rw [hSlot.2] at hOne
    cases hOne
  · have hRun : (doubleElimBracket 2 {}).toOption.map (fun b =>
        (b.fighterCount, decide (b.Standing (fun _ => true) 2), b.losses (fun _ => true) 2,
          b.slots.all fun s => s.slotSection != .LB)) =
        some (2, false, [.wb 1 1, .gf], true) := by
      decide +kernel
    obtain ⟨b, hOk, hEq⟩ := of_toOption_map hRun
    simp only [Prod.mk.injEq, decide_eq_false_iff_not] at hEq
    obtain ⟨hCount, hOut, hLosses, hNoLosers⟩ := hEq
    refine ⟨b, hOk, fun total hLaw => ?_⟩
    obtain ⟨first, hFirst, -, hOnce⟩ :=
      hLaw.eliminated (fun _ => true) 2 (by rw [hCount]; decide) hOut
    rw [hLosses] at hFirst hOnce
    cases hFirst
    have hOne := hOnce fun ⟨s, hs, hLb, _⟩ => by
      have hNot := List.all_eq_true.mp hNoLosers s hs
      rw [hLb] at hNot
      cases hNot
    cases hOne
  · have hRun : (doubleElimBracket 4 { grandFinalReset := some true }).toOption.map (fun b =>
        (b.fighterCount, decide (b.Standing (fun r => decide (r ≠ .gf ∧ r ≠ .gfReset)) 1),
          b.losses (fun r => decide (r ≠ .gf ∧ r ≠ .gfReset)) 1)) =
        some (4, false, [.gf, .gfReset]) := by
      decide +kernel
    obtain ⟨b, hOk, hEq⟩ := of_toOption_map hRun
    simp only [Prod.mk.injEq, decide_eq_false_iff_not] at hEq
    obtain ⟨hCount, hOut, hLosses⟩ := hEq
    refine ⟨b, hOk, fun total hLaw => ?_⟩
    obtain ⟨first, hFirst, -, hOnce⟩ :=
      hLaw.eliminated (fun r => decide (r ≠ .gf ∧ r ≠ .gfReset)) 1 (by rw [hCount]; decide) hOut
    rw [hLosses] at hFirst hOnce
    cases hFirst
    cases hOnce id

end MyClash.Bracket
