import MyClash.Bracket.SingleElimLaw
import MyClash.Library.Buckets
import MyClash.Swiss.Seeding

/-!
# Seeding the first round

Every strategy orders the entrants into ranks; rank K goes to the side labelled seed K. The plan
is compared again later, on the seeded sides alone.
-/

namespace MyClash.Bracket

open Knockout

universe u

/-! ## Ranks -/

/-- A rank as any integer: an operator's seed is one. -/
structure RankedRegistration (ι : Type u) where
  rank : ℤ
  registrationId : ι
  deriving DecidableEq

structure PoolRanking (ι : Type u) where
  poolId : String
  rows : List (Swiss.RankedRegistration ι)

section Ranks

variable {ι : Type u}

def ranked (rankings : List (Swiss.RankedRegistration ι)) : List (RankedRegistration ι) :=
  rankings.map fun r => ⟨r.rank, r.registrationId⟩

/-- The seed number is the rank, else the bib number, else the place in the list. -/
def rankBySeed (regs : List (Swiss.SeedableRegistration ι)) : List (RankedRegistration ι) :=
  regs.mapIdx fun idx reg => ⟨(reg.seed.or reg.bibNumber).getD (idx + 1), reg.id⟩

/-- Who came `place`-th in each pool, the pools in reverse for an even place. -/
def placedAt (pools : List (PoolRanking ι)) (place : ℕ) : List ι :=
  (if place % 2 = 1 then pools else pools.reverse).filterMap fun pool =>
    (pool.rows.find? fun row => row.rank = place).map (·.registrationId)

def buildCrossPoolSnakeRanking (pools : List (PoolRanking ι)) (topN : ℕ) :
    List (Swiss.RankedRegistration ι) :=
  Swiss.rankInOrder ((List.range' 1 topN).flatMap (placedAt pools))

end Ranks

/-! ## The plan -/

/-- The number of a source that reads `seed N`. -/
def parseSeed (ref : Option String) : Option ℕ :=
  match ref.map String.toList with
  | some ('s' :: 'e' :: 'e' :: 'd' :: ' ' :: digits) =>
    if digits ≠ [] ∧ digits.all Char.isDigit then some (Nat.ofDigitChars 10 digits 0) else none
  | _ => none

structure BracketR1Slot where
  id : SlotRef
  position : ℕ
  seedA : Option ℕ
  seedB : Option ℕ

structure SlotSeedUpdate (ι : Type u) where
  slotId : SlotRef
  registrationAId : Option ι
  registrationBId : Option ι

/-- A slot's row: its sources as texts, and who stands on its sides. -/
structure SlotRow (ι : Type u) where
  id : SlotRef
  sourceARef : String
  sourceBRef : String
  registrationAId : Option ι
  registrationBId : Option ι

section Plan

variable {ι : Type u}

/-- The last registration written under each rank. -/
def byRank (rankings : List (RankedRegistration ι)) : ℤ → Option ι :=
  rankings.foldl (fun m r => Function.update m r.rank (some r.registrationId)) fun _ => none

def buildR1SeedingPlan (rankings : List (RankedRegistration ι)) (slots : List BracketR1Slot) :
    List (SlotSeedUpdate ι) :=
  slots.map fun slot =>
    { slotId := slot.id
      registrationAId := slot.seedA.bind fun seed => byRank rankings seed
      registrationBId := slot.seedB.bind fun seed => byRank rankings seed }

def sourceRef (source : Source) : String := sourceText SlotRef.text source

/-- The rows of the play-in round and round 1, as generated. -/
def seedRows (b : SingleElimBracket) : List (SlotRow ι) :=
  (b.slots.filter fun s => s.round = 0 ∨ s.round = 1).map fun s =>
    ⟨s.ref, sourceRef s.homeSource, sourceRef s.awaySource, none, none⟩

def SlotRow.seedSlot (row : SlotRow ι) : BracketR1Slot :=
  ⟨row.id, row.id.position, parseSeed row.sourceARef, parseSeed row.sourceBRef⟩

variable [DecidableEq ι]

/-- The slots that no longer hold whom the plan would put there; an unseeded side is skipped. -/
def diffR1SeedingPlan (plan : List (SlotSeedUpdate ι)) (rows : List (SlotRow ι)) : List SlotRef :=
  plan.filterMap fun update =>
    (rows.reverse.find? fun row => row.id = update.slotId).bind fun row =>
      let aDrifted := row.seedSlot.seedA.isSome ∧ row.registrationAId ≠ update.registrationAId
      let bDrifted := row.seedSlot.seedB.isSome ∧ row.registrationBId ≠ update.registrationBId
      if aDrifted ∨ bDrifted then some update.slotId else none

omit [DecidableEq ι]

def SlotRow.write (row : SlotRow ι) (update : SlotSeedUpdate ι) : SlotRow ι :=
  if row.id = update.slotId then
    { row with
      registrationAId := update.registrationAId
      registrationBId := update.registrationBId }
  else row

def writePlan (rows : List (SlotRow ι)) (plan : List (SlotSeedUpdate ι)) : List (SlotRow ι) :=
  plan.foldl (fun rows update => rows.map fun row => row.write update) rows

/-- What a finished bout puts on an empty side: its winner, or its loser, as the source reads. -/
def advanceSide (source : String) (current : Option ι) (selfRef : String) (winner : ι)
    (loser : Option ι) : Option ι :=
  if current.isNone then
    if source = "winner of " ++ selfRef then some winner
    else if source = "loser of " ++ selfRef then loser
    else current
  else current

structure Finished (ι : Type u) where
  selfRef : String
  winner : ι
  loser : Option ι

def SlotRow.advance (row : SlotRow ι) (bout : Finished ι) : SlotRow ι :=
  { row with
    registrationAId :=
      advanceSide row.sourceARef row.registrationAId bout.selfRef bout.winner bout.loser
    registrationBId :=
      advanceSide row.sourceBRef row.registrationBId bout.selfRef bout.winner bout.loser }

def advanceFromSlot (rows : List (SlotRow ι)) (bout : Finished ι) : List (SlotRow ι) :=
  rows.map fun row => row.advance bout

end Plan

/-! ## Seeds in the texts -/

theorem parseSeed_seed (n : ℕ) : parseSeed (some ("seed " ++ toString n)) = some n := by
  have hChars : ("seed " ++ toString n).toList = ['s', 'e', 'e', 'd', ' '] ++ Nat.toDigits 10 n := by
    rw [String.toList_append, Nat.toString_eq_repr, Nat.toList_repr]
    rfl
  have hDigits : (Nat.toDigits 10 n).all Char.isDigit = true :=
    List.all_eq_true.mpr fun c hc => Nat.isDigit_of_mem_toDigits (by decide) (by decide) hc
  simp only [parseSeed, Option.map_some, hChars, List.cons_append, List.nil_append]
  rw [if_pos ⟨Nat.toDigits_ne_nil, hDigits⟩, Nat.ofDigitChars_ten_toDigits]

theorem parseSeed_of_head {c : Char} {s : String} (hc : c ≠ 's') (h : s.toList.head? = some c) :
    parseSeed (some s) = none := by
  rw [parseSeed, Option.map_some]
  split
  · rename_i hChars
    rw [Option.some.injEq] at hChars
    rw [hChars, List.head?_cons, Option.some.injEq] at h
    exact absurd h.symm hc
  · rfl

theorem parseSeed_sourceRef (source : Source) : parseSeed (some (sourceRef source)) = sourceSeed source := by
  cases source with
  | seed n => exact parseSeed_seed n
  | bye => rfl
  | winnerOf k =>
    refine @parseSeed_of_head 'w' _ (by decide) ?_
    simp [sourceRef, sourceText]
  | loserOf k =>
    refine @parseSeed_of_head 'l' _ (by decide) ?_
    simp [sourceRef, sourceText]

/-! ## The seeded sides of a bracket -/

def seedsOf (slots : List BracketSlot) : List ℕ :=
  (slots.flatMap fun s => s.node.sides).filterMap sourceSeed

theorem seedsOf_append (slots others : List BracketSlot) :
    seedsOf (slots ++ others) = seedsOf slots ++ seedsOf others := by
  rw [seedsOf, List.flatMap_append, List.filterMap_append]
  rfl

theorem filterMap_seedFeeds (start n : ℕ) :
    (seedFeeds start n).filterMap sourceSeed = List.range' start n := by
  rw [seedFeeds, List.filterMap_map]
  exact List.filterMap_some

theorem filterMap_winnerFeeds (round n : ℕ) : (winnerFeeds round n).filterMap sourceSeed = [] := by
  rw [winnerFeeds, List.filterMap_map]
  exact List.filterMap_eq_nil_iff.mpr fun _ _ => rfl

/-- A bye has no seed, so the seeds stand on the other sides. -/
theorem filterMap_not_bye (sources : List Source) :
    (sources.filter fun x => !x.isBye).filterMap sourceSeed = sources.filterMap sourceSeed := by
  rw [List.filterMap_filter]
  refine List.filterMap_congr fun x _ => ?_
  cases x <;> rfl

theorem seedsOf_playInSlots {fighterCount byeSeedCount m : ℕ}
    (hCount : fighterCount = byeSeedCount + m + m) :
    (seedsOf (playInSlots fighterCount byeSeedCount m)).Perm
      (List.range' (byeSeedCount + 1) (m + m)) := by
  have hSeeds : seedsOf (playInSlots fighterCount byeSeedCount m) =
      (List.range' 1 m).flatMap fun pos => [byeSeedCount + pos, fighterCount - pos + 1] := by
    rw [seedsOf, playInSlots, List.flatMap_map, List.filterMap_flatMap]
    rfl
  have hUp : (List.range' 1 m).map (byeSeedCount + ·) = List.range' (byeSeedCount + 1) m := by
    rw [List.map_add_range', Nat.add_comm]
  have hDown := map_countdown_perm (fun pos => fighterCount - pos + 1)
    (byeSeedCount + 1 + m) (n := m) (by omega)
  rw [hSeeds, ← List.range'_append_1]
  exact (flatMap_pair_perm _ _ _).trans ((List.Perm.of_eq hUp).append hDown)

theorem seedsOf_firstRoundSlots (k : ℕ) (seat : ℕ → Source) :
    (seedsOf (firstRoundSlots (2 ^ (k + 1)) seat)).Perm
      ((((List.range' 1 (2 ^ (k + 1))).map seat).filter fun x => !x.isBye).filterMap sourceSeed) := by
  have hSides : (firstRoundSlots (2 ^ (k + 1)) seat).flatMap (fun s => s.node.sides) =
      (buildSeedingOrder (2 ^ (k + 1))).flatMap fun pair => [seat pair.1, seat pair.2] := by
    rw [firstRoundSlots, List.flatMap_map]
    exact flatMap_zipIdx _ 1 fun pair : ℕ × ℕ => [seat pair.1, seat pair.2]
  rw [filterMap_not_bye, seedsOf, hSides]
  exact (flatMap_seats k seat).filterMap sourceSeed

/-- The slots of the play-in round and round 1 are the two blocks the generator writes first. -/
theorem filter_singleElimSlots (legacy playIn : Bool) (fighterCount byeSeedCount m k : ℕ) :
    (singleElimSlots legacy playIn fighterCount (2 ^ (k + 1)) byeSeedCount m (k + 1)).filter
        (fun s => s.round = 0 ∨ s.round = 1) =
      playInSlots fighterCount byeSeedCount m ++
        firstRoundSlots (2 ^ (k + 1)) (seatSource legacy playIn fighterCount byeSeedCount) := by
  have hPlayIn : (playInSlots fighterCount byeSeedCount m).filter
      (fun s => s.round = 0 ∨ s.round = 1) = playInSlots fighterCount byeSeedCount m := by
    refine List.filter_eq_self.mpr fun s hs => ?_
    obtain ⟨pos, -, rfl⟩ := List.mem_map.mp hs
    rfl
  have hFirst : ∀ seat, (firstRoundSlots (2 ^ (k + 1)) seat).filter
      (fun s => s.round = 0 ∨ s.round = 1) = firstRoundSlots (2 ^ (k + 1)) seat := by
    intro seat
    refine List.filter_eq_self.mpr fun s hs => ?_
    obtain ⟨entry, -, rfl⟩ := List.mem_map.mp hs
    rfl
  have hWinners : (winnerSlots (2 ^ (k + 1)) (k + 1)).filter
      (fun s => s.round = 0 ∨ s.round = 1) = [] := by
    refine List.filter_eq_nil_iff.mpr fun s hs => ?_
    obtain ⟨round, hRound, hs⟩ := List.mem_flatMap.mp hs
    obtain ⟨pos, -, rfl⟩ := List.mem_map.mp hs
    have hTwo := (List.mem_range'_1.mp hRound).1
    rw [decide_eq_true_eq]
    change ¬ (round = 0 ∨ round = 1)
    omega
  have hBronze : (bronzeSlots (2 ^ (k + 1)) (k + 1)).filter
      (fun s => s.round = 0 ∨ s.round = 1) = [] := by
    refine List.filter_eq_nil_iff.mpr fun s hs => ?_
    obtain ⟨hk, rfl⟩ := mem_bronzeSlots hs
    rw [decide_eq_true_eq]
    change ¬ (k + 1 = 0 ∨ k + 1 = 1)
    omega
  rw [singleElimSlots, List.filter_append, List.filter_append, List.filter_append, hPlayIn, hFirst,
    hWinners, hBronze, List.append_nil, List.append_nil]

/-- Each seed of the field stands on one seeded side of the play-in round or round 1. -/
theorem seedsOf_seedSlots {fighterCount : ℕ} {size : Option ℕ} {b : SingleElimBracket}
    (h : singleElimBracket fighterCount size = .ok b) :
    (seedsOf (b.slots.filter fun s => s.round = 0 ∨ s.round = 1)).Perm
      (List.range' 1 fighterCount) := by
  obtain ⟨-, -, k, -, ⟨-, hSize, hSlots⟩ | ⟨-, m, hCount, hFit, hSlots⟩⟩ := singleElimBracket_ok h
  · rw [hSlots, filter_singleElimSlots, seedsOf_append]
    refine (List.Perm.append (.of_eq rfl) (seedsOf_firstRoundSlots k _)).trans ?_
    rw [seats_explicit hSize, filterMap_seedFeeds]
    exact .refl _
  · rw [hSlots, filter_singleElimSlots, seedsOf_append]
    refine (List.Perm.append (.of_eq rfl) (seedsOf_firstRoundSlots k _)).trans ?_
    by_cases hm : 0 < m
    · have hField : fighterCount = (2 ^ (k + 1) - m) + m + m := by omega
      have hFull : 2 ^ (k + 1) = (2 ^ (k + 1) - m) + m := by omega
      rw [if_pos hm, decide_eq_true hm]
      nth_rewrite 3 [hFull]
      rw [seats_playIn, List.filterMap_append, filterMap_seedFeeds, filterMap_winnerFeeds,
        List.append_nil]
      refine (List.perm_append_comm.trans (.append (.refl _) (seedsOf_playInSlots hField))).trans ?_
      rw [Nat.add_comm (2 ^ (k + 1) - m) 1, List.range'_append_1]
      exact .of_eq (by rw [hField]; congr 1; omega)
    · have hZero : m = 0 := by omega
      subst hZero
      rw [if_neg hm, decide_eq_false hm, seats_full, filterMap_seedFeeds, hCount]
      exact .refl _

/-! ## Who is placed -/

section Placed

variable {ι : Type u} {rankings : List (RankedRegistration ι)} {r : RankedRegistration ι}

theorem foldl_byRank (m : ℤ → Option ι) (rank : ℤ) :
    rankings.foldl (fun (m : ℤ → Option ι) (r : RankedRegistration ι) =>
        Function.update m r.rank (some r.registrationId)) m rank =
      ((rankings.reverse.find? fun r => r.rank = rank).map (·.registrationId)).or (m rank) := by
  induction rankings generalizing m with
  | nil => rfl
  | cons first rest ih =>
    rw [List.foldl_cons, ih, List.reverse_cons, List.find?_append]
    cases rest.reverse.find? fun r => r.rank = rank with
    | some found => rfl
    | none =>
      by_cases hRank : first.rank = rank
      · simp [hRank]
      · simp [hRank, Function.update_of_ne (Ne.symm hRank)]

theorem byRank_eq_find (rank : ℤ) :
    byRank rankings rank =
      (rankings.reverse.find? fun r => r.rank = rank).map (·.registrationId) := by
  rw [byRank, foldl_byRank, Option.or_none]

theorem exists_of_byRank {rank : ℤ} {id : ι} (h : byRank rankings rank = some id) :
    ∃ r ∈ rankings, r.rank = rank ∧ r.registrationId = id := by
  rw [byRank_eq_find, Option.map_eq_some_iff] at h
  obtain ⟨r, hFind, hId⟩ := h
  have hRank := List.find?_some hFind
  exact ⟨r, List.mem_reverse.mp (List.mem_of_find?_eq_some hFind), by simpa using hRank, hId⟩

/-- A rank nobody else has holds its registration. -/
theorem byRank_of_unique (hr : r ∈ rankings) (hUnique : ∀ r' ∈ rankings, r'.rank = r.rank → r' = r) :
    byRank rankings r.rank = some r.registrationId := by
  rw [byRank_eq_find]
  cases hFind : rankings.reverse.find? fun r' => r'.rank = r.rank with
  | none =>
    have hNot := List.find?_eq_none.mp hFind r (List.mem_reverse.mpr hr)
    simp at hNot
  | some found =>
    have hRank := List.find?_some hFind
    have hMem := List.mem_reverse.mp (List.mem_of_find?_eq_some hFind)
    rw [hUnique found hMem (by simpa using hRank), Option.map_some]

theorem byRank_eq_some_iff (hIds : (rankings.map (·.registrationId)).Nodup) (hr : r ∈ rankings)
    (hUnique : ∀ r' ∈ rankings, r'.rank = r.rank → r' = r) (rank : ℤ) :
    byRank rankings rank = some r.registrationId ↔ rank = r.rank := by
  constructor
  · intro h
    obtain ⟨r', hMem, hRank, hId⟩ := exists_of_byRank h
    rw [← hRank, List.inj_on_of_nodup_map hIds hMem hr hId]
  · rintro rfl
    exact byRank_of_unique hr hUnique

/-- The plan of a bracket's seeded rows. -/
def planOf (b : SingleElimBracket) (rankings : List (RankedRegistration ι)) :
    List (SlotSeedUpdate ι) :=
  buildR1SeedingPlan rankings ((seedRows b : List (SlotRow ι)).map SlotRow.seedSlot)

variable [DecidableEq ι]

/-- How many slot sides the plan puts a registration on. -/
def sidesHolding (plan : List (SlotSeedUpdate ι)) (id : ι) : ℕ :=
  (plan.flatMap fun update => [update.registrationAId, update.registrationBId]).count (some id)

theorem sidesHolding_planOf {fighterCount : ℕ} {size : Option ℕ} {b : SingleElimBracket}
    (h : singleElimBracket fighterCount size = .ok b) (id : ι) :
    sidesHolding (planOf b rankings) id =
      (List.range' 1 fighterCount).countP fun (n : ℕ) => byRank rankings n = some id := by
  have hSides : (planOf b rankings).flatMap
      (fun update => [update.registrationAId, update.registrationBId]) =
      ((b.slots.filter fun s => s.round = 0 ∨ s.round = 1).flatMap fun s => s.node.sides).map
        fun source => (sourceSeed source).bind fun seed => byRank rankings seed := by
    rw [planOf, buildR1SeedingPlan, seedRows, List.map_map, List.map_map, List.flatMap_map,
      List.map_flatMap]
    refine List.flatMap_congr fun s _ => ?_
    simp only [Function.comp_apply, SlotRow.seedSlot, parseSeed_sourceRef]
    rfl
  rw [← (seedsOf_seedSlots h).countP_eq, seedsOf, List.countP_filterMap, sidesHolding, hSides,
    List.count, List.countP_map]
  refine List.countP_congr fun source _ => ?_
  cases hSeed : sourceSeed source with
  | none => simp [hSeed]
  | some n => simp [hSeed]

/-- An entrant whose rank nobody shares stands on the side labelled with it, if there is one. -/
theorem sidesHolding_of_unique {fighterCount : ℕ} {size : Option ℕ} {b : SingleElimBracket}
    (h : singleElimBracket fighterCount size = .ok b)
    (hIds : (rankings.map (·.registrationId)).Nodup) (hr : r ∈ rankings)
    (hUnique : ∀ r' ∈ rankings, r'.rank = r.rank → r' = r) :
    sidesHolding (planOf b rankings) r.registrationId =
      if 1 ≤ r.rank ∧ r.rank ≤ fighterCount then 1 else 0 := by
  rw [sidesHolding_planOf h]
  have hCount : (List.range' 1 fighterCount).countP
      (fun (n : ℕ) => byRank rankings n = some r.registrationId) =
      (List.range' 1 fighterCount).countP fun (n : ℕ) => (n : ℤ) = r.rank := by
    refine List.countP_congr fun n _ => ?_
    rw [decide_eq_true_eq, decide_eq_true_eq, byRank_eq_some_iff hIds hr hUnique]
  rw [hCount]
  split
  · rename_i hRange
    have hMem : r.rank.toNat ∈ List.range' 1 fighterCount := List.mem_range'_1.mpr (by omega)
    refine Eq.trans ?_ (List.count_eq_one_of_mem List.nodup_range' hMem)
    refine List.countP_congr fun n _ => ?_
    rw [decide_eq_true_eq, beq_iff_eq]
    omega
  · rename_i hRange
    refine List.countP_eq_zero.mpr fun n hn => ?_
    have hLe := List.mem_range'_1.mp hn
    rw [decide_eq_true_eq]
    omega

end Placed

/-! ## What each strategy ranks -/

section Strategies

theorem shuffleFrom_perm {α : Type*} (i : ℕ) (seed : UInt32) (pool : Array α) :
    (Swiss.shuffleFrom i seed pool).toList.Perm pool.toList := by
  induction i generalizing seed pool with
  | zero => exact .refl _
  | succ i ih =>
    rw [Swiss.shuffleFrom]
    refine (ih _ _).trans ?_
    rw [Array.swapIfInBounds]
    split
    · split
      · exact (Array.swap_perm _ _).toList
      · exact .refl _
    · exact .refl _

variable {ι : Type u} {b : SingleElimBracket} {fighterCount : ℕ} {size : Option ℕ}

theorem map_id_rankInOrder (ids : List ι) :
    (ranked (Swiss.rankInOrder ids)).map (·.registrationId) = ids := by
  refine List.ext_getElem (by simp [ranked, Swiss.rankInOrder]) fun i _ _ => ?_
  simp [ranked, Swiss.rankInOrder]

theorem mem_rankInOrder {ids : List ι} {r : RankedRegistration ι} :
    r ∈ ranked (Swiss.rankInOrder ids) ↔ ∃ i, ∃ h : i < ids.length, ⟨(i : ℤ) + 1, ids[i]⟩ = r := by
  rw [ranked, List.mem_map]
  constructor
  · rintro ⟨row, hRow, rfl⟩
    obtain ⟨i, hi, rfl⟩ := List.mem_mapIdx.mp hRow
    exact ⟨i, hi, by simp⟩
  · rintro ⟨i, hi, rfl⟩
    exact ⟨_, List.mem_mapIdx.mpr ⟨i, hi, rfl⟩, by simp⟩

variable [DecidableEq ι]

/-- Ranks counted off 1 to N put everybody on one side. -/
theorem sidesHolding_rankInOrder {ids : List ι} (h : singleElimBracket ids.length size = .ok b)
    (hIds : ids.Nodup) {id : ι} (hId : id ∈ ids) :
    sidesHolding (planOf b (ranked (Swiss.rankInOrder ids))) id = 1 := by
  obtain ⟨i, hi, rfl⟩ := List.mem_iff_getElem.mp hId
  have hMem : (⟨(i : ℤ) + 1, ids[i]⟩ : RankedRegistration ι) ∈ ranked (Swiss.rankInOrder ids) :=
    mem_rankInOrder.mpr ⟨i, hi, rfl⟩
  rw [sidesHolding_of_unique h (by rwa [map_id_rankInOrder]) hMem]
  · rw [if_pos (by dsimp only; omega)]
  · intro r' hr' hRank
    obtain ⟨j, hj, rfl⟩ := mem_rankInOrder.mp hr'
    obtain rfl : j = i := by
      dsimp only at hRank
      omega
    rfl

/-- Everyone who came in the first `topN` places of a pool, pool by pool. -/
def qualified (pools : List (PoolRanking ι)) (topN : ℕ) : List ι :=
  ((pools.flatMap (·.rows)).filter fun row => 1 ≤ row.rank ∧ row.rank ≤ topN).map
    (·.registrationId)

omit [DecidableEq ι]

theorem placedAt_perm {pools : List (PoolRanking ι)}
    (hRanks : ∀ pool ∈ pools, (pool.rows.map (·.rank)).Nodup) (place : ℕ) :
    (placedAt pools place).Perm
      (((pools.flatMap (·.rows)).filter fun row => row.rank = place).map (·.registrationId)) := by
  have hOrder : (if place % 2 = 1 then pools else pools.reverse).Perm pools := by
    split
    · exact .refl _
    · exact List.reverse_perm _
  refine (hOrder.filterMap _).trans (.of_eq ?_)
  rw [List.filter_flatMap, List.map_flatMap, List.filterMap_eq_flatMap_toList]
  refine List.flatMap_congr fun pool hPool => ?_
  rw [Buckets.filter_eq_toList_find? (fun row : Swiss.RankedRegistration ι => row.rank)
    (hRanks pool hPool)]
  exact Option.toList_map

theorem placed_perm {pools : List (PoolRanking ι)} {topN : ℕ}
    (hRanks : ∀ pool ∈ pools, (pool.rows.map (·.rank)).Nodup) :
    ((List.range' 1 topN).flatMap (placedAt pools)).Perm (qualified pools topN) := by
  let rows := (pools.flatMap (·.rows)).filter fun row => 1 ≤ row.rank ∧ row.rank ≤ topN
  have hPlaced : ∀ place ∈ List.range' 1 topN, (placedAt pools place).Perm
      ((rows.filter fun row => row.rank = place).map (·.registrationId)) := by
    intro place hPlace
    have hRange := List.mem_range'_1.mp hPlace
    refine (placedAt_perm hRanks place).trans (.of_eq ?_)
    rw [List.filter_filter]
    congr 1
    refine List.filter_congr fun row _ => ?_
    rw [← Bool.decide_and, decide_eq_decide]
    omega
  refine (List.Perm.flatMap_left _ hPlaced).trans ?_
  rw [← List.map_flatMap]
  refine (Buckets.flatMap_filter_perm (fun row : Swiss.RankedRegistration ι => row.rank)
    List.nodup_range' fun row hRow => ?_).map _
  have hRange := (List.mem_filter.mp hRow).2
  rw [decide_eq_true_eq] at hRange
  rw [List.mem_range'_1]
  omega

end Strategies

/-! ## The plan and the rows later on -/

section Drift

variable {ι : Type u}

/-- The seeded sides of a row are as the plan has them. -/
def SlotRow.Holds (row : SlotRow ι) (update : SlotSeedUpdate ι) : Prop :=
  (row.seedSlot.seedA.isSome → row.registrationAId = update.registrationAId) ∧
    (row.seedSlot.seedB.isSome → row.registrationBId = update.registrationBId)

theorem diffR1SeedingPlan_eq_nil [DecidableEq ι] {plan : List (SlotSeedUpdate ι)}
    {rows : List (SlotRow ι)}
    (h : ∀ row ∈ rows, ∀ update ∈ plan, row.id = update.slotId → row.Holds update) :
    diffR1SeedingPlan plan rows = [] := by
  refine List.filterMap_eq_nil_iff.mpr fun update hUpdate => ?_
  rw [Option.bind_eq_none_iff]
  intro row hFind
  have hId := List.find?_some hFind
  rw [decide_eq_true_eq] at hId
  obtain ⟨hA, hB⟩ :=
    h row (List.mem_reverse.mp (List.mem_of_find?_eq_some hFind)) update hUpdate hId
  rw [if_neg]
  rintro (⟨hSeed, hNe⟩ | ⟨hSeed, hNe⟩)
  · exact hNe (hA hSeed)
  · exact hNe (hB hSeed)

@[simp] theorem SlotRow.write_id (row : SlotRow ι) (update : SlotSeedUpdate ι) :
    (row.write update).id = row.id := by
  rw [SlotRow.write]
  split <;> rfl

@[simp] theorem SlotRow.write_seedSlot (row : SlotRow ι) (update : SlotSeedUpdate ι) :
    (row.write update).seedSlot = row.seedSlot := by
  rw [SlotRow.write]
  split <;> rfl

theorem writePlan_eq_map (rows : List (SlotRow ι)) (plan : List (SlotSeedUpdate ι)) :
    writePlan rows plan = rows.map fun row => plan.foldl SlotRow.write row := by
  induction plan generalizing rows with
  | nil => exact (List.map_id rows).symm
  | cons update plan ih =>
    rw [writePlan, List.foldl_cons]
    refine (ih _).trans ?_
    rw [List.map_map]
    rfl

theorem foldl_write_id (plan : List (SlotSeedUpdate ι)) (row : SlotRow ι) :
    (plan.foldl SlotRow.write row).id = row.id := by
  induction plan generalizing row with
  | nil => rfl
  | cons update plan ih => exact (ih _).trans (row.write_id update)

theorem foldl_write_of_ne {plan : List (SlotSeedUpdate ι)} {row : SlotRow ι}
    (h : ∀ update ∈ plan, row.id ≠ update.slotId) : plan.foldl SlotRow.write row = row := by
  induction plan with
  | nil => rfl
  | cons update plan ih =>
    rw [List.foldl_cons, SlotRow.write, if_neg (h update List.mem_cons_self)]
    exact ih fun later hLater => h later (List.mem_cons_of_mem _ hLater)

/-- The only update of a row is what it holds after all of them. -/
theorem holds_foldl_write {plan : List (SlotSeedUpdate ι)} (hPlan : (plan.map (·.slotId)).Nodup)
    {update : SlotSeedUpdate ι} (hUpdate : update ∈ plan) {row : SlotRow ι}
    (hId : row.id = update.slotId) : (plan.foldl SlotRow.write row).Holds update := by
  obtain ⟨before, after, rfl⟩ := List.append_of_mem hUpdate
  rw [List.map_append, List.map_cons] at hPlan
  have hFresh := (List.nodup_cons.mp hPlan.of_append_right).1
  have hWritten : (before.foldl SlotRow.write row).id = update.slotId :=
    (foldl_write_id before row).trans hId
  rw [List.foldl_append, List.foldl_cons, foldl_write_of_ne]
  · rw [SlotRow.write, if_pos hWritten]
    exact ⟨fun _ => rfl, fun _ => rfl⟩
  · intro later hLater hEq
    rw [SlotRow.write_id, hWritten] at hEq
    exact hFresh (List.mem_map.mpr ⟨later, hLater, hEq.symm⟩)

/-- A seeded side names no bout to come from. -/
theorem advanceSide_of_seed {source : String} (h : (parseSeed (some source)).isSome)
    (current : Option ι) (selfRef : String) (winner : ι) (loser : Option ι) :
    advanceSide source current selfRef winner loser = current := by
  have hNot : ∀ {c : Char} {rest : String}, c ≠ 's' → rest.toList.head? = some c →
      source ≠ rest ++ selfRef := by
    rintro c rest hc hHead rfl
    rw [parseSeed_of_head hc (by rw [String.toList_append, List.head?_append, hHead]; rfl)] at h
    cases h
  rw [advanceSide]
  split
  · rw [if_neg (@hNot 'w' "winner of " (by decide) (by simp)),
      if_neg (@hNot 'l' "loser of " (by decide) (by simp))]
  · rfl

theorem SlotRow.Holds.advance {row : SlotRow ι} {update : SlotSeedUpdate ι} (h : row.Holds update)
    (bout : Finished ι) : (row.advance bout).Holds update := by
  refine ⟨fun hSeed => ?_, fun hSeed => ?_⟩
  · exact (advanceSide_of_seed hSeed _ _ _ _).trans (h.1 hSeed)
  · exact (advanceSide_of_seed hSeed _ _ _ _).trans (h.2 hSeed)

theorem holds_run {plan : List (SlotSeedUpdate ι)} (bouts : List (Finished ι))
    {rows : List (SlotRow ι)}
    (h : ∀ row ∈ rows, ∀ update ∈ plan, row.id = update.slotId → row.Holds update) :
    ∀ row ∈ bouts.foldl advanceFromSlot rows, ∀ update ∈ plan, row.id = update.slotId →
      row.Holds update := by
  induction bouts generalizing rows with
  | nil => exact h
  | cons bout bouts ih =>
    refine ih fun row hRow update hUpdate hId => ?_
    obtain ⟨before, hBefore, rfl⟩ := List.mem_map.mp hRow
    exact (h before hBefore update hUpdate hId).advance bout

theorem holds_writePlan {rows : List (SlotRow ι)} {plan : List (SlotSeedUpdate ι)}
    (hPlan : (plan.map (·.slotId)).Nodup) :
    ∀ row ∈ writePlan rows plan, ∀ update ∈ plan, row.id = update.slotId → row.Holds update := by
  intro row hRow update hUpdate hId
  rw [writePlan_eq_map] at hRow
  obtain ⟨before, -, rfl⟩ := List.mem_map.mp hRow
  rw [foldl_write_id] at hId
  exact holds_foldl_write hPlan hUpdate hId

theorem map_slotId_planOf (b : SingleElimBracket) (rankings : List (RankedRegistration ι)) :
    (planOf b rankings).map (·.slotId) =
      (b.slots.filter fun s => s.round = 0 ∨ s.round = 1).map BracketSlot.ref := by
  rw [planOf, buildR1SeedingPlan, seedRows, List.map_map, List.map_map, List.map_map]
  rfl

/-- Right after the plan is written, and however the bouts run on, nothing has drifted. -/
theorem diff_planOf [DecidableEq ι] {b : SingleElimBracket} (hSlots : Ordered b.slots)
    (rankings : List (RankedRegistration ι)) (bouts : List (Finished ι)) :
    diffR1SeedingPlan (planOf b rankings)
      (bouts.foldl advanceFromSlot (writePlan (seedRows b) (planOf b rankings))) = [] := by
  refine diffR1SeedingPlan_eq_nil (holds_run bouts (holds_writePlan ?_))
  rw [map_slotId_planOf]
  exact (hSlots.refs.imp SlotRef.Before.ne).sublist (List.filter_sublist.map _)

end Drift

theorem ordered_of_ok {fighterCount : ℕ} {size : Option ℕ} {b : SingleElimBracket}
    (h : singleElimBracket fighterCount size = .ok b) : Ordered b.slots := by
  obtain ⟨-, -, k, -, ⟨-, -, hSlots⟩ | ⟨-, m, -, -, hSlots⟩⟩ := singleElimBracket_ok h
  · exact hSlots ▸ ordered_singleElimSlots
  · exact hSlots ▸ ordered_singleElimSlots

section Law

variable {ι : Type u} [LinearOrder ι]

omit [LinearOrder ι] in
theorem rankBySeed_ids (regs : List (Swiss.SeedableRegistration ι)) :
    (rankBySeed regs).map (·.registrationId) = regs.map (·.id) := by
  refine List.ext_getElem (by simp [rankBySeed]) fun i _ _ => ?_
  simp [rankBySeed]

theorem rankByRating_perm (regs : List (Swiss.SeedableRegistration ι)) (ratings : String → Option ℚ) :
    ((StableSort.sortWith (Swiss.ratingOrder ratings) regs).map (·.id)).Perm (regs.map (·.id)) :=
  (StableSort.sortWith_perm regs).map _

theorem rankRandom_perm (regs : List (Swiss.SeedableRegistration ι)) (i : ℕ) (seed : UInt32) :
    (Swiss.shuffleFrom i seed
      (StableSort.sortWith compare (regs.map (·.id))).toArray).toList.Perm (regs.map (·.id)) :=
  (shuffleFrom_perm _ _ _).trans (StableSort.sortWith_perm _)

/-- Ranks 1 to N over a reordering of the field put everybody on one side. -/
theorem sidesHolding_of_perm {fighterCount : ℕ} {size : Option ℕ} {b : SingleElimBracket}
    (h : singleElimBracket fighterCount size = .ok b) {order ids : List ι}
    (hPerm : order.Perm ids) (hLength : ids.length = fighterCount) (hIds : ids.Nodup) {id : ι}
    (hId : id ∈ ids) : sidesHolding (planOf b (ranked (Swiss.rankInOrder order))) id = 1 := by
  rw [← hLength, ← hPerm.length_eq] at h
  exact sidesHolding_rankInOrder h (hPerm.nodup_iff.mpr hIds) (hPerm.mem_iff.mpr hId)

/-- By rating, by lot and across the pools, everybody is on one seeded side. By seed, whoever
has a rank of their own is on the side labelled with it, if the bracket has that side. -/
theorem r1Seeding_places {fighterCount : ℕ} {size : Option ℕ} {b : SingleElimBracket}
    (h : singleElimBracket fighterCount size = .ok b) :
    (∀ regs : List (Swiss.SeedableRegistration ι), regs.length = fighterCount →
      (regs.map (·.id)).Nodup → ∀ reg ∈ regs,
        (∀ ratings,
          sidesHolding (planOf b (ranked (Swiss.rankByRating regs ratings))) reg.id = 1) ∧
        (∀ prngSeed,
          sidesHolding (planOf b (ranked (Swiss.rankRandom regs prngSeed))) reg.id = 1) ∧
        ∀ r ∈ rankBySeed regs, r.registrationId = reg.id →
          (∀ r' ∈ rankBySeed regs, r'.rank = r.rank → r' = r) →
          sidesHolding (planOf b (rankBySeed regs)) reg.id =
            if 1 ≤ r.rank ∧ r.rank ≤ fighterCount then 1 else 0) ∧
    (∀ (pools : List (PoolRanking ι)) (topN : ℕ),
      (∀ pool ∈ pools, (pool.rows.map (·.rank)).Nodup) →
      (qualified pools topN).length = fighterCount → (qualified pools topN).Nodup →
      ∀ id ∈ qualified pools topN,
        sidesHolding (planOf b (ranked (buildCrossPoolSnakeRanking pools topN))) id = 1) ∧
    ∀ (rankings : List (RankedRegistration ι)) (bouts : List (Finished ι)),
      diffR1SeedingPlan (planOf b rankings)
        (bouts.foldl advanceFromSlot (writePlan (seedRows b) (planOf b rankings))) = [] := by
  refine ⟨fun regs hLength hIds reg hReg => ?_, fun pools topN hRanks hLength hIds id hId => ?_,
    diff_planOf (ordered_of_ok h)⟩
  · have hField : (regs.map (·.id)).length = fighterCount := by rw [List.length_map, hLength]
    have hId : reg.id ∈ regs.map (·.id) := List.mem_map_of_mem hReg
    refine ⟨fun ratings => ?_, fun prngSeed => ?_, ?_⟩
    · exact sidesHolding_of_perm h (rankByRating_perm regs ratings) hField hIds hId
    · exact sidesHolding_of_perm h (rankRandom_perm regs _ _) hField hIds hId
    · intro r hr hEq hUnique
      rw [← hEq]
      exact sidesHolding_of_unique h (by rwa [rankBySeed_ids]) hr hUnique
  · exact sidesHolding_of_perm h (placed_perm hRanks) hLength hIds hId

end Law

/-- Four entrants, the last two seeded 5 and 8: the bracket has no such side. -/
def gappedSeeds : List (Swiss.SeedableRegistration ℕ) :=
  [⟨1, some 1, none, none⟩, ⟨2, some 2, none, none⟩, ⟨3, some 5, none, none⟩,
    ⟨4, some 8, none, none⟩]

/-- Two pools of two, of whom all four qualify. -/
def twoPools : List (PoolRanking ℕ) :=
  [⟨"A", [⟨1, 1⟩, ⟨2, 2⟩]⟩, ⟨"B", [⟨1, 3⟩, ⟨2, 4⟩]⟩]

theorem r1Seeding_places_four : ∃ b, singleElimBracket 4 none = .ok b ∧
    sidesHolding (planOf b (ranked (Swiss.rankByRating gappedSeeds fun _ => none))) 4 = 1 ∧
    sidesHolding (planOf b (ranked (Swiss.rankRandom gappedSeeds 42))) 4 = 1 ∧
    sidesHolding (planOf b (rankBySeed gappedSeeds)) 2 = 1 ∧
    sidesHolding (planOf b (ranked (buildCrossPoolSnakeRanking twoPools 2))) 4 = 1 := by
  obtain ⟨b, hOk⟩ : ∃ b, singleElimBracket 4 none = .ok b := ⟨_, rfl⟩
  obtain ⟨hField, hPools, -⟩ := r1Seeding_places (ι := ℕ) hOk
  have hLast := hField gappedSeeds rfl (by decide) ⟨4, some 8, none, none⟩ (by decide)
  have hSecond := (hField gappedSeeds rfl (by decide) ⟨2, some 2, none, none⟩ (by decide)).2.2
  refine ⟨b, hOk, hLast.1 _, hLast.2.1 _, ?_, ?_⟩
  · exact hSecond ⟨2, 2⟩ (by decide) rfl (by decide)
  · exact hPools twoPools 2 (by decide) (by decide) (by decide) 4 (by decide)

theorem rankBySeed_gapped : ¬ ∀ (regs : List (Swiss.SeedableRegistration ℕ)) (b : SingleElimBracket),
    singleElimBracket regs.length none = .ok b → (regs.map (·.id)).Nodup →
      ∀ reg ∈ regs, sidesHolding (planOf b (rankBySeed regs)) reg.id = 1 := by
  intro hAll
  obtain ⟨b, hOk⟩ : ∃ b, singleElimBracket gappedSeeds.length none = .ok b := ⟨_, rfl⟩
  have hOne := hAll gappedSeeds b hOk (by decide) ⟨4, some 8, none, none⟩ (by decide)
  rw [sidesHolding_planOf hOk] at hOne
  exact absurd hOne (by decide)

end MyClash.Bracket
