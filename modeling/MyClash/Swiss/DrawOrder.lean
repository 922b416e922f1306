import Mathlib.Data.Nat.Cast.Order.Basic
import Mathlib.Tactic.Ring
import MyClash.Swiss.FreshField
import MyClash.Swiss.Seeding

/-!
# What becomes of the draw order

Round 1 is planned with no rounds to read the draw from, so it ranks the field by id.
What it records as `ranked` is its boards, pair by pair, which later rounds read back as
the draw order.
-/

namespace MyClash.Swiss

open StableSort Pairing

universe u

variable {ι : Type u} [LinearOrder ι]

/-! ## The pairing rank -/

instance (total : ι → ℚ) (seedOrder : List ι) : Std.TransCmp (pairingOrder total seedOrder) := by
  have hPoints : (fun a b : ι => compare (total b) (total a)) = fun a b => compareOn total b a := rfl
  unfold pairingOrder
  rw [hPoints]
  infer_instance

theorem pairingOrder_eq {total : ι → ℚ} {seedOrder : List ι} {a b : ι}
    (h : pairingOrder total seedOrder a b = .eq) : a = b := by
  rw [pairingOrder, compareLex_eq_eq, compareLex_eq_eq] at h
  exact Std.LawfulEqOrd.eq_of_compare h.2.2

/-- Level fighters are compared by their place in the draw, then by id. -/
theorem pairingOrder_level (total : ι → ℚ) (seedOrder : List ι) {a b : ι}
    (h : total a = total b) :
    pairingOrder total seedOrder a b =
      (compare (seedOf seedOrder a) (seedOf seedOrder b)).then (compare a b) := by
  have hPoints : compare (total b) (total a) = .eq := by
    rw [h]
    exact Std.ReflCmp.compare_self
  simp [pairingOrder, compareLex, compareOn, hPoints]

theorem buildSwissPlayers_rank_lt_iff {field : List (SwissEntrantRecord ι)}
    {rounds : List (SwissRoundRecord ι)} {points : SwissPoints} {seedOrder : List ι}
    (hNodup : (field.map (·.registrationId)).Nodup) {p q : SwissPlayer ι}
    (hp : p ∈ buildSwissPlayers field rounds points seedOrder)
    (hq : q ∈ buildSwissPlayers field rounds points seedOrder) (hLevel : p.points = q.points) :
    p.rank < q.rank ↔
      (compare (seedOf seedOrder p.registrationId) (seedOf seedOrder q.registrationId)).then
        (compare p.registrationId q.registrationId) = .lt := by
  let ids := field.map (·.registrationId)
  let total := (accumulate ids rounds points).total
  have hSorted : (sortWith (pairingOrder total seedOrder) ids).Pairwise
      (fun a b => pairingOrder total seedOrder a b = .lt) :=
    pairwise_lt_sortWith id (fun _ _ => pairingOrder_eq) (by rwa [List.map_id])
  obtain ⟨i, hi, rfl⟩ := List.mem_mapIdx.mp hp
  obtain ⟨j, hj, rfl⟩ := List.mem_mapIdx.mp hq
  have hLt := List.pairwise_iff_getElem.mp hSorted
  have hLevel : total (sortWith (pairingOrder total seedOrder) ids)[i] =
    total (sortWith (pairingOrder total seedOrder) ids)[j] := hLevel
  have hRank : ((i : ℚ) + 1 < (j : ℚ) + 1) ↔ i < j := by
    rw [add_lt_add_iff_right, Nat.cast_lt]
  refine hRank.trans ?_
  rw [← pairingOrder_level total seedOrder hLevel]
  constructor
  · exact hLt i j hi hj
  · intro h
    rcases Nat.lt_trichotomy i j with hLess | rfl | hMore
    · exact hLess
    · have hSelf : ∀ x, pairingOrder total seedOrder x x = .eq := fun _ => Std.ReflCmp.compare_self
      rw [hSelf] at h
      cases h
    · have hBack := hLt j i hj hi hMore
      exact absurd h (Std.OrientedCmp.not_lt_of_lt hBack)

/-! ## Places in a recorded order -/

theorem seedOf_append (before : List ι) (a id : ι) :
    seedOf (before ++ [a]) id = if a = id then before.length else seedOf before id := by
  have hZip : (before ++ [a]).zipIdx = before.zipIdx ++ [(a, before.length)] := by
    simp [List.zipIdx_append]
  rw [seedOf, hZip, List.filter_append]
  by_cases hId : a = id
  · simp [hId]
  · simp [hId, seedOf]

theorem seedOf_of_not_mem {recorded : List ι} {id : ι} (h : id ∉ recorded) :
    seedOf recorded id = maxSafeInteger := by
  induction recorded using List.reverseRecOn with
  | nil => rfl
  | append_singleton before a ih =>
    rw [List.mem_append, not_or, List.mem_singleton] at h
    rw [seedOf_append, if_neg (Ne.symm h.2), ih h.1]

theorem seedOf_getElem {recorded : List ι} (hNodup : recorded.Nodup) {i : ℕ}
    (hi : i < recorded.length) : seedOf recorded recorded[i] = i := by
  induction recorded using List.reverseRecOn with
  | nil => cases hi
  | append_singleton before a ih =>
    rw [List.nodup_append] at hNodup
    rw [seedOf_append]
    rcases Nat.lt_or_ge i before.length with hLt | hGe
    · rw [List.getElem_append_left hLt, if_neg, ih hNodup.1 hLt]
      exact Ne.symm (hNodup.2.2 _ (List.getElem_mem hLt) a List.mem_cons_self)
    · have hEq : i = before.length := by
        rw [List.length_append, List.length_singleton] at hi
        omega
      subst hEq
      simp

/-! ## The field in its draw order -/

/-- The field ranked in the order of the draw, before anybody has fought. -/
def rankedField (config : SwissConfig) (standings : Option (ι → Option ℚ)) (order : List ι) :
    List (SwissPlayer ι) :=
  withScores config standings
    (order.mapIdx fun index registrationId => ⟨registrationId, 0, none, [], false, index + 1⟩)

section Ranked

variable (config : SwissConfig) (standings : Option (ι → Option ℚ)) (order : List ι)

/-- Before a bout is fought the standings give every entrant the same score. -/
def LevelScores : Prop :=
  ∀ scoreOf ∈ standings, ∀ a ∈ order, ∀ b ∈ order, scoreOf a = scoreOf b

omit [LinearOrder ι] in
theorem rankedField_eq : ∃ scoreOf : ι → Option ℚ,
    (LevelScores standings order → ∀ a ∈ order, ∀ b ∈ order, scoreOf a = scoreOf b) ∧
      rankedField config standings order = order.mapIdx fun index registrationId =>
        ⟨registrationId, 0, scoreOf registrationId, [], false, index + 1⟩ := by
  unfold rankedField withScores
  split
  · rename_i boundaries scoreOf _
    exact ⟨scoreOf, fun h => h scoreOf rfl, List.ext_getElem (by simp) fun i _ _ => by simp⟩
  · exact ⟨fun _ => none, fun _ _ _ _ _ => rfl, rfl⟩

omit [LinearOrder ι] in
theorem rankedField_ids : (rankedField config standings order).map (·.registrationId) = order := by
  obtain ⟨scoreOf, _, hField⟩ := rankedField_eq config standings order
  rw [hField]
  exact List.ext_getElem (by simp) fun i _ _ => by simp

theorem sortByRank_rankedField : sortByRank (rankedField config standings order) =
    rankedField config standings order := by
  obtain ⟨scoreOf, _, hField⟩ := rankedField_eq config standings order
  refine sortByRank_of_sorted (List.pairwise_iff_getElem.mpr fun i j hi hj hLt => ?_)
  have hRank : compare ((i : ℚ) + 1) ((j : ℚ) + 1) = .lt := by
    rw [compare_lt_iff_lt, add_lt_add_iff_right, Nat.cast_lt]
    exact hLt
  simp only [hField, List.getElem_mapIdx, rankOrder, compareLex, compareOn, hRank]
  rfl

variable {standings order}

omit [LinearOrder ι] in
theorem freshField_rankedField (hLevel : LevelScores standings order) :
    ∃ score, FreshField 0 score (rankedField config standings order) := by
  obtain ⟨scoreOf, hScores, hField⟩ := rankedField_eq config standings order
  cases order with
  | nil => exact ⟨none, by rw [hField]; nofun⟩
  | cons first rest =>
    refine ⟨scoreOf first, fun p hp => ?_⟩
    rw [hField] at hp
    obtain ⟨i, hi, rfl⟩ := List.mem_mapIdx.mp hp
    exact ⟨rfl, hScores hLevel _ (List.getElem_mem hi) _ List.mem_cons_self, rfl, rfl⟩

/-- The boards of the first round, through the draw order. -/
theorem rankedField_boardPlaces (hNodup : order.Nodup) (hLevel : LevelScores standings order) :
    (boardPlaces (planSwissRound (rankedField config standings order) config.options).pairings).map
        some =
      (places (idealPairs (2 * (order.length / 2)) config.pairingMethod)).map (order[·]?) := by
  obtain ⟨score, hFresh⟩ := freshField_rankedField config hLevel
  have hIds : ((rankedField config standings order).map (·.registrationId)).Nodup := by
    rwa [rankedField_ids]
  have hLength : (rankedField config standings order).length = order.length := by
    rw [← List.length_map (fun p : SwissPlayer ι => p.registrationId), rankedField_ids]
  have hLookup : ∀ i : ℕ, Option.map (fun p : SwissPlayer ι => p.registrationId)
      (rankedField config standings order)[i]? = order[i]? := by
    intro i
    rw [← List.getElem?_map, rankedField_ids]
  rw [hFresh.boardPlaces hIds, sortByRank_rankedField, hLength]
  simp only [hLookup]
  have hRange : ∀ i ∈ places (idealPairs (2 * (order.length / 2)) config.pairingMethod),
      i < order.length := by
    intro i hi
    have hMem := (idealPairs_perm ⟨order.length / 2, by omega⟩ _).mem_iff.mp hi
    have hBound := List.mem_range.mp hMem
    omega
  have hAll : ∀ l : List ℕ, (∀ i ∈ l, i < order.length) →
      (l.filterMap (order[·]?)).map some = l.map (order[·]?) := by
    intro l
    induction l with
    | nil => exact fun _ => rfl
    | cons i l ih =>
      intro hl
      rw [List.forall_mem_cons] at hl
      have hSome := List.getElem?_eq_getElem hl.1
      rw [List.filterMap_cons_some hSome, List.map_cons, List.map_cons, ih hl.2, hSome]
  exact hAll _ hRange

end Ranked

/-! ## What generation stores -/

theorem pairingOrder_unfought :
    pairingOrder (fun _ => 0) [] = (compare : ι → ι → Ordering) := by
  funext a b
  have hSelf : compare (seedOf [] a) (seedOf [] b) = .eq := Std.ReflCmp.compare_self
  rw [pairingOrder_level (fun _ => 0) [] rfl, hSelf]
  rfl

/-- Round 1 ranks the entrants by id, whatever order they were stored and read in. -/
theorem buildSwissPlayers_unfought {field : List (SwissEntrantRecord ι)} {order : List ι}
    (hNodup : order.Nodup) (hField : (field.map (·.registrationId)).Perm order)
    (config : SwissConfig) (standings : Option (ι → Option ℚ)) :
    withScores config standings (buildSwissPlayers field [] config.points []) =
      rankedField config standings (sortWith compare order) := by
  have hSort : sortWith (pairingOrder (fun _ => 0) []) (field.map (·.registrationId)) =
      sortWith compare order := by
    rw [pairingOrder_unfought]
    refine sortWith_eq_of_perm id (fun _ _ => Std.LawfulEqOrd.eq_of_compare) ?_ hField
    rw [List.map_id]
    exact hField.nodup_iff.mpr hNodup
  rw [rankedField, ← hSort]
  rfl

/-- The round-1 row of a generated phase. -/
def FirstRow (generated : GeneratedSwiss ι) (plan : SwissRoundPlan ι) (row : RoundRow ι) : Prop :=
  generated.rows.rounds = [row] ∧ row.roundNumber = 1 ∧ row.byeRegistrationId = plan.byeRegistrationId ∧
    row.ranked = some (boardPlaces plan.pairings) ∧ row.bouts = (swissMatchRows plan).map NewBout.insert

theorem planRound_first (config : SwissConfig) (standings : Option (ι → Option ℚ))
    {order : List ι} (hNodup : order.Nodup) {entrants : List (SwissEntrantRecord ι)}
    (hEntrants : entrants.Perm (order.map freshEntrant)) :
    ∃ field, field.Perm order ∧ planRound config standings entrants [] = .ok (some
      ⟨1, planSwissRound (rankedField config standings (sortWith compare order)) config.options,
        field⟩) := by
  have hActive : activeEntrants entrants 1 = entrants := by
    refine List.filter_eq_self.mpr fun e he => ?_
    obtain ⟨id, _, rfl⟩ := List.mem_map.mp (hEntrants.mem_iff.mp he)
    rfl
  have hField : (entrants.map (·.registrationId)).Perm order := by
    refine (hEntrants.map (·.registrationId)).trans ?_
    rw [List.map_map]
    exact .of_eq (List.map_id' order)
  have hRounds : ¬(config.roundCount : ℕ) < 1 := by
    have hLow := config.roundCount.property.1
    omega
  refine ⟨entrants.map (·.registrationId), hField, ?_⟩
  simp only [planRound, List.length_nil, Nat.zero_add, if_neg hRounds, hActive,
    List.getLast?_nil, seedOrderOf, List.find?_nil,
    buildSwissPlayers_unfought hNodup hField config standings]

/-- The commit takes the first plan: no round stands and the field is the entrants. -/
theorem writeRound_first {rows : PhaseRows ι} (hRounds : rows.rounds = [])
    {planned : PlannedRound ι} (hNumber : planned.roundNumber = 1)
    (hField : ∀ id, id ∈ planned.field ↔ id ∈ rows.unwithdrawn 1) :
    (writeRound rows planned).2.rounds = [⟨1, planned.plan.byeRegistrationId,
      some (boardPlaces planned.plan.pairings),
      (swissMatchRows planned.plan).map NewBout.insert, planned.call⟩] := by
  have hRound : planned.call.round = 1 := hNumber
  have hNone : rows.round? 1 = none := by rw [PhaseRows.round?, hRounds, List.find?_nil]
  have hLast : rows.lastRound = 0 := by
    rw [PhaseRows.lastRound, hRounds]
    rfl
  have hSame : planned.call.field ⊆ rows.unwithdrawn 1 ∧ rows.unwithdrawn 1 ⊆ planned.call.field :=
    ⟨fun id hId => (hField id).mp hId, fun id hId => (hField id).mpr hId⟩
  rw [writeRound, swissCommitRound, hRound, hNone, hLast, if_neg nofun, if_neg (by simp),
    if_neg (not_not.mpr hSame), hRounds]
  rfl

theorem generateSwiss_ok {source : SwissSource ι} {dto : GenerateSwissDto} {out : List ι}
    (hLoad : ∀ rows, (source.load rows).Perm rows) {generated : GeneratedSwiss ι}
    (hOk : generateSwiss source dto out = .ok generated) :
    generated.seeding.order.Nodup ∧ ∃ row, FirstRow generated
      (planSwissRound (rankedField generated.config source.standings
        (sortWith compare generated.seeding.order)) generated.config.options) row := by
  unfold generateSwiss at hOk
  split at hOk
  · cases hOk
  · split at hOk
    · cases hOk
    · rename_i seeding _
      simp only at hOk
      split at hOk
      · cases hOk
      · rename_i hUnique
        have hNodup : seeding.order.Nodup := not_not.mp hUnique
        obtain ⟨field, hField, hPlanned⟩ := planRound_first
          (buildConfig dto source.registrations.length) source.standings hNodup
          (hLoad (seeding.order.map freshEntrant))
        rw [hPlanned] at hOk
        cases hOk
        refine ⟨hNodup, _, writeRound_first rfl rfl (fun id => ?_), rfl, rfl, rfl, rfl⟩
        simp [PhaseRows.unwithdrawn, freshEntrant, hField.mem_iff]

/-! ## What later rounds read back -/

/-- Round 1 as a later round loads it: the stored row, with whatever was fought since. -/
structure FirstRoundOf (row : RoundRow ι) (first : SwissRoundRecord ι) : Prop where
  number : first.roundNumber = row.roundNumber
  bye : first.byeRegistrationId = row.byeRegistrationId
  ranked : first.ranked = row.ranked
  sides : first.bouts.map (fun b => (b.redRegistrationId, b.blueRegistrationId)) =
    row.bouts.map fun b => (b.redRegistrationId, b.blueRegistrationId)

/-- The draw decides round 1, and breaks every tie on points after it. -/
structure DrawKept (generated : GeneratedSwiss ι) (standings : Option (ι → Option ℚ)) : Prop where
  firstRound : ∃ row, FirstRow generated
    (planSwissRound (rankedField generated.config standings generated.seeding.order)
      generated.config.options) row
  laterRounds : ∀ row ∈ generated.rows.rounds, ∀ first, FirstRoundOf row first →
    ∀ later field, (field.map (·.registrationId)).Nodup →
      (∀ e ∈ field, e.registrationId ∈ generated.seeding.order) →
      ∀ p ∈ buildSwissPlayers field (first :: later) generated.config.points
          (seedOrderOf (first :: later)),
        ∀ q ∈ buildSwissPlayers field (first :: later) generated.config.points
            (seedOrderOf (first :: later)), p.points = q.points →
          (p.rank < q.rank ↔ generated.seeding.order.idxOf p.registrationId <
            generated.seeding.order.idxOf q.registrationId)

theorem places_idealPairs_range {method : SwissPairingMethod} {n : ℕ}
    (h : method = .adjacent ∨ n ≤ 3) :
    places (idealPairs (2 * (n / 2)) method) = List.range (2 * (n / 2)) := by
  have hHalf : 2 * (n / 2) / 2 = n / 2 := by omega
  cases method with
  | adjacent => rw [idealPairs, hHalf, places_adjacent_eq]
  | fold =>
    have hSmall : n / 2 = 0 ∨ n / 2 = 1 := by
      rcases h with h | h
      · cases h
      · omega
    rcases hSmall with h | h <;> rw [h] <;> rfl

omit [LinearOrder ι] in
/-- A recorded order that reads the draw off an initial segment is that segment. -/
theorem recorded_eq_take {recorded order : List ι} {m : ℕ} (hm : m ≤ order.length)
    (h : recorded.map some = (List.range m).map (order[·]?)) : recorded = order.take m := by
  refine List.map_injective_iff.mpr (Option.some_injective ι) (h.trans ?_)
  refine List.ext_getElem (by simp [hm]) fun i hi _ => ?_
  rw [List.length_map, List.length_range] at hi
  simp [List.getElem?_eq_getElem (hi.trans_le hm)]

theorem seedOf_take {order : List ι} (hNodup : order.Nodup) {m i : ℕ} (hi : i < order.length) :
    seedOf (order.take m) order[i] = if i < m then i else maxSafeInteger := by
  split
  · rename_i hLt
    have hTake : i < (order.take m).length := by
      rw [List.length_take]
      omega
    have hSame : order[i] = (order.take m)[i] := by rw [List.getElem_take]
    rw [hSame, seedOf_getElem (hNodup.sublist (List.take_sublist _ _)) hTake]
  · rename_i hGe
    refine seedOf_of_not_mem fun hMem => ?_
    obtain ⟨j, hj, hEq⟩ := List.mem_iff_getElem.mp hMem
    rw [List.length_take] at hj
    rw [List.getElem_take, hNodup.getElem_inj_iff] at hEq
    omega

/-- The draw read back from its paired segment still orders the whole field. -/
theorem seedOf_take_lt {order : List ι} (hNodup : order.Nodup) (hSafe : order.length ≤ maxSafeInteger)
    {m i j : ℕ} (hm : order.length ≤ m + 1) (hLt : i < j) (hj : j < order.length) :
    seedOf (order.take m) (order[i]) < seedOf (order.take m) order[j] := by
  rw [seedOf_take hNodup, seedOf_take hNodup, if_pos (by omega)]
  split
  · exact hLt
  · omega

theorem buildSwissPlayers_ids (field : List (SwissEntrantRecord ι))
    (rounds : List (SwissRoundRecord ι)) (points : SwissPoints) (seedOrder : List ι) :
    ((buildSwissPlayers field rounds points seedOrder).map (·.registrationId)).Perm
      (field.map (·.registrationId)) := by
  have hIds : (buildSwissPlayers field rounds points seedOrder).map (·.registrationId) =
      sortWith (pairingOrder (accumulate (field.map (·.registrationId)) rounds points).total
        seedOrder) (field.map (·.registrationId)) :=
    List.ext_getElem (by simp [buildSwissPlayers]) fun i _ _ => by simp [buildSwissPlayers]
  rw [hIds]
  exact sortWith_perm _

/-- Reading back an initial segment that misses one fighter at most keeps the draw. -/
theorem laterRounds_of_take {order : List ι} (hNodup : order.Nodup)
    (hSafe : order.length ≤ maxSafeInteger) {m : ℕ} (hm : order.length ≤ m + 1)
    {field : List (SwissEntrantRecord ι)} (hField : (field.map (·.registrationId)).Nodup)
    (hDrawn : ∀ e ∈ field, e.registrationId ∈ order) {rounds : List (SwissRoundRecord ι)}
    {points : SwissPoints} {p q : SwissPlayer ι}
    (hp : p ∈ buildSwissPlayers field rounds points (order.take m))
    (hq : q ∈ buildSwissPlayers field rounds points (order.take m))
    (hLevel : p.points = q.points) :
    p.rank < q.rank ↔ order.idxOf p.registrationId < order.idxOf q.registrationId := by
  have hMem : ∀ r ∈ buildSwissPlayers field rounds points (order.take m),
      r.registrationId ∈ order := by
    intro r hr
    have hId := (buildSwissPlayers_ids field rounds points (order.take m)).mem_iff.mp
      (List.mem_map_of_mem hr)
    obtain ⟨e, he, hEq⟩ := List.mem_map.mp hId
    exact hEq ▸ hDrawn e he
  have hEarlier : ∀ r ∈ buildSwissPlayers field rounds points (order.take m),
      ∀ r' ∈ buildSwissPlayers field rounds points (order.take m), r.points = r'.points →
        order.idxOf r.registrationId < order.idxOf r'.registrationId → r.rank < r'.rank := by
    intro r hr r' hr' hSame hLt
    have hSeed := seedOf_take_lt hNodup hSafe hm hLt (List.idxOf_lt_length_of_mem (hMem r' hr'))
    rw [List.getElem_idxOf, List.getElem_idxOf] at hSeed
    rw [buildSwissPlayers_rank_lt_iff hField hr hr' hSame, Nat.compare_eq_lt.mpr hSeed]
    rfl
  constructor
  · intro hRank
    rcases Nat.lt_trichotomy (order.idxOf p.registrationId) (order.idxOf q.registrationId) with
      hLess | hSame | hMore
    · exact hLess
    · have hId : p.registrationId = q.registrationId :=
        (List.idxOf_inj (hMem p hp)).mp hSame
      rw [buildSwissPlayers_rank_lt_iff hField hp hq hLevel, hId] at hRank
      have hSelf : ∀ n : ℕ, compare n n = .eq := fun _ => Std.ReflCmp.compare_self
      have hSelfId : compare q.registrationId q.registrationId = .eq := Std.ReflCmp.compare_self
      rw [hSelf, hSelfId] at hRank
      cases hRank
    · exact absurd hRank (hEarlier q hq p hp hLevel.symm hMore).not_gt
  · exact hEarlier p hp q hq hLevel

/-! ## A first round that ends in draws -/

def drawnBout (sides : ι × ι) : SwissMatchRecord ι :=
  ⟨some sides.1, some sides.2, none, .completed, none⟩

theorem credit_total {t : Tally ι} {ids : List ι} {id : ι} (hId : id ∈ ids) (other : ι) (d : ℚ) :
    (t.credit ids other d).total id = t.total id + if other = id then d else 0 := by
  rw [Tally.credit]
  by_cases hEq : other = id
  · subst hEq
    rw [if_pos hId, if_pos rfl]
    exact Function.update_self _ _ _
  · rw [if_neg hEq, add_zero]
    split
    · exact Function.update_of_ne (Ne.symm hEq) _ _
    · rfl

theorem meet_total (t : Tally ι) (ids : List ι) (a b : ι) : (t.meet ids a b).total = t.total := by
  rw [Tally.meet]
  split
  · rfl
  · rfl

theorem addMatch_drawn {t : Tally ι} {ids : List ι} {id : ι} (hId : id ∈ ids) (points : SwissPoints)
    (sides : ι × ι) : (t.addMatch ids points (drawnBout sides)).total id =
      t.total id + (if sides.1 = id then points.draw else 0) +
        if sides.2 = id then points.draw else 0 := by
  have hPoints : outcomePoints (drawnBout sides) points = (points.draw, points.draw) := rfl
  simp only [Tally.addMatch, drawnBout, ↓reduceIte]
  rw [show outcomePoints (⟨some sides.1, some sides.2, none, .completed, none⟩ :
    SwissMatchRecord ι) points = (points.draw, points.draw) from hPoints]
  rw [credit_total hId, credit_total hId, meet_total, meet_total]

/-- A round of draws credits everybody by how often they fought. -/
theorem foldl_addMatch_drawn {ids : List ι} {id : ι} (hId : id ∈ ids) (points : SwissPoints)
    (pairs : List (ι × ι)) (t : Tally ι) :
    ((pairs.map drawnBout).foldl (Tally.addMatch ids points) t).total id =
      t.total id + (places pairs).count id * points.draw := by
  induction pairs generalizing t with
  | nil => simp
  | cons sides pairs ih =>
    rw [List.map_cons, List.foldl_cons, ih, addMatch_drawn hId, places_cons, List.count_cons,
      List.count_cons]
    simp only [beq_iff_eq]
    split <;> split <;> push_cast <;> ring

theorem addBye_total {t : Tally ι} {ids : List ι} {points : SwissPoints} {bye : Option ι} {id : ι}
    (hNot : id ∉ bye.toList) : (t.addBye ids points bye).total id = t.total id := by
  cases bye with
  | none => rfl
  | some other =>
    have hNe : id ≠ other := by simpa using hNot
    rw [Tally.addBye]
    split
    · rename_i hMem
      rw [Tally.credit, if_pos hMem]
      exact Function.update_of_ne hNe _ _
    · rfl

theorem buildSwissPlayers_points {field : List (SwissEntrantRecord ι)}
    {rounds : List (SwissRoundRecord ι)} {points : SwissPoints} {seedOrder : List ι}
    {p : SwissPlayer ι} (hp : p ∈ buildSwissPlayers field rounds points seedOrder) :
    p.points = (accumulate (field.map (·.registrationId)) rounds points).total p.registrationId := by
  obtain ⟨i, hi, rfl⟩ := List.mem_mapIdx.mp hp
  rfl

/-- Two fighters who each drew their one bout are level. -/
theorem drawn_round_level {ids : List ι} {points : SwissPoints} {pairs : List (ι × ι)}
    {bye : Option ι} {number : ℕ} {ranked : Option (List ι)}
    (hOnce : (places pairs ++ bye.toList).Nodup) {a b : ι} (ha : a ∈ places pairs)
    (hb : b ∈ places pairs) (haIds : a ∈ ids) (hbIds : b ∈ ids) :
    (accumulate ids [⟨number, bye, ranked, pairs.map drawnBout⟩] points).total a =
      (accumulate ids [⟨number, bye, ranked, pairs.map drawnBout⟩] points).total b := by
  have hTotal : ∀ id ∈ places pairs, id ∈ ids →
      (accumulate ids [⟨number, bye, ranked, pairs.map drawnBout⟩] points).total id =
        points.draw := by
    intro id hMem hId
    obtain ⟨hPlaces, _, hApart⟩ := List.nodup_append.mp hOnce
    have hNot : id ∉ bye.toList := fun hBye => hApart id hMem id hBye rfl
    rw [accumulate, List.foldl_cons, List.foldl_nil, Tally.addRound, foldl_addMatch_drawn hId,
      addBye_total hNot, List.count_eq_one_of_mem hPlaces hMem]
    simp
  rw [hTotal a ha haIds, hTotal b hb hbIds]

/-! ## When the draw is kept -/

section Kept

variable {generated : GeneratedSwiss ι} {standings : Option (ι → Option ℚ)}

omit [LinearOrder ι] in
theorem FirstRow.unique {plan plan' : SwissRoundPlan ι} {row row' : RoundRow ι}
    (h : FirstRow generated plan row) (h' : FirstRow generated plan' row') :
    boardPlaces plan.pairings = boardPlaces plan'.pairings := by
  have hRow : row = row' := by
    have hBoth := h.1.symm.trans h'.1
    cases hBoth
    rfl
  have hRanked := h.2.2.2.1
  rw [hRow, h'.2.2.2.1] at hRanked
  exact (Option.some.inj hRanked).symm

omit [LinearOrder ι] in
/-- Two orders of one field that share all but one place share that one too. -/
theorem eq_of_take_eq {l l' : List ι} {m : ℕ} (hPerm : l.Perm l') (hTake : l.take m = l'.take m)
    (hm : l'.length ≤ m + 1) : l = l' := by
  have hDrop : (l.drop m).Perm (l'.drop m) := by
    have hSplit := hPerm
    rw [← List.take_append_drop m l, ← List.take_append_drop m l', hTake] at hSplit
    exact (List.perm_append_left_iff _).mp hSplit
  have hShort : (l'.drop m).length ≤ 1 := by
    rw [List.length_drop]
    omega
  have hLast : l.drop m = l'.drop m := by
    match l'.drop m, hDrop, hShort with
    | [], hDrop, _ => exact List.Perm.eq_nil hDrop
    | [z], hDrop, _ => exact List.perm_singleton.mp hDrop
  rw [← List.take_append_drop m l, hTake, hLast, List.take_append_drop]

/-- The boards of round 1 tell the order it was drawn in. -/
theorem order_eq_of_boardPlaces {config : SwissConfig} {order order' : List ι}
    (hNodup : order.Nodup) (hPerm : order'.Perm order) (hLevel : LevelScores standings order)
    (hSame : boardPlaces (planSwissRound (rankedField config standings order)
        config.options).pairings =
      boardPlaces (planSwissRound (rankedField config standings order')
        config.options).pairings) : order = order' := by
  have hLevel' : LevelScores standings order' := fun scoreOf hScore a ha b hb =>
    hLevel scoreOf hScore a (hPerm.mem_iff.mp ha) b (hPerm.mem_iff.mp hb)
  have hBoards := rankedField_boardPlaces config hNodup hLevel
  have hBoards' := rankedField_boardPlaces config (hPerm.nodup_iff.mpr hNodup) hLevel'
  rw [hSame, hBoards', hPerm.length_eq, List.map_inj_left] at hBoards
  have hPlaces : (places (idealPairs (2 * (order.length / 2)) config.pairingMethod)).Perm
      (List.range (2 * (order.length / 2))) :=
    idealPairs_perm ⟨order.length / 2, by omega⟩ config.pairingMethod
  have hTake : order'.take (2 * (order.length / 2)) = order.take (2 * (order.length / 2)) := by
    refine List.ext_getElem? fun i => ?_
    by_cases hi : i < 2 * (order.length / 2)
    · rw [List.getElem?_take_of_lt hi, List.getElem?_take_of_lt hi]
      exact hBoards i (hPlaces.mem_iff.mpr (List.mem_range.mpr hi))
    · rw [List.getElem?_eq_none, List.getElem?_eq_none]
      · rw [List.length_take]
        omega
      · rw [List.length_take]
        omega
  exact (eq_of_take_eq hPerm hTake (by omega)).symm

/-- With four fighters or more the fold records the middle fighter ahead of the second. -/
theorem boardPlaces_fold {config : SwissConfig} (hFold : config.pairingMethod = .fold)
    {order : List ι} (hNodup : order.Nodup) (hLevel : LevelScores standings order)
    (hFour : 4 ≤ order.length) : ∃ rest,
      boardPlaces (planSwissRound (rankedField config standings order) config.options).pairings =
        order[0] :: order[order.length / 2] :: order[1] :: rest := by
  have hBoards := rankedField_boardPlaces config hNodup hLevel
  obtain ⟨half, hHalf⟩ : ∃ half, order.length / 2 = half + 2 := ⟨order.length / 2 - 2, by omega⟩
  have hPlaces : ∃ later, places (idealPairs (2 * (order.length / 2)) .fold) =
      0 :: (order.length / 2) :: 1 :: later := by
    have hQuotient : 2 * (half + 2) / 2 = half + 2 := by omega
    rw [hHalf, idealPairs, hQuotient, List.range_succ_eq_map, List.range_succ_eq_map]
    simp [places_cons]
  obtain ⟨later, hLater⟩ := hPlaces
  have hFirst := List.getElem?_eq_getElem (show 0 < order.length by omega)
  have hMiddle := List.getElem?_eq_getElem (show order.length / 2 < order.length by omega)
  have hSecond := List.getElem?_eq_getElem (show 1 < order.length by omega)
  rw [hFold, hLater, List.map_cons, List.map_cons, List.map_cons, hFirst, hMiddle, hSecond] at hBoards
  obtain ⟨a, afterFirst, hRecorded, hA, hBoards⟩ := List.map_eq_cons_iff.mp hBoards
  obtain ⟨b, afterSecond, rfl, hB, hBoards⟩ := List.map_eq_cons_iff.mp hBoards
  obtain ⟨c, rest, rfl, hC, -⟩ := List.map_eq_cons_iff.mp hBoards
  exact ⟨rest, by rw [hRecorded, Option.some.inj hA, Option.some.inj hB, Option.some.inj hC]⟩

theorem not_drawKept_fold {row : RoundRow ι} (hFold : generated.config.pairingMethod = .fold)
    (hNodup : generated.seeding.order.Nodup) (hFour : 4 ≤ generated.seeding.order.length)
    (hLevel : LevelScores standings generated.seeding.order)
    (hRow : FirstRow generated (planSwissRound (rankedField generated.config standings
      generated.seeding.order) generated.config.options) row) :
    ¬DrawKept generated standings := by
  intro hKept
  let order := generated.seeding.order
  let plan := planSwissRound (rankedField generated.config standings order)
    generated.config.options
  let pairs := plan.pairings.map fun p => (p.aId, p.bId)
  obtain ⟨rest, hRecorded⟩ : ∃ rest, boardPlaces plan.pairings =
      order[0] :: order[order.length / 2] :: order[1] :: rest :=
    boardPlaces_fold hFold hNodup hLevel hFour
  have hPairs : places pairs = boardPlaces plan.pairings := List.flatMap_map _ _ _
  have hOnce : (places pairs ++ plan.byeRegistrationId.toList).Nodup := by
    rw [hPairs]
    refine (planSwissRound_roundLaw _ ?_).nodup_planPlaces
    rwa [rankedField_ids]
  -- everybody draws in round 1
  let first : SwissRoundRecord ι :=
    ⟨1, plan.byeRegistrationId, some (boardPlaces plan.pairings), pairs.map drawnBout⟩
  have hFirst : FirstRoundOf row first := by
    refine ⟨hRow.2.1.symm, hRow.2.2.1.symm, hRow.2.2.2.1.symm, ?_⟩
    rw [hRow.2.2.2.2, swissMatchRows]
    simp only [first, pairs, List.map_map]
    rfl
  have hIds : (order.map freshEntrant).map (·.registrationId) = order := by
    rw [List.map_map]
    exact List.map_id' order
  have hLaw := hKept.laterRounds row (by rw [hRow.1]; exact List.mem_cons_self) first hFirst []
    (order.map freshEntrant) (hIds.symm ▸ hNodup) (fun e he => by
      obtain ⟨id, hId, rfl⟩ := List.mem_map.mp he
      exact hId)
  have hSeeds : seedOrderOf [first] = boardPlaces plan.pairings := rfl
  have hPlayer : ∀ id ∈ order, ∃ p ∈ buildSwissPlayers (order.map freshEntrant) [first]
      generated.config.points (seedOrderOf [first]), p.registrationId = id := by
    intro id hId
    exact List.mem_map.mp ((buildSwissPlayers_ids _ _ _ _).mem_iff.mpr (hIds.symm ▸ hId))
  have hMiddle : order.length / 2 < order.length := by
    have hPos : 4 ≤ order.length := hFour
    omega
  have hSecond : 1 < order.length / 2 := by
    have hPos : 4 ≤ order.length := hFour
    omega
  have hOne : 1 < order.length := hSecond.trans hMiddle
  obtain ⟨p, hp, hpId⟩ := hPlayer order[1] (List.getElem_mem _)
  obtain ⟨q, hq, hqId⟩ := hPlayer order[order.length / 2] (List.getElem_mem _)
  have hLevelPoints : p.points = q.points := by
    rw [buildSwissPlayers_points hp, buildSwissPlayers_points hq, hpId, hqId, hIds]
    refine drawn_round_level hOnce ?_ ?_ (List.getElem_mem _) (List.getElem_mem _)
    · simp [hPairs, hRecorded]
    · simp [hPairs, hRecorded]
  have hIndices : order.idxOf p.registrationId < order.idxOf q.registrationId := by
    rw [hpId, hqId, hNodup.idxOf_getElem, hNodup.idxOf_getElem]
    exact hSecond
  have hRank := (hLaw p hp q hq hLevelPoints).mpr hIndices
  have hRecordedNodup : (boardPlaces plan.pairings).Nodup := hPairs ▸ (List.nodup_append.mp hOnce).1
  have hSeedSecond : seedOf (boardPlaces plan.pairings) order[1] = 2 := by
    have hPlace := seedOf_getElem hRecordedNodup (i := 2) (by rw [hRecorded]; simp)
    simpa [hRecorded] using hPlace
  have hSeedMiddle : seedOf (boardPlaces plan.pairings) order[order.length / 2] = 1 := by
    have hPlace := seedOf_getElem hRecordedNodup (i := 1) (by rw [hRecorded]; simp)
    simpa [hRecorded] using hPlace
  rw [buildSwissPlayers_rank_lt_iff (hIds.symm ▸ hNodup) hp hq hLevelPoints, hSeeds, hpId, hqId,
    hSeedSecond, hSeedMiddle] at hRank
  cases hRank

/-- The draw is kept exactly when it lists the ids in order and the boards list the draw. -/
theorem generateSwiss_drawKept_iff {source : SwissSource ι} {dto : GenerateSwissDto}
    {out : List ι} (hLoad : ∀ rows, (source.load rows).Perm rows)
    (hOk : generateSwiss source dto out = .ok generated)
    (hLevel : LevelScores source.standings generated.seeding.order)
    (hSafe : generated.seeding.order.length ≤ maxSafeInteger) :
    DrawKept generated source.standings ↔
      generated.seeding.order.Pairwise (· < ·) ∧
        (generated.config.pairingMethod = .adjacent ∨ generated.seeding.order.length ≤ 3) := by
  obtain ⟨hNodup, row, hRow⟩ := generateSwiss_ok hLoad hOk
  have hPerm : (sortWith compare generated.seeding.order).Perm generated.seeding.order :=
    sortWith_perm _
  constructor
  · intro hKept
    obtain ⟨row', hRow'⟩ := hKept.firstRound
    have hSorted : generated.seeding.order = sortWith compare generated.seeding.order :=
      order_eq_of_boardPlaces hNodup hPerm hLevel (hRow'.unique hRow)
    refine ⟨?_, ?_⟩
    · rw [hSorted]
      have hStrict : (sortWith compare generated.seeding.order).Pairwise
          (fun a b => compare a b = .lt) :=
        pairwise_lt_sortWith id (fun _ _ => Std.LawfulEqOrd.eq_of_compare) (by rwa [List.map_id])
      exact hStrict.imp compare_lt_iff_lt.mp
    · by_contra hNot
      rw [not_or, not_le] at hNot
      have hFold : generated.config.pairingMethod = .fold := by
        cases hMethod : generated.config.pairingMethod with
        | fold => rfl
        | adjacent => exact absurd hMethod hNot.1
      rw [← hSorted] at hRow
      exact not_drawKept_fold hFold hNodup hNot.2 hLevel hRow hKept
  · rintro ⟨hAscending, hBoards⟩
    have hSorted : sortWith compare generated.seeding.order = generated.seeding.order := by
      refine sortWith_eq_self (hAscending.imp fun h => ?_)
      rw [compare_lt_iff_lt.mpr h]
      rfl
    rw [hSorted] at hRow
    refine ⟨⟨row, hRow⟩, fun row' hRow' first hFirst later field hField hDrawn p hp q hq hSame => ?_⟩
    rw [hRow.1, List.mem_singleton] at hRow'
    subst hRow'
    have hRecorded : boardPlaces (planSwissRound (rankedField generated.config source.standings
        generated.seeding.order) generated.config.options).pairings =
        generated.seeding.order.take (2 * (generated.seeding.order.length / 2)) := by
      refine recorded_eq_take (by omega) ?_
      rw [rankedField_boardPlaces _ hNodup hLevel, places_idealPairs_range hBoards]
    have hSeeds : seedOrderOf (first :: later) =
        generated.seeding.order.take (2 * (generated.seeding.order.length / 2)) := by
      have hFind : (first :: later).find? (·.roundNumber = 1) = some first := by
        rw [List.find?_cons_of_pos]
        simp [hFirst.number, hRow.2.1]
      rw [seedOrderOf, hFind, ← hRecorded]
      simp only [hFirst.ranked, hRow.2.2.2.1, Option.getD_some]
    rw [hSeeds] at hp hq
    exact laterRounds_of_take hNodup hSafe (by omega) hField hDrawn hp hq hSame

end Kept

/-! ## A draw against the ids -/

/-- Two fighters from one finished pool, the second id ranked first. -/
def poolSource : SwissSource ℕ where
  registrations := [⟨1, none, none, none⟩, ⟨2, none, none, none⟩]
  ratings := fun _ => none
  percentOf := fun _ _ => 0
  poolPhase := some ⟨[.completed], [⟨1, some 2, some 1⟩, ⟨2, some 1, some 1⟩]⟩
  drawnSeed := 0
  standings := none
  load := fun rows => rows

def poolRankDto : GenerateSwissDto :=
  ⟨some ⟨3, by decide⟩, some .byPoolRank, none, none, none, none, none⟩

/-- Round 1 is stored as 1 against 2, whatever the pools said. -/
def poolRankGenerated : GeneratedSwiss ℕ where
  seeding := ⟨[2, 1], none, none⟩
  config := buildConfig poolRankDto 2
  rows :=
    { config := ⟨false, some 3⟩
      entrants := [⟨freshEntrant 2, none⟩, ⟨freshEntrant 1, none⟩]
      rounds := [⟨1, none, some [1, 2], [⟨⟨some 1, some 2, none, .scheduled, none⟩, false, false⟩],
        ⟨1, [2, 1], none, some [1, 2], [⟨some 1, some 2, .scheduled⟩]⟩⟩]
      out := [] }

theorem generateSwiss_poolRank : generateSwiss poolSource poolRankDto [] = .ok poolRankGenerated := by
  decide +kernel

theorem generateSwiss_drawKept_poolRank :
    DrawKept poolRankGenerated poolSource.standings ↔
      poolRankGenerated.seeding.order.Pairwise (· < ·) ∧
        (poolRankGenerated.config.pairingMethod = .adjacent ∨
          poolRankGenerated.seeding.order.length ≤ 3) :=
  generateSwiss_drawKept_iff (fun _ => .refl _) generateSwiss_poolRank nofun (by decide)

theorem generateSwiss_forgets_draw :
    ¬∀ (source : SwissSource ℕ) (dto : GenerateSwissDto) (out : List ℕ)
      (generated : GeneratedSwiss ℕ), (∀ rows, (source.load rows).Perm rows) →
      generateSwiss source dto out = .ok generated →
      LevelScores source.standings generated.seeding.order →
      generated.seeding.order.length ≤ maxSafeInteger → DrawKept generated source.standings := by
  intro h
  have hKept := h poolSource poolRankDto [] poolRankGenerated (fun _ => .refl _)
    generateSwiss_poolRank nofun (by decide)
  obtain ⟨row, hRow⟩ := hKept.firstRound
  have hRanked := hRow.2.2.2.1
  have hRounds : row.ranked = some [1, 2] := by
    have hStored := hRow.1
    cases hStored
    rfl
  rw [hRounds] at hRanked
  revert hRanked
  decide +kernel

end MyClash.Swiss
