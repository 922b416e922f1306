import MyClash.Swiss.Engine

/-!
# A planned round loses nobody and duplicates nobody

Each closed bracket takes an initial segment of itself off the board and floats the
rest. `Progress` is the invariant of the loop over the groups: the places dealt so
far, with the fighters still waiting, are the field left after the bye.
-/

namespace MyClash.Swiss

open StableSort Pairing

universe u

variable {ι : Type u}

/-! ## Boards and warnings -/

/-- The ids on the boards of a round, in board order. -/
def boardPlaces (pairings : List (SwissPairing ι)) : List ι :=
  pairings.flatMap fun p => [p.aId, p.bId]

theorem length_boardPlaces (pairings : List (SwissPairing ι)) :
    (boardPlaces pairings).length = 2 * pairings.length := by
  induction pairings with
  | nil => rfl
  | cons p pairings ih =>
    rw [boardPlaces, List.flatMap_cons, ← boardPlaces]
    simp only [List.length_append, List.length_cons, List.length_nil, ih]
    omega

/-- The forced-rematch warnings, by the ids they name. -/
def forcedRematches (warnings : List (SwissWarning ι)) : List (List ι) :=
  (warnings.filter fun w => w.code = .forcedRematch).map (·.registrationIds)

/-- The couples of a round that meet again. -/
def rematchPairs (pairings : List (SwissPairing ι)) : List (List ι) :=
  (pairings.filter (·.rematch)).map fun p => [p.aId, p.bId]

theorem forcedRematches_append (ws ws' : List (SwissWarning ι)) :
    forcedRematches (ws ++ ws') = forcedRematches ws ++ forcedRematches ws' := by
  simp [forcedRematches]

theorem forcedRematches_eq_nil {ws : List (SwissWarning ι)}
    (h : ∀ w ∈ ws, w.code ≠ .forcedRematch) : forcedRematches ws = [] := by
  rw [forcedRematches, List.filter_eq_nil_iff.mpr (fun w hw => by simpa using h w hw), List.map_nil]

theorem forcedRematches_rematchWarning (pairings : List (SwissPairing ι)) :
    forcedRematches (pairings.filterMap rematchWarning) = rematchPairs pairings := by
  induction pairings with
  | nil => rfl
  | cons p pairings ih =>
    cases h : p.rematch with
    | false => simpa [forcedRematches, rematchPairs, rematchWarning, h] using ih
    | true => simpa [forcedRematches, rematchPairs, rematchWarning, h] using ih

theorem singletonWarnings_code (grouping : SwissGrouping)
    (groups : List (List (SwissPlayer ι))) :
    ∀ w ∈ singletonWarnings grouping groups, w.code ≠ .forcedRematch := by
  intro w hw
  cases grouping with
  | points => cases hw
  | scoreBands boundaries =>
    obtain ⟨group, _, hGroup⟩ := List.mem_filterMap.mp hw
    split at hGroup
    · cases hGroup
      nofun
    · cases hGroup

variable [LinearOrder ι]

/-! ## The rank order -/

instance : Std.TransCmp (rankOrder (ι := ι)) := by
  unfold rankOrder
  infer_instance

theorem rankOrder_eq {a b : SwissPlayer ι} (h : rankOrder a b = .eq) :
    a.registrationId = b.registrationId := by
  rw [rankOrder, compareLex_eq_eq] at h
  exact Std.LawfulEqOrd.eq_of_compare h.2

theorem sortByRank_perm (players : List (SwissPlayer ι)) : (sortByRank players).Perm players :=
  sortWith_perm players

theorem sortByRank_pairwise {players : List (SwissPlayer ι)}
    (hNodup : (players.map (·.registrationId)).Nodup) :
    (sortByRank players).Pairwise (fun a b => rankOrder a b = .lt) :=
  pairwise_lt_sortWith (·.registrationId) (fun _ _ => rankOrder_eq) hNodup

/-! ## The bye -/

/-- Of the fighters without a bye, or of all when there are none, the last in rank. -/
def IsByeChoice (players : List (SwissPlayer ι)) (p : SwissPlayer ι) : Prop :=
  p ∈ players ∧
    if ∃ q ∈ players, q.hadBye = false then
      p.hadBye = false ∧ ∀ q ∈ players, q.hadBye = false → q ≠ p → rankOrder q p = .lt
    else ∀ q ∈ players, q ≠ p → rankOrder q p = .lt

theorem takeBye_even {field : List (SwissPlayer ι)} (h : Even field.length) :
    takeBye field = (none, field) := by
  rw [takeBye, if_pos (Nat.even_iff.mp h)]

/-- In a sorted field every other member of a set whose last element is `p` ranks above it. -/
theorem rankOrder_lt_of_append {before after : List (SwissPlayer ι)} {p q : SwissPlayer ι}
    (hSorted : (before ++ p :: after).Pairwise (fun a b => rankOrder a b = .lt))
    (hq : q ∈ before ++ p :: after) (hAfter : q ∉ after) (hNe : q ≠ p) :
    rankOrder q p = .lt := by
  rcases List.mem_append.mp hq with hq | hq
  · exact (List.pairwise_append.mp hSorted).2.2 q hq p List.mem_cons_self
  · rcases List.mem_cons.mp hq with rfl | hq
    · exact absurd rfl hNe
    · exact absurd hq hAfter

theorem takeBye_odd {field : List (SwissPlayer ι)} (hOdd : ¬Even field.length)
    (hSorted : field.Pairwise (fun a b => rankOrder a b = .lt))
    (hNodup : (field.map (·.registrationId)).Nodup) :
    ∃ p, (takeBye field).1 = some p ∧ IsByeChoice field p ∧ (p :: (takeBye field).2).Perm field := by
  have hChoice : ∃ p before after, field = before ++ p :: after ∧
      (field.reverse.find? fun p => !p.hadBye).or field.getLast? = some p ∧
      IsByeChoice field p := by
    cases hFind : field.reverse.find? fun p => !p.hadBye with
    | some p =>
      obtain ⟨hp, after, before, hRev, hAfter⟩ := List.find?_eq_some_iff_append.mp hFind
      have hSplit : field = before.reverse ++ p :: after.reverse := by
        simpa using congrArg List.reverse hRev
      have hpBye : p.hadBye = false := by simpa using hp
      have hpMem : p ∈ field := by simp [hSplit]
      refine ⟨p, before.reverse, after.reverse, hSplit, rfl, hpMem, ?_⟩
      rw [if_pos ⟨p, hpMem, hpBye⟩]
      refine ⟨hpBye, fun q hq hqBye hNe => ?_⟩
      refine rankOrder_lt_of_append (hSplit ▸ hSorted) (hSplit ▸ hq) (fun hMem => ?_) hNe
      have hqTrue := hAfter q (List.mem_reverse.mp hMem)
      simp [hqBye] at hqTrue
    | none =>
      have hAll : ∀ q ∈ field, q.hadBye = true := by
        intro q hq
        simpa using List.find?_eq_none.mp hFind q (List.mem_reverse.mpr hq)
      have hNonempty : field ≠ [] := by
        rintro rfl
        simp at hOdd
      obtain ⟨before, p, hSplit⟩ := (List.eq_nil_or_concat' field).resolve_left hNonempty
      refine ⟨p, before, [], hSplit, by simp [hSplit], by simp [hSplit], ?_⟩
      rw [if_neg (by
        rintro ⟨q, hq, hqBye⟩
        rw [hAll q hq] at hqBye
        cases hqBye)]
      intro q hq hNe
      exact rankOrder_lt_of_append (hSplit ▸ hSorted) (hSplit ▸ hq) List.not_mem_nil hNe
  obtain ⟨p, before, after, hSplit, hChosen, hIs⟩ := hChoice
  have hTake : takeBye field =
      (some p, field.filter fun q => q.registrationId != p.registrationId) := by
    rw [takeBye, if_neg (fun h => hOdd (Nat.even_iff.mpr h)), hChosen]
  refine ⟨p, by rw [hTake], hIs, ?_⟩
  -- ids are distinct, so dropping by id drops the bye alone
  have hDrop : (field.filter fun q => q.registrationId != p.registrationId) = before ++ after := by
    have hIds := hNodup
    rw [hSplit, List.map_append, List.map_cons] at hIds
    have hKeep : ∀ q ∈ before ++ after, q.registrationId ≠ p.registrationId := by
      intro q hq hEq
      have hMem : p.registrationId ∈ (before ++ after).map (·.registrationId) :=
        hEq ▸ List.mem_map_of_mem hq
      rw [List.map_append] at hMem
      exact (List.nodup_cons.mp (List.nodup_middle.mp hIds)).1 hMem
    rw [hSplit, List.filter_append, List.filter_cons_of_neg (by simp), ← List.filter_append]
    exact List.filter_eq_self.mpr fun q hq => by simpa using hKeep q hq
  rw [hTake, hDrop]
  exact hSplit ▸ List.perm_middle.symm

theorem takeBye_perm {field : List (SwissPlayer ι)}
    (hSorted : field.Pairwise (fun a b => rankOrder a b = .lt))
    (hNodup : (field.map (·.registrationId)).Nodup) :
    ((takeBye field).1.toList ++ (takeBye field).2).Perm field := by
  by_cases hEven : Even field.length
  · rw [takeBye_even hEven]
    rfl
  · obtain ⟨p, hp, _, hPerm⟩ := takeBye_odd hEven hSorted hNodup
    rw [hp]
    exact hPerm

theorem takeBye_isSome_iff {field : List (SwissPlayer ι)}
    (hSorted : field.Pairwise (fun a b => rankOrder a b = .lt))
    (hNodup : (field.map (·.registrationId)).Nodup) :
    (takeBye field).1.isSome = true ↔ ¬Even field.length := by
  by_cases hEven : Even field.length
  · simp [takeBye_even hEven, hEven]
  · obtain ⟨p, hp, _⟩ := takeBye_odd hEven hSorted hNodup
    simp [hp, hEven]

theorem takeBye_rest_even {field : List (SwissPlayer ι)}
    (hSorted : field.Pairwise (fun a b => rankOrder a b = .lt))
    (hNodup : (field.map (·.registrationId)).Nodup) : Even (takeBye field).2.length := by
  by_cases hEven : Even field.length
  · rwa [takeBye_even hEven]
  · obtain ⟨p, _, _, hPerm⟩ := takeBye_odd hEven hSorted hNodup
    have hLength := hPerm.length_eq
    rw [List.length_cons] at hLength
    rw [← hLength, Nat.even_add_one, not_not] at hEven
    exact hEven

/-! ## The groups -/

theorem flatten_map_sortByRank_perm (groups : List (List (SwissPlayer ι))) :
    (groups.map sortByRank).flatten.Perm groups.flatten := by
  rw [← List.flatMap_def, ← List.flatMap_id']
  exact List.Perm.flatMap_left groups fun group _ => sortByRank_perm group

theorem groupByPoints_perm (players : List (SwissPlayer ι)) :
    (groupByPoints players).flatten.Perm players := by
  rw [groupByPoints, ← List.flatMap_def]
  refine (List.Perm.flatMap_left _ fun points _ => sortByRank_perm _).trans ?_
  exact Buckets.flatMap_bucket_perm _ players (sortWith_perm _)

theorem bandIndex_le (edges : List ℚ) (score : Option ℚ) : bandIndex edges score ≤ edges.length := by
  cases score with
  | none => exact Nat.zero_le _
  | some score => exact (List.takeWhile_sublist _).length_le

theorem bandsOf_perm (players : List (SwissPlayer ι)) (boundaries : List ℚ) :
    (bandsOf players boundaries).flatten.Perm players := by
  rw [bandsOf]
  refine (flatten_map_sortByRank_perm _).trans ((List.reverse_perm _).flatten.trans ?_)
  rw [← List.flatMap_def]
  refine Buckets.flatMap_filter_perm
    (fun p : SwissPlayer ι => bandIndex (sortWith compare boundaries.dedup) p.score) List.nodup_range fun p _ => ?_
  exact List.mem_range.mpr (Nat.lt_succ_of_le (bandIndex_le _ _))

theorem groupsOf_perm (grouping : SwissGrouping) (rest : List (SwissPlayer ι)) :
    (groupsOf grouping rest).flatten.Perm rest := by
  cases grouping with
  | points => exact groupByPoints_perm rest
  | scoreBands boundaries => exact bandsOf_perm rest boundaries

/-! ## One bracket -/

/-- What closing a bracket answers: an initial segment paired, the rest floated. -/
structure ClosedLaw (bracket : List (SwissPlayer ι)) (isLast : Bool) (closed : Closed ι) :
    Prop where
  paired : ∃ size ≤ bracket.length, (places closed.indexPairs).Perm (List.range size) ∧
    closed.floated = bracket.drop size ∧ (isLast = true → size = bracket.length)
  ordered : ∀ p ∈ closed.indexPairs, p.1 < p.2
  warned : ∀ w ∈ closed.warnings, w.code ≠ .forcedRematch

theorem closePrefix_law (bracket : List (SwissPlayer ι)) (method : SwissPairingMethod) :
    ∀ (half : ℕ) (budget : SearchBudget), 2 * half ≤ bracket.length →
      ClosedLaw bracket false (closePrefix bracket method half budget)
  | 0, budget, _ => ⟨⟨0, Nat.zero_le _, .nil, rfl, nofun⟩, nofun, nofun⟩
  | half + 1, budget, hSize => by
    rw [closePrefix]
    split
    · rename_i solved budget' hSearch
      obtain ⟨hPlaces, hFree⟩ := searchMatching_some (congrArg Prod.fst hSearch)
      exact ⟨⟨_, hSize, hPlaces, rfl, nofun⟩, fun p hp => (hFree p hp).2, nofun⟩
    · exact closePrefix_law bracket method half _ (by omega)

theorem closeBracket_law {bracket : List (SwissPlayer ι)} {isLast : Bool}
    (hEven : isLast = true → Even bracket.length) (method : SwissPairingMethod)
    (budget : SearchBudget) : ClosedLaw bracket isLast (closeBracket bracket method isLast budget) := by
  rw [closeBracket]
  cases isLast with
  | false => exact closePrefix_law bracket method _ budget (Nat.mul_div_le _ _)
  | true =>
    rw [if_pos rfl]
    split
    · rename_i hEmpty
      have hNil : bracket = [] := List.length_eq_zero_iff.mp hEmpty
      exact ⟨⟨0, Nat.zero_le _, .nil, by rw [hNil]; rfl, fun _ => hEmpty.symm⟩, nofun, nofun⟩
    · split
      · rename_i solved budget' hSearch
        obtain ⟨hPlaces, hFree⟩ := searchMatching_some (congrArg Prod.fst hSearch)
        exact ⟨⟨_, le_rfl, hPlaces, List.drop_length.symm, fun _ => rfl⟩,
          fun p hp => (hFree p hp).2, nofun⟩
      · refine ⟨⟨_, le_rfl, idealPairs_perm (hEven rfl) method, List.drop_length.symm,
          fun _ => rfl⟩, fun p hp => idealPairs_lt hp, ?_⟩
        intro w hw
        rw [List.mem_singleton.mp hw]
        nofun

theorem toPairings_cons {bracket : List (SwissPlayer ι)} {x y : ℕ} (hx : x < bracket.length)
    (hy : y < bracket.length) (paired : ℕ) (indexPairs : List IndexPair) :
    toPairings bracket paired ((x, y) :: indexPairs) =
      toPairing bracket[x] bracket[y] paired (haveMetLookup bracket x y) ::
        toPairings bracket (paired + 1) indexPairs := by
  rw [toPairings, List.getElem?_eq_getElem hx, List.getElem?_eq_getElem hy]

theorem toPairings_board {bracket : List (SwissPlayer ι)} {indexPairs : List IndexPair}
    (hRange : ∀ i ∈ places indexPairs, i < bracket.length) (paired : ℕ) :
    (toPairings bracket paired indexPairs).map (·.board) =
      List.range' (paired + 1) indexPairs.length := by
  induction indexPairs generalizing paired with
  | nil => rfl
  | cons p indexPairs ih =>
    obtain ⟨x, y⟩ := p
    simp only [places_cons, List.forall_mem_cons] at hRange
    rw [toPairings_cons hRange.1 hRange.2.1, List.map_cons, ih hRange.2.2]
    rfl

theorem toPairings_length {bracket : List (SwissPlayer ι)} {indexPairs : List IndexPair}
    (hRange : ∀ i ∈ places indexPairs, i < bracket.length) (paired : ℕ) :
    (toPairings bracket paired indexPairs).length = indexPairs.length := by
  simpa using congrArg List.length (toPairings_board hRange paired)

theorem toPairings_places {bracket : List (SwissPlayer ι)} {indexPairs : List IndexPair}
    (hRange : ∀ i ∈ places indexPairs, i < bracket.length) (paired : ℕ) :
    boardPlaces (toPairings bracket paired indexPairs) =
      (places indexPairs).filterMap fun i => bracket[i]?.map (·.registrationId) := by
  induction indexPairs generalizing paired with
  | nil => rfl
  | cons p indexPairs ih =>
    obtain ⟨x, y⟩ := p
    simp only [places_cons, List.forall_mem_cons] at hRange
    rw [toPairings_cons hRange.1 hRange.2.1, boardPlaces, List.flatMap_cons, ← boardPlaces,
      ih hRange.2.2]
    simp [toPairing, List.getElem?_eq_getElem hRange.1, List.getElem?_eq_getElem hRange.2.1]

theorem filterMap_range_getElem? {α β : Type*} (f : α → β) (l : List α) {size : ℕ}
    (h : size ≤ l.length) :
    (List.range size).filterMap (fun i => l[i]?.map f) = (l.take size).map f := by
  induction size with
  | zero => rfl
  | succ size ih =>
    rw [List.range_succ, List.filterMap_append, ih (by omega), List.take_add_one, List.map_append]
    simp [List.getElem?_eq_getElem (show size < l.length by omega)]

/-- What a pairing of the round says about its two fighters. -/
def PairingOf (field : List (SwissPlayer ι)) (p : SwissPairing ι) : Prop :=
  ∃ a ∈ field, ∃ b ∈ field, p.aId = a.registrationId ∧ p.bId = b.registrationId ∧
    rankOrder a b = .lt ∧ (p.rematch = true ↔ HaveMet a b)

theorem toPairings_pairingOf {bracket : List (SwissPlayer ι)} {indexPairs : List IndexPair}
    (hSorted : bracket.Pairwise (fun a b => rankOrder a b = .lt))
    (hNodup : (bracket.map (·.registrationId)).Nodup)
    (hRange : ∀ i ∈ places indexPairs, i < bracket.length)
    (hOrdered : ∀ p ∈ indexPairs, p.1 < p.2) (paired : ℕ) :
    ∀ p ∈ toPairings bracket paired indexPairs, PairingOf bracket p := by
  induction indexPairs generalizing paired with
  | nil => nofun
  | cons p indexPairs ih =>
    obtain ⟨x, y⟩ := p
    simp only [places_cons, List.forall_mem_cons] at hRange hOrdered
    rw [toPairings_cons hRange.1 hRange.2.1]
    intro q hq
    rcases List.mem_cons.mp hq with rfl | hq
    · refine ⟨_, List.getElem_mem hRange.1, _, List.getElem_mem hRange.2.1, rfl, rfl, ?_, ?_⟩
      · exact List.pairwise_iff_getElem.mp hSorted x y hRange.1 hRange.2.1 hOrdered.1
      · exact haveMetLookup_iff hNodup (List.getElem?_eq_getElem hRange.1)
          (List.getElem?_eq_getElem hRange.2.1)
    · exact ih hRange.2.2 hOrdered.2 _ q hq

/-! ## The loop over the groups -/

structure Progress (rest : List (SwissPlayer ι)) (groups : List (List (SwissPlayer ι)))
    (s : PlanState ι) : Prop where
  /-- Places dealt and fighters waiting are together the field. -/
  places : (boardPlaces s.pairings ++
    (s.carried ++ groups.flatten).map (·.registrationId)).Perm (rest.map (·.registrationId))
  waiting : ∀ p ∈ s.carried ++ groups.flatten, p ∈ rest
  done : groups = [] → s.carried = []
  boards : s.pairings.map (·.board) = List.range' 1 s.pairings.length
  pairings : ∀ p ∈ s.pairings, PairingOf rest p
  warnings : forcedRematches s.warnings = rematchPairs s.pairings

theorem Progress.waiting_even {rest : List (SwissPlayer ι)} {groups : List (List (SwissPlayer ι))}
    {s : PlanState ι} (h : Progress rest groups s) (hEven : Even rest.length) :
    Even (s.carried ++ groups.flatten).length := by
  have hLength := h.places.length_eq
  rw [List.length_append, length_boardPlaces, List.length_map, List.length_map] at hLength
  rw [Nat.even_iff] at hEven ⊢
  omega

/-- The bracket of the next group: the fighters floated down, then the group. -/
def nextBracket (s : PlanState ι) (group : List (SwissPlayer ι)) : List (SwissPlayer ι) :=
  sortByRank (s.carried ++ group)

theorem nextBracket_perm (s : PlanState ι) (group : List (SwissPlayer ι)) :
    (nextBracket s group).Perm (s.carried ++ group) := sortByRank_perm _

omit [LinearOrder ι] in
theorem waiting_cons (s : PlanState ι) (group : List (SwissPlayer ι))
    (groups : List (List (SwissPlayer ι))) :
    s.carried ++ (group :: groups).flatten = (s.carried ++ group) ++ groups.flatten := by
  rw [List.flatten_cons, List.append_assoc]

section Step

variable {rest group : List (SwissPlayer ι)} {groups : List (List (SwissPlayer ι))}
  {s : PlanState ι}

theorem Progress.bracket_nodup (h : Progress rest (group :: groups) s)
    (hNodup : (rest.map (·.registrationId)).Nodup) :
    ((nextBracket s group).map (·.registrationId)).Nodup := by
  have hRight := (List.nodup_append.mp (h.places.nodup_iff.mpr hNodup)).2.1
  rw [waiting_cons, List.map_append] at hRight
  exact ((nextBracket_perm s group).map _).nodup_iff.mpr (List.nodup_append.mp hRight).1

theorem Progress.bracket_even (h : Progress rest (group :: groups) s) (hEven : Even rest.length)
    (hLast : groups.isEmpty = true) : Even (nextBracket s group).length := by
  have hWaiting := h.waiting_even hEven
  rw [waiting_cons, List.isEmpty_iff.mp hLast, List.flatten_nil, List.append_nil] at hWaiting
  rwa [(nextBracket_perm s group).length_eq]

theorem Progress.mem_bracket (h : Progress rest (group :: groups) s) :
    ∀ p ∈ nextBracket s group, p ∈ rest := by
  intro p hp
  refine h.waiting p ?_
  rw [waiting_cons]
  exact List.mem_append_left _ ((nextBracket_perm s group).mem_iff.mp hp)

theorem nextBracket_pairwise (hNodup : ((nextBracket s group).map (·.registrationId)).Nodup) :
    (nextBracket s group).Pairwise (fun a b => rankOrder a b = .lt) :=
  sortByRank_pairwise (((nextBracket_perm s group).map _).nodup_iff.mp hNodup)

theorem Progress.pairGroup (h : Progress rest (group :: groups) s) (hEven : Even rest.length)
    (hNodup : (rest.map (·.registrationId)).Nodup) (method : SwissPairingMethod) :
    Progress rest groups (pairGroup method groups.isEmpty group s) := by
  have hBracketNodup := h.bracket_nodup hNodup
  have hSorted := nextBracket_pairwise hBracketNodup
  have hMem := h.mem_bracket
  set bracket := nextBracket s group with hBracket
  have hPerm : bracket.Perm (s.carried ++ group) := nextBracket_perm s group
  obtain ⟨⟨size, hSize, hPlaces, hFloated, hAll⟩, hOrdered, hWarned⟩ :=
    closeBracket_law (h.bracket_even hEven) method s.budget
  have hRange : ∀ i ∈ Pairing.places
      (closeBracket bracket method groups.isEmpty s.budget).indexPairs, i < bracket.length :=
    fun i hi => (List.mem_range.mp (hPlaces.mem_iff.mp hi)).trans_le hSize
  have hDealt : (boardPlaces (toPairings bracket s.pairings.length
      (closeBracket bracket method groups.isEmpty s.budget).indexPairs)).Perm
      ((bracket.take size).map (·.registrationId)) := by
    rw [toPairings_places hRange, ← filterMap_range_getElem? _ _ hSize]
    exact hPlaces.filterMap _
  constructor
  · -- the segment dealt and the rest floated rebuild the bracket
    rw [Swiss.pairGroup, ← nextBracket, ← hBracket]
    simp only
    rw [hFloated]
    refine List.Perm.trans ?_ h.places
    rw [boardPlaces, List.flatMap_append, ← boardPlaces, ← boardPlaces, List.append_assoc]
    refine List.Perm.append_left _ ?_
    rw [waiting_cons, List.map_append, List.map_append, ← List.append_assoc]
    refine List.Perm.append_right _ ((hDealt.append_right _).trans ?_)
    rw [← List.map_append, List.take_append_drop]
    exact hPerm.map _
  · rw [Swiss.pairGroup, ← nextBracket, ← hBracket]
    simp only
    rw [hFloated]
    intro p hp
    rcases List.mem_append.mp hp with hp | hp
    · exact hMem p (List.mem_of_mem_drop hp)
    · exact h.waiting p (by
        rw [waiting_cons]
        exact List.mem_append_right _ hp)
  · rintro rfl
    rw [Swiss.pairGroup, ← nextBracket, ← hBracket]
    simp only
    rw [hFloated, hAll rfl, List.drop_length]
  · rw [Swiss.pairGroup, ← nextBracket, ← hBracket]
    simp only
    rw [List.map_append, h.boards, toPairings_board hRange, List.length_append,
      toPairings_length hRange, Nat.add_comm s.pairings.length 1,
      show List.range' (1 + s.pairings.length) _ = List.range' (1 + 1 * s.pairings.length) _ by
        rw [Nat.one_mul], List.range'_append]
  · rw [Swiss.pairGroup, ← nextBracket, ← hBracket]
    intro p hp
    rcases List.mem_append.mp hp with hp | hp
    · exact h.pairings p hp
    · obtain ⟨a, ha, b, hb, hRest⟩ :=
        toPairings_pairingOf hSorted hBracketNodup hRange hOrdered _ p hp
      exact ⟨a, hMem a ha, b, hMem b hb, hRest⟩
  · rw [Swiss.pairGroup, ← nextBracket, ← hBracket]
    simp only
    rw [forcedRematches_append, forcedRematches_append, forcedRematches_eq_nil hWarned,
      List.append_nil, h.warnings, forcedRematches_rematchWarning, rematchPairs, rematchPairs,
      rematchPairs, List.filter_append, List.map_append]

end Step

theorem Progress.pairGroups {rest : List (SwissPlayer ι)} (hEven : Even rest.length)
    (hNodup : (rest.map (·.registrationId)).Nodup) (method : SwissPairingMethod) :
    ∀ {groups : List (List (SwissPlayer ι))} {s : PlanState ι}, Progress rest groups s →
      Progress rest [] (pairGroups method groups s)
  | [], _, h => h
  | _ :: _, _, h => (h.pairGroup hEven hNodup method).pairGroups hEven hNodup method

theorem progress_start {rest : List (SwissPlayer ι)} {groups : List (List (SwissPlayer ι))}
    (hGroups : groups.flatten.Perm rest) {warnings : List (SwissWarning ι)}
    (hWarnings : ∀ w ∈ warnings, w.code ≠ .forcedRematch) (budget : SearchBudget) :
    Progress rest groups ⟨[], [], budget, warnings⟩ where
  places := hGroups.map _
  waiting := fun _ hp => hGroups.mem_iff.mp hp
  done := fun _ => rfl
  boards := rfl
  pairings := nofun
  warnings := forcedRematches_eq_nil hWarnings

/-! ## The whole round -/

/-- Every id a round deals a place to: the boards, then the bye. -/
def planPlaces (plan : SwissRoundPlan ι) : List ι :=
  boardPlaces plan.pairings ++ plan.byeRegistrationId.toList

structure RoundLaw (players : List (SwissPlayer ι)) (plan : SwissRoundPlan ι) : Prop where
  everyoneOnce : ∀ id, (planPlaces plan).count id =
    if id ∈ players.map (·.registrationId) then 1 else 0
  byeWhenOdd : plan.byeRegistrationId.isSome = true ↔ ¬Even players.length
  byeChoice : ∀ id, plan.byeRegistrationId = some id →
    ∃ p, p.registrationId = id ∧ IsByeChoice players p
  boards : plan.pairings.map (·.board) = List.range' 1 plan.pairings.length
  pairings : ∀ p ∈ plan.pairings, PairingOf players p
  warnings : forcedRematches plan.warnings = rematchPairs plan.pairings

theorem RoundLaw.nodup_planPlaces {players : List (SwissPlayer ι)} {plan : SwissRoundPlan ι}
    (h : RoundLaw players plan) : (planPlaces plan).Nodup := by
  refine List.nodup_iff_count_le_one.mpr fun id => ?_
  rw [h.everyoneOnce]
  split
  · exact le_rfl
  · exact Nat.zero_le _

theorem RoundLaw.mem_planPlaces {players : List (SwissPlayer ι)} {plan : SwissRoundPlan ι}
    (h : RoundLaw players plan) {id : ι} :
    id ∈ planPlaces plan ↔ id ∈ players.map (·.registrationId) := by
  rw [← List.count_pos_iff, h.everyoneOnce]
  split
  · exact iff_of_true Nat.one_pos ‹_›
  · exact iff_of_false (lt_irrefl 0) ‹_›

theorem IsByeChoice.perm {players players' : List (SwissPlayer ι)} {p : SwissPlayer ι}
    (hPerm : players.Perm players') (h : IsByeChoice players p) : IsByeChoice players' p := by
  simpa only [IsByeChoice, hPerm.mem_iff] using h

theorem planState_progress {players : List (SwissPlayer ι)} (opts : SwissOptions)
    (hNodup : (players.map (·.registrationId)).Nodup) :
    Progress (takeBye (sortByRank players)).2 [] (planState players opts) := by
  have hSorted := sortByRank_pairwise hNodup
  have hFieldNodup : ((sortByRank players).map (·.registrationId)).Nodup :=
    nodup_map_sortWith _ hNodup
  have hRestNodup : ((takeBye (sortByRank players)).2.map (·.registrationId)).Nodup := by
    have hAll := ((takeBye_perm hSorted hFieldNodup).map (·.registrationId)).nodup_iff.mpr hFieldNodup
    rw [List.map_append] at hAll
    exact (List.nodup_append.mp hAll).2.1
  exact (progress_start (groupsOf_perm _ _) (singletonWarnings_code _ _) newBudget).pairGroups
    (takeBye_rest_even hSorted hFieldNodup) hRestNodup opts.pairingMethod

theorem planState_length {players : List (SwissPlayer ι)} (opts : SwissOptions)
    (hNodup : (players.map (·.registrationId)).Nodup) :
    2 * (planState players opts).pairings.length = (takeBye (sortByRank players)).2.length := by
  have hProgress := planState_progress opts hNodup
  have hLength := hProgress.places.length_eq
  rw [List.length_append, length_boardPlaces, hProgress.done rfl] at hLength
  simpa using hLength

theorem planSwissRound_roundLaw {players : List (SwissPlayer ι)} (opts : SwissOptions)
    (hNodup : (players.map (·.registrationId)).Nodup) :
    RoundLaw players (planSwissRound players opts) := by
  have hPerm := sortByRank_perm players
  rw [planSwissRound]
  split
  · rename_i hEmpty
    have hNil : players = [] := by simpa [sortByRank] using hEmpty
    subst hNil
    exact ⟨fun id => rfl, by simp, nofun, rfl, nofun, rfl⟩
  · have hSorted := sortByRank_pairwise hNodup
    have hFieldNodup : ((sortByRank players).map (·.registrationId)).Nodup :=
      nodup_map_sortWith _ hNodup
    have hProgress := planState_progress opts hNodup
    have hTake := takeBye_perm hSorted hFieldNodup
    have hRest : ∀ p ∈ (takeBye (sortByRank players)).2, p ∈ players := fun p hp =>
      hPerm.mem_iff.mp (hTake.mem_iff.mp (List.mem_append_right _ hp))
    constructor
    · have hBoards := hProgress.places
      rw [hProgress.done rfl, List.flatten_nil, List.append_nil, List.map_nil, List.append_nil]
        at hBoards
      have hAll : (planPlaces ⟨(planState players opts).pairings,
          (takeBye (sortByRank players)).1.map (·.registrationId),
          (planState players opts).warnings⟩).Perm (players.map (·.registrationId)) := by
        refine (hBoards.append_right _).trans (List.perm_append_comm.trans ?_)
        rw [Option.toList_map, ← List.map_append]
        exact (hTake.trans hPerm).map _
      intro id
      rw [hAll.count_eq]
      split
      · rename_i hMem
        exact List.count_eq_one_of_mem hNodup hMem
      · rename_i hMem
        exact List.count_eq_zero_of_not_mem hMem
    · rw [Option.isSome_map, takeBye_isSome_iff hSorted hFieldNodup, hPerm.length_eq]
    · intro id hid
      obtain ⟨p, hp, rfl⟩ := Option.map_eq_some_iff.mp hid
      have hOdd := (takeBye_isSome_iff hSorted hFieldNodup).mp (by rw [hp]; rfl)
      obtain ⟨q, hq, hChoice, _⟩ := takeBye_odd hOdd hSorted hFieldNodup
      obtain rfl : p = q := Option.some.inj (hp.symm.trans hq)
      exact ⟨p, rfl, hChoice.perm hPerm⟩
    · exact hProgress.boards
    · intro p hp
      obtain ⟨a, ha, b, hb, hPair⟩ := hProgress.pairings p hp
      exact ⟨a, hRest a ha, b, hRest b hb, hPair⟩
    · exact hProgress.warnings

/-- The byes of a run of rounds on one field, each round told who has had one. -/
inductive ByeRun (field : List ι) : List ι → Prop
  | start : ByeRun field []
  | round {history : List ι} (players : List (SwissPlayer ι)) (opts : SwissOptions)
      (run : ByeRun field history) (sameField : (players.map (·.registrationId)).Perm field)
      (told : ∀ p ∈ players, p.hadBye = true ↔ p.registrationId ∈ history) :
      ByeRun field (history ++ (planSwissRound players opts).byeRegistrationId.toList)

/-- A fighter who has had a bye gets another only when nobody is without one. -/
theorem ByeRun.nodup_or_everyone {field history : List ι} (hField : field.Nodup)
    (h : ByeRun field history) : history.Nodup ∨ ∀ id ∈ field, id ∈ history := by
  induction h with
  | start => exact Or.inl List.nodup_nil
  | @round history players opts _ sameField told ih =>
    rcases ih with hNodup | hAll
    · cases hBye : (planSwissRound players opts).byeRegistrationId with
      | none => exact Or.inl (by simpa using hNodup)
      | some id =>
        obtain ⟨p, rfl, hp, hChoice⟩ :=
          (planSwissRound_roundLaw opts (sameField.nodup_iff.mpr hField)).byeChoice id hBye
        by_cases hSome : ∃ q ∈ players, q.hadBye = false
        · rw [if_pos hSome] at hChoice
          have hNew : p.registrationId ∉ history := fun hMem => by
            have hTrue := (told p hp).mpr hMem
            rw [hChoice.1] at hTrue
            cases hTrue
          exact Or.inl (List.nodup_append.mpr ⟨hNodup, List.nodup_singleton _, by
            rintro a ha b hb rfl
            exact hNew (List.mem_singleton.mp hb ▸ ha)⟩)
        · refine Or.inr fun id hid => List.mem_append_left _ ?_
          obtain ⟨q, hq, rfl⟩ := List.mem_map.mp (sameField.mem_iff.mpr hid)
          refine (told q hq).mp ?_
          cases hHad : q.hadBye with
          | true => rfl
          | false => exact absurd ⟨q, hq, hHad⟩ hSome
    · exact Or.inr fun id hid => List.mem_append_left _ (hAll id hid)

theorem planSwissRound_lawful :
    (∀ (players : List (SwissPlayer ι)) (opts : SwissOptions),
      (players.map (·.registrationId)).Nodup → RoundLaw players (planSwissRound players opts)) ∧
    ∀ (field history : List ι), field.Nodup → ByeRun field history →
      history.Nodup ∨ ∀ id ∈ field, id ∈ history :=
  ⟨fun _ opts hNodup => planSwissRound_roundLaw opts hNodup, fun _ _ => ByeRun.nodup_or_everyone⟩

/-- Three level fighters on a points round: the last in rank sits out. -/
theorem planSwissRound_lawful_three :
    RoundLaw [⟨1, 0, none, [], false, 1⟩, ⟨2, 0, none, [], false, 2⟩, ⟨3, 0, none, [], false, 3⟩]
      (planSwissRound
        [⟨1, 0, none, [], false, 1⟩, ⟨2, 0, none, [], false, 2⟩, ⟨3, 0, none, [], false, 3⟩]
        ⟨.fold, .points⟩) ∧
    ([3] : List ℕ).Nodup :=
  ⟨planSwissRound_lawful.1 _ _ (by decide),
    (planSwissRound_lawful.2 [1, 2, 3] [3] (by decide)
      (.round [⟨1, 0, none, [], false, 1⟩, ⟨2, 0, none, [], false, 2⟩, ⟨3, 0, none, [], false, 3⟩]
        ⟨.fold, .points⟩ .start (by simp) (by simp))).resolve_right (by decide)⟩

end MyClash.Swiss
