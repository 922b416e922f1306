import MyClash.Schedule.BranchTree
import MyClash.Schedule.SchedulerLaw

/-!
# What feeds a bout and when it ends

A unit runs on one lice in the order of the rounds, so inside a unit a bout waits for what feeds
it. What converges is laid on the lice of the last anchor alone, and waits for the other lices
only where a fighter is still held there.
-/

namespace MyClash.Schedule

open StableSort Buckets ListSchedule
open MyClash.Bracket

universe v w

/-- Who stands in each slot so far, and how long each bout is planned. -/
structure BracketDay (φ : Type v) where
  red : SlotRef → Option φ
  blue : SlotRef → Option φ
  minutes : SlotRef → ℚ
  positive : ∀ r, 0 < minutes r

section Day

variable {φ : Type v} {κ : Type w}

def BracketDay.bout (day : BracketDay φ) (r : SlotRef) : SchedulerMatch SlotRef φ where
  id := r
  redRegistrationId := day.red r
  blueRegistrationId := day.blue r
  estimatedDurationMinutes := day.minutes r
  poolId := none
  poolSortOrder := none
  matchNumberLabel := none
  bracketRound := some r.round
  bracketPosition := some r.position
  wbRounds := none
  lbRounds := none

def BracketDay.bouts (day : BracketDay φ) (b : SingleElimBracket) :
    List (SchedulerMatch SlotRef φ) :=
  (refsOf b).map day.bout

/-- A bracket is laid by its branches. -/
structure BranchOptions (options : SchedulerOptions κ) : Prop where
  affinity : options.poolAffinity = some .bracketBranch
  transition : 0 ≤ options.transitionMinutes
  midRest : 0 ≤ options.midRestMinutes

/-- Every slot is on the board once, and no bout starts before one that feeds it is over. -/
structure OrderLaw (b : SingleElimBracket) (rows : List (ScheduledMatch SlotRef κ)) : Prop where
  once : (rows.map (·.matchId)).Perm (refsOf b)
  fed : ∀ t s, Feeds b t s → ∀ x ∈ rows, x.matchId = t → ∀ y ∈ rows, y.matchId = s →
    x.estimatedEndAt ≤ y.scheduledAt

/-! ## The queues of the lices -/

/-- The converging slots stand behind the last anchor. -/
def joinLast (queues : List (List SlotRef)) (tail : List SlotRef) : List (List SlotRef) :=
  match queues.getLast? with
  | some last => queues.dropLast ++ [last ++ tail]
  | none => [tail]

def joinUnits (units : List (BranchUnit SlotRef)) : List (List SlotRef) :=
  match units.find? fun u => u.kind = .converge with
  | some u => joinLast ((anchorUnits units).map (·.matchIds)) u.matchIds
  | none => (anchorUnits units).map (·.matchIds)

def queuesOf (b : SingleElimBracket) (liceCount : ℕ) : List (List SlotRef) :=
  joinUnits (branchesOf b liceCount).units

def BracketDay.job (day : BracketDay φ) (lice : SchedulerLice κ) (r : SlotRef) :
    Assigned SlotRef φ κ :=
  ⟨day.bout r, lice, 0⟩

def BracketDay.jobs (day : BracketDay φ) (b : SingleElimBracket) (lices : List (SchedulerLice κ)) :
    List (Assigned SlotRef φ κ) :=
  (deal lices (queuesOf b lices.length)).flatMap fun entry => entry.2.map (day.job entry.1)

theorem bouts_appendTail (built : List (SchedulerUnit SlotRef φ)) (day : BracketDay φ)
    (queues : List (List SlotRef)) (tail : List SlotRef)
    (h : built.map (·.bouts) = queues.map (·.map day.bout)) :
    (appendTail built (tail.map day.bout)).map (·.bouts) =
      (joinLast queues tail).map (·.map day.bout) := by
  have hLast := congrArg List.getLast? h
  rw [List.getLast?_map, List.getLast?_map] at hLast
  have hInit := congrArg List.dropLast h
  rw [← List.map_dropLast, ← List.map_dropLast] at hInit
  rw [appendTail, joinLast]
  cases hBuilt : built.getLast? with
  | none =>
    cases hQueue : queues.getLast? with
    | none => rfl
    | some queue =>
      rw [hBuilt, hQueue] at hLast
      cases hLast
  | some unit =>
    cases hQueue : queues.getLast? with
    | none =>
      rw [hBuilt, hQueue] at hLast
      cases hLast
    | some queue =>
      rw [hBuilt, hQueue] at hLast
      have hBouts : unit.bouts = queue.map day.bout := Option.some.inj hLast
      simp only [List.map_append, List.map_cons, List.map_nil, hInit, hBouts]

theorem poolId_appendTail {built : List (SchedulerUnit SlotRef φ)}
    (h : ∀ unit ∈ built, unit.poolId = none) (tail : List (SchedulerMatch SlotRef φ)) :
    ∀ unit ∈ appendTail built tail, unit.poolId = none := by
  intro unit hUnit
  rw [appendTail] at hUnit
  split at hUnit
  · rename_i last hLast
    rcases List.mem_append.mp hUnit with hUnit | hUnit
    · exact h unit (List.dropLast_subset _ hUnit)
    · rw [List.mem_singleton.mp hUnit]
      exact h last (List.mem_of_getLast? hLast)
  · rw [List.mem_singleton.mp hUnit]

theorem filterMap_slot_bouts (day : BracketDay φ) (b : SingleElimBracket) :
    (day.bouts b).filterMap (·.slot) = inputsOf b := by
  rw [BracketDay.bouts, List.filterMap_map, inputsOf, ← List.filterMap_eq_map]
  rfl

theorem bracketShape_bouts (day : BracketDay φ) (b : SingleElimBracket) :
    bracketShape (day.bouts b) = ⟨none, none⟩ := by
  rw [bracketShape, List.find?_eq_none.mpr]
  intro m hm
  obtain ⟨r, -, rfl⟩ := List.mem_map.mp hm
  exact fun h => Bool.noConfusion h

/-- Every bout of a bracket has a slot. -/
theorem branchUnits_bouts (day : BracketDay φ) (b : SingleElimBracket) (liceCount : ℕ) :
    branchUnits (day.bouts b) liceCount =
      builtUnits (day.bouts b) (branchesOf b liceCount).units := by
  have hNone : (day.bouts b).filter (fun m => m.slot.isNone) = [] := by
    refine List.filter_eq_nil_iff.mpr fun m hm => ?_
    obtain ⟨r, -, rfl⟩ := List.mem_map.mp hm
    exact Bool.false_ne_true
  rw [branchUnits, hNone, filterMap_slot_bouts, bracketShape_bouts, List.map_nil, List.append_nil]
  rfl

theorem map_id_bouts (day : BracketDay φ) (b : SingleElimBracket) :
    (day.bouts b).map (·.id) = refsOf b := by
  rw [BracketDay.bouts, List.map_map]
  exact List.map_id _

theorem toUnit_bouts {day : BracketDay φ} {b : SingleElimBracket} (hNodup : (refsOf b).Nodup)
    {ids : List SlotRef} (hIds : ids ⊆ refsOf b) :
    toUnit (day.bouts b) ids = ids.map day.bout := by
  have hMap : (ids.map day.bout).map (·.id) = ids := by
    rw [List.map_map]
    exact List.map_id _
  have hMem : ∀ m ∈ ids.map day.bout, m ∈ day.bouts b := by
    intro m hm
    obtain ⟨r, hr, rfl⟩ := List.mem_map.mp hm
    exact List.mem_map_of_mem (hIds hr)
  have hUnit := toUnit_map_id ((map_id_bouts day b).symm ▸ hNodup) hMem
  rwa [hMap] at hUnit

theorem ids_subset (b : SingleElimBracket) (liceCount : ℕ) :
    ∀ unit ∈ (branchesOf b liceCount).units, unit.matchIds ⊆ refsOf b := by
  intro unit hUnit r hr
  rw [← map_matchId_inputsOf]
  exact (grouped_groupBracketBranches _ _ _).perm.subset
    (List.mem_flatMap.mpr ⟨unit, hUnit, hr⟩)

theorem bouts_builtUnits {day : BracketDay φ} {b : SingleElimBracket} (hNodup : (refsOf b).Nodup)
    (liceCount : ℕ) :
    (builtUnits (day.bouts b) (branchesOf b liceCount).units).map (·.bouts) =
      (queuesOf b liceCount).map (·.map day.bout) := by
  have hIds := ids_subset b liceCount
  have hBuilt : ((anchorUnits (branchesOf b liceCount).units).mapIdx
      (branchUnit (day.bouts b))).map (·.bouts) =
      ((anchorUnits (branchesOf b liceCount).units).map (·.matchIds)).map (·.map day.bout) := by
    refine List.ext_getElem (by simp) fun i hi hi' => ?_
    rw [List.getElem_map, List.getElem_mapIdx, List.getElem_map, List.getElem_map]
    exact toUnit_bouts hNodup (hIds _ (List.mem_of_mem_filter (List.getElem_mem _)))
  rw [builtUnits, queuesOf, joinUnits]
  cases hFind : (branchesOf b liceCount).units.find? fun u => u.kind = .converge with
  | none => exact hBuilt
  | some u =>
    dsimp only
    rw [toUnit_bouts hNodup (hIds u (List.mem_of_find?_eq_some hFind))]
    exact bouts_appendTail _ day _ _ hBuilt

theorem poolId_builtUnits (bouts : List (SchedulerMatch SlotRef φ))
    (units : List (BranchUnit SlotRef)) : ∀ unit ∈ builtUnits bouts units, unit.poolId = none := by
  have hBuilt : ∀ unit ∈ (anchorUnits units).mapIdx (branchUnit bouts), unit.poolId = none := by
    intro unit hUnit
    obtain ⟨i, hi, rfl⟩ := List.mem_mapIdx.mp hUnit
    rfl
  rw [builtUnits]
  split
  · exact poolId_appendTail hBuilt _
  · exact hBuilt

/-- The scheduler lays the queues, each on its lice, without a rest. -/
theorem jobsOf_bouts {day : BracketDay φ} {b : SingleElimBracket} (hNodup : (refsOf b).Nodup)
    {options : SchedulerOptions κ} (hOptions : BranchOptions options) (host : Host)
    (lices : List (SchedulerLice κ)) :
    jobsOf host options (day.bouts b) lices = day.jobs b lices := by
  have hUnit : ∀ entry ∈ assignLices lices (branchUnits (day.bouts b) lices.length),
      unitJobs options .bracketBranch entry = entry.2.bouts.map fun m => ⟨m, entry.1, 0⟩ := by
    intro entry hEntry
    have hPool : entry.2.poolId = none := by
      have hMem := (mem_assignLices hEntry).2
      rw [branchUnits_bouts] at hMem
      exact poolId_builtUnits _ _ _ hMem
    have hRest : restAfter entry.2 = 0 := by rw [restAfter, hPool, Option.isSome_none, if_neg (by rintro ⟨⟩)]
    rw [unitJobs, hRest]
    conv_rhs => rw [← List.zipIdx_map_fst 0 entry.2.bouts, List.map_map]
    exact List.map_congr_left fun e _ => rfl
  have hDeal : deal lices ((queuesOf b lices.length).map (·.map day.bout)) =
      (assignLices lices (branchUnits (day.bouts b) lices.length)).map
        (Prod.map id (·.bouts)) := by
    rw [branchUnits_bouts, ← bouts_builtUnits hNodup, deal_map]
    rfl
  rw [jobsOf, hOptions.affinity]
  change (assignLices lices (branchUnits (day.bouts b) lices.length)).flatMap
    (unitJobs options .bracketBranch) = _
  rw [List.flatMap_congr hUnit]
  have hJobs : ((assignLices lices (branchUnits (day.bouts b) lices.length)).map
      (Prod.map id (·.bouts))).flatMap (fun entry => entry.2.map fun m =>
        (⟨m, entry.1, 0⟩ : Assigned SlotRef φ κ)) =
      (assignLices lices (branchUnits (day.bouts b) lices.length)).flatMap fun entry =>
        entry.2.bouts.map fun m => ⟨m, entry.1, 0⟩ := by
    rw [List.flatMap_map]
    rfl
  rw [← hJobs, ← hDeal, deal_map, List.flatMap_map, BracketDay.jobs]
  refine List.flatMap_congr fun entry _ => ?_
  exact List.map_map

/-- Dealt to no more queues than there are lices, the first lice takes one queue only. -/
theorem deal_cons {α : Type*} {lices : List (SchedulerLice κ)} (hIds : (lices.map (·.id)).Nodup)
    (queue : α) {queues : List α} (hLices : queues.length + 1 ≤ lices.length) :
    ∃ lice rest, deal lices (queue :: queues) = (lice, queue) :: rest ∧
      rest.map Prod.snd = queues ∧ ∀ entry ∈ rest, entry.1.id ≠ lice.id := by
  have hLength : (liceByIndex lices).length = lices.length := length_sortWith lices
  have hNodup : ((liceByIndex lices).map (·.id)).Nodup := nodup_map_sortWith _ hIds
  have hZero : 0 % lices.length < (liceByIndex lices).length := by
    rw [Nat.zero_mod]
    omega
  refine ⟨(liceByIndex lices)[0 % lices.length], (queues.zipIdx 1).filterMap fun entry =>
      ((liceByIndex lices)[entry.2 % lices.length]?).map fun lice => (lice, entry.1), ?_, ?_, ?_⟩
  · rw [deal, List.zipIdx_cons, List.filterMap_cons]
    dsimp only
    rw [List.getElem?_eq_getElem hZero]
    rfl
  · rw [List.map_filterMap]
    conv_rhs => rw [← List.zipIdx_map_fst 1 queues, ← List.filterMap_eq_map]
    refine List.filterMap_congr fun entry hEntry => ?_
    have hMod : entry.2 % lices.length < (liceByIndex lices).length := by
      rw [hLength]
      exact Nat.mod_lt _ (by omega)
    rw [List.getElem?_eq_getElem hMod]
    rfl
  · intro entry hEntry hEq
    obtain ⟨⟨other, i⟩, hOther, hLice⟩ := List.mem_filterMap.mp hEntry
    obtain ⟨lice, hFound, rfl⟩ := Option.map_eq_some_iff.mp hLice
    have hRange := List.snd_lt_of_mem_zipIdx hOther
    have hOne := List.le_snd_of_mem_zipIdx hOther
    dsimp only at hRange hOne hFound hEq
    rw [Nat.mod_eq_of_lt (by omega)] at hFound
    obtain ⟨hi, rfl⟩ := List.getElem?_eq_some_iff.mp hFound
    have hSame : ((liceByIndex lices).map (·.id))[0 % lices.length]? =
        ((liceByIndex lices).map (·.id))[i]? := by
      rw [List.getElem?_map, List.getElem?_map, List.getElem?_eq_getElem hZero,
        List.getElem?_eq_getElem hi]
      exact congrArg some hEq.symm
    have hIndex := (List.getElem?_inj (by rwa [List.length_map]) hNodup).mp hSame
    rw [Nat.zero_mod] at hIndex
    omega

end Day

/-! ## The queues of a drawn bracket -/

section Queues

variable {b : SingleElimBracket} {k m liceCount : ℕ}

theorem Drawn.refs_ordered (h : Drawn b k m) : (refsOf b).Pairwise SlotRef.Before := by
  obtain ⟨legacy, fighterCount, byeSeedCount, hSlots, -⟩ := h.slots
  rw [refsOf, hSlots]
  exact ordered_singleElimSlots.refs

theorem Drawn.nodup (h : Drawn b k m) : (refsOf b).Nodup := h.refs_ordered.imp SlotRef.Before.ne

theorem Drawn.feeds_round (h : Drawn b k m) {t s : SlotRef} (hFeeds : Feeds b t s) :
    t.round < s.round := by
  obtain ⟨legacy, fighterCount, byeSeedCount, hSlots, -⟩ := h.slots
  obtain ⟨slot, hSlot, rfl, x, hx, hReads⟩ := hFeeds
  rw [hSlots] at hSlot
  exact ordered_singleElimSlots.reads slot hSlot x hx t hReads

theorem Before.slotOrder {r s : SlotRef} (h : r.Before s) :
    (slotOrder (inputOf r) (inputOf s)).isLE := by
  rw [Schedule.slotOrder, inputOf, inputOf]
  dsimp only
  rcases h with h | ⟨h, hPos⟩
  · rw [compare_lt_iff_lt.mpr h]
    rfl
  · rw [h, compare_eq_iff_eq.mpr rfl, compare_lt_iff_lt.mpr hPos]
    rfl

/-- The bracket is generated in the order of the units. -/
theorem Drawn.ordered_filter (h : Drawn b k m) (p : BracketSlotInput SlotRef → Bool) :
    ordered ((inputsOf b).filter p) = (refsOf b).filter (p ∘ inputOf) := by
  have hPair : ((inputsOf b).filter p).Pairwise fun r s => (slotOrder r s).isLE :=
    (List.pairwise_map.mpr (h.refs_ordered.imp Before.slotOrder)).filter _
  rw [ordered, sortWith_eq_self hPair, inputsOf, List.filter_map, List.map_map]
  exact List.map_id _

def anchorQueue (b : SingleElimBracket) (spreadRound p : ℕ) : List SlotRef :=
  (refsOf b).filter fun r => r.round ≤ spreadRound ∧ foldOf spreadRound r = p

def anchorQueues (b : SingleElimBracket) (spreadRound : ℕ) : List (List SlotRef) :=
  (sortWith compare (keys (anchorBuckets (inputsOf b) spreadRound))).map (anchorQueue b spreadRound)

def convergeQueue (b : SingleElimBracket) (spreadRound : ℕ) : List SlotRef :=
  (refsOf b).filter fun r => spreadRound < r.round

theorem Drawn.ordered_bucket (h : Drawn b k m) (spreadRound p : ℕ) :
    ordered (bucket (anchorBuckets (inputsOf b) spreadRound) p) = anchorQueue b spreadRound p := by
  rw [anchorBuckets, bucket_collect, List.filter_filter, h.ordered_filter, anchorQueue]
  refine List.filter_congr fun r _ => ?_
  rw [Function.comp_apply, Bool.decide_and, Bool.and_comm]
  rfl

theorem pair_sublist {α : Type*} {R : α → α → Prop} {l : List α} (hPair : l.Pairwise R) {a b : α}
    (ha : a ∈ l) (hb : b ∈ l) (hNe : a ≠ b) (hNot : ¬ R b a) : [a, b].Sublist l := by
  obtain ⟨before, after, rfl⟩ := List.append_of_mem ha
  rcases List.mem_append.mp hb with hb | hb
  · exact absurd ((List.pairwise_append.mp hPair).2.2 b hb a List.mem_cons_self) hNot
  · have hAfter : b ∈ after := (List.mem_cons.mp hb).resolve_left hNe.symm
    exact ((List.singleton_sublist.mpr hAfter).cons_cons a).trans (List.sublist_append_right _ _)

theorem joinLast_nil {queues : List (List SlotRef)} (h : queues ≠ []) :
    joinLast queues [] = queues := by
  rw [joinLast, List.getLast?_eq_getLast_of_ne_nil h]
  dsimp only
  rw [List.append_nil]
  exact List.dropLast_append_getLast h

theorem joinLast_cons {queue : List SlotRef} {queues : List (List SlotRef)} (h : queues ≠ [])
    (tail : List SlotRef) : joinLast (queue :: queues) tail = queue :: joinLast queues tail := by
  obtain ⟨last, hLast⟩ : ∃ last, queues.getLast? = some last :=
    ⟨_, List.getLast?_eq_getLast_of_ne_nil h⟩
  rw [joinLast, joinLast, List.getLast?_cons, hLast, List.dropLast_cons_of_ne_nil h]
  rfl

theorem length_joinLast {queues : List (List SlotRef)} (h : queues ≠ []) (tail : List SlotRef) :
    (joinLast queues tail).length = queues.length := by
  have hPos := List.length_pos_iff.mpr h
  rw [joinLast, List.getLast?_eq_getLast_of_ne_nil h]
  simp only [List.length_append, List.length_dropLast, List.length_singleton]
  omega

theorem tail_mem_joinLast {queues : List (List SlotRef)} {tail : List SlotRef} {r : SlotRef}
    (hr : r ∈ tail) : ∃ queue ∈ joinLast queues tail, r ∈ queue := by
  rw [joinLast]
  split
  · exact ⟨_, List.mem_append_right _ (List.mem_singleton.mpr rfl), List.mem_append_right _ hr⟩
  · exact ⟨_, List.mem_singleton.mpr rfl, hr⟩

theorem mem_joinLast {queues : List (List SlotRef)} {tail queue : List SlotRef}
    (h : queue ∈ queues) : ∃ joined ∈ joinLast queues tail, queue.Sublist joined := by
  obtain ⟨last, hLast⟩ : ∃ last, queues.getLast? = some last :=
    ⟨_, List.getLast?_eq_getLast_of_ne_nil (List.ne_nil_of_mem h)⟩
  obtain ⟨before, rfl⟩ := List.getLast?_eq_some_iff.mp hLast
  rw [joinLast, hLast]
  dsimp only
  rw [List.dropLast_concat]
  rcases List.mem_append.mp h with h | h
  · exact ⟨queue, List.mem_append_left _ h, .refl _⟩
  · rw [List.mem_singleton.mp h]
    exact ⟨_, List.mem_append_right _ (List.mem_singleton.mpr rfl), List.sublist_append_left _ _⟩

/-- Anchors, with a unit that converges only where something does. -/
theorem joinUnits_append {anchors : List (BranchUnit SlotRef)}
    (hKind : ∀ u ∈ anchors, u.kind = .anchor) (hNe : anchors ≠ []) {tail : List SlotRef} {n : ℕ}
    (hTail : n = tail.length) :
    joinUnits (anchors ++ if 0 < n then [convergeUnit tail] else []) =
      joinLast (anchors.map (·.matchIds)) tail := by
  have hKeep : anchors.filter (fun u => u.kind = .anchor) = anchors :=
    List.filter_eq_self.mpr fun u hu => decide_eq_true (hKind u hu)
  have hNone : anchors.find? (fun u => u.kind = .converge) = none := by
    refine List.find?_eq_none.mpr fun u hu => ?_
    rw [hKind u hu]
    decide
  rw [joinUnits, anchorUnits, List.find?_append, hNone, List.filter_append, hKeep, Option.none_or]
  rcases Nat.eq_zero_or_pos n with hZero | hPos
  · obtain rfl : tail = [] := List.eq_nil_of_length_eq_zero (hTail.symm.trans hZero)
    rw [if_neg (by omega), joinLast_nil fun hNil => hNe (List.map_eq_nil_iff.mp hNil)]
    exact congrArg (List.map (·.matchIds)) (List.append_nil anchors)
  · rw [if_pos hPos]
    exact congrArg (fun units => joinLast (units.map (·.matchIds)) tail) (List.append_nil anchors)

theorem Drawn.key_one (h : Drawn b k m) {spreadRound : ℕ} (hOne : 1 ≤ spreadRound)
    (hLe : spreadRound ≤ k + 1) {p : ℕ} (hp : 1 ≤ p) (hLast : p ≤ 2 ^ (k + 1 - spreadRound)) :
    p ∈ keys (anchorBuckets (inputsOf b) spreadRound) := by
  have hSlot : ⟨spreadRound, p⟩ ∈ refsOf b :=
    h.mem_refsOf.mpr (Or.inr (Or.inl ⟨hOne, hLe, hp, hLast⟩))
  refine mem_keys_collect.mpr ⟨inputOf ⟨spreadRound, p⟩, List.mem_filter.mpr
    ⟨List.mem_map_of_mem hSlot, ?_⟩, foldOf_self spreadRound p⟩
  exact decide_eq_true (Nat.le_refl spreadRound)

/-- The queues are those of the anchors, the last one with what converges behind it. -/
theorem Drawn.queuesOf_eq (h : Drawn b k m) (hLices : 2 ≤ liceCount) (hRounds : 1 ≤ k ∨ 1 ≤ m) :
    queuesOf b liceCount = joinLast (anchorQueues b (spreadRoundOf (inputsOf b) liceCount))
      (convergeQueue b (spreadRoundOf (inputsOf b) liceCount)) := by
  obtain ⟨hOne, hSpread, -⟩ := h.spread_bounds hLices
  rw [queuesOf, h.units_eq hLices hRounds]
  generalize spreadRoundOf (inputsOf b) liceCount = spread at hOne hSpread
  have hKey := h.key_one hOne (by omega) (Nat.le_refl 1) Nat.one_le_two_pow
  have hNe : sortWith compare (keys (anchorBuckets (inputsOf b) spread)) ≠ [] :=
    List.ne_nil_of_mem (mem_sortWith.mpr hKey)
  have hConverge : ordered ((inputsOf b).filter fun s => spread < s.round) =
      convergeQueue b spread := h.ordered_filter _
  have hLength : ((inputsOf b).filter fun s => spread < s.round).length =
      (convergeQueue b spread).length := by
    rw [← hConverge, (ordered_perm _).length_eq, List.length_map]
  rw [spreadUnits]
  simp only [hConverge]
  rw [joinUnits_append ?_ (fun hNil => hNe (List.map_eq_nil_iff.mp hNil)) hLength, List.map_map]
  · congr 1
    exact List.map_congr_left fun p _ => h.ordered_bucket spread p
  · intro u hu
    obtain ⟨p, -, rfl⟩ := List.mem_map.mp hu
    rfl

theorem Drawn.key_bounds (h : Drawn b k m) {spreadRound : ℕ} (hLe : spreadRound ≤ k) {p : ℕ}
    (hKey : p ∈ keys (anchorBuckets (inputsOf b) spreadRound)) :
    1 ≤ p ∧ p ≤ 2 ^ (k + 1 - spreadRound) := by
  obtain ⟨slot, hSlot, rfl⟩ := mem_keys_collect.mp hKey
  obtain ⟨hMem, hRound⟩ := List.mem_filter.mp hSlot
  obtain ⟨r, hr, rfl⟩ := List.mem_map.mp hMem
  have hRound : r.round ≤ spreadRound := of_decide_eq_true hRound
  have hFew := h.few
  have hPow : 2 ^ (k + 1 - spreadRound) * 2 ^ (spreadRound - r.round) = 2 ^ (k + 1 - r.round) := by
    rw [← Nat.pow_add]
    congr 1
    omega
  have hPos : 1 ≤ r.position ∧ r.position ≤ 2 ^ (k + 1 - r.round) := by
    rcases h.mem_refsOf.mp hr with ⟨hZero, hPos, hLast⟩ | ⟨-, -, hPos, hLast⟩ | ⟨-, rfl⟩
    · rw [hZero, Nat.sub_zero]
      omega
    · exact ⟨hPos, hLast⟩
    · simp only at hRound
      omega
  exact ⟨one_le_foldOf hPos.1, foldOf_le (hPow ▸ hPos.2)⟩

/-- The first anchor comes first, and the anchors are two at least and no more than the lices. -/
theorem Drawn.anchorQueues_cons (h : Drawn b k m) {spreadRound : ℕ} (hOne : 1 ≤ spreadRound)
    (hLe : spreadRound ≤ k) :
    ∃ queues, anchorQueues b spreadRound = anchorQueue b spreadRound 1 :: queues ∧ queues ≠ [] ∧
      queues.length + 1 ≤ 2 ^ (k + 1 - spreadRound) := by
  have hTwo : 2 ^ 1 ≤ 2 ^ (k + 1 - spreadRound) := Nat.pow_le_pow_right Nat.two_pos (by omega)
  have hKeyOne := h.key_one hOne (by omega) (Nat.le_refl 1) Nat.one_le_two_pow
  have hKeyTwo := h.key_one hOne (by omega) (Nat.le_succ 1) hTwo
  have hNodup := nodup_keys_collect (foldedPosition spreadRound)
    ((inputsOf b).filter fun s => s.round ≤ spreadRound)
  have hSorted : (sortWith compare (keys (anchorBuckets (inputsOf b) spreadRound))).Pairwise
      fun p q => compare p q = .lt :=
    pairwise_lt_sortWith id (fun p q hEq => compare_eq_iff_eq.mp hEq)
      ((List.map_id _).symm ▸ hNodup)
  have hBound : (sortWith compare (keys (anchorBuckets (inputsOf b) spreadRound))).length ≤
      2 ^ (k + 1 - spreadRound) := by
    have hSub : keys (anchorBuckets (inputsOf b) spreadRound) ⊆
        List.range' 1 (2 ^ (k + 1 - spreadRound)) := by
      intro p hp
      have hBounds := h.key_bounds hLe hp
      exact List.mem_range'_1.mpr (by omega)
    have hLength := (List.subperm_of_subset hNodup hSub).length_le
    rwa [List.length_range', ← length_sortWith] at hLength
  rw [← mem_sortWith] at hKeyOne hKeyTwo
  rw [anchorQueues]
  cases hKeys : sortWith compare (keys (anchorBuckets (inputsOf b) spreadRound)) with
  | nil =>
    rw [hKeys] at hKeyOne
    cases hKeyOne
  | cons p ps =>
    rw [hKeys] at hKeyOne hKeyTwo hSorted hBound
    have hp := h.key_bounds hLe (mem_sortWith.mp (hKeys ▸ List.mem_cons_self))
    have hLt := (List.pairwise_cons.mp hSorted).1
    obtain rfl : 1 = p := by
      rcases List.mem_cons.mp hKeyOne with hEq | hMem
      · exact hEq
      · have hLater := compare_lt_iff_lt.mp (hLt 1 hMem)
        omega
    have hMemTwo : 2 ∈ ps := (List.mem_cons.mp hKeyTwo).resolve_left (by decide)
    refine ⟨ps.map (anchorQueue b spreadRound), rfl, ?_, ?_⟩
    · exact List.ne_nil_of_mem (List.mem_map_of_mem hMemTwo)
    · rwa [List.length_map]

/-- An anchor is the last bout of its own unit. -/
theorem Drawn.anchor_last (h : Drawn b k m) {spreadRound : ℕ} (hOne : 1 ≤ spreadRound)
    (hLe : spreadRound ≤ k + 1) :
    ∃ before, anchorQueue b spreadRound 1 = before ++ [⟨spreadRound, 1⟩] := by
  have hMem : ⟨spreadRound, 1⟩ ∈ anchorQueue b spreadRound 1 :=
    List.mem_filter.mpr ⟨h.first_mem hOne hLe, by simp [foldOf_one]⟩
  have hPair : (anchorQueue b spreadRound 1).Pairwise SlotRef.Before := h.refs_ordered.filter _
  obtain ⟨before, after, hSplit⟩ := List.append_of_mem hMem
  refine ⟨before, ?_⟩
  cases after with
  | nil => exact hSplit
  | cons r after =>
    have hLater : SlotRef.Before ⟨spreadRound, 1⟩ r := by
      rw [hSplit] at hPair
      exact (List.pairwise_cons.mp (List.pairwise_append.mp hPair).2.1).1 r List.mem_cons_self
    have hr : r ∈ anchorQueue b spreadRound 1 := by
      rw [hSplit]
      exact List.mem_append_right _ (List.mem_cons_of_mem _ List.mem_cons_self)
    have hFold := of_decide_eq_true (List.mem_filter.mp hr).2
    have hPos := le_of_foldOf_eq_one hFold.2
    rcases hLater with hRound | ⟨hRound, hPosition⟩
    · simp only at hRound
      omega
    · simp only at hRound hPosition
      rw [← hRound, Nat.sub_self] at hPos
      omega

end Queues

/-! ## The board -/

section Board

variable {φ : Type v} {κ : Type w} [DecidableEq φ] [DecidableEq κ] {b : SingleElimBracket}
variable {k m : ℕ} {options : SchedulerOptions κ} {lices : List (SchedulerLice κ)}

omit [DecidableEq φ] [DecidableEq κ] in
theorem planned_bouts (hNodup : (refsOf b).Nodup) (hOptions : BranchOptions options)
    (day : BracketDay φ) : Planned options (day.bouts b) where
  ids := (map_id_bouts day b).symm ▸ hNodup
  durations m hm := by
    obtain ⟨r, -, rfl⟩ := List.mem_map.mp hm
    exact day.positive r
  transition := hOptions.transition
  midRest := hOptions.midRest

omit [DecidableEq φ] [DecidableEq κ] in
theorem map_id_jobs (hNodup : (refsOf b).Nodup) (hOptions : BranchOptions options) (host : Host)
    (hLices : lices.length ≠ 0) (day : BracketDay φ) :
    ((day.jobs b lices).map (·.bout.id)).Perm (refsOf b) := by
  have hIds := (planned_bouts hNodup hOptions day).ids
  have hPerm := (map_bout_jobs_perm host options (options.poolAffinity.getD .strict) hIds
    hLices).map (·.id)
  rw [map_id_bouts, List.map_map] at hPerm
  rw [← jobsOf_bouts hNodup hOptions host]
  exact hPerm

/-- The rows of a day: when each slot starts on its lice. -/
def BracketDay.run (day : BracketDay φ) (host : Host) (options : SchedulerOptions κ)
    (b : SingleElimBracket) (lices : List (SchedulerLice κ)) : List (Assigned SlotRef φ κ × ℚ) :=
  (shopOf options).run (firstFree host options) (day.jobs b lices)

theorem schedule_bouts (hNodup : (refsOf b).Nodup) (hOptions : BranchOptions options)
    (host : Host) (hLices : lices.length ≠ 0) (day : BracketDay φ) :
    ∃ result, scheduleMatches host (day.bouts b) lices options = .ok result ∧
      result.scheduledMatches = (day.run host options b lices).map rowOf ∧
      (result.scheduledMatches.map (·.matchId)).Perm (refsOf b) := by
  obtain ⟨result, hOk, -, hRows⟩ := scheduleMatches_ok host options (day.bouts b) hLices
  have hRun : result.scheduledMatches = (day.run host options b lices).map rowOf := by
    rw [hRows, placementsOf, jobsOf_bouts hNodup hOptions, List.map_map]
    rfl
  refine ⟨result, hOk, hRun, ?_⟩
  have hPerm := (placementsOf_perm host options (planned_bouts hNodup hOptions day).ids
    hLices).map (·.id)
  rw [map_id_bouts, List.map_map] at hPerm
  rw [hRows, List.map_map]
  exact hPerm

/-- Of two bouts in one queue the later one waits for the earlier one. -/
theorem apart_of_queue (hNodup : (refsOf b).Nodup) (hOptions : BranchOptions options) (host : Host)
    (hLices : lices.length ≠ 0) (day : BracketDay φ) {queue : List SlotRef}
    (hQueue : queue ∈ queuesOf b lices.length) {t s : SlotRef} (h : [t, s].Sublist queue) :
    ∃ x ∈ day.run host options b lices, ∃ y ∈ day.run host options b lices,
      x.1.bout.id = t ∧ y.1.bout.id = s ∧ x.2 + x.1.bout.duration ≤ y.2 := by
  have hPlanned := planned_bouts hNodup hOptions day
  have hLength : ∀ job ∈ jobsOf host options (day.bouts b) lices,
      0 ≤ (shopOf options).length job := hPlanned.length_nonneg hLices
  have hPause : ∀ job ∈ jobsOf host options (day.bouts b) lices,
      0 ≤ (shopOf options).pause job := hPlanned.pause_nonneg
  rw [jobsOf_bouts hNodup hOptions] at hLength hPause
  obtain ⟨⟨lice, _⟩, hEntry, rfl⟩ :=
    List.mem_map.mp ((map_snd_deal hLices (queuesOf b lices.length)).symm ▸ hQueue)
  have hJobs : [day.job lice t, day.job lice s].Sublist (day.jobs b lices) := by
    obtain ⟨before, after, hSplit⟩ := List.append_of_mem hEntry
    rw [BracketDay.jobs, hSplit, List.flatMap_append, List.flatMap_cons]
    exact .trans (h.map (day.job lice))
      ((List.sublist_append_left _ _).trans (List.sublist_append_right _ _))
  obtain ⟨start, next, hFirst, hSecond, hApart⟩ := Shop.apart_of_sublist hLength hPause hJobs
  refine ⟨_, hFirst, _, hSecond, rfl, rfl, ?_⟩
  exact (le_add_of_nonneg_right (hPause _ (Shop.fst_mem_of_mem_run hFirst))).trans (hApart.1 rfl)

/-! ## What converges does not wait for the first anchor -/

/-- Only the fighters of one slot are known. -/
def heldDay (f : SlotRef) (red blue : φ) (minutes : ℚ) (hPos : 0 < minutes) : BracketDay φ where
  red r := if r = f then some red else none
  blue r := if r = f then some blue else none
  minutes r := if r = f then minutes else 1
  positive r := by
    split
    · exact hPos
    · exact zero_lt_one

omit [DecidableEq φ] [DecidableEq κ] in
theorem heldDay_bout_of_ne {f r : SlotRef} (hNe : r ≠ f) (red blue : φ) {minutes minutes' : ℚ}
    (hPos : 0 < minutes) (hPos' : 0 < minutes') :
    (heldDay f red blue minutes hPos).bout r = (heldDay f red blue minutes' hPos').bout r := by
  simp only [BracketDay.bout, heldDay, if_neg hNe]

omit [DecidableEq φ] [DecidableEq κ] in
/-- The first anchor ends the queue of its lice, and the bout it feeds is on another one. -/
theorem Drawn.jobs_split (h : Drawn b k m) (hk : 1 ≤ k) (hOptions : BranchOptions options)
    (host : Host) (hLices : 2 ≤ lices.length) (hIds : (lices.map (·.id)).Nodup) :
    ∃ (f s : SlotRef) (lice : SchedulerLice κ) (before : List SlotRef)
      (rest : List (SchedulerLice κ × SlotRef)), Feeds b f s ∧ f ∉ before ∧
      (∀ entry ∈ rest, entry.1.id ≠ lice.id ∧ entry.2 ≠ f) ∧ (∃ entry ∈ rest, entry.2 = s) ∧
      ∀ day : BracketDay φ, day.jobs b lices =
        before.map (day.job lice) ++ day.job lice f :: rest.map fun e => day.job e.1 e.2 := by
  obtain ⟨hOne, hSpread, hAnchors⟩ := h.spread_bounds hLices
  have hQueues := h.queuesOf_eq hLices (Or.inl hk)
  generalize spreadRoundOf (inputsOf b) lices.length = spread at hOne hSpread hAnchors hQueues
  have hLe : spread ≤ k := by omega
  obtain ⟨queues, hCons, hNe, hLength⟩ := h.anchorQueues_cons hOne hLe
  obtain ⟨before, hLast⟩ := h.anchor_last hOne (Nat.le_succ_of_le hLe)
  rw [hCons, joinLast_cons hNe, hLast] at hQueues
  have hJoined : (joinLast queues (convergeQueue b spread)).length + 1 ≤ lices.length := by
    rw [length_joinLast hNe]
    omega
  obtain ⟨lice, rest, hDeal, hRest, hOthers⟩ :=
    deal_cons hIds (before ++ [⟨spread, 1⟩]) hJoined
  have hFeeds : Feeds b ⟨spread, 1⟩ ⟨spread + 1, 1⟩ :=
    h.feeds_next hOne hLe (Nat.le_refl 1) Nat.one_le_two_pow
  have hConverge : ⟨spread + 1, 1⟩ ∈ convergeQueue b spread :=
    List.mem_filter.mpr ⟨h.first_mem (by omega) (by omega), by simp⟩
  have hJobs : ∀ day : BracketDay φ, day.jobs b lices = before.map (day.job lice) ++
      day.job lice ⟨spread, 1⟩ ::
        (rest.flatMap fun e => e.2.map fun r => (e.1, r)).map fun e => day.job e.1 e.2 := by
    intro day
    rw [BracketDay.jobs, hQueues, hDeal, List.flatMap_cons, List.map_append, List.append_assoc,
      List.map_flatMap]
    refine congrArg _ (congrArg _ (List.flatMap_congr fun e _ => ?_))
    rw [List.map_map]
    rfl
  have hNodup : (before ++ ⟨spread, 1⟩ ::
      (rest.flatMap fun e => e.2.map fun r => (e.1, r)).map Prod.snd).Nodup := by
    let day : BracketDay φ := ⟨fun _ => none, fun _ => none, fun _ => 1, fun _ => zero_lt_one⟩
    have hSome : lices.length ≠ 0 := by omega
    have hPerm := map_id_jobs h.nodup hOptions host hSome day
    rw [hJobs day, List.map_append, List.map_cons, List.map_map, List.map_map] at hPerm
    have hBefore : before.map ((·.bout.id) ∘ day.job lice) = before := List.map_id _
    rw [hBefore] at hPerm
    exact hPerm.nodup_iff.mpr h.nodup
  obtain ⟨-, hTail, hDisjoint⟩ := List.nodup_append.mp hNodup
  refine ⟨⟨spread, 1⟩, ⟨spread + 1, 1⟩, lice, before, _, hFeeds, ?_, ?_, ?_, hJobs⟩
  · exact fun hMem => hDisjoint _ hMem _ List.mem_cons_self rfl
  · intro entry hEntry
    refine ⟨?_, fun hEq => (List.nodup_cons.mp hTail).1 (hEq ▸ List.mem_map_of_mem hEntry)⟩
    obtain ⟨e, he, hEntry⟩ := List.mem_flatMap.mp hEntry
    obtain ⟨r, -, rfl⟩ := List.mem_map.mp hEntry
    exact hOthers e he
  · obtain ⟨queue, hQueue, hMem⟩ := tail_mem_joinLast hConverge
    rw [← hRest] at hQueue
    obtain ⟨e, he, rfl⟩ := List.mem_map.mp hQueue
    exact ⟨(e.1, ⟨spread + 1, 1⟩), List.mem_flatMap.mpr ⟨e, he, List.mem_map_of_mem hMem⟩, rfl⟩

omit [DecidableEq φ] [DecidableEq κ] in
theorem heldDay_fighters_of_ne {f r : SlotRef} (hNe : r ≠ f) {red blue : φ} {minutes : ℚ}
    (hPos : 0 < minutes) :
    ∀ fighter ∈ ((heldDay f red blue minutes hPos).bout r).fighters,
      fighter ∉ ((heldDay f red blue minutes hPos).bout f).fighters := by
  intro fighter hMem
  have hNone : fighter = none := by
    simpa [SchedulerMatch.fighters, BracketDay.bout, heldDay, hNe] using hMem
  rw [hNone]
  simp [SchedulerMatch.fighters, BracketDay.bout, heldDay]

/-- However long the first anchor takes, the bout it feeds starts at the same time. -/
theorem Drawn.start_of_held (h : Drawn b k m) (hk : 1 ≤ k) (hOptions : BranchOptions options)
    (host : Host) (hLices : 2 ≤ lices.length) (hIds : (lices.map (·.id)).Nodup) (red blue : φ) :
    ∃ (f s : SlotRef) (start next : ℚ), Feeds b f s ∧ ∀ minutes (hPos : 0 < minutes),
      ∃ x ∈ (heldDay f red blue minutes hPos).run host options b lices,
        ∃ y ∈ (heldDay f red blue minutes hPos).run host options b lices,
          x.1.bout.id = f ∧ x.1.bout.duration = ms minutes ∧ x.2 = start ∧
          y.1.bout.id = s ∧ y.2 = next := by
  obtain ⟨f, s, lice, before, rest, hFeeds, hBefore, hRest, ⟨entry, hEntry, rfl⟩, hJobs⟩ :=
    h.jobs_split (φ := φ) hk hOptions host hLices hIds
  let plain : BracketDay φ := heldDay f red blue 1 zero_lt_one
  let free := (shopOf options).after (firstFree host options) (before.map (plain.job lice))
  have hRun : ∀ minutes (hPos : 0 < minutes),
      (heldDay f red blue minutes hPos).run host options b lices =
        (shopOf options).run (firstFree host options) (before.map (plain.job lice)) ++
          ((heldDay f red blue minutes hPos).job lice f,
            (shopOf options).start free (plain.job lice f)) ::
          (shopOf options).run free (rest.map fun e => plain.job e.1 e.2) := by
    intro minutes hPos
    have hSame : ∀ r, r ≠ f → ∀ l : SchedulerLice κ,
        (heldDay f red blue minutes hPos).job l r = plain.job l r := by
      intro r hNe l
      rw [BracketDay.job, heldDay_bout_of_ne hNe red blue hPos zero_lt_one]
      rfl
    have hLater : (rest.map fun e => (heldDay f red blue minutes hPos).job e.1 e.2) =
        rest.map fun e => plain.job e.1 e.2 :=
      List.map_congr_left fun e he => hSame e.2 (hRest e he).2 e.1
    have hEarlier : before.map ((heldDay f red blue minutes hPos).job lice) =
        before.map (plain.job lice) :=
      List.map_congr_left fun r hr => hSame r (fun hEq => hBefore (hEq ▸ hr)) lice
    rw [BracketDay.run, hJobs, Shop.run_append, hEarlier, Shop.run, ← hLater]
    rw [Shop.run_take_of_disjoint]
    · rfl
    · intro later hMem
      obtain ⟨e, he, rfl⟩ := List.mem_map.mp hMem
      exact (hRest e he).1
    · intro later hMem
      obtain ⟨e, he, rfl⟩ := List.mem_map.mp hMem
      exact heldDay_fighters_of_ne (hRest e he).2 hPos
  have hLater : plain.job entry.1 entry.2 ∈ rest.map fun e => plain.job e.1 e.2 :=
    List.mem_map_of_mem hEntry
  obtain ⟨y, hy, hJob⟩ : ∃ y ∈ (shopOf options).run free (rest.map fun e => plain.job e.1 e.2),
      y.1 = plain.job entry.1 entry.2 := by
    exact List.mem_map.mp ((Shop.map_fst_run (shopOf options) free _).symm ▸ hLater)
  refine ⟨f, entry.2, (shopOf options).start free (plain.job lice f), y.2, hFeeds,
    fun minutes hPos => ?_⟩
  rw [hRun minutes hPos]
  refine ⟨_, List.mem_append_right _ List.mem_cons_self, y,
    List.mem_append_right _ (List.mem_cons_of_mem _ hy), rfl, ?_, rfl, ?_, rfl⟩
  · simp [BracketDay.job, BracketDay.bout, SchedulerMatch.duration, heldDay]
  · rw [hJob]
    rfl

/-- The day's schedule exists and keeps the order. -/
def InOrder (host : Host) (options : SchedulerOptions κ) (lices : List (SchedulerLice κ))
    (b : SingleElimBracket) (day : BracketDay φ) : Prop :=
  ∃ result, scheduleMatches host (day.bouts b) lices options = .ok result ∧
    OrderLaw b result.scheduledMatches

theorem inOrder_iff (hNodup : (refsOf b).Nodup) (hOptions : BranchOptions options) (host : Host)
    (hLices : lices.length ≠ 0) (day : BracketDay φ) :
    InOrder host options lices b day ↔ ∀ t s, Feeds b t s →
      ∀ x ∈ day.run host options b lices, x.1.bout.id = t →
        ∀ y ∈ day.run host options b lices, y.1.bout.id = s → x.2 + x.1.bout.duration ≤ y.2 := by
  obtain ⟨result, hOk, hRows, hOnce⟩ := schedule_bouts hNodup hOptions host hLices day
  constructor
  · rintro ⟨result', hOk', hLaw⟩ t s hFeeds x hx hT y hy hS
    obtain rfl : result = result' := Except.ok.inj (hOk.symm.trans hOk')
    rw [hRows] at hLaw
    exact hLaw.fed t s hFeeds _ (List.mem_map_of_mem hx) hT _ (List.mem_map_of_mem hy) hS
  · intro hFed
    refine ⟨result, hOk, hOnce, fun t s hFeeds x hx hT y hy hS => ?_⟩
    rw [hRows] at hx hy
    obtain ⟨x', hx', rfl⟩ := List.mem_map.mp hx
    obtain ⟨y', hy', rfl⟩ := List.mem_map.mp hy
    exact hFed t s hFeeds x' hx' hT y' hy' hS

/-- With two rounds some day breaks the order. -/
theorem Drawn.exists_late (h : Drawn b k m) (hk : 1 ≤ k) (hOptions : BranchOptions options)
    (host : Host) (hLices : 2 ≤ lices.length) (hIds : (lices.map (·.id)).Nodup) (red blue : φ) :
    ∃ f minutes, ∃ hPos : 0 < minutes,
      ¬ InOrder host options lices b (heldDay f red blue minutes hPos) := by
  obtain ⟨f, s, start, next, hFeeds, hHeld⟩ :=
    h.start_of_held hk hOptions host hLices hIds red blue
  have hPos : 0 < max 1 ((next - start) / 60000 + 1) := lt_max_of_lt_left zero_lt_one
  refine ⟨f, _, hPos, fun hOrder => ?_⟩
  obtain ⟨x, hx, y, hy, hF, hLong, hStart, hS, hNext⟩ := hHeld _ hPos
  have hFed := (inOrder_iff h.nodup hOptions host (by omega) _).mp hOrder f s hFeeds x hx hF y hy hS
  rw [hLong, hStart, hNext, ms] at hFed
  have hMax := le_max_right 1 ((next - start) / 60000 + 1)
  linarith

/-- One round leaves at most a play-in bout before the final, both in one queue. -/
theorem Drawn.inOrder_of_final (h : Drawn b 0 m) (hOptions : BranchOptions options) (host : Host)
    (hLices : 2 ≤ lices.length) (day : BracketDay φ) : InOrder host options lices b day := by
  have hSome : lices.length ≠ 0 := by omega
  have hFew := h.few
  refine (inOrder_iff h.nodup hOptions host hSome day).mpr fun t s hFeeds x hx hT y hy hS => ?_
  have hRound : s.round ≤ max 1 0 := h.round_le hFeeds.mem_refsOf
  have hZero : t.round = 0 := by
    have hLt := h.feeds_round hFeeds
    omega
  obtain ⟨rfl, rfl⟩ := h.first_of_playIn (by omega) hFeeds hRound hZero
  have hm : 1 ≤ m := by
    rcases h.feeds_cases hFeeds hRound with ⟨-, -, -, -, -, hPos, -⟩ | ⟨-, hNot, -⟩
    · exact hPos
    · exact absurd hNot (by decide)
  obtain ⟨hOne, hSpread, -⟩ := h.spread_bounds hLices
  have hQueues := h.queuesOf_eq hLices (Or.inr hm)
  generalize spreadRoundOf (inputsOf b) lices.length = spread at hOne hSpread hQueues
  obtain rfl : spread = 1 := Nat.le_antisymm hSpread hOne
  have hAnchor : anchorQueue b 1 1 ∈ anchorQueues b 1 := List.mem_map_of_mem
    (mem_sortWith.mpr (h.key_one (Nat.le_refl 1) (Nat.le_refl 1) (Nat.le_refl 1) (by decide)))
  obtain ⟨queue, hQueue, hSub⟩ := mem_joinLast hAnchor
  rw [← hQueues] at hQueue
  have hPair : [⟨0, 1⟩, ⟨1, 1⟩].Sublist (anchorQueue b 1 1) := by
    refine pair_sublist (h.refs_ordered.filter _) ?_ ?_ (by decide) ?_
    · exact List.mem_filter.mpr ⟨h.mem_refsOf.mpr (Or.inl ⟨rfl, Nat.le_refl 1, hm⟩), by decide⟩
    · exact List.mem_filter.mpr ⟨h.first_mem (Nat.le_refl 1) (Nat.le_refl 1), by decide⟩
    · rintro (hContra | ⟨hContra, -⟩)
      · exact absurd hContra (by decide)
      · exact absurd hContra (by decide)
  obtain ⟨x', hx', y', hy', hT', hS', hLe⟩ :=
    apart_of_queue h.nodup hOptions host hSome day hQueue (hPair.trans hSub)
  have hNodup : ((day.run host options b lices).map fun z => z.1.bout.id).Nodup := by
    have hIds := (map_id_jobs h.nodup hOptions host hSome day).nodup_iff.mpr h.nodup
    rw [← Shop.map_fst_run (shopOf options) (firstFree host options) (day.jobs b lices),
      List.map_map] at hIds
    exact hIds
  rw [List.inj_on_of_nodup_map hNodup hx hx' (hT.trans hT'.symm),
    List.inj_on_of_nodup_map hNodup hy hy' (hS.trans hS'.symm)]
  exact hLe

end Board

section Law

variable {φ : Type v} {κ : Type w} [DecidableEq φ] [DecidableEq κ]

/-- The units are the sub-trees up to one play-in bout. The order holds on every day only where
there is one round, for the bout that an anchor feeds does not wait for another lice. -/
theorem bracketSchedule_law [Nontrivial φ] {fighterCount : ℕ} {size : Option ℕ}
    {b : SingleElimBracket} (h : singleElimBracket fighterCount size = .ok b) (host : Host)
    {options : SchedulerOptions κ} (hOptions : BranchOptions options)
    {lices : List (SchedulerLice κ)} (hLices : 2 ≤ lices.length)
    (hIds : (lices.map (·.id)).Nodup) :
    (BranchLaw b lices.length ↔ b.playInMatchCount ≤ 1) ∧
      ((∀ day : BracketDay φ, InOrder host options lices b day) ↔ b.rounds = 1) ∧
      ((BranchLaw b lices.length ∧ ∀ day : BracketDay φ, InOrder host options lices b day) ↔
        b.rounds = 1) := by
  obtain ⟨k, m, hDrawn⟩ := drawn_of_ok h
  have hUnits := hDrawn.branchLaw_iff hLices
  have hOrder : (∀ day : BracketDay φ, InOrder host options lices b day) ↔ b.rounds = 1 := by
    rw [hDrawn.rounds]
    constructor
    · intro hDays
      by_contra hNot
      obtain ⟨red, blue, -⟩ := exists_pair_ne φ
      obtain ⟨f, minutes, hPos, hLate⟩ :=
        hDrawn.exists_late (by omega) hOptions host hLices hIds red blue
      exact hLate (hDays _)
    · intro hOne day
      obtain rfl : k = 0 := by omega
      exact hDrawn.inOrder_of_final hOptions host hLices day
  refine ⟨hUnits, hOrder, fun hBoth => hOrder.mp hBoth.2, fun hOne => ?_⟩
  refine ⟨hUnits.mpr ?_, hOrder.mpr hOne⟩
  have hFew := hDrawn.few
  have hRounds := hDrawn.rounds
  obtain rfl : k = 0 := by omega
  rw [hDrawn.playIns]
  omega

/-- Four entrants, two lices, and a first bout of ten minutes where the others take five. -/
def fourDay : BracketDay ℕ where
  red r := if r.round = 1 then some (2 * r.position) else none
  blue r := if r.round = 1 then some (2 * r.position + 1) else none
  minutes r := if r = ⟨1, 1⟩ then 10 else 5
  positive r := by split <;> decide

def twoLices : List (SchedulerLice ℕ) := [⟨1, "Lice 1", none⟩, ⟨2, "Lice 2", none⟩]

def branchOptions : SchedulerOptions ℕ := ⟨0, some 0, 0, some .bracketBranch, fun _ => none⟩

theorem bracketSchedule_law_four : ∃ b, singleElimBracket 4 none = .ok b ∧
    (BranchLaw b twoLices.length ↔ b.playInMatchCount ≤ 1) ∧
      ((∀ day : BracketDay ℕ, InOrder plainHost branchOptions twoLices b day) ↔ b.rounds = 1) ∧
      ((BranchLaw b twoLices.length ∧
        ∀ day : BracketDay ℕ, InOrder plainHost branchOptions twoLices b day) ↔ b.rounds = 1) := by
  have hOk : (singleElimBracket 4 none).isOk = true := by decide +kernel
  cases h : singleElimBracket 4 none with
  | error message =>
    rw [h] at hOk
    cases hOk
  | ok b =>
    exact ⟨b, rfl, bracketSchedule_law h plainHost ⟨rfl, by decide, by decide⟩ (by decide)
      (by decide)⟩

/-- The final is called five minutes before the first semi-final is over. -/
theorem bracketSchedule_fourLate : ∃ b, singleElimBracket 4 none = .ok b ∧
    ¬ InOrder plainHost branchOptions twoLices b fourDay := by
  have hBoard : (singleElimBracket 4 none).toOption.map (fun b => (b.rounds,
      (scheduleMatches plainHost (fourDay.bouts b) twoLices branchOptions).toOption.map
        fun result => decide (∃ x ∈ result.scheduledMatches, ∃ y ∈ result.scheduledMatches,
          x.matchId = ⟨1, 1⟩ ∧ y.matchId = ⟨2, 1⟩ ∧ y.scheduledAt + ms 5 = x.estimatedEndAt))) =
      some (2, some true) := by
    decide +kernel
  cases h : singleElimBracket 4 none with
  | error message =>
    rw [h] at hBoard
    cases hBoard
  | ok b =>
    rw [h] at hBoard
    obtain ⟨hRounds, hRows⟩ := Prod.mk.inj (Option.some.inj hBoard)
    refine ⟨b, rfl, fun ⟨result, hOk, hLaw⟩ => ?_⟩
    rw [hOk] at hRows
    obtain ⟨x, hx, y, hy, hX, hY, hLate⟩ := of_decide_eq_true (Option.some.inj hRows)
    obtain ⟨k, m, hDrawn⟩ := drawn_of_ok h
    obtain rfl : k = 1 := Nat.succ.inj (hDrawn.rounds.symm.trans hRounds)
    have hFeeds : Feeds b ⟨1, 1⟩ ⟨2, 1⟩ :=
      hDrawn.feeds_next (Nat.le_refl 1) (Nat.le_refl 1) (Nat.le_refl 1) Nat.one_le_two_pow
    have hFed := hLaw.fed _ _ hFeeds x hx hX y hy hY
    rw [← hLate, ms] at hFed
    linarith

end Law

end MyClash.Schedule
