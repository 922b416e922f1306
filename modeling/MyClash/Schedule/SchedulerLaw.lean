import MyClash.Schedule.Scheduler

/-!
# What the scheduler keeps

The scheduler is a list schedule of the bouts in the order it takes them: a lice is a resource,
both fighters are actors, and the transition is the pause.
-/

namespace MyClash.Schedule

open StableSort Buckets ListSchedule

universe u v w

/-- A bout on its lice, and the rest its pool takes after it. -/
structure Assigned (ι : Type u) (φ : Type v) (κ : Type w) where
  bout : SchedulerMatch ι φ
  lice : SchedulerLice κ
  rest : ℚ

variable {ι : Type u} {φ : Type v} {κ : Type w}

def SchedulerMatch.fighters (m : SchedulerMatch ι φ) : List (Option φ) :=
  [m.redRegistrationId, m.blueRegistrationId]

def shopOf (options : SchedulerOptions κ) : Shop (Assigned ι φ κ) κ (Option φ) ℚ where
  resource a := a.lice.id
  actors a := a.bout.fighters
  length a := a.bout.duration
  pause a := ms options.transitionMinutes + a.rest

def rowOf (x : Assigned ι φ κ × ℚ) : ScheduledMatch ι κ :=
  ⟨x.1.bout.id, x.1.lice.id, x.1.lice.name, x.2, x.2 + x.1.bout.duration⟩

def assign (options : SchedulerOptions κ) (lice : SchedulerLice κ) (restAfter : ℕ)
    (entry : SchedulerMatch ι φ × ℕ) : Assigned ι φ κ :=
  ⟨entry.1, lice, if entry.2 + 1 = restAfter then ms options.midRestMinutes else 0⟩

def unitJobs (options : SchedulerOptions κ) (affinity : PoolAffinity)
    (entry : SchedulerLice κ × SchedulerUnit ι φ) : List (Assigned ι φ κ) :=
  (orderedMatches affinity entry.2).zipIdx.map (assign options entry.1 (restAfter entry.2))

variable [DecidableEq φ] [DecidableEq κ]

/-- One bout: the cursor of the lice moves on, and both fighters are held till its end. -/
theorem placeMatch_eq (options : SchedulerOptions κ) (lice : SchedulerLice κ) (rest n : ℕ)
    (m : SchedulerMatch ι φ) (free : Free κ (Option φ) ℚ) (rows : List (ScheduledMatch ι κ)) :
    placeMatch options lice rest ⟨free.resource lice.id, n, free.actor, rows⟩ m =
      ⟨((shopOf options).take free (assign options lice rest (m, n))).resource lice.id, n + 1,
        ((shopOf options).take free (assign options lice rest (m, n))).actor,
        rows ++ [rowOf (assign options lice rest (m, n),
          (shopOf options).start free (assign options lice rest (m, n)))]⟩ := by
  have hCursor : ((shopOf options).take free (assign options lice rest (m, n))).resource lice.id =
      (shopOf options).finish free (assign options lice rest (m, n)) +
        (ms options.transitionMinutes + if n + 1 = rest then ms options.midRestMinutes else 0) :=
    Shop.take_resource
  have hFighters : ((shopOf options).take free (assign options lice rest (m, n))).actor =
      Function.update (Function.update free.actor m.redRegistrationId
        ((shopOf options).finish free (assign options lice rest (m, n)))) m.blueRegistrationId
        ((shopOf options).finish free (assign options lice rest (m, n))) := by
    funext fighter
    by_cases hBlue : fighter = m.blueRegistrationId
    · subst hBlue
      rw [Function.update_self]
      exact Shop.take_actor (List.mem_cons_of_mem _ (List.mem_singleton.mpr rfl))
    · rw [Function.update_of_ne hBlue]
      by_cases hRed : fighter = m.redRegistrationId
      · subst hRed
        rw [Function.update_self]
        exact Shop.take_actor List.mem_cons_self
      · rw [Function.update_of_ne hRed]
        refine Shop.take_actor_of_notMem fun hMem => ?_
        rcases List.mem_pair.mp hMem with hEq | hEq
        · exact hRed hEq
        · exact hBlue hEq
  rw [hCursor, hFighters, ← add_assoc, placeMatch]
  congr 1
  split
  · rfl
  · exact (add_zero _).symm

theorem foldl_placeMatch (options : SchedulerOptions κ) (lice : SchedulerLice κ) (rest n : ℕ)
    (bouts : List (SchedulerMatch ι φ)) (free : Free κ (Option φ) ℚ)
    (rows : List (ScheduledMatch ι κ)) :
    let jobs := (bouts.zipIdx n).map (assign options lice rest)
    bouts.foldl (placeMatch options lice rest) ⟨free.resource lice.id, n, free.actor, rows⟩ =
      ⟨((shopOf options).after free jobs).resource lice.id, n + bouts.length,
        ((shopOf options).after free jobs).actor,
        rows ++ ((shopOf options).run free jobs).map rowOf⟩ := by
  induction bouts generalizing free n rows with
  | nil => simp [Shop.after, Shop.run]
  | cons m bouts ih =>
    rw [List.foldl_cons, placeMatch_eq, ih]
    simp only [List.zipIdx_cons, List.map_cons, Shop.run, Shop.after, List.foldl_cons,
      List.append_assoc, List.cons_append, List.nil_append, List.length_cons]
    congr 1
    omega

def boardOf (free : Free κ (Option φ) ℚ) (rows : List (ScheduledMatch ι κ)) : Board ι φ κ :=
  ⟨free.resource, free.actor, rows⟩

theorem layUnit_eq (options : SchedulerOptions κ) (affinity : PoolAffinity)
    (entry : SchedulerLice κ × SchedulerUnit ι φ) (free : Free κ (Option φ) ℚ)
    (rows : List (ScheduledMatch ι κ)) :
    layUnit options affinity (boardOf free rows) entry =
      boardOf ((shopOf options).after free (unitJobs options affinity entry))
        (rows ++ ((shopOf options).run free (unitJobs options affinity entry)).map rowOf) := by
  have hLice : Function.update free.resource entry.1.id
      (((shopOf options).after free (unitJobs options affinity entry)).resource entry.1.id) =
      ((shopOf options).after free (unitJobs options affinity entry)).resource := by
    refine Function.update_eq_iff.mpr ⟨rfl, fun id hNe => ?_⟩
    refine (Shop.after_resource_of_ne fun job hJob => ?_).symm
    obtain ⟨e, -, rfl⟩ := List.mem_map.mp hJob
    exact hNe
  rw [layUnit]
  simp only [boardOf]
  rw [foldl_placeMatch]
  simp only
  rw [← hLice]
  rfl

/-- The whole run is one list schedule. -/
theorem foldl_layUnit (options : SchedulerOptions κ) (affinity : PoolAffinity)
    (entries : List (SchedulerLice κ × SchedulerUnit ι φ)) (free : Free κ (Option φ) ℚ)
    (rows : List (ScheduledMatch ι κ)) :
    entries.foldl (layUnit options affinity) (boardOf free rows) =
      boardOf ((shopOf options).after free (entries.flatMap (unitJobs options affinity)))
        (rows ++ ((shopOf options).run free
          (entries.flatMap (unitJobs options affinity))).map rowOf) := by
  induction entries generalizing free rows with
  | nil => simp [Shop.after, Shop.run]
  | cons entry entries ih =>
    rw [List.foldl_cons, layUnit_eq, ih, List.flatMap_cons, Shop.after_append, Shop.run_append,
      List.map_append, List.append_assoc]

/-! ## Every bout is placed -/

section Units

variable [DecidableEq ι] {bouts : List (SchedulerMatch ι φ)}

omit [DecidableEq φ] [DecidableEq κ] [DecidableEq ι]

/-- Each queue with its lice, the lices in turn. -/
def deal {α : Type*} (lices : List (SchedulerLice κ)) (queues : List α) :
    List (SchedulerLice κ × α) :=
  queues.zipIdx.filterMap fun (queue, i) =>
    ((liceByIndex lices)[i % lices.length]?).map fun lice => (lice, queue)

theorem deal_map {α β : Type*} (lices : List (SchedulerLice κ)) (f : α → β) (queues : List α) :
    deal lices (queues.map f) = (deal lices queues).map (Prod.map id f) := by
  rw [deal, deal, List.zipIdx_map, List.filterMap_map, List.map_filterMap]
  refine List.filterMap_congr fun ⟨queue, i⟩ _ => ?_
  simp only [Function.comp_apply, Prod.map, id_eq, Option.map_map]
  rfl

theorem map_snd_deal {α : Type*} {lices : List (SchedulerLice κ)} (hLices : lices.length ≠ 0)
    (queues : List α) : (deal lices queues).map Prod.snd = queues := by
  have hSome : ∀ i, ∃ lice, (liceByIndex lices)[i % lices.length]? = some lice := by
    intro i
    refine ⟨_, List.getElem?_eq_getElem ?_⟩
    rw [liceByIndex, length_sortWith]
    exact Nat.mod_lt _ (by omega)
  rw [deal, List.map_filterMap]
  conv_rhs => rw [← List.zipIdx_map_fst 0 queues, ← List.filterMap_eq_map]
  refine List.filterMap_congr fun ⟨queue, i⟩ _ => ?_
  obtain ⟨lice, hLice⟩ := hSome i
  dsimp only
  rw [hLice]
  rfl

theorem map_snd_assignLices {lices : List (SchedulerLice κ)} (hLices : lices.length ≠ 0)
    (units : List (SchedulerUnit ι φ)) :
    (assignLices lices units).map Prod.snd = units :=
  map_snd_deal hLices units

theorem mem_assignLices {lices : List (SchedulerLice κ)} {units : List (SchedulerUnit ι φ)}
    {entry : SchedulerLice κ × SchedulerUnit ι φ} (h : entry ∈ assignLices lices units) :
    entry.1 ∈ lices ∧ entry.2 ∈ units := by
  obtain ⟨⟨unit, unitIdx⟩, hUnit, hEntry⟩ := List.mem_filterMap.mp h
  obtain ⟨lice, hLice, rfl⟩ := Option.map_eq_some_iff.mp hEntry
  exact ⟨mem_sortWith.mp (List.mem_of_getElem? hLice), List.fst_mem_of_mem_zipIdx hUnit⟩

theorem map_bout_unitJobs (options : SchedulerOptions κ) (affinity : PoolAffinity)
    (entry : SchedulerLice κ × SchedulerUnit ι φ) :
    (unitJobs options affinity entry).map (·.bout) = orderedMatches affinity entry.2 := by
  rw [unitJobs, List.map_map]
  exact List.zipIdx_map_fst 0 _

theorem orderedMatches_perm (affinity : PoolAffinity) (unit : SchedulerUnit ι φ) :
    (orderedMatches affinity unit).Perm unit.bouts := by
  cases affinity with
  | strict => exact sortWith_perm _
  | off => exact sortWith_perm _
  | bracketBranch => exact .refl _

theorem bout_mem_of_mem_unitJobs {options : SchedulerOptions κ} {affinity : PoolAffinity}
    {entry : SchedulerLice κ × SchedulerUnit ι φ} {job : Assigned ι φ κ}
    (h : job ∈ unitJobs options affinity entry) : job.bout ∈ entry.2.bouts := by
  rw [← (orderedMatches_perm affinity entry.2).mem_iff, ← map_bout_unitJobs options]
  exact List.mem_map_of_mem h

/-- The rest is behind the bout of its unit that the break is measured against. -/
theorem rest_of_unitJobs {options : SchedulerOptions κ} {affinity : PoolAffinity}
    {entry : SchedulerLice κ × SchedulerUnit ι φ} {before after : List (Assigned ι φ κ)}
    {job : Assigned ι φ κ} (h : unitJobs options affinity entry = before ++ job :: after) :
    job.rest = if before.length + 1 = restAfter entry.2 then ms options.midRestMinutes else 0 := by
  have hJob : (unitJobs options affinity entry)[before.length]? = some job := by
    rw [h]
    simp
  rw [unitJobs, List.getElem?_map, List.getElem?_zipIdx, Option.map_map,
    Option.map_eq_some_iff] at hJob
  obtain ⟨m, -, rfl⟩ := hJob
  simp only [Function.comp_apply, assign, Nat.zero_add]

theorem flatMap_singleUnit (sortOrder : Option ℤ) (bouts : List (SchedulerMatch ι φ)) :
    (bouts.map (singleUnit sortOrder)).flatMap (·.bouts) = bouts := by
  rw [List.flatMap_map]
  exact List.flatMap_singleton' bouts

theorem flatMap_appendTail (built : List (SchedulerUnit ι φ)) (tail : List (SchedulerMatch ι φ)) :
    (appendTail built tail).flatMap (·.bouts) = built.flatMap (·.bouts) ++ tail := by
  rw [appendTail]
  cases hLast : built.getLast? with
  | none =>
    rw [List.getLast?_eq_none_iff.mp hLast]
    exact List.append_nil tail
  | some last =>
    obtain ⟨before, rfl⟩ := List.getLast?_eq_some_iff.mp hLast
    simp

theorem strictUnits_perm (host : Host) (bouts : List (SchedulerMatch ι φ)) :
    ((strictUnits host bouts).flatMap (·.bouts)).Perm bouts := by
  have hPools : ((collect (fun m => m.pool.getD "") (bouts.filter fun m => m.pool.isSome)).map
      poolUnit).flatMap (·.bouts) =
      (collect (fun m => m.pool.getD "") (bouts.filter fun m => m.pool.isSome)).flatMap
        Prod.snd := by
    rw [List.flatMap_map]
    rfl
  refine ((sortWith_perm _).flatMap_right _).trans ?_
  rw [List.flatMap_append, flatMap_singleUnit, hPools]
  refine ((flatMap_collect_perm _ _).append_left _).trans ?_
  refine .trans (.of_eq ?_) (List.filter_append_perm (fun m => m.pool.isNone) bouts)
  congr 1
  refine List.filter_congr fun m _ => ?_
  rw [Option.not_isNone]

theorem map_id_slots (bouts : List (SchedulerMatch ι φ)) :
    (bouts.filterMap (·.slot)).map (·.matchId) =
      (bouts.filter fun m => m.slot.isSome).map (·.id) := by
  induction bouts with
  | nil => rfl
  | cons m bouts ih =>
    cases hSlot : m.slot with
    | none => simp [hSlot, ih]
    | some slot =>
      have hId : slot.matchId = m.id := by
        rw [SchedulerMatch.slot] at hSlot
        split at hSlot
        · rw [← Option.some.inj hSlot]
        · cases hSlot
      simp [hSlot, hId, ih]

variable [DecidableEq ι]

/-- Looking up the id of a bout finds the bout. -/
theorem toUnit_map_id (hIds : (bouts.map (·.id)).Nodup) {l : List (SchedulerMatch ι φ)}
    (hMem : ∀ m ∈ l, m ∈ bouts) :
    toUnit bouts (l.map (·.id)) = l := by
  have hFind : ∀ m ∈ l, (bouts.reverse.find? fun m' => m'.id = m.id) = some m := by
    intro m hm
    have hMember := List.mem_reverse.mpr (hMem m hm)
    cases hFound : bouts.reverse.find? fun m' => m'.id = m.id with
    | none =>
      have hNot := List.find?_eq_none.mp hFound m hMember
      simp at hNot
    | some found =>
      have hId := List.find?_some hFound
      have hFoundMem := List.mem_reverse.mp (List.mem_of_find?_eq_some hFound)
      rw [List.inj_on_of_nodup_map hIds hFoundMem (hMem m hm) (of_decide_eq_true hId)]
  rw [toUnit, List.filterMap_map]
  exact (List.filterMap_congr hFind).trans List.filterMap_some

theorem flatMap_mapIdx_branchUnit (units : List (BranchUnit ι)) :
    (units.mapIdx (branchUnit bouts)).flatMap (·.bouts) =
      toUnit bouts (units.flatMap (·.matchIds)) := by
  rw [List.mapIdx_eq_zipIdx_map, List.flatMap_map, toUnit, List.filterMap_flatMap]
  conv_rhs => rw [← List.zipIdx_map_fst 0 units, List.flatMap_map]
  rfl

theorem flatMap_builtUnits {units : List (BranchUnit ι)} {ids : List ι} (h : Grouped units ids) :
    (builtUnits bouts units).flatMap (·.bouts) = toUnit bouts (units.flatMap (·.matchIds)) := by
  rw [← h.anchorUnits_append, convergeIds, builtUnits]
  cases units.find? fun u => u.kind = .converge with
  | none => simp [flatMap_mapIdx_branchUnit]
  | some u =>
    simp only [flatMap_appendTail, flatMap_mapIdx_branchUnit]
    rw [toUnit, toUnit, ← List.filterMap_append]
    rfl

theorem branchUnits_perm (hIds : (bouts.map (·.id)).Nodup) (liceCount : ℕ) :
    ((branchUnits bouts liceCount).flatMap (·.bouts)).Perm bouts := by
  have hGroup := grouped_groupBracketBranches (bouts.filterMap (·.slot)) liceCount
    (bracketShape bouts)
  have hSlots : (toUnit bouts ((groupBracketBranches (bouts.filterMap (·.slot)) liceCount
      (bracketShape bouts)).units.flatMap (·.matchIds))).Perm
      (bouts.filter fun m => m.slot.isSome) := by
    refine (hGroup.perm.filterMap _).trans (.of_eq ?_)
    rw [map_id_slots]
    exact toUnit_map_id hIds fun m hm => (List.mem_filter.mp hm).1
  rw [branchUnits, List.flatMap_append, flatMap_singleUnit, flatMap_builtUnits hGroup]
  refine (hSlots.append_right _).trans ?_
  refine .trans (.of_eq ?_) (List.filter_append_perm (fun m => m.slot.isSome) bouts)
  congr 1
  refine List.filter_congr fun m _ => ?_
  rw [Option.not_isSome]

theorem unitsOf_perm (host : Host) (affinity : PoolAffinity) (hIds : (bouts.map (·.id)).Nodup)
    (liceCount : ℕ) : ((unitsOf host affinity bouts liceCount).flatMap (·.bouts)).Perm bouts := by
  cases affinity with
  | strict => exact strictUnits_perm host bouts
  | off => exact .of_eq (flatMap_singleUnit (some 0) bouts)
  | bracketBranch => exact branchUnits_perm hIds liceCount

/-- Each bout is taken once. -/
theorem map_bout_jobs_perm (host : Host) (options : SchedulerOptions κ) (affinity : PoolAffinity)
    (hIds : (bouts.map (·.id)).Nodup) {lices : List (SchedulerLice κ)} (hLices : lices.length ≠ 0) :
    (((assignLices lices (unitsOf host affinity bouts lices.length)).flatMap
      (unitJobs options affinity)).map (·.bout)).Perm bouts := by
  refine .trans ?_ (unitsOf_perm host affinity hIds lices.length)
  rw [List.map_flatMap]
  conv_rhs => rw [← map_snd_assignLices hLices (unitsOf host affinity bouts lices.length),
    List.flatMap_map]
  refine List.Perm.flatMap_left _ fun entry _ => ?_
  rw [map_bout_unitJobs]
  exact orderedMatches_perm affinity entry.2

end Units

/-! ## Pools -/

section Pools

variable {bouts : List (SchedulerMatch ι φ)} {unit : SchedulerUnit ι φ} {pool : String}

omit [DecidableEq φ] [DecidableEq κ]

/-- A unit of strict affinity is one unpooled bout or all the bouts of a pool. -/
theorem bouts_of_mem_strictUnits {host : Host} (h : unit ∈ strictUnits host bouts) :
    (unit.poolId = none ∧ ∀ m ∈ unit.bouts, m.pool = none) ∨
      ∃ pool, unit.poolId = some pool ∧
        unit.bouts = bouts.filter fun m => m.pool = some pool := by
  rcases List.mem_append.mp (mem_sortWith.mp h) with h | h
  · obtain ⟨m, hm, rfl⟩ := List.mem_map.mp h
    refine Or.inl ⟨rfl, fun m' hm' => ?_⟩
    rw [List.mem_singleton.mp hm']
    exact Option.isNone_iff_eq_none.mp (List.mem_filter.mp hm).2
  · obtain ⟨⟨pool, queue⟩, hPool, rfl⟩ := List.mem_map.mp h
    refine Or.inr ⟨pool, rfl, ?_⟩
    change queue = _
    rw [eq_filter_of_mem_collect hPool, List.filter_filter]
    refine List.filter_congr fun m _ => ?_
    cases m.pool with
    | none => simp
    | some p => simp

theorem exists_unit_of_pool (host : Host) {m : SchedulerMatch ι φ} (hm : m ∈ bouts)
    (hPool : m.pool = some pool) : ∃ unit ∈ strictUnits host bouts, unit.poolId = some pool := by
  have hKey : pool ∈ keys (collect (fun m => m.pool.getD "")
      (bouts.filter fun m => m.pool.isSome)) := by
    refine mem_keys_collect.mpr ⟨m, List.mem_filter.mpr ⟨hm, ?_⟩, ?_⟩
    · rw [hPool]
      rfl
    · rw [hPool]
      rfl
  obtain ⟨entry, hEntry, rfl⟩ := List.mem_map.mp hKey
  exact ⟨poolUnit entry, mem_sortWith.mpr (List.mem_append_right _ (List.mem_map_of_mem hEntry)),
    rfl⟩

/-- No two units are of one pool. -/
theorem pairwise_strictUnits (host : Host) (bouts : List (SchedulerMatch ι φ)) :
    (strictUnits host bouts).Pairwise fun u v => ∀ pool, u.poolId = some pool →
      v.poolId ≠ some pool := by
  have hSymm : ∀ {u v : SchedulerUnit ι φ}, (∀ pool, u.poolId = some pool → v.poolId ≠ some pool) →
      ∀ pool, v.poolId = some pool → u.poolId ≠ some pool := fun h pool hv hu => h pool hu hv
  refine List.Perm.pairwise (sortWith_perm _).symm (List.pairwise_append.mpr ⟨?_, ?_, ?_⟩) hSymm
  · refine List.pairwise_map.mpr (List.pairwise_of_forall fun _ _ pool hNone => ?_)
    cases hNone
  · refine List.pairwise_map.mpr ((List.pairwise_map.mp (nodup_keys_collect _ _)).imp ?_)
    rintro u v hNe pool hu hv
    exact hNe (Option.some.inj (hu.trans hv.symm))
  · intro u hu v _ pool hPool
    obtain ⟨m, -, rfl⟩ := List.mem_map.mp hu
    cases hPool

/-- The jobs of a pool stand together, and no other job is of that pool. -/
theorem exists_pool_entry (host : Host) {lices : List (SchedulerLice κ)} (hLices : lices.length ≠ 0)
    {m : SchedulerMatch ι φ} (hm : m ∈ bouts) (hPool : m.pool = some pool) :
    ∃ before entry after, assignLices lices (strictUnits host bouts) = before ++ entry :: after ∧
      entry.2.poolId = some pool ∧
      entry.2.bouts = (bouts.filter fun m => m.pool = some pool) ∧
      ∀ other ∈ before ++ after, ∀ m ∈ other.2.bouts, m.pool ≠ some pool := by
  have hMap := map_snd_assignLices hLices (strictUnits host bouts)
  have hPair := List.pairwise_map.mp (hMap.symm ▸ pairwise_strictUnits host bouts)
  obtain ⟨unit, hUnit, hId⟩ := exists_unit_of_pool host hm hPool
  rw [← hMap] at hUnit
  obtain ⟨entry, hEntry, rfl⟩ := List.mem_map.mp hUnit
  obtain ⟨before, after, hSplit⟩ := List.append_of_mem hEntry
  refine ⟨before, entry, after, hSplit, hId, ?_, fun other hOther m hm hEq => ?_⟩
  · rcases bouts_of_mem_strictUnits (mem_assignLices hEntry).2 with ⟨hNone, -⟩ | ⟨p, hp, hBouts⟩
    · rw [hNone] at hId
      cases hId
    · obtain rfl : p = pool := Option.some.inj (hp.symm.trans hId)
      exact hBouts
  · have hNe : other.2.poolId ≠ some pool := by
      rw [hSplit] at hPair
      obtain ⟨-, hAfter, hBefore⟩ := List.pairwise_append.mp hPair
      rcases List.mem_append.mp hOther with hOther | hOther
      · exact fun hOtherId => hBefore other hOther entry List.mem_cons_self pool hOtherId hId
      · exact (List.pairwise_cons.mp hAfter).1 other hOther pool hId
    have hMem : other ∈ assignLices lices (strictUnits host bouts) := by
      rw [hSplit]
      rcases List.mem_append.mp hOther with hOther | hOther
      · exact List.mem_append_left _ hOther
      · exact List.mem_append_right _ (List.mem_cons_of_mem _ hOther)
    rcases bouts_of_mem_strictUnits (mem_assignLices hMem).2 with ⟨-, hNone⟩ | ⟨p, hp, hBouts⟩
    · rw [hNone m hm] at hEq
      cases hEq
    · rw [hBouts] at hm
      have hPoolOf := of_decide_eq_true (List.mem_filter.mp hm).2
      exact hNe (hp.trans (hPoolOf.symm.trans hEq))

end Pools

/-! ## The law -/

structure Placement (ι : Type u) (φ : Type v) (κ : Type w) where
  bout : SchedulerMatch ι φ
  lice : SchedulerLice κ
  start : ℚ

namespace Placement

def finish (x : Placement ι φ κ) : ℚ := x.start + x.bout.duration

def row (x : Placement ι φ κ) : ScheduledMatch ι κ :=
  ⟨x.bout.id, x.lice.id, x.lice.name, x.start, x.finish⟩

def of (x : Assigned ι φ κ × ℚ) : Placement ι φ κ := ⟨x.1.bout, x.1.lice, x.2⟩

/-- Some fighter of the one is a fighter of the other. -/
def Shares (x y : Placement ι φ κ) : Prop := ∃ fighter ∈ x.bout.fighters, fighter ∈ y.bout.fighters

end Placement

theorem boutsBeforeRest_lt {n : ℕ} (h : 2 ≤ n) : 1 ≤ boutsBeforeRest n ∧ boutsBeforeRest n < n := by
  rw [boutsBeforeRest]
  omega

def poolQueue (placed : List (Placement ι φ κ)) (pool : String) : List (Placement ι φ κ) :=
  placed.filter fun x => x.bout.pool = some pool

/-- A pool runs on one lice in the order of its labels. Bout after bout follows as soon as the
transition is over, with one rest on top behind the middle bout, unless a fighter is still in a
bout on another lice: then it starts the moment that one ends. -/
structure PoolLaw (options : SchedulerOptions κ) (bouts : List (SchedulerMatch ι φ))
    (placed : List (Placement ι φ κ)) (pool : String) : Prop where
  order : (poolQueue placed pool).map (·.bout) =
    sortWith labelOrder (bouts.filter fun m => m.pool = some pool)
  oneLice : ∀ x ∈ poolQueue placed pool, ∀ y ∈ poolQueue placed pool, x.lice = y.lice
  middle : 2 ≤ (poolQueue placed pool).length →
    1 ≤ boutsBeforeRest (poolQueue placed pool).length ∧
      boutsBeforeRest (poolQueue placed pool).length < (poolQueue placed pool).length
  rest : ∀ before x y after, poolQueue placed pool = before ++ x :: y :: after →
    let due := x.finish + ms options.transitionMinutes +
      if before.length + 1 = boutsBeforeRest (poolQueue placed pool).length then
        ms options.midRestMinutes else 0
    due ≤ y.start ∧ (due < y.start → ∃ z ∈ placed, z.lice.id ≠ y.lice.id ∧ z.finish = y.start ∧
      z.Shares y)

structure ScheduleLaw (host : Host) (options : SchedulerOptions κ)
    (bouts : List (SchedulerMatch ι φ)) (lices : List (SchedulerLice κ))
    (placed : List (Placement ι φ κ)) (result : ScheduleResult ι κ) : Prop where
  rows : result.scheduledMatches = placed.map (·.row)
  unscheduled : result.unscheduled = []
  once : (placed.map (·.bout)).Perm bouts
  onLice : ∀ x ∈ placed, x.lice ∈ lices
  notEarly : ∀ x ∈ placed, startTimeOf host options ≤ x.start ∧
    liceFree host options x.lice.id ≤ x.start
  apart : placed.Pairwise fun x y =>
    (x.lice.id = y.lice.id → x.finish + ms options.transitionMinutes ≤ y.start) ∧
      (x.Shares y → x.finish ≤ y.start)
  pools : options.poolAffinity.getD .strict = .strict → ∀ pool, PoolLaw options bouts placed pool

section Law

variable [DecidableEq ι] {host : Host} {options : SchedulerOptions κ}
variable {bouts : List (SchedulerMatch ι φ)} {lices : List (SchedulerLice κ)}

def firstFree (host : Host) (options : SchedulerOptions κ) : Free κ (Option φ) ℚ :=
  ⟨liceFree host options, fun _ => startTimeOf host options⟩

/-- The bouts in the order they are placed, each with its lice and the rest after it. -/
def jobsOf (host : Host) (options : SchedulerOptions κ) (bouts : List (SchedulerMatch ι φ))
    (lices : List (SchedulerLice κ)) : List (Assigned ι φ κ) :=
  (assignLices lices (unitsOf host (options.poolAffinity.getD .strict) bouts lices.length)).flatMap
    (unitJobs options (options.poolAffinity.getD .strict))

def placementsOf (host : Host) (options : SchedulerOptions κ) (bouts : List (SchedulerMatch ι φ))
    (lices : List (SchedulerLice κ)) : List (Placement ι φ κ) :=
  ((shopOf options).run (firstFree host options) (jobsOf host options bouts lices)).map .of

theorem map_bout_placementsOf :
    (placementsOf host options bouts lices).map (·.bout) =
      (jobsOf host options bouts lices).map (·.bout) := by
  have hJobs := congrArg (List.map Assigned.bout)
    (Shop.map_fst_run (shopOf options) (firstFree host options)
      (jobsOf host options bouts lices))
  rw [List.map_map] at hJobs
  rw [placementsOf, List.map_map]
  exact hJobs

theorem placementsOf_perm (host : Host) (options : SchedulerOptions κ)
    (hIds : (bouts.map (·.id)).Nodup) (hLices : lices.length ≠ 0) :
    ((placementsOf host options bouts lices).map (·.bout)).Perm bouts := by
  rw [map_bout_placementsOf]
  exact map_bout_jobs_perm host options _ hIds hLices

theorem scheduleMatches_ok (host : Host) (options : SchedulerOptions κ)
    (bouts : List (SchedulerMatch ι φ)) (hLices : lices.length ≠ 0) :
    ∃ result, scheduleMatches host bouts lices options = .ok result ∧ result.unscheduled = [] ∧
      result.scheduledMatches = (placementsOf host options bouts lices).map (·.row) := by
  rw [scheduleMatches, if_neg hLices]
  split
  · rename_i hNone
    obtain rfl : bouts = [] := List.eq_nil_of_length_eq_zero hNone
    have hIds : (([] : List (SchedulerMatch ι φ)).map (·.id)).Nodup := List.nodup_nil
    have hPlaced := (placementsOf_perm host options hIds hLices).eq_nil
    rw [List.map_eq_nil_iff.mp hPlaced]
    exact ⟨_, rfl, rfl, rfl⟩
  · refine ⟨_, rfl, rfl, ?_⟩
    have hRun := foldl_layUnit options (options.poolAffinity.getD .strict)
      (assignLices lices (unitsOf host (options.poolAffinity.getD .strict) bouts lices.length))
      (firstFree host options) []
    rw [placementsOf, List.map_map]
    exact congrArg Board.scheduledMatches hRun

omit [DecidableEq φ] [DecidableEq κ] in
theorem mem_jobsOf {job : Assigned ι φ κ} (h : job ∈ jobsOf host options bouts lices) :
    job.lice ∈ lices ∧ (job.rest = ms options.midRestMinutes ∨ job.rest = 0) := by
  obtain ⟨entry, hEntry, hJob⟩ := List.mem_flatMap.mp h
  obtain ⟨e, -, rfl⟩ := List.mem_map.mp hJob
  refine ⟨(mem_assignLices hEntry).1, ?_⟩
  rw [assign]
  split
  · exact Or.inl rfl
  · exact Or.inr rfl

omit [DecidableEq κ] in
theorem startTimeOf_le_liceFree (host : Host) (options : SchedulerOptions κ) (id : κ) :
    startTimeOf host options ≤ liceFree host options id := by
  rw [liceFree]
  split
  · exact le_max_left _ _
  · exact le_refl _

/-- What the callers promise: rows of the database, positive lengths, gaps no less than 0. -/
structure Planned (options : SchedulerOptions κ) (bouts : List (SchedulerMatch ι φ)) : Prop where
  ids : (bouts.map (·.id)).Nodup
  durations : ∀ m ∈ bouts, 0 < m.estimatedDurationMinutes
  transition : 0 ≤ options.transitionMinutes
  midRest : 0 ≤ options.midRestMinutes

namespace Planned

theorem ms_nonneg {minutes : ℚ} (h : 0 ≤ minutes) : 0 ≤ ms minutes :=
  mul_nonneg h (by decide)

section Jobs

omit [DecidableEq φ] [DecidableEq κ]

theorem length_nonneg (h : Planned options bouts) (hLices : lices.length ≠ 0) :
    ∀ job ∈ jobsOf host options bouts lices, 0 ≤ (shopOf options).length job := by
  intro job hJob
  have hBout : job.bout ∈ bouts :=
    (map_bout_jobs_perm host options _ h.ids hLices).mem_iff.mp (List.mem_map_of_mem hJob)
  exact ms_nonneg (h.durations _ hBout).le

theorem transition_le_pause (h : Planned options bouts) :
    ∀ job ∈ jobsOf host options bouts lices,
      ms options.transitionMinutes ≤ (shopOf options).pause job := by
  intro job hJob
  refine le_add_of_nonneg_right ?_
  rcases (mem_jobsOf hJob).2 with hRest | hRest
  · rw [hRest]
    exact ms_nonneg h.midRest
  · rw [hRest]

theorem pause_nonneg (h : Planned options bouts) :
    ∀ job ∈ jobsOf host options bouts lices, 0 ≤ (shopOf options).pause job :=
  fun job hJob => (ms_nonneg h.transition).trans (h.transition_le_pause job hJob)

end Jobs

variable (h : Planned options bouts) (hLices : lices.length ≠ 0)

include h hLices

theorem notEarly : ∀ x ∈ placementsOf host options bouts lices,
    startTimeOf host options ≤ x.start ∧ liceFree host options x.lice.id ≤ x.start := by
  intro x hx
  obtain ⟨y, hy, rfl⟩ := List.mem_map.mp hx
  have hFree := (Shop.le_start_of_mem_run (h.length_nonneg hLices) h.pause_nonneg hy).1
  exact ⟨(startTimeOf_le_liceFree host options _).trans hFree, hFree⟩

theorem apart : (placementsOf host options bouts lices).Pairwise fun x y =>
    (x.lice.id = y.lice.id → x.finish + ms options.transitionMinutes ≤ y.start) ∧
      (x.Shares y → x.finish ≤ y.start) := by
  have hRun : ((shopOf options).run (firstFree host options)
      (jobsOf host options bouts lices)).Pairwise (Shop.Apart (shopOf options)) :=
    Shop.pairwise_run (h.length_nonneg hLices) h.pause_nonneg
  refine List.pairwise_map.mpr (hRun.imp_of_mem ?_)
  intro x y hx _ hApart
  have hPause := h.transition_le_pause x.1 (Shop.fst_mem_of_mem_run hx)
  refine ⟨fun hLice => ?_, fun ⟨fighter, hLeft, hRight⟩ => hApart.2 fighter hLeft hRight⟩
  exact (add_le_add_right hPause _).trans (hApart.1 hLice)

omit h in
/-- The placements of a pool are the run of its unit. -/
theorem exists_poolQueue (host : Host) {m : SchedulerMatch ι φ} {pool : String}
    (hStrict : options.poolAffinity.getD .strict = .strict) (hm : m ∈ bouts)
    (hPool : m.pool = some pool) :
    ∃ before queue after, ∃ entry : SchedulerLice κ × SchedulerUnit ι φ,
      (shopOf options).run (firstFree host options) (jobsOf host options bouts lices) =
        before ++ queue ++ after ∧
      poolQueue (placementsOf host options bouts lices) pool = queue.map .of ∧
      queue.map Prod.fst = unitJobs options .strict entry ∧ entry.2.poolId = some pool ∧
      entry.2.bouts = bouts.filter fun m => m.pool = some pool := by
  obtain ⟨before, entry, after, hSplit, hId, hBouts, hOthers⟩ :=
    exists_pool_entry host hLices hm hPool
  have hJobs : jobsOf host options bouts lices = before.flatMap (unitJobs options .strict) ++
      unitJobs options .strict entry ++ after.flatMap (unitJobs options .strict) := by
    rw [jobsOf, hStrict]
    change (assignLices lices (strictUnits host bouts)).flatMap _ = _
    rw [hSplit, List.flatMap_append, List.flatMap_cons, List.append_assoc]
  have hOther : ∀ {entries : List (SchedulerLice κ × SchedulerUnit ι φ)} {free},
      (∀ other ∈ entries, ∀ m ∈ other.2.bouts, m.pool ≠ some pool) →
      (((shopOf options).run free (entries.flatMap (unitJobs options .strict))).map
        Placement.of).filter (fun x => x.bout.pool = some pool) = [] := by
    intro entries free hNone
    refine List.filter_eq_nil_iff.mpr fun x hx => ?_
    obtain ⟨y, hy, rfl⟩ := List.mem_map.mp hx
    obtain ⟨other, hMem, hJob⟩ := List.mem_flatMap.mp (Shop.fst_mem_of_mem_run hy)
    rw [decide_eq_true_eq]
    exact hNone other hMem _ (bout_mem_of_mem_unitJobs hJob)
  refine ⟨_, _, _, entry, by rw [hJobs, Shop.run_append, Shop.run_append], ?_,
    Shop.map_fst_run _ _ _, hId, hBouts⟩
  rw [poolQueue, placementsOf, hJobs, Shop.run_append, Shop.run_append, List.map_append,
    List.map_append, List.filter_append, List.filter_append,
    hOther fun other hMem => hOthers other (List.mem_append_left _ hMem),
    hOther fun other hMem => hOthers other (List.mem_append_right _ hMem), List.append_nil,
    List.nil_append]
  refine List.filter_eq_self.mpr fun x hx => ?_
  obtain ⟨y, hy, rfl⟩ := List.mem_map.mp hx
  have hBout := bout_mem_of_mem_unitJobs (Shop.fst_mem_of_mem_run hy)
  rw [hBouts] at hBout
  exact (List.mem_filter.mp hBout).2

omit h in
theorem poolQueue_eq_nil (host : Host) (options : SchedulerOptions κ) {pool : String}
    (hIds : (bouts.map (·.id)).Nodup) (hNone : ∀ m ∈ bouts, m.pool ≠ some pool) :
    poolQueue (placementsOf host options bouts lices) pool = [] := by
  refine List.filter_eq_nil_iff.mpr fun x hx => ?_
  rw [decide_eq_true_eq]
  exact hNone _ ((placementsOf_perm host options hIds hLices).mem_iff.mp (List.mem_map_of_mem hx))

theorem poolLaw (hStrict : options.poolAffinity.getD .strict = .strict) (pool : String) :
    PoolLaw options bouts (placementsOf host options bouts lices) pool := by
  by_cases hAny : ∃ m ∈ bouts, m.pool = some pool
  · obtain ⟨m, hm, hPool⟩ := hAny
    obtain ⟨before, queue, after, entry, hRun, hQueue, hJobs, hId, hBouts⟩ :=
      exists_poolQueue hLices host hStrict hm hPool
    have hLice : ∀ x ∈ queue, x.1.lice = entry.1 := by
      intro x hx
      have hJob : x.1 ∈ unitJobs options .strict entry := hJobs ▸ List.mem_map_of_mem hx
      obtain ⟨e, -, hEq⟩ := List.mem_map.mp hJob
      rw [← hEq]
      rfl
    have hLength : queue.length = entry.2.bouts.length := by
      rw [← (orderedMatches_perm .strict entry.2).length_eq, ← map_bout_unitJobs options, ← hJobs,
        List.length_map, List.length_map]
    refine ⟨?_, ?_, boutsBeforeRest_lt, ?_⟩
    · rw [hQueue, List.map_map, ← hBouts]
      have hOrder := map_bout_unitJobs options .strict entry
      rw [← hJobs, List.map_map] at hOrder
      exact hOrder
    · intro x hx y hy
      rw [hQueue] at hx hy
      obtain ⟨x', hx', rfl⟩ := List.mem_map.mp hx
      obtain ⟨y', hy', rfl⟩ := List.mem_map.mp hy
      exact (hLice x' hx').trans (hLice y' hy').symm
    · intro left x y right hEq
      rw [hQueue] at hEq
      obtain ⟨left', tail, rfl, rfl, hTail⟩ := List.map_eq_append_iff.mp hEq
      obtain ⟨⟨a, s⟩, tail', rfl, rfl, hNext⟩ := List.map_eq_cons_iff.mp hTail
      obtain ⟨⟨b, t⟩, right', rfl, rfl, -⟩ := List.map_eq_cons_iff.mp hNext
      have hPlaced : (shopOf options).run (firstFree host options)
          (jobsOf host options bouts lices) =
          (before ++ left') ++ (a, s) :: (b, t) :: (right' ++ after) := by
        rw [hRun]
        simp only [List.append_assoc, List.cons_append]
      have hA := hLice (a, s) (by simp)
      have hB := hLice (b, t) (by simp)
      have hLive := Shop.next_of_run hPlaced (h.length_nonneg hLices) h.pause_nonneg
        (congrArg SchedulerLice.id (hA.trans hB.symm))
        fun _ _ => startTimeOf_le_liceFree host options _
      have hRestOf : a.rest = if left'.length + 1 = boutsBeforeRest entry.2.bouts.length then
          ms options.midRestMinutes else 0 := by
        rw [List.map_append, List.map_cons] at hJobs
        have hRestAfter := rest_of_unitJobs hJobs.symm
        rw [List.length_map, restAfter, hId] at hRestAfter
        exact hRestAfter
      simp only [hQueue, List.length_map, hLength]
      rw [← hRestOf, add_assoc]
      refine ⟨hLive.1, fun hLate => ?_⟩
      obtain ⟨z, hz, hOther, hEnd, fighter, hLeft, hRight⟩ := hLive.2 hLate
      exact ⟨.of z, List.mem_map_of_mem hz, hOther, hEnd, fighter, hLeft, hRight⟩
  · have hNone : ∀ m ∈ bouts, m.pool ≠ some pool := fun m hm hEq => hAny ⟨m, hm, hEq⟩
    have hEmpty := poolQueue_eq_nil hLices host options h.ids hNone
    refine ⟨?_, ?_, boutsBeforeRest_lt, ?_⟩
    · rw [hEmpty, List.filter_eq_nil_iff.mpr fun m hm => by simpa using hNone m hm]
      rfl
    · intro x hx
      rw [hEmpty] at hx
      cases hx
    · intro left x y right hEq
      rw [hEmpty] at hEq
      exact absurd hEq.symm (by simp)

end Planned

/-- Every bout is placed once, none before its time, and no lice and no fighter is taken twice at
once. Under strict affinity each pool keeps to its lice, its order and its one rest. -/
theorem scheduleMatches_law (host : Host) (h : Planned options bouts) (hLices : lices.length ≠ 0) :
    ∃ placed result, scheduleMatches host bouts lices options = .ok result ∧
      ScheduleLaw host options bouts lices placed result := by
  obtain ⟨result, hOk, hUnscheduled, hRows⟩ :=
    scheduleMatches_ok host options bouts hLices
  refine ⟨placementsOf host options bouts lices, result, hOk, hRows, hUnscheduled,
    placementsOf_perm host options h.ids hLices, fun x hx => ?_, h.notEarly hLices, h.apart hLices,
    h.poolLaw hLices⟩
  obtain ⟨y, hy, rfl⟩ := List.mem_map.mp hx
  exact (mem_jobsOf (Shop.fst_mem_of_mem_run hy)).1

end Law

section Examples

/-- A bout of pool A, ten minutes long. -/
def poolBout (id red blue : ℕ) : SchedulerMatch ℕ ℕ where
  id
  redRegistrationId := some red
  blueRegistrationId := some blue
  estimatedDurationMinutes := 10
  poolId := some "A"
  poolSortOrder := none
  matchNumberLabel := none
  bracketRound := none
  bracketPosition := none
  wbRounds := none
  lbRounds := none

def poolOptions : SchedulerOptions ℕ := ⟨5, some 0, 1, none, fun _ => none⟩

def plainHost : Host := ⟨0, compare⟩

def firstLice : SchedulerLice ℕ := ⟨1, "Lice 1", none⟩

theorem scheduleMatches_law_twoBouts : ∃ placed result,
    scheduleMatches plainHost [poolBout 1 1 2, poolBout 2 2 3] [firstLice] poolOptions = .ok result ∧
      ScheduleLaw plainHost poolOptions [poolBout 1 1 2, poolBout 2 2 3] [firstLice] placed
        result := by
  refine scheduleMatches_law plainHost ⟨by decide, ?_, by decide, by decide⟩ (by decide)
  intro m hm
  rcases List.mem_pair.mp hm with rfl | rfl
  · decide
  · decide

/-- Without a lice nothing is placed, and a pool of one bout has no middle to rest in. -/
theorem scheduleMatches_loneBout :
    scheduleMatches plainHost [poolBout 1 1 2] ([] : List (SchedulerLice ℕ)) poolOptions =
        .error "At least one Lice is required" ∧
      ∀ result placed, scheduleMatches plainHost [poolBout 1 1 2] [firstLice] poolOptions =
          .ok result → result.scheduledMatches = placed.map (Placement.row (φ := ℕ)) →
        ¬ ∃ before x y after, poolQueue placed "A" = before ++ x :: y :: after := by
  refine ⟨rfl, fun result placed hOk hRows => ?_⟩
  rintro ⟨before, x, y, after, hQueue⟩
  have hIds : ([poolBout 1 1 2].map (·.id)).Nodup := by decide
  have hLices : [firstLice].length ≠ 0 := by decide
  obtain ⟨result', hOk', -, hRows'⟩ :=
    scheduleMatches_ok plainHost poolOptions [poolBout 1 1 2] hLices
  obtain rfl : result' = result := Except.ok.inj (hOk'.symm.trans hOk)
  have hOne := (placementsOf_perm plainHost poolOptions hIds hLices).length_eq
  have hLength := congrArg List.length (hRows'.symm.trans hRows)
  rw [List.length_map, List.length_map] at hLength
  have hLe : (poolQueue placed "A").length ≤ placed.length := List.length_filter_le _ _
  have hTwo := congrArg List.length hQueue
  rw [List.length_append, List.length_cons, List.length_cons] at hTwo
  rw [List.length_map, List.length_singleton] at hOne
  omega

end Examples

end MyClash.Schedule
