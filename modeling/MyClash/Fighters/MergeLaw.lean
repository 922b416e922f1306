import MyClash.Fighters.Merge
import Mathlib.Logic.Relation
import Mathlib.Data.List.Nodup

/-!
# What merges and their reverts keep

The standing merges of a run account for every row that is not where it was: the follows, the
event people, the instructor lines and the accounts each moved by the records that list them, and
the profiles that are merged away.
-/

namespace MyClash.Fighters

open MoveBack Relation

universe u

variable {υ : Type u}

/-- A merge as its record tells it. -/
structure Merge (υ : Type u) where
  id : υ
  createdAt : ℤ
  source : υ
  target : υ
  moved : Moved υ
  deriving DecidableEq

structure Account (υ : Type u) where
  userId : υ
  profileId : υ

/-- A profile holds one account at most. -/
def accountTable : Table (Account υ) υ Unit υ where
  owner account := some account.profileId
  setOwner id account := { account with profileId := id }
  key _ := ()
  label account := account.userId
  owner_setOwner _ _ := rfl
  key_setOwner _ _ := rfl
  label_setOwner _ _ := rfl
  setOwner_setOwner _ _ _ := rfl
  setOwner_owner := by
    rintro id ⟨_, _⟩ h
    rw [← Option.some.inj h]

def listing (labels : Moved υ → List υ) : Record (Merge υ) υ υ where
  source := Merge.source
  target := Merge.target
  labels r := labels r.moved

def accountsOf (profiles : List (Profile υ)) : List (Account υ) :=
  profiles.filterMap fun p => p.claimedByUserId.map fun userId => ⟨userId, p.id⟩

/-- The accounts tell which profile holds which. -/
def Tallies (accounts : List (Account υ)) (profiles : List (Profile υ)) : Prop :=
  ∀ p ∈ profiles, ∀ userId, p.claimedByUserId = some userId ↔ ⟨userId, p.id⟩ ∈ accounts

/-! ## The keys and the forest -/

def MergedInto (profiles : List (Profile υ)) (id targetId : υ) : Prop :=
  ∃ p ∈ profiles, p.id = id ∧ p.mergedIntoId = some targetId

/-- Each profile is merged into one at most, and none into itself by any way. -/
def Forest (profiles : List (Profile υ)) : Prop :=
  ∀ id, ¬TransGen (MergedInto profiles) id id

structure ProfileKeys (profiles : List (Profile υ)) : Prop where
  claims : profiles.Pairwise fun p q => ∀ userId, p.claimedByUserId = some userId →
    q.claimedByUserId ≠ some userId
  emails : profiles.Pairwise fun p q => p.mergedIntoId = none → q.mergedIntoId = none →
    ∀ email, p.email = some email → q.email ≠ some email

/-- Every unique key holds. -/
structure Db.Keyed (db : Db υ) : Prop where
  profiles : ProfileKeys db.profiles
  follows : followTable.Apart db.follows
  instructors : instructorTable.Apart db.instructors

/-- The primary keys, which no statement writes. -/
structure Db.Identified (db : Db υ) : Prop where
  profiles : (db.profiles.map (·.id)).Nodup
  people : (db.people.map (·.id)).Nodup
  instructors : (db.instructors.map (·.id)).Nodup
  auditLog : (db.auditLog.map (·.id)).Nodup

theorem Forest.mono {profiles profiles' : List (Profile υ)} (h : Forest profiles)
    (hLess : ∀ id targetId, MergedInto profiles' id targetId → MergedInto profiles id targetId) :
    Forest profiles' :=
  fun id hCycle => h id (TransGen.mono hLess _ _ hCycle)

/-- A link from a profile to one that is not merged closes no cycle. -/
theorem Forest.link {profiles profiles' : List (Profile υ)} (h : Forest profiles)
    (sourceId targetId : υ)
    (hLinks : ∀ id id', MergedInto profiles' id id' → MergedInto profiles id id' ∨
      id = sourceId ∧ id' = targetId)
    (hRoot : ∀ id', ¬MergedInto profiles' targetId id') : Forest profiles' := by
  have hPath : ∀ {id id'}, TransGen (MergedInto profiles') id id' →
      TransGen (MergedInto profiles) id id' ∨ id' = targetId := by
    intro id id' hPath
    induction hPath with
    | single hLink =>
      rcases hLinks _ _ hLink with hOld | ⟨-, rfl⟩
      · exact .inl (TransGen.single hOld)
      · exact .inr rfl
    | tail _ hLink ih =>
      rcases ih with hOld | rfl
      · rcases hLinks _ _ hLink with hLink | ⟨-, rfl⟩
        · exact .inl (hOld.tail hLink)
        · exact .inr rfl
      · exact (hRoot _ hLink).elim
  intro id hCycle
  rcases hPath hCycle with hOld | rfl
  · exact h id hOld
  · obtain ⟨next, hLink, -⟩ := TransGen.head'_iff.mp hCycle
    exact hRoot next hLink

/-! ## What is accepted -/

section Accepted

variable [LinearOrder υ] {db : Db υ}

theorem profile?_some {id : υ} {p : Profile υ} (h : db.profile? id = some p) :
    p ∈ db.profiles ∧ p.id = id :=
  ⟨List.mem_of_find?_eq_some h, by simpa using List.find?_some h⟩

/-- A merge is of two profiles that are not merged, the survivor not deleted. -/
theorem mergeFighters_ok {call : MergeCall υ} {statements : List (Db υ → Db υ)}
    (h : mergeFighters call db = .ok statements) :
    ∃ source ∈ db.profiles, ∃ target ∈ db.profiles,
      source.id = call.sourceId ∧ target.id = call.targetId ∧ call.sourceId ≠ call.targetId ∧
      call.sourceSnapshot = some call.sourceId ∧ call.targetSnapshot = some call.targetId ∧
      source.mergedIntoId = none ∧ target.mergedIntoId = none ∧
      statements = mergeStatements call source target db := by
  rw [mergeFighters] at h
  split at h
  · cases h
  next hNe =>
  split at h
  · cases h
  next hSnapshots =>
  rw [not_or, not_not, not_not] at hSnapshots
  split at h
  · cases h
  · cases h
  next source target hSource hTarget =>
  split at h
  · cases h
  next hUnmerged =>
  split at h
  · cases h
  next hLive =>
  obtain ⟨hSource, hSourceId⟩ := profile?_some hSource
  obtain ⟨hTarget, hTargetId⟩ := profile?_some hTarget
  rw [Bool.or_eq_true, not_or] at hLive
  exact ⟨source, hSource, target, hTarget, hSourceId, hTargetId, hNe, hSnapshots.1, hSnapshots.2,
    by simpa using hUnmerged, by simpa using hLive.1, (Except.ok.inj h).symm⟩

/-- A revert is of the latest merge of a profile that is merged into one that is not. -/
theorem revertFighterMerge_ok {call : RevertCall υ} {statements : List (Db υ → Db υ)}
    (h : revertFighterMerge call db = .ok statements) :
    ∃ audit ∈ db.auditLog, ∃ entityId sourceId targetId moved reason,
      audit.id = call.auditLogId ∧
      audit.entry = .fighterMerge entityId (some sourceId) (some targetId) moved reason ∧
      (∃ merged ∈ db.profiles, merged.id = sourceId ∧ merged.mergedIntoId = some targetId) ∧
      (∀ row ∈ db.auditLog, row.entry.isMergeOf sourceId = true →
        row.createdAt ≤ audit.createdAt) ∧
      ∃ survivor ∈ db.profiles, survivor.id = targetId ∧ survivor.mergedIntoId = none ∧
        statements = revertStatements call sourceId targetId moved survivor := by
  rw [revertFighterMerge] at h
  split at h
  · cases h
  next audit hAudit =>
  split at h
  next entityId source target moved reason hEntry =>
    split at h
    · cases h
    split at h
    next sourceId targetId =>
      split at h
      · cases h
      next merged hMerged =>
      split at h
      · cases h
      next hInto =>
      split at h
      · cases h
      next survivor hSurvivor =>
      split at h
      · cases h
      next hRoot =>
      split at h
      · cases h
      next hLatest =>
      obtain ⟨hMerged, hMergedId⟩ := profile?_some hMerged
      obtain ⟨hSurvivor, hSurvivorId⟩ := profile?_some hSurvivor
      refine ⟨audit, List.mem_of_find?_eq_some hAudit, entityId, sourceId, targetId, moved, reason,
        by simpa using List.find?_some hAudit, hEntry, ⟨merged, hMerged, hMergedId,
        not_not.mp hInto⟩, fun row hRow hMerge => ?_, survivor, hSurvivor, hSurvivorId,
        by simpa using hRoot, (Except.ok.inj h).symm⟩
      by_contra hLater
      refine hLatest (List.any_eq_true.mpr ⟨row, hRow, ?_⟩)
      rw [hMerge, Bool.true_and]
      simpa using hLater
    · cases h
  · cases h

end Accepted

/-! ## The accounts -/

section Accounts

variable {profiles : List (Profile υ)} {accounts : List (Account υ)} {sourceId targetId : υ}
  {source target : Profile υ}

theorem eq_of_id (hIds : (profiles.map (·.id)).Nodup) {p q : Profile υ} (hp : p ∈ profiles)
    (hq : q ∈ profiles) (hEq : p.id = q.id) : p = q :=
  List.inj_on_of_nodup_map hIds hp hq hEq

theorem tallies_accountsOf (hIds : (profiles.map (·.id)).Nodup) :
    Tallies (accountsOf profiles) profiles := by
  intro p hp userId
  rw [accountsOf, List.mem_filterMap]
  constructor
  · intro hClaim
    exact ⟨p, hp, by rw [hClaim, Option.map_some]⟩
  · rintro ⟨q, hq, hEq⟩
    obtain ⟨claim, hClaim, hAccount⟩ := Option.map_eq_some_iff.mp hEq
    obtain ⟨rfl, hId⟩ := Account.mk.inj hAccount
    rwa [eq_of_id hIds hp hq hId.symm]

theorem accountsOf_apart (hIds : (profiles.map (·.id)).Nodup) :
    accountTable.Apart (accountsOf profiles) := by
  refine List.Pairwise.filterMap _ ?_ (List.pairwise_map.mp hIds)
  intro p q hNe a ha b hb owner hOwner hOwner'
  obtain ⟨_, _, rfl⟩ := Option.map_eq_some_iff.mp ha
  obtain ⟨_, _, rfl⟩ := Option.map_eq_some_iff.mp hb
  exact (hNe ((Option.some.inj hOwner).trans (Option.some.inj hOwner').symm)).elim

theorem claimMoved_eq (source target : Profile υ) : claimMoved source target =
    if target.claimedByUserId.isSome then none else source.claimedByUserId := by
  rw [claimMoved]
  cases source.claimedByUserId <;> cases target.claimedByUserId <;> rfl

variable [LinearOrder υ]

theorem held_account (hTallies : Tallies accounts profiles) (hTarget : target ∈ profiles) :
    accountTable.held accounts target.id () = target.claimedByUserId.isSome := by
  rw [Bool.eq_iff_iff, held_iff, Option.isSome_iff_exists]
  constructor
  · rintro ⟨⟨userId, profileId⟩, hMem, hOwner, -⟩
    obtain rfl := Option.some.inj hOwner
    exact ⟨userId, (hTallies target hTarget userId).mpr hMem⟩
  · rintro ⟨userId, hClaim⟩
    exact ⟨⟨userId, target.id⟩, (hTallies target hTarget userId).mp hClaim, rfl, rfl⟩

theorem mem_move_account {userId id : υ} :
    ⟨userId, id⟩ ∈ accountTable.move accounts sourceId targetId ↔
      (id = targetId ∧ accountTable.held accounts targetId () = false ∧
        ⟨userId, sourceId⟩ ∈ accounts) ∨
      (⟨userId, id⟩ ∈ accounts ∧
        ¬(id = sourceId ∧ accountTable.held accounts targetId () = false)) := by
  have hMoves (account : Account υ) : accountTable.moves accounts sourceId targetId account = true ↔
      account.profileId = sourceId ∧ accountTable.held accounts targetId () = false := by
    simp [Table.moves, accountTable]
  rw [Table.move, List.mem_map]
  constructor
  · rintro ⟨account, hMem, hEq⟩
    split at hEq
    next hMove =>
      obtain ⟨rfl, hFree⟩ := (hMoves account).mp hMove
      obtain ⟨rfl, rfl⟩ := Account.mk.inj hEq
      exact .inl ⟨rfl, hFree, hMem⟩
    next hStay =>
      subst hEq
      exact .inr ⟨hMem, fun h => hStay ((hMoves _).mpr h)⟩
  · rintro (⟨rfl, hFree, hMem⟩ | ⟨hMem, hStay⟩)
    · exact ⟨_, hMem, by rw [if_pos ((hMoves _).mpr ⟨rfl, hFree⟩)]; rfl⟩
    · exact ⟨_, hMem, by rw [if_neg fun h => hStay ((hMoves _).mp h)]⟩

theorem mem_moveBack_account {labels : List υ} {userId id : υ} :
    ⟨userId, id⟩ ∈ accountTable.moveBack accounts sourceId targetId labels ↔
      (id = sourceId ∧ userId ∈ labels ∧ accountTable.held accounts sourceId () = false ∧
        ⟨userId, targetId⟩ ∈ accounts) ∨
      (⟨userId, id⟩ ∈ accounts ∧ ¬(id = targetId ∧ userId ∈ labels ∧
        accountTable.held accounts sourceId () = false)) := by
  have hMoves (account : Account υ) :
      accountTable.movesBack accounts sourceId targetId labels account = true ↔
        account.profileId = targetId ∧ account.userId ∈ labels ∧
          accountTable.held accounts sourceId () = false := by
    simp [Table.movesBack, accountTable]
  rw [Table.moveBack, List.mem_map]
  constructor
  · rintro ⟨account, hMem, hEq⟩
    split at hEq
    next hMove =>
      obtain ⟨rfl, hLabel, hFree⟩ := (hMoves account).mp hMove
      obtain ⟨rfl, rfl⟩ := Account.mk.inj hEq
      exact .inl ⟨rfl, hLabel, hFree, hMem⟩
    next hStay =>
      subst hEq
      exact .inr ⟨hMem, fun h => hStay ((hMoves _).mpr h)⟩
  · rintro (⟨rfl, hLabel, hFree, hMem⟩ | ⟨hMem, hStay⟩)
    · exact ⟨_, hMem, by rw [if_pos ((hMoves _).mpr ⟨rfl, hLabel, hFree⟩)]; rfl⟩
    · exact ⟨_, hMem, by rw [if_neg fun h => hStay ((hMoves _).mp h)]⟩

/-- The profiles with those of two ids changed. -/
def changed (id id' : υ) (f g : Profile υ → Profile υ) (profiles : List (Profile υ)) :
    List (Profile υ) :=
  (profiles.map fun p => if p.id = id then f p else p).map fun p => if p.id = id' then g p else p

omit [LinearOrder υ] in
theorem id_mergedAway (targetId : υ) (claim : Option υ) (now : ℤ) (p : Profile υ) :
    (mergedAway targetId claim now p).id = p.id := rfl

omit [LinearOrder υ] in
theorem id_survivor (source target : Profile υ) (claim : Option υ) (now : ℤ) (p : Profile υ) :
    (survivor source target claim now p).id = p.id := rfl

omit [LinearOrder υ] in
theorem id_released (claim : Option υ) (p : Profile υ) : (released claim p).id = p.id := by
  rw [released]
  split <;> rfl

omit [LinearOrder υ] in
theorem id_restored (claim : Option υ) (now : ℤ) (p : Profile υ) :
    (restored claim now p).id = p.id := rfl

theorem mem_changed {id id' : υ} {f g : Profile υ → Profile υ} (hNe : id ≠ id')
    (hf : ∀ p, (f p).id = p.id) {q : Profile υ} (hq : q ∈ changed id id' f g profiles) :
    ∃ p ∈ profiles, q = if p.id = id then f p else if p.id = id' then g p else p := by
  obtain ⟨p', hp', rfl⟩ := List.mem_map.mp hq
  obtain ⟨p, hp, rfl⟩ := List.mem_map.mp hp'
  refine ⟨p, hp, ?_⟩
  by_cases hId : p.id = id
  · rw [if_pos hId, if_pos hId, if_neg fun h => hNe (hId.symm.trans ((hf p).symm.trans h))]
  · rw [if_neg hId, if_neg hId]

theorem id_changed {id : υ} {f : Profile υ → Profile υ} (hf : ∀ p, (f p).id = p.id)
    (p : Profile υ) : (if p.id = id then f p else p).id = p.id := by
  split
  · exact hf p
  · rfl

theorem changed_ids {id id' : υ} {f g : Profile υ → Profile υ} (hf : ∀ p, (f p).id = p.id)
    (hg : ∀ p, (g p).id = p.id) :
    (changed id id' f g profiles).map (·.id) = profiles.map (·.id) := by
  rw [changed, List.map_map, List.map_map]
  exact List.map_congr_left fun p _ => (id_changed hg _).trans (id_changed hf p)

theorem Tallies.changed {id id' : υ} {f g : Profile υ → Profile υ} {accounts' : List (Account υ)}
    (hTallies : Tallies accounts profiles) (hNe : id ≠ id') (hf : ∀ p, (f p).id = p.id)
    (hg : ∀ p, (g p).id = p.id)
    (hFirst : ∀ p ∈ profiles, p.id = id → ∀ userId, (f p).claimedByUserId = some userId ↔
      ⟨userId, id⟩ ∈ accounts')
    (hSecond : ∀ p ∈ profiles, p.id = id' → ∀ userId, (g p).claimedByUserId = some userId ↔
      ⟨userId, id'⟩ ∈ accounts')
    (hRest : ∀ userId other, other ≠ id → other ≠ id' →
      (⟨userId, other⟩ ∈ accounts ↔ ⟨userId, other⟩ ∈ accounts')) :
    Tallies accounts' (changed id id' f g profiles) := by
  intro q hq userId
  obtain ⟨p, hp, rfl⟩ := mem_changed hNe hf hq
  by_cases hId : p.id = id
  · rw [if_pos hId, hf p, hId]
    exact hFirst p hp hId userId
  · rw [if_neg hId]
    by_cases hId' : p.id = id'
    · rw [if_pos hId', hg p, hId']
      exact hSecond p hp hId' userId
    · rw [if_neg hId', hTallies p hp userId]
      exact hRest userId p.id hId hId'

theorem mem_moved_account (hTallies : Tallies accounts profiles) (hSource : source ∈ profiles)
    (hTarget : target ∈ profiles) (userId : υ) :
    userId ∈ (claimMoved source target).toList ↔
      userId ∈ accountTable.moved accounts source.id target.id := by
  have hMoves (account : Account υ) :
      accountTable.moves accounts source.id target.id account = true ↔
        account.profileId = source.id ∧ target.claimedByUserId.isSome = false := by
    rw [← held_account hTallies hTarget]
    simp [Table.moves, accountTable]
  rw [Option.mem_toList, claimMoved_eq, Table.moved, List.mem_map]
  constructor
  · intro hClaim
    split at hClaim
    · cases hClaim
    next hFree =>
      refine ⟨⟨userId, source.id⟩, List.mem_filter.mpr ⟨(hTallies source hSource userId).mp hClaim,
        (hMoves _).mpr ⟨rfl, Bool.eq_false_iff.mpr hFree⟩⟩, rfl⟩
  · rintro ⟨⟨_, profileId⟩, hMem, rfl⟩
    obtain ⟨hMem, hMove⟩ := List.mem_filter.mp hMem
    obtain ⟨hId, hFree⟩ := (hMoves _).mp hMove
    dsimp only at hId
    subst hId
    rw [if_neg (Bool.eq_false_iff.mp hFree)]
    exact (hTallies source hSource _).mpr hMem

theorem Tallies.merge (hTallies : Tallies accounts profiles)
    (hIds : (profiles.map (·.id)).Nodup) (hSource : source ∈ profiles) (hTarget : target ∈ profiles)
    (hNe : source.id ≠ target.id) (now : ℤ) :
    Tallies (accountTable.move accounts source.id target.id)
      (Fighters.changed source.id target.id (mergedAway target.id (claimMoved source target) now)
        (survivor source target (claimMoved source target) now) profiles) := by
  have hHeld := held_account hTallies hTarget
  refine hTallies.changed hNe (id_mergedAway _ _ _) (id_survivor _ _ _ _) ?_ ?_ ?_
  · intro p hp hId userId
    obtain rfl := eq_of_id hIds hp hSource hId
    rw [mem_move_account, hHeld, ← hTallies p hp userId, mergedAway, claimMoved_eq]
    have := hNe
    cases target.claimedByUserId <;> cases p.claimedByUserId <;> simp_all
  · intro p hp hId userId
    obtain rfl := eq_of_id hIds hp hTarget hId
    rw [mem_move_account, hHeld, ← hTallies p hp userId, ← hTallies source hSource userId, survivor,
      claimMoved_eq]
    have := hNe
    cases p.claimedByUserId <;> cases source.claimedByUserId <;> simp_all
  · intro userId other hSourceNe hTargetNe
    rw [mem_move_account]
    simp [hSourceNe, hTargetNe]

theorem claimBack_eq_some {moved : Moved υ} {kept : Profile υ} {userId : υ} :
    claimBack moved kept = some userId ↔
      userId ∈ moved.claimUserId.toList ∧ kept.claimedByUserId = some userId := by
  rw [claimBack, Option.mem_toList]
  cases moved.claimUserId with
  | none => simp
  | some claim =>
    rw [Option.isSome_some, Bool.true_and]
    split
    next hHeld =>
      rw [of_decide_eq_true hHeld]
      exact (and_self_iff).symm
    next hNot =>
      refine ⟨nofun, fun h => (hNot (decide_eq_true ?_)).elim⟩
      rw [h.1, h.2]

theorem Tallies.revert {moved : Moved υ} {kept : Profile υ} (hTallies : Tallies accounts profiles)
    (hIds : (profiles.map (·.id)).Nodup) (hKept : kept ∈ profiles) (hNe : kept.id ≠ sourceId)
    (hFree : ∀ userId, kept.claimedByUserId = some userId → userId ∈ moved.claimUserId.toList →
      accountTable.held accounts sourceId () = false) (now : ℤ) :
    Tallies (accountTable.moveBack accounts sourceId kept.id moved.claimUserId.toList)
      (Fighters.changed kept.id sourceId (released (claimBack moved kept))
        (restored (claimBack moved kept) now) profiles) := by
  refine hTallies.changed hNe (id_released _) (id_restored _ _) ?_ ?_ ?_
  · intro p hp hId userId
    obtain rfl := eq_of_id hIds hp hKept hId
    rw [mem_moveBack_account, ← hTallies p hp userId, released]
    cases hClaim : claimBack moved p with
    | none =>
      rw [Option.isSome_none, if_neg Bool.false_ne_true]
      refine ⟨fun h => .inr ⟨h, fun hBack => ?_⟩, fun h => (h.resolve_left fun h => hNe h.1).1⟩
      have hSome := claimBack_eq_some.mpr ⟨hBack.2.1, h⟩
      rw [hClaim] at hSome
      cases hSome
    | some claim =>
      obtain ⟨hListed, hHeld⟩ := claimBack_eq_some.mp hClaim
      rw [Option.isSome_some, if_pos rfl]
      refine ⟨nofun, fun h => ?_⟩
      obtain ⟨hHeld', hStay⟩ := h.resolve_left fun h => hNe h.1
      obtain rfl := Option.some.inj (hHeld.symm.trans hHeld')
      exact (hStay ⟨rfl, hListed, hFree claim hHeld hListed⟩).elim
  · intro p hp hId userId
    rw [mem_moveBack_account, ← hTallies kept hKept userId, ← hId, ← hTallies p hp userId, restored]
    have hStay : ¬(p.id = kept.id ∧ userId ∈ moved.claimUserId.toList ∧
        accountTable.held accounts p.id () = false) := fun h => hNe (h.1.symm.trans hId)
    cases hClaim : claimBack moved kept with
    | none =>
      rw [Option.none_or]
      refine ⟨fun h => .inr ⟨h, hStay⟩, fun h => ?_⟩
      rcases h with ⟨-, hListed, -, hHeld⟩ | ⟨h, -⟩
      · have hSome := claimBack_eq_some.mpr ⟨hListed, hHeld⟩
        rw [hClaim] at hSome
        cases hSome
      · exact h
    | some claim =>
      obtain ⟨hListed, hHeld⟩ := claimBack_eq_some.mp hClaim
      have hEmpty := hFree claim hHeld hListed
      rw [← hId] at hEmpty
      have hNone : p.claimedByUserId = none := by
        rw [held_account hTallies hp] at hEmpty
        simpa using hEmpty
      rw [Option.some_or, hNone]
      constructor
      · intro h
        obtain rfl := Option.some.inj h
        exact .inl ⟨rfl, hListed, hEmpty, hHeld⟩
      · rintro (⟨-, -, -, h⟩ | ⟨h, -⟩)
        · exact hHeld.symm.trans h
        · cases h
  · intro userId other hKeptNe hSourceNe
    rw [mem_moveBack_account]
    simp [hSourceNe, hKeptNe]

end Accounts

/-! ## The event people -/

section People

variable [LinearOrder υ] {people : List (Person υ)} {sourceId targetId : υ}

/-- No two people have one id, so none keeps another from moving. -/
theorem held_person (hIds : (people.map (·.id)).Nodup) {person : Person υ} (hMem : person ∈ people)
    {id : υ} (hNe : person.globalPersonId ≠ some id) :
    personTable.held people id person.id = false := by
  rw [← Bool.not_eq_true, held_iff]
  rintro ⟨other, hOther, hOwner, hKey⟩
  rw [List.inj_on_of_nodup_map hIds hOther hMem hKey] at hOwner
  exact hNe hOwner

theorem moves_person (hIds : (people.map (·.id)).Nodup) (hNe : sourceId ≠ targetId)
    {person : Person υ} (hMem : person ∈ people) :
    personTable.moves people sourceId targetId person = true ↔
      person.globalPersonId = some sourceId := by
  rw [Table.moves, decide_eq_true_eq]
  refine ⟨And.left, fun h => ⟨h, ?_⟩⟩
  have hOther : person.globalPersonId ≠ some targetId := by
    rw [h]
    exact fun hEq => hNe (Option.some.inj hEq)
  change (!personTable.held people targetId person.id) = true
  rw [held_person hIds hMem hOther]
  rfl

theorem move_people (hIds : (people.map (·.id)).Nodup) (hNe : sourceId ≠ targetId) :
    movePeople sourceId targetId people = personTable.move people sourceId targetId := by
  refine List.map_congr_left fun person hMem => ?_
  exact if_congr (moves_person hIds hNe hMem).symm rfl rfl

theorem moved_people (hIds : (people.map (·.id)).Nodup) (hNe : sourceId ≠ targetId) :
    (people.filter (·.globalPersonId = some sourceId)).map (·.id) =
      personTable.moved people sourceId targetId := by
  refine congrArg (List.map _) (List.filter_congr fun person hMem => ?_)
  rw [Bool.eq_iff_iff, moves_person hIds hNe hMem, decide_eq_true_eq]

theorem moveBack_people (hIds : (people.map (·.id)).Nodup) (hNe : sourceId ≠ targetId)
    (ids : List υ) :
    movePeopleBack sourceId targetId ids people =
      personTable.moveBack people sourceId targetId ids := by
  refine List.map_congr_left fun person hMem => if_congr ?_ rfl rfl
  rw [Table.movesBack, decide_eq_true_eq, Bool.and_eq_true, decide_eq_true_eq]
  refine and_congr_right fun hOwner => ⟨fun h => ⟨h, ?_⟩, And.left⟩
  have hOther : person.globalPersonId ≠ some sourceId := by
    rw [hOwner]
    exact fun hEq => hNe (Option.some.inj hEq).symm
  change (!personTable.held people sourceId person.id) = true
  rw [held_person hIds hMem hOther]
  rfl

end People

end MyClash.Fighters
