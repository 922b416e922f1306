import MyClash.Fighters.MergeLaw

/-!
# The ledger of merges and reverts

What a run of merges and reverts has done to the rows so far: the merges that still stand account
for every row that is not where it was, and the log tells which they are.
-/

namespace MyClash.Fighters

open MoveBack Relation

universe u

variable {υ : Type u} [LinearOrder υ]

/-- What a merge fills or makes stricter on its survivor. -/
def Profile.answers (p : Profile υ) : List (Option String) × Bool × Bool :=
  ([p.photoUrl, p.hemaRatingsId, p.bio, p.countryCode, p.genderCategory],
    p.hideWorkshopsPublicly, p.allowBeingFollowed)

def AuditEntry.isMergeInto (targetId : υ) : AuditEntry υ → Bool
  | .fighterMerge _ _ target _ _ => target = some targetId
  | _ => false

/-- The row that an accepted call writes. -/
def AuditRow.Tells (row : AuditRow υ) : Call υ → Prop
  | .merge call => row.id = call.recordId ∧ ∃ moved,
      row.entry = .fighterMerge call.sourceId (some call.sourceId) (some call.targetId) moved
        call.reason
  | .revert call => row.id = call.recordId ∧ ∃ sourceId targetId,
      row.entry = .fighterMergeRevert call.auditLogId sourceId targetId

/-- What the rows of the run's log and its standing merges say of a profile. -/
structure ProfileLaw (rows : List (AuditRow υ)) (standing : List (Merge υ)) (p₀ p : Profile υ) :
    Prop where
  id : p.id = p₀.id
  email : p.email = p₀.email
  merged : ∀ targetId, p.mergedIntoId = some targetId ↔
    (∃ r ∈ standing, r.source = p₀.id ∧ r.target = targetId) ∨ p₀.mergedIntoId = some targetId
  deleted : p.deletedAt.isSome = true ↔ (∃ r ∈ standing, r.source = p₀.id) ∨
    (p₀.deletedAt.isSome = true ∧ ∀ row ∈ rows, row.entry.isMergeOf p₀.id = false)
  answers : (∀ row ∈ rows, row.entry.isMergeInto p₀.id = false) → p.answers = p₀.answers

/-- The run's rows of the log tell of every standing merge, and of none that is reverted. -/
structure LogLaw (db₀ : Db υ) (log rows : List (AuditRow υ)) (standing : List (Merge υ)) :
    Prop where
  grown : log = db₀.auditLog ++ rows
  ids : (log.map (·.id)).Nodup
  times : rows.Pairwise fun row later => row.createdAt < later.createdAt
  merges : ∀ row ∈ rows, ∀ entityId source target moved reason,
    row.entry = .fighterMerge entityId source target moved reason → source = some entityId ∧
      ∀ p₀ ∈ db₀.profiles, p₀.id = entityId → p₀.mergedIntoId = none
  recorded : ∀ r ∈ standing, ∃ row ∈ rows, ∃ reason, row.id = r.id ∧ row.createdAt = r.createdAt ∧
    row.entry = .fighterMerge r.source (some r.source) (some r.target) r.moved reason
  latest : ∀ r ∈ standing, ∀ row ∈ rows, row.entry.isMergeOf r.source = true →
    row.createdAt ≤ r.createdAt
  unreverted : ∀ r ∈ standing, ∀ row ∈ rows, ∀ sourceId targetId,
    row.entry ≠ .fighterMergeRevert r.id sourceId targetId
  named : ∀ row ∈ rows, ∀ id sourceId targetId,
    row.entry = .fighterMergeRevert id sourceId targetId → ∃ reverted ∈ log, reverted.id = id

/-- The rows as they were first and are now, the log since, and the merges that still stand. -/
structure Ledger (db₀ db : Db υ) (rows : List (AuditRow υ)) (standing : List (Merge υ)) : Prop where
  follows : Recovers followTable (listing (·.directoryFollowerUserIds)) standing db₀.follows
    db.follows
  people : Recovers personTable (listing (·.personIds)) standing db₀.people db.people
  instructors : Recovers instructorTable (listing (·.workshopInstructorIds)) standing
    db₀.instructors db.instructors
  accounts : ∃ accounts, Recovers accountTable (listing (·.claimUserId.toList)) standing
    (accountsOf db₀.profiles) accounts ∧ Tallies accounts db.profiles
  ids : db.profiles.map (·.id) = db₀.profiles.map (·.id)
  profile : ∀ p ∈ db.profiles, ∃ p₀ ∈ db₀.profiles, ProfileLaw rows standing p₀ p
  sources : standing.Pairwise fun r q => r.source ≠ q.source
  log : LogLaw db₀ db.auditLog rows standing
  forest : Forest db₀.profiles → Forest db.profiles

section Ledger

variable {db₀ db : Db υ} {rows : List (AuditRow υ)} {standing : List (Merge υ)}

theorem Ledger.start (hIds : db₀.Identified) (hKeyed : db₀.Keyed) : Ledger db₀ db₀ [] [] where
  follows := Recovers.refl hKeyed.follows fun _ _ _ _ h => h
  people := by
    refine Recovers.refl ?_ fun _ _ _ _ h => h
    exact (List.pairwise_map.mp hIds.people).imp fun hNe _ _ _ => hNe
  instructors := by
    refine Recovers.refl hKeyed.instructors fun line hLine other hOther h => ?_
    rw [List.inj_on_of_nodup_map hIds.instructors hLine hOther h]
  accounts := ⟨_, Recovers.refl (accountsOf_apart hIds.profiles) fun _ _ _ _ _ => rfl,
    tallies_accountsOf hIds.profiles⟩
  ids := rfl
  profile p hp := ⟨p, hp, rfl, rfl, by simp, by simp, fun _ => rfl⟩
  sources := List.Pairwise.nil
  log := ⟨(List.append_nil _).symm, hIds.auditLog, List.Pairwise.nil, nofun, nofun, nofun, nofun,
    nofun⟩
  forest hStart := hStart

theorem Ledger.profileIds (hIds : db₀.Identified) (h : Ledger db₀ db rows standing) :
    (db.profiles.map (·.id)).Nodup :=
  h.ids ▸ hIds.profiles

theorem Ledger.peopleIds (hIds : db₀.Identified) (h : Ledger db₀ db rows standing) :
    (db.people.map (·.id)).Nodup :=
  h.people.labels ▸ hIds.people

/-- No standing merge has a source that is not merged. -/
theorem Ledger.source_ne (hLedger : Ledger db₀ db rows standing) {p : Profile υ}
    (hp : p ∈ db.profiles) (hRoot : p.mergedIntoId = none) : ∀ r ∈ standing, r.source ≠ p.id := by
  intro r hr hSource
  obtain ⟨p₀, -, hLaw⟩ := hLedger.profile p hp
  have hMerged := (hLaw.merged r.target).mpr (.inl ⟨r, hr, hSource.trans hLaw.id, rfl⟩)
  rw [hRoot] at hMerged
  cases hMerged

/-! ## The keys -/

theorem Ledger.claims (hIds : db₀.Identified) (hKeyed : db₀.Keyed)
    (h : Ledger db₀ db rows standing) :
    db.profiles.Pairwise fun p q => ∀ userId, p.claimedByUserId = some userId →
      q.claimedByUserId ≠ some userId := by
  obtain ⟨accounts, hAccounts, hTallies⟩ := h.accounts
  have hUsers : (accounts.map (·.userId)).Nodup := by
    have hLabels : accounts.map (·.userId) = (accountsOf db₀.profiles).map (·.userId) :=
      hAccounts.labels
    rw [hLabels, List.Nodup, List.pairwise_map, accountsOf]
    refine List.Pairwise.filterMap _ ?_ hKeyed.profiles.claims
    intro p q hApart a ha b hb hEq
    obtain ⟨userId, hClaim, rfl⟩ := Option.map_eq_some_iff.mp ha
    obtain ⟨other, hOther, rfl⟩ := Option.map_eq_some_iff.mp hb
    exact hApart userId hClaim (hOther.trans (congrArg some hEq.symm))
  refine (List.pairwise_map.mp (h.profileIds hIds)).imp_of_mem fun {p q} hp hq hNe => ?_
  intro userId hClaim hOther
  have hSame := List.inj_on_of_nodup_map hUsers ((hTallies p hp userId).mp hClaim)
    ((hTallies q hq userId).mp hOther) rfl
  exact hNe (congrArg Account.profileId hSame)

theorem ProfileLaw.root {p₀ p : Profile υ} (h : ProfileLaw rows standing p₀ p)
    (hRoot : p.mergedIntoId = none) : p₀.mergedIntoId = none := by
  refine Option.eq_none_iff_forall_ne_some.mpr fun targetId hMerged => ?_
  have hNow := (h.merged targetId).mpr (.inr hMerged)
  rw [hRoot] at hNow
  cases hNow

theorem Ledger.emails (hIds : db₀.Identified) (hKeyed : db₀.Keyed)
    (h : Ledger db₀ db rows standing) :
    db.profiles.Pairwise fun p q => p.mergedIntoId = none → q.mergedIntoId = none →
      ∀ email, p.email = some email → q.email ≠ some email := by
  refine (List.pairwise_map.mp (h.profileIds hIds)).imp_of_mem fun {p q} hp hq hNe => ?_
  intro hRoot hRoot' email hEmail hEmail'
  obtain ⟨p₀, hp₀, hLaw⟩ := h.profile p hp
  obtain ⟨q₀, hq₀, hLaw'⟩ := h.profile q hq
  have hSymm : Std.Symm fun p q : Profile υ => p.mergedIntoId = none → q.mergedIntoId = none →
      ∀ email, p.email = some email → q.email ≠ some email :=
    ⟨fun _ _ h hq hp email hEmail hEmail' => h hp hq email hEmail' hEmail⟩
  have hNe₀ : p₀ ≠ q₀ := fun hEq => hNe (hLaw.id.trans (hEq ▸ hLaw'.id.symm))
  exact hKeyed.profiles.emails.forall hp₀ hq₀ hNe₀ (hLaw.root hRoot) (hLaw'.root hRoot') email
    (hLaw.email ▸ hEmail) (hLaw'.email ▸ hEmail')

theorem Ledger.keyed (hIds : db₀.Identified) (hKeyed : db₀.Keyed)
    (h : Ledger db₀ db rows standing) : db.Keyed :=
  ⟨⟨h.claims hIds hKeyed, h.emails hIds hKeyed⟩, h.follows.apart, h.instructors.apart⟩

/-! ## A merge -/

def MergeCall.merge (call : MergeCall υ) (source target : Profile υ) (db : Db υ) : Merge υ where
  id := call.recordId
  createdAt := call.now
  source := call.sourceId
  target := call.targetId
  moved := movedOf call.sourceId call.targetId (claimMoved source target) db

theorem mem_arrayAgg {ids : List υ} {id : υ} : id ∈ arrayAgg ids ↔ id ∈ ids :=
  List.mem_mergeSort

theorem isMergeOf_iff {entry : AuditEntry υ} {id : υ} : entry.isMergeOf id = true ↔
    ∃ source target moved reason, entry = .fighterMerge id source target moved reason := by
  cases entry with
  | fighterMerge entityId source target moved reason =>
    simp only [AuditEntry.isMergeOf, decide_eq_true_eq, AuditEntry.fighterMerge.injEq]
    exact ⟨fun h => ⟨source, target, moved, reason, h, rfl, rfl, rfl, rfl⟩,
      fun ⟨_, _, _, _, h, _⟩ => h⟩
  | fighterMergeRevert => exact ⟨nofun, nofun⟩
  | other action => exact ⟨nofun, nofun⟩

section Merge

variable {call : MergeCall υ} {source target : Profile υ}

theorem ProfileLaw.untouched {p₀ p q : Profile υ} {row : AuditRow υ} {new : Merge υ}
    (h : ProfileLaw rows standing p₀ p) (hNe : p.id ≠ new.source)
    (hRow : row.entry.isMergeOf p.id = false) (hId : q.id = p.id) (hEmail : q.email = p.email)
    (hMerged : q.mergedIntoId = p.mergedIntoId) (hDeleted : q.deletedAt = p.deletedAt)
    (hAnswers : row.entry.isMergeInto p.id = false → q.answers = p.answers) :
    ProfileLaw (rows ++ [row]) (new :: standing) p₀ q := by
  rw [h.id] at hNe hRow hAnswers
  refine ⟨hId.trans h.id, hEmail.trans h.email, fun targetId => ?_, ?_, fun hNone => ?_⟩
  · rw [hMerged, h.merged targetId]
    simp [hNe.symm]
  · rw [hDeleted, h.deleted]
    simp [hNe.symm, or_imp, forall_and, hRow]
  · have hNew := hNone row (List.mem_append_right _ (List.mem_singleton.mpr rfl))
    exact (hAnswers hNew).trans (h.answers fun row hRow => hNone row (List.mem_append_left _ hRow))

theorem ProfileLaw.mergedAway {p₀ p : Profile υ} {row : AuditRow υ} {claim : Option υ} {now : ℤ}
    (h : ProfileLaw rows standing p₀ p) (new : Merge υ) (hRoot : p.mergedIntoId = none)
    (hSource : p.id = new.source) :
    ProfileLaw (rows ++ [row]) (new :: standing) p₀ (mergedAway new.target claim now p) := by
  have hNot : ∀ targetId, ¬((∃ r ∈ standing, r.source = p₀.id ∧ r.target = targetId) ∨
      p₀.mergedIntoId = some targetId) := by
    intro targetId hMerged
    have := (h.merged targetId).mpr hMerged
    rw [hRoot] at this
    cases this
  refine ⟨h.id, h.email, fun targetId => ?_, ?_, fun hNone => ?_⟩
  · constructor
    · intro hTarget
      exact .inl ⟨new, List.mem_cons_self, hSource.symm.trans h.id, Option.some.inj hTarget⟩
    · rintro (⟨r, hr, hId, hTarget⟩ | hMerged)
      · rcases List.mem_cons.mp hr with rfl | hr
        · exact congrArg some hTarget
        · exact (hNot targetId (.inl ⟨r, hr, hId, hTarget⟩)).elim
      · exact (hNot targetId (.inr hMerged)).elim
  · exact ⟨fun _ => .inl ⟨new, List.mem_cons_self, hSource.symm.trans h.id⟩, fun _ => rfl⟩
  · exact h.answers fun row hRow => hNone row (List.mem_append_left _ hRow)

theorem runStatements_merge : runStatements (mergeStatements call source target db) db =
    { follows := followTable.move db.follows call.sourceId call.targetId
      people := movePeople call.sourceId call.targetId db.people
      instructors := instructorTable.move db.instructors call.sourceId call.targetId
      profiles := changed call.sourceId call.targetId
        (mergedAway call.targetId (claimMoved source target) call.now)
        (survivor source target (claimMoved source target) call.now) db.profiles
      auditLog := db.auditLog ++ [mergeRow call (call.merge source target db).moved] } :=
  rfl

theorem mergedInto_changed {id id' : υ} (hNe : call.sourceId ≠ call.targetId)
    (h : MergedInto (changed call.sourceId call.targetId
      (mergedAway call.targetId (claimMoved source target) call.now)
      (survivor source target (claimMoved source target) call.now) db.profiles) id id') :
    id ≠ call.sourceId ∧ MergedInto db.profiles id id' ∨
      id = call.sourceId ∧ id' = call.targetId := by
  obtain ⟨q, hq, hId, hMerged⟩ := h
  obtain ⟨p, hp, rfl⟩ := mem_changed hNe (id_mergedAway _ _ _) hq
  by_cases hSource : p.id = call.sourceId
  · rw [if_pos hSource] at hId hMerged
    exact .inr ⟨hId.symm.trans hSource, (Option.some.inj hMerged).symm⟩
  · rw [if_neg hSource] at hId hMerged
    have hKeep : (if p.id = call.targetId then
        survivor source target (claimMoved source target) call.now p else p).id = p.id := by
      split <;> rfl
    have hLink : (if p.id = call.targetId then
        survivor source target (claimMoved source target) call.now p else p).mergedIntoId =
          p.mergedIntoId := by
      split <;> rfl
    rw [hKeep] at hId
    rw [hLink] at hMerged
    exact .inl ⟨hId ▸ hSource, p, hp, hId, hMerged⟩

theorem LogLaw.merge {log : List (AuditRow υ)} (h : LogLaw db₀ log rows standing)
    (hSourceSnapshot : call.sourceSnapshot = some call.sourceId)
    (hTargetSnapshot : call.targetSnapshot = some call.targetId)
    (hSources : ∀ r ∈ standing, r.source ≠ call.sourceId)
    (hUnmerged : ∀ p₀ ∈ db₀.profiles, p₀.id = call.sourceId → p₀.mergedIntoId = none)
    (hFresh : ∀ row ∈ log, row.id ≠ call.recordId)
    (hLater : ∀ row ∈ log, row.createdAt < call.now) :
    LogLaw db₀ (log ++ [mergeRow call (call.merge source target db).moved])
      (rows ++ [mergeRow call (call.merge source target db).moved])
      (call.merge source target db :: standing) := by
  have hNew : ∀ row ∈ rows, row.createdAt < call.now := fun row hRow =>
    hLater row (h.grown ▸ List.mem_append_right _ hRow)
  refine ⟨?_, ?_, ?_, ?_, ?_, ?_, ?_, ?_⟩
  · rw [h.grown, List.append_assoc]
  · rw [List.map_append, List.nodup_append]
    refine ⟨h.ids, List.nodup_singleton _, ?_⟩
    rintro id hId _ hNew rfl
    obtain ⟨row, hRow, rfl⟩ := List.mem_map.mp hId
    exact hFresh row hRow (List.mem_singleton.mp hNew)
  · refine List.pairwise_append.mpr ⟨h.times, List.pairwise_singleton _ _, ?_⟩
    intro row hRow later hEq
    rw [List.mem_singleton.mp hEq]
    exact hNew row hRow
  · intro row hRow entityId source' target' moved reason hEntry
    rcases List.mem_append.mp hRow with hRow | hRow
    · exact h.merges row hRow entityId source' target' moved reason hEntry
    · rw [List.mem_singleton.mp hRow] at hEntry
      obtain ⟨rfl, rfl, rfl, rfl, rfl⟩ := AuditEntry.fighterMerge.inj hEntry
      exact ⟨hSourceSnapshot, hUnmerged⟩
  · intro r hr
    rcases List.mem_cons.mp hr with rfl | hr
    · refine ⟨_, List.mem_append_right _ (List.mem_singleton.mpr rfl), call.reason, rfl, rfl, ?_⟩
      rw [mergeRow, hSourceSnapshot, hTargetSnapshot]
      rfl
    · obtain ⟨row, hRow, hRecord⟩ := h.recorded r hr
      exact ⟨row, List.mem_append_left _ hRow, hRecord⟩
  · intro r hr row hRow hMerge
    rcases List.mem_cons.mp hr with rfl | hr
    · rcases List.mem_append.mp hRow with hRow | hRow
      · exact (hNew row hRow).le
      · rw [List.mem_singleton.mp hRow]
        exact le_refl _
    · rcases List.mem_append.mp hRow with hRow | hRow
      · exact h.latest r hr row hRow hMerge
      · rw [List.mem_singleton.mp hRow] at hMerge
        have hEq : call.sourceId = r.source := of_decide_eq_true hMerge
        exact (hSources r hr hEq.symm).elim
  · intro r hr row hRow sourceId targetId hEntry
    rcases List.mem_append.mp hRow with hRow | hRow
    · rcases List.mem_cons.mp hr with rfl | hr
      · obtain ⟨reverted, hReverted, hId⟩ := h.named row hRow _ _ _ hEntry
        exact hFresh reverted hReverted hId
      · exact h.unreverted r hr row hRow sourceId targetId hEntry
    · rw [List.mem_singleton.mp hRow] at hEntry
      cases hEntry
  · intro row hRow id sourceId targetId hEntry
    rcases List.mem_append.mp hRow with hRow | hRow
    · obtain ⟨reverted, hReverted, hId⟩ := h.named row hRow id sourceId targetId hEntry
      exact ⟨reverted, List.mem_append_left _ hReverted, hId⟩
    · rw [List.mem_singleton.mp hRow] at hEntry
      cases hEntry

theorem Ledger.merge (hIds : db₀.Identified) (h : Ledger db₀ db rows standing)
    {statements : List (Db υ → Db υ)} (hAccepted : mergeFighters call db = .ok statements)
    (hFresh : ∀ row ∈ db.auditLog, row.id ≠ call.recordId)
    (hLater : ∀ row ∈ db.auditLog, row.createdAt < call.now) :
    ∃ row new, row.Tells (.merge call) ∧
      Ledger db₀ (runStatements statements db) (rows ++ [row]) (new :: standing) := by
  obtain ⟨source, hSource, target, hTarget, hSourceId, hTargetId, hNe, hSourceSnapshot,
    hTargetSnapshot, hUnmerged, hRoot, rfl⟩ := mergeFighters_ok hAccepted
  refine ⟨mergeRow call (call.merge source target db).moved, call.merge source target db,
    ⟨rfl, _, by rw [← hSourceSnapshot, ← hTargetSnapshot]; rfl⟩, ?_⟩
  rw [runStatements_merge]
  have hSources : ∀ r ∈ standing, r.source ≠ call.sourceId :=
    hSourceId ▸ h.source_ne hSource hUnmerged
  have hTargets : ∀ r ∈ standing, r.source ≠ call.targetId :=
    hTargetId ▸ h.source_ne hTarget hRoot
  obtain ⟨accounts, hAccounts, hTallies⟩ := h.accounts
  refine { follows := ?_, people := ?_, instructors := ?_, accounts := ?_, ids := ?_, profile := ?_,
           sources := ?_, log := ?_, forest := ?_ }
  · exact h.follows.move (call.merge source target db) hNe hTargets fun label => mem_arrayAgg
  · have hPeople := h.people.move (call.merge source target db) hNe hTargets fun label => by
      change label ∈ arrayAgg _ ↔ _
      rw [mem_arrayAgg, moved_people (h.peopleIds hIds) hNe]
      rfl
    rwa [move_people (h.peopleIds hIds) hNe]
  · exact h.instructors.move (call.merge source target db) hNe hTargets fun label => mem_arrayAgg
  · have hLabels := mem_moved_account hTallies hSource hTarget
    have hMerge := hTallies.merge (h.profileIds hIds) hSource hTarget
      (hSourceId ▸ hTargetId ▸ hNe) call.now
    rw [hSourceId, hTargetId] at hLabels hMerge
    exact ⟨_, hAccounts.move (call.merge source target db) hNe hTargets hLabels, hMerge⟩
  · exact (changed_ids (id_mergedAway _ _ _) (id_survivor _ _ _ _)).trans h.ids
  · intro q hq
    obtain ⟨p, hp, rfl⟩ := mem_changed hNe (id_mergedAway _ _ _) hq
    obtain ⟨p₀, hp₀, hLaw⟩ := h.profile p hp
    refine ⟨p₀, hp₀, ?_⟩
    by_cases hId : p.id = call.sourceId
    · rw [if_pos hId]
      obtain rfl := eq_of_id (h.profileIds hIds) hp hSource (hId.trans hSourceId.symm)
      exact hLaw.mergedAway (call.merge p target db) hUnmerged hId
    · rw [if_neg hId]
      have hRow : (mergeRow call (call.merge source target db).moved).entry.isMergeOf p.id =
          false := by
        simp [mergeRow, AuditEntry.isMergeOf, Ne.symm hId]
      split
      next hInto =>
        refine hLaw.untouched hId hRow rfl rfl rfl rfl fun hNot => ?_
        exact (of_decide_eq_false hNot (hTargetSnapshot.trans (congrArg some hInto.symm))).elim
      next => exact hLaw.untouched hId hRow rfl rfl rfl rfl fun _ => rfl
  · exact List.pairwise_cons.mpr ⟨fun r hr => (hSources r hr).symm, h.sources⟩
  · refine h.log.merge hSourceSnapshot hTargetSnapshot hSources (fun p₀ hp₀ hId => ?_) hFresh hLater
    obtain ⟨q₀, hq₀, hLaw⟩ := h.profile source hSource
    rw [eq_of_id hIds.profiles hp₀ hq₀ (hId.trans (hSourceId.symm.trans hLaw.id))]
    exact hLaw.root hUnmerged
  · intro hStart
    refine (h.forest hStart).link call.sourceId call.targetId (fun id id' hLink => ?_)
      fun id' hLink => ?_
    · exact (mergedInto_changed hNe hLink).imp_left And.right
    · rcases mergedInto_changed hNe hLink with ⟨-, p, hp, hId, hMerged⟩ | ⟨hEq, -⟩
      · rw [eq_of_id (h.profileIds hIds) hp hTarget (hId.trans hTargetId.symm), hRoot] at hMerged
        cases hMerged
      · exact hNe hEq.symm

end Merge

/-! ## A revert -/

section Revert

variable {call : RevertCall υ} {old : Merge υ}

theorem LogLaw.eq_of_row {log : List (AuditRow υ)} (h : LogLaw db₀ log rows standing)
    {row other : AuditRow υ} (hRow : row ∈ rows) (hOther : other ∈ rows)
    (hTime : row.createdAt = other.createdAt) : row = other := by
  by_contra hNe
  have hSymm : Std.Symm fun row other : AuditRow υ => row.createdAt ≠ other.createdAt :=
    ⟨fun _ _ h => h.symm⟩
  exact (h.times.imp fun hLt => ne_of_lt hLt).forall hRow hOther hNe hTime

/-- What a revert is accepted for is the standing merge of its profile. -/
theorem LogLaw.standing_of_accepted {log : List (AuditRow υ)} (h : LogLaw db₀ log rows standing)
    (hOld : old ∈ standing) {audit : AuditRow υ} (hAudit : audit ∈ rows)
    {target : Option υ} {moved : Moved υ} {reason : Option String}
    (hEntry : audit.entry = .fighterMerge old.source (some old.source) target moved reason)
    (hLatest : ∀ row ∈ log, row.entry.isMergeOf old.source = true →
      row.createdAt ≤ audit.createdAt) :
    audit.id = old.id ∧ moved = old.moved := by
  obtain ⟨row, hRow, reason', hId, hTime, hRecord⟩ := h.recorded old hOld
  have hMerge : row.entry.isMergeOf old.source = true :=
    isMergeOf_iff.mpr ⟨_, _, _, _, hRecord⟩
  have hLe := hLatest row (h.grown ▸ List.mem_append_right _ hRow) hMerge
  have hGe := h.latest old hOld audit hAudit (isMergeOf_iff.mpr ⟨_, _, _, _, hEntry⟩)
  obtain rfl := h.eq_of_row hRow hAudit (le_antisymm hLe (hTime ▸ hGe))
  rw [hRecord] at hEntry
  obtain ⟨-, -, -, rfl, -⟩ := AuditEntry.fighterMerge.inj hEntry
  exact ⟨hId, rfl⟩

theorem LogLaw.eq_of_id {log : List (AuditRow υ)} (h : LogLaw db₀ log rows standing)
    {r q : Merge υ} (hr : r ∈ standing) (hq : q ∈ standing) (hEq : r.id = q.id) :
    r.source = q.source := by
  obtain ⟨row, hRow, _, hId, -, hEntry⟩ := h.recorded r hr
  obtain ⟨other, hOther, _, hId', -, hEntry'⟩ := h.recorded q hq
  have hIn : ∀ {row}, row ∈ rows → row ∈ log := fun hRow => h.grown ▸ List.mem_append_right _ hRow
  obtain rfl := List.inj_on_of_nodup_map h.ids (hIn hRow) (hIn hOther)
    (hId.trans (hEq.trans hId'.symm))
  exact (AuditEntry.fighterMerge.inj (hEntry.symm.trans hEntry')).1

theorem LogLaw.revert {log : List (AuditRow υ)} (h : LogLaw db₀ log rows standing)
    (hOld : old ∈ standing) (hId : old.id = call.auditLogId)
    (hSources : ∀ r ∈ standing.erase old, r ∈ standing ∧ r.source ≠ old.source)
    (hFresh : ∀ row ∈ log, row.id ≠ call.recordId)
    (hLater : ∀ row ∈ log, row.createdAt < call.now) :
    LogLaw db₀ (log ++ [revertRow call old.source old.target])
      (rows ++ [revertRow call old.source old.target]) (standing.erase old) := by
  have hIn : ∀ {row}, row ∈ rows → row ∈ log := fun hRow => h.grown ▸ List.mem_append_right _ hRow
  refine ⟨?_, ?_, ?_, ?_, ?_, ?_, ?_, ?_⟩
  · rw [h.grown, List.append_assoc]
  · rw [List.map_append, List.nodup_append]
    refine ⟨h.ids, List.nodup_singleton _, ?_⟩
    rintro id hId _ hNew rfl
    obtain ⟨row, hRow, rfl⟩ := List.mem_map.mp hId
    exact hFresh row hRow (List.mem_singleton.mp hNew)
  · refine List.pairwise_append.mpr ⟨h.times, List.pairwise_singleton _ _, ?_⟩
    intro row hRow later hEq
    rw [List.mem_singleton.mp hEq]
    exact hLater row (hIn hRow)
  · intro row hRow entityId source target moved reason hEntry
    rcases List.mem_append.mp hRow with hRow | hRow
    · exact h.merges row hRow entityId source target moved reason hEntry
    · rw [List.mem_singleton.mp hRow] at hEntry
      cases hEntry
  · intro r hr
    obtain ⟨row, hRow, hRecord⟩ := h.recorded r (hSources r hr).1
    exact ⟨row, List.mem_append_left _ hRow, hRecord⟩
  · intro r hr row hRow hMerge
    rcases List.mem_append.mp hRow with hRow | hRow
    · exact h.latest r (hSources r hr).1 row hRow hMerge
    · rw [List.mem_singleton.mp hRow] at hMerge
      cases hMerge
  · intro r hr row hRow sourceId targetId hEntry
    obtain ⟨hStanding, hNe⟩ := hSources r hr
    rcases List.mem_append.mp hRow with hRow | hRow
    · exact h.unreverted r hStanding row hRow sourceId targetId hEntry
    · rw [List.mem_singleton.mp hRow] at hEntry
      have hSame : call.auditLogId = r.id := (AuditEntry.fighterMergeRevert.inj hEntry).1
      exact hNe (h.eq_of_id hStanding hOld (hSame.symm.trans hId.symm))
  · intro row hRow id sourceId targetId hEntry
    rcases List.mem_append.mp hRow with hRow | hRow
    · obtain ⟨reverted, hReverted, hId⟩ := h.named row hRow id sourceId targetId hEntry
      exact ⟨reverted, List.mem_append_left _ hReverted, hId⟩
    · rw [List.mem_singleton.mp hRow] at hEntry
      obtain ⟨reverted, hReverted, _, hRevertedId, -⟩ := h.recorded old hOld
      have hSame : call.auditLogId = id := (AuditEntry.fighterMergeRevert.inj hEntry).1
      exact ⟨reverted, List.mem_append_left _ (hIn hReverted),
        hRevertedId.trans (hId.trans hSame)⟩

theorem ProfileLaw.kept {p₀ p q : Profile υ} (h : ProfileLaw rows standing p₀ p)
    (hNe : p.id ≠ old.source) (hErase : ∀ r, r ∈ standing.erase old ↔ r ∈ standing ∧ r.source ≠
      old.source) (hId : q.id = p.id) (hEmail : q.email = p.email)
    (hMerged : q.mergedIntoId = p.mergedIntoId) (hDeleted : q.deletedAt = p.deletedAt)
    (hAnswers : q.answers = p.answers) :
    ProfileLaw (rows ++ [revertRow call old.source old.target]) (standing.erase old) p₀ q := by
  rw [h.id] at hNe
  have hStands : ∀ P : Merge υ → Prop, (∃ r ∈ standing.erase old, r.source = p₀.id ∧ P r) ↔
      ∃ r ∈ standing, r.source = p₀.id ∧ P r := by
    intro P
    constructor
    · rintro ⟨r, hr, hSource, hP⟩
      exact ⟨r, ((hErase r).mp hr).1, hSource, hP⟩
    · rintro ⟨r, hr, hSource, hP⟩
      exact ⟨r, (hErase r).mpr ⟨hr, fun hEq => hNe (hSource.symm.trans hEq)⟩, hSource, hP⟩
  refine ⟨hId.trans h.id, hEmail.trans h.email, fun targetId => ?_, ?_, fun hNone => ?_⟩
  · rw [hMerged, h.merged targetId, hStands]
  · have hStanding := hStands fun _ => True
    simp only [and_true] at hStanding
    rw [hDeleted, h.deleted, hStanding]
    simp [or_imp, forall_and, revertRow, AuditEntry.isMergeOf]
  · exact hAnswers.trans (h.answers fun row hRow => hNone row (List.mem_append_left _ hRow))

theorem ProfileLaw.restored {p₀ p : Profile υ} {claim : Option υ} {now : ℤ}
    {row : AuditRow υ} (h : ProfileLaw rows standing p₀ p) (hSource : p.id = old.source)
    (hErase : ∀ r, r ∈ standing.erase old ↔ r ∈ standing ∧ r.source ≠ old.source)
    (hRoot : p₀.mergedIntoId = none) {merge : AuditRow υ} (hMerge : merge ∈ rows)
    (hEntry : merge.entry.isMergeOf old.source = true) :
    ProfileLaw (rows ++ [row]) (standing.erase old) p₀ (restored claim now p) := by
  have hNone : ∀ r ∈ standing.erase old, r.source ≠ p₀.id := fun r hr =>
    h.id ▸ hSource ▸ ((hErase r).mp hr).2
  refine ⟨h.id, h.email, fun targetId => ?_, ?_, fun hNoMerge => ?_⟩
  · rw [hRoot]
    exact ⟨nofun, fun hEither => hEither.elim
      (fun ⟨r, hr, hId, _⟩ => (hNone r hr hId).elim) nofun⟩
  · refine ⟨nofun, ?_⟩
    rintro (⟨r, hr, hId⟩ | ⟨-, hNo⟩)
    · exact (hNone r hr hId).elim
    · have hFalse := hNo merge (List.mem_append_left _ hMerge)
      rw [← h.id, hSource, hEntry] at hFalse
      cases hFalse
  · exact h.answers fun row hRow => hNoMerge row (List.mem_append_left _ hRow)

theorem runStatements_revert {sourceId targetId : υ} {moved : Moved υ} {kept : Profile υ} :
    runStatements (revertStatements call sourceId targetId moved kept) db =
    { follows := followTable.moveBack db.follows sourceId targetId moved.directoryFollowerUserIds
      people := movePeopleBack sourceId targetId moved.personIds db.people
      instructors :=
        instructorTable.moveBack db.instructors sourceId targetId moved.workshopInstructorIds
      profiles := changed targetId sourceId (released (claimBack moved kept))
        (restored (claimBack moved kept) call.now) db.profiles
      auditLog := db.auditLog ++ [revertRow call sourceId targetId] } :=
  rfl

theorem mergedInto_restored {sourceId targetId : υ} {claim : Option υ} {id id' : υ}
    (hNe : targetId ≠ sourceId)
    (h : MergedInto (changed targetId sourceId (released claim) (restored claim call.now)
      db.profiles) id id') : MergedInto db.profiles id id' := by
  obtain ⟨q, hq, hId, hMerged⟩ := h
  obtain ⟨p, hp, rfl⟩ := mem_changed hNe (id_released claim) hq
  have hReleased : (released claim p).mergedIntoId = p.mergedIntoId := by
    rw [released]
    split <;> rfl
  split at hId
  · rw [if_pos ‹_›, hReleased] at hMerged
    exact ⟨p, hp, (id_released claim p).symm.trans hId, hMerged⟩
  · rw [if_neg ‹_›] at hMerged
    split at hId
    · rw [if_pos ‹_›] at hMerged
      cases hMerged
    · rw [if_neg ‹_›] at hMerged
      exact ⟨p, hp, hId, hMerged⟩

theorem Ledger.revert (hIds : db₀.Identified) (h : Ledger db₀ db rows standing)
    {statements : List (Db υ → Db υ)} (hAccepted : revertFighterMerge call db = .ok statements)
    (hOfRun : ∀ row ∈ db₀.auditLog, row.id ≠ call.auditLogId)
    (hFresh : ∀ row ∈ db.auditLog, row.id ≠ call.recordId)
    (hLater : ∀ row ∈ db.auditLog, row.createdAt < call.now) :
    ∃ row old, row.Tells (.revert call) ∧
      Ledger db₀ (runStatements statements db) (rows ++ [row]) (standing.erase old) := by
  obtain ⟨audit, hAudit, entityId, sourceId, targetId, moved, reason, hAuditId, hEntry,
    ⟨merged, hMerged, hMergedId, hInto⟩, hLatest, kept, hKept, hKeptId, hRoot, rfl⟩ :=
    revertFighterMerge_ok hAccepted
  have hRow : audit ∈ rows := by
    rw [h.log.grown] at hAudit
    exact (List.mem_append.mp hAudit).resolve_left fun hOld => hOfRun audit hOld hAuditId
  obtain ⟨hSame, hStartRoot⟩ := h.log.merges audit hRow _ _ _ _ _ hEntry
  obtain rfl := Option.some.inj hSame
  obtain ⟨merged₀, hMerged₀, hLaw⟩ := h.profile merged hMerged
  have hRoot₀ := hStartRoot merged₀ hMerged₀ (hLaw.id.symm.trans hMergedId)
  obtain ⟨old, hOld, hSource, rfl⟩ : ∃ r ∈ standing, r.source = sourceId ∧ r.target = targetId := by
    rcases (hLaw.merged targetId).mp hInto with ⟨r, hr, hSource, hTarget⟩ | hMerged
    · exact ⟨r, hr, hSource.trans (hLaw.id.symm.trans hMergedId), hTarget⟩
    · rw [hRoot₀] at hMerged
      cases hMerged
  subst hSource
  obtain ⟨hId, rfl⟩ := h.log.standing_of_accepted hOld hRow hEntry hLatest
  have hTargets : ∀ r ∈ standing, r.source ≠ old.target := hKeptId ▸ h.source_ne hKept hRoot
  have hNe : old.source ≠ old.target := hTargets old hOld
  have hSymm : Std.Symm fun r q : Merge υ => r.source ≠ q.source := ⟨fun _ _ h => h.symm⟩
  have hSources : ∀ r ∈ standing, r.source = old.source → r = old := fun r hr hEq => by
    by_contra hDiffers
    exact h.sources.forall hr hOld hDiffers hEq
  have hNodup : standing.Nodup := h.sources.imp fun hNe hEq => hNe (congrArg Merge.source hEq)
  have hErase : ∀ r, r ∈ standing.erase old ↔ r ∈ standing ∧ r.source ≠ old.source := by
    intro r
    rw [hNodup.mem_erase_iff]
    exact ⟨fun ⟨hDiffers, hr⟩ => ⟨hr, fun hEq => hDiffers (hSources r hr hEq)⟩,
      fun ⟨hr, hDiffers⟩ => ⟨fun hEq => hDiffers (congrArg Merge.source hEq), hr⟩⟩
  refine ⟨revertRow call old.source old.target, old, ⟨rfl, _, _, rfl⟩, ?_⟩
  rw [runStatements_revert]
  obtain ⟨accounts, hAccounts, hTallies⟩ := h.accounts
  refine { follows := ?_, people := ?_, instructors := ?_, accounts := ?_, ids := ?_, profile := ?_,
           sources := ?_, log := ?_, forest := ?_ }
  · exact h.follows.moveBack hOld hTargets hNodup hSources
  · have hPeople := h.people.moveBack hOld hTargets hNodup hSources
    change Recovers _ _ _ _ (movePeopleBack _ _ _ _)
    rwa [moveBack_people (h.peopleIds hIds) hNe]
  · exact h.instructors.moveBack hOld hTargets hNodup hSources
  · have hFree : ∀ userId, kept.claimedByUserId = some userId →
        userId ∈ old.moved.claimUserId.toList →
        accountTable.held accounts old.source () = false := by
      intro userId hClaim hListed
      have hHeld := (hTallies kept hKept userId).mp hClaim
      rw [hKeptId] at hHeld
      rw [← Bool.not_eq_true, held_iff]
      rintro ⟨account, hAccount, hOwner, -⟩
      exact hAccounts.free hOld hTargets hHeld rfl hListed hAccount rfl hOwner
    have hRevert := hTallies.revert (h.profileIds hIds) hKept (hKeptId ▸ hNe.symm) hFree call.now
    rw [hKeptId] at hRevert
    exact ⟨_, hAccounts.moveBack hOld hTargets hNodup hSources, hRevert⟩
  · exact (changed_ids (id_released _) (id_restored _ _)).trans h.ids
  · intro q hq
    obtain ⟨p, hp, rfl⟩ := mem_changed hNe.symm (id_released _) hq
    obtain ⟨p₀, hp₀, hLaw⟩ := h.profile p hp
    refine ⟨p₀, hp₀, ?_⟩
    by_cases hTarget : p.id = old.target
    · rw [if_pos hTarget]
      refine hLaw.kept (fun hEq => hNe (hEq.symm.trans hTarget)) hErase (id_released _ p) ?_ ?_ ?_ ?_
      all_goals
        rw [released]
        split <;> rfl
    · rw [if_neg hTarget]
      split
      next hSource =>
        refine hLaw.restored hSource hErase ?_ hRow (isMergeOf_iff.mpr ⟨_, _, _, _, hEntry⟩)
        exact hStartRoot p₀ hp₀ (hLaw.id.symm.trans hSource)
      next hOther => exact hLaw.kept hOther hErase rfl rfl rfl rfl rfl
  · exact h.sources.sublist List.erase_sublist
  · exact h.log.revert hOld (hId.symm.trans hAuditId) (fun r hr => (hErase r).mp hr) hFresh hLater
  · exact fun hStart => (h.forest hStart).mono fun id id' hLink =>
      mergedInto_restored hNe.symm hLink

end Revert

end Ledger

end MyClash.Fighters
