import MyClash.Fighters.MergeLedger
import MyClash.Library.Run

/-!
# Runs of merges and reverts

However merges and reverts alternate, the links form a forest and every unique key holds at every
moment, within a transaction too. Once every merge of the run is reverted, every row names the
profile it named first, and every profile is merged or deleted as it was, but for those that were
deleted when a merge took them.
-/

namespace MyClash.Fighters

open MoveBack Relation Runs

universe u

variable {υ : Type u} [LinearOrder υ]

/-- A call is accepted later than all that is logged, and its record gets an id of its own; a
revert is of a merge of the run. -/
structure Accepts (db₀ db : Db υ) (call : Call υ) (db' : Db υ) : Prop where
  accepted : ∃ statements, call.statements db = .ok statements ∧ db' = runStatements statements db
  fresh : ∀ row ∈ db.auditLog, row.id ≠ call.recordId
  later : ∀ row ∈ db.auditLog, row.createdAt < call.now
  ofRun : ∀ revert, call = .revert revert → ∀ row ∈ db₀.auditLog, row.id ≠ revert.auditLogId

/-- The rows before a call and after each of its statements. -/
def Call.moments (db : Db υ) (call : Call υ) : List (Db υ) :=
  match call.statements db with
  | .ok statements => Fighters.moments statements db
  | .error _ => [db]

/-- The keys hold; the links form a forest if they did first. -/
structure Db.Lawful (db₀ db : Db υ) : Prop where
  keyed : db.Keyed
  forest : Forest db₀.profiles → Forest db.profiles

abbrev Moves (υ : Type u) [LinearOrder υ] : Type u := List (Move (Db υ) (Call υ))

def RevertsAll (moves : Moves υ) : Prop :=
  ∀ m ∈ moves, ∀ merge, m.event = .merge merge →
    ∃ m' ∈ moves, ∃ revert, m'.event = .revert revert ∧ revert.auditLogId = merge.recordId

def MergesAway (moves : Moves υ) (id : υ) : Prop :=
  ∃ m ∈ moves, ∃ merge, m.event = .merge merge ∧ merge.sourceId = id

def MergesInto (moves : Moves υ) (id : υ) : Prop :=
  ∃ m ∈ moves, ∃ merge, m.event = .merge merge ∧ merge.targetId = id

/-- A profile as it was, but that no merge gives a deletion back, nor a survivor's answers. -/
structure Profile.ReturnsTo (moves : Moves υ) (p₀ p : Profile υ) : Prop where
  id : p.id = p₀.id
  email : p.email = p₀.email
  account : p.claimedByUserId = p₀.claimedByUserId
  merged : p.mergedIntoId = p₀.mergedIntoId
  deleted : p.deletedAt.isSome = true ↔ p₀.deletedAt.isSome = true ∧ ¬MergesAway moves p₀.id
  answers : ¬MergesInto moves p₀.id → p.answers = p₀.answers

structure Db.ReturnsTo (moves : Moves υ) (db₀ db : Db υ) : Prop where
  people : db.people = db₀.people
  instructors : db.instructors = db₀.instructors
  follows : db.follows = db₀.follows
  profiles : List.Forall₂ (Profile.ReturnsTo moves) db₀.profiles db.profiles

/-! ## The moments of a transaction -/

section Moments

variable {db₀ db : Db υ}

/-- The statements that merges and reverts share. -/
def transaction (follows : List (Follow υ) → List (Follow υ))
    (people : List (Person υ) → List (Person υ))
    (instructors : List (Instructor υ) → List (Instructor υ)) (id : υ) (f : Profile υ → Profile υ)
    (id' : υ) (g : Profile υ → Profile υ) (row : AuditRow υ) : List (Db υ → Db υ) :=
  [fun db => { db with follows := follows db.follows },
    fun db => { db with people := people db.people },
    fun db => { db with instructors := instructors db.instructors },
    Db.updateProfile id f, Db.updateProfile id' g, Db.log row]

omit [LinearOrder υ] in
theorem ProfileKeys.map {profiles : List (Profile υ)} (h : ProfileKeys profiles)
    {f : Profile υ → Profile υ}
    (hClaim : ∀ p userId, (f p).claimedByUserId = some userId → p.claimedByUserId = some userId)
    (hEmail : ∀ p, (f p).email = p.email)
    (hRoot : ∀ p, (f p).mergedIntoId = none → p.mergedIntoId = none) :
    ProfileKeys (profiles.map f) := by
  refine ⟨List.pairwise_map.mpr (h.claims.imp fun hApart userId hp hq => ?_),
    List.pairwise_map.mpr (h.emails.imp fun {p q} hApart hp hq email hEmailP hEmailQ => ?_)⟩
  · exact hApart userId (hClaim _ _ hp) (hClaim _ _ hq)
  · rw [hEmail] at hEmailP hEmailQ
    exact hApart (hRoot p hp) (hRoot q hq) email hEmailP hEmailQ

omit [LinearOrder υ] in
theorem mergedInto_map {profiles : List (Profile υ)} {f : Profile υ → Profile υ}
    (hId : ∀ p, (f p).id = p.id) (hMerged : ∀ p, (f p).mergedIntoId = p.mergedIntoId)
    {id id' : υ} : MergedInto (profiles.map f) id id' ↔ MergedInto profiles id id' := by
  constructor
  · rintro ⟨_, hMem, hSource, hTarget⟩
    obtain ⟨p, hp, rfl⟩ := List.mem_map.mp hMem
    exact ⟨p, hp, (hId p).symm.trans hSource, (hMerged p).symm.trans hTarget⟩
  · rintro ⟨p, hp, hSource, hTarget⟩
    exact ⟨f p, List.mem_map_of_mem hp, (hId p).trans hSource, (hMerged p).trans hTarget⟩

variable {follows : List (Follow υ) → List (Follow υ)}
  {people : List (Person υ) → List (Person υ)}
  {instructors : List (Instructor υ) → List (Instructor υ)} {id id' : υ}
  {f g : Profile υ → Profile υ} {row : AuditRow υ}

/-- Lawful before and after, and with the first profile written, is lawful at every moment. -/
theorem lawful_of_mem_moments (hBefore : db₀.Lawful db)
    (hAfter : db₀.Lawful
      (runStatements (transaction follows people instructors id f id' g row) db))
    (hKeys : ProfileKeys (db.updateProfile id f).profiles)
    (hForest : Forest db₀.profiles → Forest (db.updateProfile id f).profiles) :
    ∀ moment ∈ moments (transaction follows people instructors id f id' g row) db,
      db₀.Lawful moment := by
  obtain ⟨⟨hProfiles, hFollows, hInstructors⟩, hOld⟩ := hBefore
  obtain ⟨⟨hProfiles', hFollows', hInstructors'⟩, hNew⟩ := hAfter
  intro moment hMoment
  simp only [moments, transaction, List.scanl_cons, List.scanl_nil, List.mem_cons,
    List.not_mem_nil, or_false] at hMoment
  rcases hMoment with rfl | rfl | rfl | rfl | rfl | rfl | rfl
  · exact ⟨⟨hProfiles, hFollows, hInstructors⟩, hOld⟩
  · exact ⟨⟨hProfiles, hFollows', hInstructors⟩, hOld⟩
  · exact ⟨⟨hProfiles, hFollows', hInstructors⟩, hOld⟩
  · exact ⟨⟨hProfiles, hFollows', hInstructors'⟩, hOld⟩
  · exact ⟨⟨hKeys, hFollows', hInstructors'⟩, hForest⟩
  · exact ⟨⟨hProfiles', hFollows', hInstructors'⟩, hNew⟩
  · exact ⟨⟨hProfiles', hFollows', hInstructors'⟩, hNew⟩

/-- The merged-away profile has released its account before the survivor takes it. -/
theorem merge_moments {call : MergeCall υ} {statements : List (Db υ → Db υ)}
    (hAccepted : mergeFighters call db = .ok statements) (hBefore : db₀.Lawful db)
    (hAfter : db₀.Lawful (runStatements statements db)) :
    ∀ moment ∈ moments statements db, db₀.Lawful moment := by
  obtain ⟨source, -, target, -, -, -, -, -, -, -, -, rfl⟩ := mergeFighters_ok hAccepted
  refine lawful_of_mem_moments hBefore hAfter ?_ ?_
  · refine hBefore.keyed.profiles.map (fun p userId => ?_) (fun p => ?_) fun p => ?_
    · split
      · rw [mergedAway]
        split
        · exact fun h => h
        · rintro ⟨⟩
      · exact fun h => h
    · split <;> rfl
    · split
      · rintro ⟨⟩
      · exact fun h => h
  · refine fun hStart => (hAfter.forest hStart).mono fun id targetId hLink => ?_
    refine (mergedInto_map ?_ ?_).mpr hLink
    all_goals
      intro p
      split <;> rfl

theorem revert_moments {call : RevertCall υ} {statements : List (Db υ → Db υ)}
    (hAccepted : revertFighterMerge call db = .ok statements) (hBefore : db₀.Lawful db)
    (hAfter : db₀.Lawful (runStatements statements db)) :
    ∀ moment ∈ moments statements db, db₀.Lawful moment := by
  obtain ⟨-, -, -, sourceId, targetId, moved, -, -, -, -, -, kept, -, -, -, rfl⟩ :=
    revertFighterMerge_ok hAccepted
  have hReleased : ∀ p : Profile υ, (released (claimBack moved kept) p).mergedIntoId =
      p.mergedIntoId ∧ (released (claimBack moved kept) p).email = p.email := by
    intro p
    rw [released]
    split <;> exact ⟨rfl, rfl⟩
  refine lawful_of_mem_moments hBefore hAfter ?_ ?_
  · refine hBefore.keyed.profiles.map (fun p userId => ?_) (fun p => ?_) fun p => ?_
    · split
      · rw [released]
        split
        · rintro ⟨⟩
        · exact fun h => h
      · exact fun h => h
    · split
      · exact (hReleased p).2
      · rfl
    · split
      · rw [(hReleased p).1]
        exact fun h => h
      · exact fun h => h
  · refine fun hStart => (hBefore.forest hStart).mono fun id targetId hLink => ?_
    refine (mergedInto_map ?_ ?_).mp hLink
    all_goals
      intro p
      split
    · exact id_released _ p
    · rfl
    · exact (hReleased p).1
    · rfl

end Moments

/-! ## The run -/

section Run

variable {db₀ db db' : Db υ} {rows : List (AuditRow υ)} {standing : List (Merge υ)}
  {moves : Moves υ}

theorem Ledger.lawful (hIds : db₀.Identified) (hKeyed : db₀.Keyed)
    (h : Ledger db₀ db rows standing) : db₀.Lawful db :=
  ⟨h.keyed hIds hKeyed, h.forest⟩

/-- An accepted call keeps a ledger, and what it writes is lawful at every moment. -/
theorem Ledger.step (hIds : db₀.Identified) (hKeyed : db₀.Keyed)
    (h : Ledger db₀ db rows standing) {call : Call υ} (hStep : Accepts db₀ db call db') :
    (∃ row standing', row.Tells call ∧ Ledger db₀ db' (rows ++ [row]) standing') ∧
      ∀ moment ∈ call.moments db, db₀.Lawful moment := by
  obtain ⟨⟨statements, hAccepted, rfl⟩, hFresh, hLater, hOfRun⟩ := hStep
  rw [Call.moments, hAccepted]
  cases call with
  | merge call =>
    obtain ⟨row, new, hTells, hLedger⟩ := h.merge hIds hAccepted hFresh hLater
    exact ⟨⟨row, _, hTells, hLedger⟩,
      merge_moments hAccepted (h.lawful hIds hKeyed) (hLedger.lawful hIds hKeyed)⟩
  | revert call =>
    obtain ⟨row, old, hTells, hLedger⟩ := h.revert hIds hAccepted (hOfRun call rfl) hFresh hLater
    exact ⟨⟨row, _, hTells, hLedger⟩,
      revert_moments hAccepted (h.lawful hIds hKeyed) (hLedger.lawful hIds hKeyed)⟩

/-- The rows of the run's log and its calls. -/
structure Told (rows : List (AuditRow υ)) (moves : Moves υ) : Prop where
  calls : ∀ row ∈ rows, ∃ m ∈ moves, row.Tells m.event
  rows : ∀ m ∈ moves, ∃ row ∈ rows, row.Tells m.event

theorem Told.move (h : Told rows moves) {m : Move (Db υ) (Call υ)} {row : AuditRow υ}
    (hTells : row.Tells m.event) : Told (rows ++ [row]) (moves ++ [m]) := by
  constructor
  · intro other hOther
    rcases List.mem_append.mp hOther with hOther | hOther
    · obtain ⟨m', hm', hTells'⟩ := h.calls other hOther
      exact ⟨m', List.mem_append_left _ hm', hTells'⟩
    · rw [List.mem_singleton.mp hOther]
      exact ⟨m, List.mem_append_right _ (List.mem_singleton.mpr rfl), hTells⟩
  · intro m' hm'
    rcases List.mem_append.mp hm' with hm' | hm'
    · obtain ⟨other, hOther, hTells'⟩ := h.rows m' hm'
      exact ⟨other, List.mem_append_left _ hOther, hTells'⟩
    · rw [List.mem_singleton.mp hm']
      exact ⟨row, List.mem_append_right _ (List.mem_singleton.mpr rfl), hTells⟩

omit [LinearOrder υ] in
theorem tells_merge {row : AuditRow υ} {call : Call υ} (hTells : row.Tells call) {sourceId : υ}
    {source target : Option υ} {moved : Moved υ} {reason : Option String}
    (hEntry : row.entry = .fighterMerge sourceId source target moved reason) :
    ∃ merge, call = .merge merge ∧ merge.recordId = row.id ∧ merge.sourceId = sourceId ∧
      target = some merge.targetId := by
  cases call with
  | merge call =>
    obtain ⟨hId, moved', hEntry'⟩ := hTells
    rw [hEntry] at hEntry'
    obtain ⟨rfl, -, rfl, -⟩ := AuditEntry.fighterMerge.inj hEntry'
    exact ⟨call, rfl, hId.symm, rfl, rfl⟩
  | revert call =>
    obtain ⟨-, _, _, hEntry'⟩ := hTells
    rw [hEntry] at hEntry'
    cases hEntry'

theorem Told.mergesAway (h : Told rows moves) {id : υ} :
    MergesAway moves id ↔ ∃ row ∈ rows, row.entry.isMergeOf id = true := by
  constructor
  · rintro ⟨m, hm, merge, hEvent, rfl⟩
    obtain ⟨row, hRow, hTells⟩ := h.rows m hm
    rw [hEvent] at hTells
    obtain ⟨-, moved, hEntry⟩ := hTells
    exact ⟨row, hRow, isMergeOf_iff.mpr ⟨_, _, _, _, hEntry⟩⟩
  · rintro ⟨row, hRow, hMerge⟩
    obtain ⟨_, _, _, _, hEntry⟩ := isMergeOf_iff.mp hMerge
    obtain ⟨m, hm, hTells⟩ := h.calls row hRow
    obtain ⟨merge, hEvent, -, hSource, -⟩ := tells_merge hTells hEntry
    exact ⟨m, hm, merge, hEvent, hSource⟩

theorem Told.mergesInto (h : Told rows moves) {id : υ} (hNot : ¬MergesInto moves id) :
    ∀ row ∈ rows, row.entry.isMergeInto id = false := by
  intro row hRow
  refine Bool.eq_false_iff.mpr fun hInto => ?_
  obtain ⟨m, hm, hTells⟩ := h.calls row hRow
  cases hEntry : row.entry with
  | fighterMerge =>
    rw [hEntry] at hInto
    obtain ⟨merge, hEvent, -, -, hTarget⟩ := tells_merge hTells hEntry
    have hId := of_decide_eq_true hInto
    rw [hTarget] at hId
    exact hNot ⟨m, hm, merge, hEvent, Option.some.inj hId⟩
  | fighterMergeRevert =>
    rw [hEntry] at hInto
    cases hInto
  | other =>
    rw [hEntry] at hInto
    cases hInto

theorem ledger_of_run (hIds : db₀.Identified) (hKeyed : db₀.Keyed)
    (hRun : Run (Accepts db₀) db₀ moves db) :
    (∃ rows standing, Ledger db₀ db rows standing ∧ Told rows moves) ∧
      ∀ m ∈ moves, ∀ moment ∈ m.event.moments m.before, db₀.Lawful moment := by
  induction hRun with
  | start => exact ⟨⟨[], [], Ledger.start hIds hKeyed, nofun, nofun⟩, nofun⟩
  | @move moves db db' call _ hStep ih =>
    obtain ⟨⟨rows, standing, hLedger, hTold⟩, hMoments⟩ := ih
    obtain ⟨⟨row, standing', hTells, hLedger'⟩, hNow⟩ := hLedger.step hIds hKeyed hStep
    refine ⟨⟨_, standing', hLedger', hTold.move hTells⟩, fun m hm => ?_⟩
    rcases List.mem_append.mp hm with hm | hm
    · exact hMoments m hm
    · rw [List.mem_singleton.mp hm]
      exact hNow

/-- No merge stands once all are reverted: the log tells the merge and its revert. -/
theorem Ledger.standing_nil (h : Ledger db₀ db rows standing) (hTold : Told rows moves)
    (hAll : RevertsAll moves) : standing = [] := by
  refine List.eq_nil_iff_forall_not_mem.mpr fun r hr => ?_
  obtain ⟨row, hRow, _, hId, -, hEntry⟩ := h.log.recorded r hr
  obtain ⟨m, hm, hTells⟩ := hTold.calls row hRow
  obtain ⟨merge, hEvent, hRecord, -⟩ := tells_merge hTells hEntry
  obtain ⟨m', hm', revert, hEvent', hReverted⟩ := hAll m hm merge hEvent
  obtain ⟨row', hRow', hTells'⟩ := hTold.rows m' hm'
  rw [hEvent'] at hTells'
  obtain ⟨-, sourceId, targetId, hEntry'⟩ := hTells'
  rw [hReverted, hRecord, hId] at hEntry'
  exact h.log.unreverted r hr row' hRow' sourceId targetId hEntry'

theorem ProfileLaw.returnsTo {p₀ p : Profile υ} (h : ProfileLaw rows [] p₀ p)
    (hTold : Told rows moves) (hAccount : p.claimedByUserId = p₀.claimedByUserId) :
    p₀.ReturnsTo moves p := by
  refine ⟨h.id, h.email, hAccount, Option.ext fun targetId => ?_, ?_, fun hNot => ?_⟩
  · rw [h.merged targetId]
    simp
  · rw [h.deleted, hTold.mergesAway]
    simp
  · exact h.answers (hTold.mergesInto hNot)

theorem Ledger.returnsTo (hIds : db₀.Identified) (h : Ledger db₀ db rows [])
    (hTold : Told rows moves) : db₀.ReturnsTo moves db := by
  refine ⟨h.people.eq_of_nil, h.instructors.eq_of_nil, h.follows.eq_of_nil, ?_⟩
  obtain ⟨accounts, hAccounts, hTallies⟩ := h.accounts
  rw [hAccounts.eq_of_nil] at hTallies
  refine List.forall₂_iff_get.mpr ⟨by simpa using (congrArg List.length h.ids).symm, ?_⟩
  intro i hi hi'
  rw [List.get_eq_getElem, List.get_eq_getElem]
  have hId : db.profiles[i].id = db₀.profiles[i].id := by
    simpa [hi, hi'] using congrArg (·[i]?) h.ids
  obtain ⟨p₀, hp₀, hLaw⟩ := h.profile db.profiles[i] (List.getElem_mem hi')
  obtain rfl := eq_of_id hIds.profiles hp₀ (List.getElem_mem hi) (hLaw.id.symm.trans hId)
  refine hLaw.returnsTo hTold (Option.ext fun userId => ?_)
  calc db.profiles[i].claimedByUserId = some userId
      ↔ ⟨userId, db.profiles[i].id⟩ ∈ accountsOf db₀.profiles :=
        hTallies _ (List.getElem_mem hi') userId
    _ ↔ ⟨userId, db₀.profiles[i].id⟩ ∈ accountsOf db₀.profiles := by rw [hId]
    _ ↔ db₀.profiles[i].claimedByUserId = some userId :=
        (tallies_accountsOf hIds.profiles _ hp₀ userId).symm

/-- The keys hold and the links form a forest at every moment of the run; once all its merges are
reverted, the rows are as they were. -/
theorem merges_and_reverts (hIds : db₀.Identified) (hKeyed : db₀.Keyed)
    (hRun : Run (Accepts db₀) db₀ moves db) :
    (∀ m ∈ moves, ∀ moment ∈ m.event.moments m.before,
      moment.Keyed ∧ (Forest db₀.profiles → Forest moment.profiles)) ∧
    (RevertsAll moves → db₀.ReturnsTo moves db) := by
  obtain ⟨⟨rows, standing, hLedger, hTold⟩, hMoments⟩ := ledger_of_run hIds hKeyed hRun
  refine ⟨fun m hm moment hMoment => ?_, fun hAll => ?_⟩
  · have hLawful := hMoments m hm moment hMoment
    exact ⟨hLawful.keyed, hLawful.forest⟩
  · obtain rfl := hLedger.standing_nil hTold hAll
    exact hLedger.returnsTo hIds hTold

/-! ## Calls replayed -/

def Db.after (db : Db υ) (call : Call υ) : Db υ :=
  match call.statements db with
  | .ok statements => runStatements statements db
  | .error _ => db

def movesFrom (db : Db υ) : List (Call υ) → Moves υ
  | [] => []
  | call :: calls => ⟨db, call, db.after call⟩ :: movesFrom (db.after call) calls

def Call.ofRun (db₀ : Db υ) : Call υ → Bool
  | .merge _ => true
  | .revert call => db₀.auditLog.all (·.id ≠ call.auditLogId)

def acceptsAll (db₀ db : Db υ) : List (Call υ) → Bool
  | [] => true
  | call :: calls =>
    (call.statements db).isOk &&
      db.auditLog.all (fun row => row.id ≠ call.recordId && row.createdAt < call.now) &&
      call.ofRun db₀ && acceptsAll db₀ (db.after call) calls

def revertsAll (calls : List (Call υ)) : Bool :=
  calls.all fun
    | .merge merge => calls.any fun
      | .merge _ => false
      | .revert revert => revert.auditLogId = merge.recordId
    | .revert _ => true

theorem run_movesFrom {calls : List (Call υ)} (h : acceptsAll db₀ db calls = true) :
    Run (Accepts db₀) db (movesFrom db calls) (calls.foldl Db.after db) := by
  induction calls generalizing db with
  | nil => exact Run.start
  | cons call calls ih =>
    simp only [acceptsAll, Bool.and_eq_true, List.all_eq_true, decide_eq_true_eq] at h
    obtain ⟨⟨⟨hAccepted, hLog⟩, hOfRun⟩, hRest⟩ := h
    refine Run.cons ⟨?_, fun row hRow => (hLog row hRow).1, fun row hRow => (hLog row hRow).2,
      fun revert hRevert row hRow => ?_⟩ (ih hRest)
    · rw [Db.after]
      cases hStatements : call.statements db with
      | ok statements => exact ⟨statements, rfl, rfl⟩
      | error refusal =>
        rw [hStatements] at hAccepted
        cases hAccepted
    · subst hRevert
      exact of_decide_eq_true (List.all_eq_true.mp hOfRun row hRow)

theorem event_mem_movesFrom {calls : List (Call υ)} {m : Move (Db υ) (Call υ)}
    (hm : m ∈ movesFrom db calls) : m.event ∈ calls := by
  induction calls generalizing db with
  | nil => cases hm
  | cons call calls ih =>
    rcases List.mem_cons.mp hm with rfl | hm
    · exact List.mem_cons_self
    · exact List.mem_cons_of_mem _ (ih hm)

theorem exists_mem_movesFrom (db : Db υ) {calls : List (Call υ)} {call : Call υ}
    (hCall : call ∈ calls) :
    ∃ m ∈ movesFrom db calls, m.event = call := by
  induction calls generalizing db with
  | nil => cases hCall
  | cons first calls ih =>
    rcases List.mem_cons.mp hCall with rfl | hCall
    · exact ⟨_, List.mem_cons_self, rfl⟩
    · obtain ⟨m, hm, hEvent⟩ := ih (db.after first) hCall
      exact ⟨m, List.mem_cons_of_mem _ hm, hEvent⟩

theorem revertsAll_movesFrom {calls : List (Call υ)} (h : revertsAll calls = true) :
    RevertsAll (movesFrom db calls) := by
  intro m hm merge hMerge
  have hAny := List.all_eq_true.mp h _ (event_mem_movesFrom hm)
  rw [hMerge] at hAny
  obtain ⟨call, hCall, hReverts⟩ := List.any_eq_true.mp hAny
  cases call with
  | merge other => cases hReverts
  | revert revert =>
    obtain ⟨m', hm', hEvent⟩ := exists_mem_movesFrom db hCall
    exact ⟨m', hm', revert, hEvent, of_decide_eq_true hReverts⟩

end Run

/-! ## Two runs -/

def plainProfile (id : ℕ) (claimedByUserId : Option ℕ) (deletedAt : Option ℤ) : Profile ℕ where
  id := id
  photoUrl := none
  hemaRatingsId := none
  bio := none
  countryCode := none
  genderCategory := none
  hideWorkshopsPublicly := false
  allowBeingFollowed := true
  email := none
  claimedByUserId := claimedByUserId
  mergedIntoId := none
  mergedAt := none
  mergeRevertedAt := none
  deletedAt := deletedAt
  updatedAt := 0

def plainMerge (sourceId targetId recordId : ℕ) (now : ℤ) : Call ℕ :=
  .merge ⟨sourceId, targetId, 7, none, some sourceId, some targetId, recordId, now⟩

def plainRevert (auditLogId recordId : ℕ) (now : ℤ) : Call ℕ :=
  .revert ⟨auditLogId, 7, recordId, now⟩

/-- Three profiles; the first two share a follower and a Workshop. -/
def threeProfiles : Db ℕ where
  profiles := [plainProfile 1 (some 10) none, plainProfile 2 none none, plainProfile 3 none none]
  follows := [⟨31, 40, 1⟩, ⟨32, 40, 2⟩, ⟨33, 41, 1⟩]
  people := [⟨21, some 1⟩, ⟨22, some 2⟩, ⟨23, none⟩]
  instructors := [⟨51, 60, some 1⟩, ⟨52, 60, some 2⟩, ⟨53, 61, some 1⟩]
  auditLog := []

/-- The first into the second, that into the third, the first once more after both reverts. -/
def chainCalls : List (Call ℕ) :=
  [plainMerge 1 2 101 1, plainMerge 2 3 102 2, plainRevert 102 103 3, plainRevert 101 104 4,
    plainMerge 1 3 105 5, plainRevert 105 106 6]

theorem threeProfiles_identified : threeProfiles.Identified :=
  ⟨by decide, by decide, by decide, by decide⟩

theorem threeProfiles_keyed : threeProfiles.Keyed := by
  refine ⟨⟨?_, ?_⟩, ?_, ?_⟩
  · simp [threeProfiles, plainProfile]
  · simp [threeProfiles, plainProfile]
  · simp [threeProfiles, Table.Apart, followTable]
  · simp [threeProfiles, Table.Apart, instructorTable]

theorem merges_and_reverts_chain :
    Run (Accepts threeProfiles) threeProfiles (movesFrom threeProfiles chainCalls)
        (chainCalls.foldl Db.after threeProfiles) ∧
      threeProfiles.ReturnsTo (movesFrom threeProfiles chainCalls)
        (chainCalls.foldl Db.after threeProfiles) := by
  have hRun := run_movesFrom (show acceptsAll threeProfiles threeProfiles chainCalls = true by
    decide +kernel)
  exact ⟨hRun, (merges_and_reverts threeProfiles_identified threeProfiles_keyed hRun).2
    (revertsAll_movesFrom (by decide +kernel))⟩

/-- The first profile is deleted, though it was never merged. -/
def deletedProfile : Db ℕ where
  profiles := [plainProfile 1 none (some 0), plainProfile 2 none none]
  follows := []
  people := []
  instructors := []
  auditLog := []

/-- A revert brings back a profile that was deleted before it was merged away. -/
theorem revert_undeletes : ∃ (moves : Moves ℕ) (db : Db ℕ),
    deletedProfile.Identified ∧ deletedProfile.Keyed ∧ Forest deletedProfile.profiles ∧
      Run (Accepts deletedProfile) deletedProfile moves db ∧ RevertsAll moves ∧
      db.profiles.map (·.deletedAt.isSome) ≠ deletedProfile.profiles.map (·.deletedAt.isSome) := by
  have hRun := run_movesFrom (show acceptsAll deletedProfile deletedProfile
    [plainMerge 1 2 101 1, plainRevert 101 102 2] = true by decide +kernel)
  refine ⟨_, _, ⟨by decide, by decide, by decide, by decide⟩, ⟨⟨?_, ?_⟩, ?_, ?_⟩, ?_, hRun,
    revertsAll_movesFrom (by decide +kernel), by decide +kernel⟩
  · simp [deletedProfile, plainProfile]
  · simp [deletedProfile, plainProfile]
  · exact List.Pairwise.nil
  · exact List.Pairwise.nil
  · intro id hCycle
    obtain ⟨next, ⟨p, hp, -, hMerged⟩, -⟩ := TransGen.head'_iff.mp hCycle
    simp only [deletedProfile, List.mem_cons, List.not_mem_nil, or_false] at hp
    rcases hp with rfl | rfl <;> cases hMerged

end MyClash.Fighters
