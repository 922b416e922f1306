import MyClash.Library.MoveBack
import Mathlib.Data.List.Sort
import Mathlib.Data.List.Basic

/-!
# A fighter merge and its revert

A merge moves the follows, the event people and the instructor lines of one profile to another,
and its account link where the other has none; its record says what moved. Each is one
transaction, here as the statements it runs.
-/

namespace MyClash.Fighters

open MoveBack

universe u

structure Profile (υ : Type u) where
  id : υ
  photoUrl : Option String
  hemaRatingsId : Option String
  bio : Option String
  countryCode : Option String
  genderCategory : Option String
  hideWorkshopsPublicly : Bool
  allowBeingFollowed : Bool
  /-- In lower case, as its index reads it. -/
  email : Option String
  claimedByUserId : Option υ
  mergedIntoId : Option υ
  mergedAt : Option ℤ
  mergeRevertedAt : Option ℤ
  deletedAt : Option ℤ
  updatedAt : ℤ

structure Follow (υ : Type u) where
  id : υ
  followerUserId : υ
  followedGlobalPersonId : υ

structure Person (υ : Type u) where
  id : υ
  globalPersonId : Option υ

structure Instructor (υ : Type u) where
  id : υ
  workshopId : υ
  globalPersonId : Option υ

structure Moved (υ : Type u) where
  personIds : List υ
  workshopInstructorIds : List υ
  directoryFollowerUserIds : List υ
  claimUserId : Option υ
  deriving DecidableEq

/-- A merge record keeps the ids its two snapshots name. -/
inductive AuditEntry (υ : Type u) where
  | fighterMerge (entityId : υ) (source target : Option υ) (moved : Moved υ)
      (reason : Option String)
  | fighterMergeRevert (revertedAuditLogId sourceId targetId : υ)
  | other (action : String)
  deriving DecidableEq

structure AuditRow (υ : Type u) where
  id : υ
  actorUserId : υ
  createdAt : ℤ
  entry : AuditEntry υ
  deriving DecidableEq

structure Db (υ : Type u) where
  profiles : List (Profile υ)
  follows : List (Follow υ)
  people : List (Person υ)
  instructors : List (Instructor υ)
  auditLog : List (AuditRow υ)

inductive Refusal where
  | sameProfile
  | snapshotOfAnother
  | sourceNotFound
  | targetNotFound
  | sourceMerged
  | targetMergedOrDeleted
  | recordNotFound
  | notAMerge
  | tooLate
  | recordNamesNoProfile
  | alreadyReverted
  | survivorMerged
  | laterMerge

/-- What the caller passes, with the id and the time the database gives the record. -/
structure MergeCall (υ : Type u) where
  sourceId : υ
  targetId : υ
  actorUserId : υ
  reason : Option String
  sourceSnapshot : Option υ
  targetSnapshot : Option υ
  recordId : υ
  now : ℤ

structure RevertCall (υ : Type u) where
  auditLogId : υ
  actorUserId : υ
  recordId : υ
  now : ℤ

section Tables

variable {υ : Type u}

/-- One follow a pair; a merge lists the followers. -/
def followTable : Table (Follow υ) υ υ υ where
  owner follow := some follow.followedGlobalPersonId
  setOwner id follow := { follow with followedGlobalPersonId := id }
  key follow := follow.followerUserId
  label follow := follow.followerUserId
  owner_setOwner _ _ := rfl
  key_setOwner _ _ := rfl
  label_setOwner _ _ := rfl
  setOwner_setOwner _ _ _ := rfl
  setOwner_owner := by
    rintro id ⟨_, _, _⟩ h
    rw [← Option.some.inj h]

/-- No key of its own: a profile may hold any number of event people. -/
def personTable : Table (Person υ) υ υ υ where
  owner person := person.globalPersonId
  setOwner id person := { person with globalPersonId := some id }
  key person := person.id
  label person := person.id
  owner_setOwner _ _ := rfl
  key_setOwner _ _ := rfl
  label_setOwner _ _ := rfl
  setOwner_setOwner _ _ _ := rfl
  setOwner_owner := by
    rintro id ⟨_, _⟩ rfl
    rfl

/-- One line a Workshop and profile; a merge lists the lines. -/
def instructorTable : Table (Instructor υ) υ υ υ where
  owner line := line.globalPersonId
  setOwner id line := { line with globalPersonId := some id }
  key line := line.workshopId
  label line := line.id
  owner_setOwner _ _ := rfl
  key_setOwner _ _ := rfl
  label_setOwner _ _ := rfl
  setOwner_setOwner _ _ _ := rfl
  setOwner_owner := by
    rintro id ⟨_, _, _⟩ rfl
    rfl

end Tables

section Calls

variable {υ : Type u} [LinearOrder υ]

def Db.profile? (db : Db υ) (id : υ) : Option (Profile υ) := db.profiles.find? (·.id = id)

def Db.updateProfile (id : υ) (change : Profile υ → Profile υ) (db : Db υ) : Db υ :=
  { db with profiles := db.profiles.map fun p => if p.id = id then change p else p }

def Db.log (row : AuditRow υ) (db : Db υ) : Db υ := { db with auditLog := db.auditLog ++ [row] }

/-- `array_agg(.. order by ..)`. -/
def arrayAgg (ids : List υ) : List υ := ids.mergeSort (· ≤ ·)

/-! ## A merge -/

def blank (text : Option String) : Bool := text.getD "" = ""

/-- A blank field of the survivor takes the merged-away profile's value. -/
def filled (target source current : Option String) : Option String :=
  if blank target && !blank source then source else current

/-- The account link moves where the survivor has no owner. -/
def claimMoved (source target : Profile υ) : Option υ :=
  if source.claimedByUserId.isSome && target.claimedByUserId.isNone then source.claimedByUserId
  else none

def movePeople (sourceId targetId : υ) (people : List (Person υ)) : List (Person υ) :=
  people.map fun person =>
    if person.globalPersonId = some sourceId then { person with globalPersonId := some targetId }
    else person

def movedOf (sourceId targetId : υ) (claim : Option υ) (db : Db υ) : Moved υ where
  personIds := arrayAgg ((db.people.filter (·.globalPersonId = some sourceId)).map (·.id))
  workshopInstructorIds := arrayAgg (instructorTable.moved db.instructors sourceId targetId)
  directoryFollowerUserIds := arrayAgg (followTable.moved db.follows sourceId targetId)
  claimUserId := claim

/-- The merged-away profile releases its account link before the survivor takes it. -/
def mergedAway (targetId : υ) (claim : Option υ) (now : ℤ) (p : Profile υ) : Profile υ :=
  { p with
    mergedIntoId := some targetId
    mergedAt := some now
    mergeRevertedAt := none
    deletedAt := some now
    updatedAt := now
    claimedByUserId := if claim.isNone then p.claimedByUserId else none }

/-- The survivor: blank fields filled, the stricter answer a privacy choice, the account link. -/
def survivor (source target : Profile υ) (claim : Option υ) (now : ℤ) (p : Profile υ) :
    Profile υ :=
  { p with
    photoUrl := filled target.photoUrl source.photoUrl p.photoUrl
    hemaRatingsId := filled target.hemaRatingsId source.hemaRatingsId p.hemaRatingsId
    bio := filled target.bio source.bio p.bio
    countryCode := filled target.countryCode source.countryCode p.countryCode
    genderCategory := filled target.genderCategory source.genderCategory p.genderCategory
    hideWorkshopsPublicly := target.hideWorkshopsPublicly || source.hideWorkshopsPublicly
    allowBeingFollowed := target.allowBeingFollowed && source.allowBeingFollowed
    claimedByUserId := claim.or p.claimedByUserId
    updatedAt := now }

def mergeRow (call : MergeCall υ) (moved : Moved υ) : AuditRow υ where
  id := call.recordId
  actorUserId := call.actorUserId
  createdAt := call.now
  entry := .fighterMerge call.sourceId call.sourceSnapshot call.targetSnapshot moved call.reason

/-- The statements of a merge, in their order. -/
def mergeStatements (call : MergeCall υ) (source target : Profile υ) (db : Db υ) :
    List (Db υ → Db υ) :=
  let claim := claimMoved source target
  let moved := movedOf call.sourceId call.targetId claim db
  [fun db => { db with follows := followTable.move db.follows call.sourceId call.targetId },
    fun db => { db with people := movePeople call.sourceId call.targetId db.people },
    fun db =>
      { db with instructors := instructorTable.move db.instructors call.sourceId call.targetId },
    Db.updateProfile call.sourceId (mergedAway call.targetId claim call.now),
    Db.updateProfile call.targetId (survivor source target claim call.now),
    Db.log (mergeRow call moved)]

def mergeFighters (call : MergeCall υ) (db : Db υ) : Except Refusal (List (Db υ → Db υ)) :=
  if call.sourceId = call.targetId then .error .sameProfile
  else if call.sourceSnapshot ≠ some call.sourceId ∨ call.targetSnapshot ≠ some call.targetId then
    .error .snapshotOfAnother
  else
    match db.profile? call.sourceId, db.profile? call.targetId with
    | none, _ => .error .sourceNotFound
    | some _, none => .error .targetNotFound
    | some source, some target =>
      if source.mergedIntoId.isSome then .error .sourceMerged
      else if target.mergedIntoId.isSome || target.deletedAt.isSome then
        .error .targetMergedOrDeleted
      else .ok (mergeStatements call source target db)

/-! ## A revert -/

/-- 720 hours, in microseconds. -/
def REVERT_WINDOW : ℤ := 720 * 60 * 60 * 1000000

def AuditEntry.isMergeOf (sourceId : υ) : AuditEntry υ → Bool
  | .fighterMerge entityId _ _ _ _ => entityId = sourceId
  | _ => false

def movePeopleBack (sourceId targetId : υ) (ids : List υ) (people : List (Person υ)) :
    List (Person υ) :=
  people.map fun person =>
    if person.globalPersonId = some targetId && ids.contains person.id then
      { person with globalPersonId := some sourceId }
    else person

/-- The account link goes back only if the survivor still holds it. -/
def claimBack (moved : Moved υ) (target : Profile υ) : Option υ :=
  if moved.claimUserId.isSome && target.claimedByUserId = moved.claimUserId then moved.claimUserId
  else none

def released (claim : Option υ) (p : Profile υ) : Profile υ :=
  if claim.isSome then { p with claimedByUserId := none } else p

def restored (claim : Option υ) (now : ℤ) (p : Profile υ) : Profile υ :=
  { p with
    mergedIntoId := none
    mergedAt := none
    deletedAt := none
    mergeRevertedAt := some now
    updatedAt := now
    claimedByUserId := claim.or p.claimedByUserId }

def revertRow (call : RevertCall υ) (sourceId targetId : υ) : AuditRow υ where
  id := call.recordId
  actorUserId := call.actorUserId
  createdAt := call.now
  entry := .fighterMergeRevert call.auditLogId sourceId targetId

def revertStatements (call : RevertCall υ) (sourceId targetId : υ) (moved : Moved υ)
    (target : Profile υ) : List (Db υ → Db υ) :=
  let claim := claimBack moved target
  [fun db =>
      { db with
        follows :=
          followTable.moveBack db.follows sourceId targetId moved.directoryFollowerUserIds },
    fun db => { db with people := movePeopleBack sourceId targetId moved.personIds db.people },
    fun db =>
      { db with
        instructors :=
          instructorTable.moveBack db.instructors sourceId targetId moved.workshopInstructorIds },
    Db.updateProfile targetId (released claim),
    Db.updateProfile sourceId (restored claim call.now),
    Db.log (revertRow call sourceId targetId)]

def revertFighterMerge (call : RevertCall υ) (db : Db υ) :
    Except Refusal (List (Db υ → Db υ)) :=
  match db.auditLog.find? (·.id = call.auditLogId) with
  | none => .error .recordNotFound
  | some audit =>
    match audit.entry with
    | .fighterMerge _ source target moved _ =>
      if audit.createdAt < call.now - REVERT_WINDOW then .error .tooLate
      else
        match source, target with
        | some sourceId, some targetId =>
          match db.profile? sourceId with
          | none => .error .sourceNotFound
          | some merged =>
            if merged.mergedIntoId ≠ some targetId then .error .alreadyReverted
            else
              match db.profile? targetId with
              | none => .error .targetNotFound
              | some survivor =>
                if survivor.mergedIntoId.isSome then .error .survivorMerged
                else if db.auditLog.any fun row =>
                    row.entry.isMergeOf sourceId && row.createdAt > audit.createdAt then
                  .error .laterMerge
                else .ok (revertStatements call sourceId targetId moved survivor)
        | _, _ => .error .recordNamesNoProfile
    | _ => .error .notAMerge

/-! ## A transaction -/

def runStatements (statements : List (Db υ → Db υ)) (db : Db υ) : Db υ :=
  statements.foldl (fun db statement => statement db) db

/-- The rows before a transaction and after each of its statements. -/
def moments (statements : List (Db υ → Db υ)) (db : Db υ) : List (Db υ) :=
  statements.scanl (fun db statement => statement db) db

inductive Call (υ : Type u) where
  | merge (call : MergeCall υ)
  | revert (call : RevertCall υ)

def Call.statements (db : Db υ) : Call υ → Except Refusal (List (Db υ → Db υ))
  | .merge call => mergeFighters call db
  | .revert call => revertFighterMerge call db

def Call.recordId : Call υ → υ
  | .merge call => call.recordId
  | .revert call => call.recordId

def Call.now : Call υ → ℤ
  | .merge call => call.now
  | .revert call => call.now

end Calls

end MyClash.Fighters
