import Mathlib.Data.Finset.Dedup
import Mathlib.Data.Finset.Card
import Mathlib.Algebra.Order.Ring.Int

/-!
# The referee checker

Whether a person may referee a unit, over what else they do. `checkReferee` gives every reason
against it; a verdict with none is fine.
-/

namespace MyClash.Referees

structure TimeWindowMs where
  startMs : ℤ
  endMs : ℤ
  deriving DecidableEq

def overlapsHalfOpen (a b : TimeWindowMs) : Bool := a.startMs < b.endMs && b.startMs < a.endMs

/-! ## What a person does, and what they would referee -/

structure Fight where
  personId : String
  window : Option TimeWindowMs
  label : String
  matchId : String
  groupId : Option String
  deriving DecidableEq

/-- The whole group a person fights in: a Pool, or a Swiss round. -/
structure FightPool where
  personId : String
  window : Option TimeWindowMs
  label : String
  groupId : String
  deriving DecidableEq

structure Duty where
  personId : String
  window : Option TimeWindowMs
  label : String
  unitId : String
  poolId : Option String
  matchId : Option String
  role : String
  matchIds : List String
  slot : Option ℤ
  day : Option String
  deriving DecidableEq

structure Workshop where
  personId : String
  window : Option TimeWindowMs
  label : String
  sessionId : String
  deriving DecidableEq

inductive RefereeCommitment where
  | fight (f : Fight)
  | fightPool (p : FightPool)
  | referee (d : Duty)
  | teach (w : Workshop)
  | attend (w : Workshop)
  deriving DecidableEq

namespace RefereeCommitment

def personId : RefereeCommitment → String
  | .fight f => f.personId
  | .fightPool p => p.personId
  | .referee d => d.personId
  | .teach w | .attend w => w.personId

def fight? : RefereeCommitment → Option Fight
  | .fight f => some f
  | _ => none

def fightPool? : RefereeCommitment → Option FightPool
  | .fightPool p => some p
  | _ => none

def duty? : RefereeCommitment → Option Duty
  | .referee d => some d
  | _ => none

end RefereeCommitment

inductive TargetScope where
  | pool
  | bout
  deriving DecidableEq

/-- A target before it is known in which role. -/
structure UnitTarget where
  scope : TargetScope
  unitId : String
  poolId : Option String
  groupId : Option String
  matchIds : List String
  window : Option TimeWindowMs
  tournamentId : String
  day : Option String
  slot : Option ℤ

structure RefereeTarget extends UnitTarget where
  role : String

structure RefereeSwitches where
  ownPool : Bool
  ownPoolSpan : Bool
  twoRoles : Bool
  attendWorkshop : Bool
  restSlots : ℤ
  maxBoutsPerDay : ℤ

structure AvailableDay where
  date : String
  window : TimeWindowMs

structure RefereeAvailability where
  tournamentIds : Option (List String)
  days : Option (List AvailableDay)

def ANY_AVAILABILITY : RefereeAvailability := ⟨none, none⟩

def isAvailableFor (availability : RefereeAvailability) (tournamentId : String)
    (date : Option String) (window : Option TimeWindowMs) : Bool :=
  if availability.tournamentIds.any (!·.contains tournamentId) then false
  else
    match availability.days, date with
    | none, _ | _, none => true
    | some days, some date =>
      match days.find? (·.date = date), window with
      | none, _ => false
      | some _, none => true
      | some day, some window =>
        window.startMs ≥ day.window.startMs && window.endMs ≤ day.window.endMs

/-! ## What the checker answers -/

inductive RefereeReasonCode where
  | ownMatch
  | fightsOverlap
  | refereesOverlap
  | teachesOverlap
  | outsideAvailability
  | ownPool
  | ownPoolSpan
  | twoRoles
  | attendsOverlap
  | rest
  | cap
  deriving DecidableEq

def REFEREE_REASON_CODES : List RefereeReasonCode :=
  [.ownMatch, .fightsOverlap, .refereesOverlap, .teachesOverlap, .outsideAvailability, .ownPool,
    .ownPoolSpan, .twoRoles, .attendsOverlap, .rest, .cap]

inductive RefereeLevel where
  | impossible
  | discouraged
  deriving DecidableEq

def levelOf : RefereeReasonCode → RefereeLevel
  | .ownMatch | .fightsOverlap | .refereesOverlap | .teachesOverlap | .outsideAvailability =>
    .impossible
  | .ownPool | .ownPoolSpan | .twoRoles | .attendsOverlap | .rest | .cap => .discouraged

inductive AgainstKind where
  | bout
  | pool
  | unit
  | workshop
  | day
  deriving DecidableEq

structure Against where
  kind : AgainstKind
  id : String
  label : String

structure RefereeReason where
  code : RefereeReasonCode
  level : RefereeLevel
  against : Option Against
  confirmed : Bool

inductive VerdictLevel where
  | fine
  | refused (level : RefereeLevel)
  deriving DecidableEq

structure RefereeVerdict where
  level : VerdictLevel
  reasons : List RefereeReason

def reason (code : RefereeReasonCode) (against : Option Against) : RefereeReason :=
  ⟨code, levelOf code, against, false⟩

/-! ## The rules -/

def overlaps : Option TimeWindowMs → Option TimeWindowMs → Bool
  | some a, some b => overlapsHalfOpen a b
  | _, _ => false

section Rules

variable (target : RefereeTarget) (switches : RefereeSwitches)

def fightReasons (fights : List Fight) (pools : List FightPool) : List RefereeReason :=
  let ownBouts :=
    if target.scope = .bout then fights.filter (target.matchIds.contains ·.matchId) else []
  let clashing := fights.filter fun f =>
    !target.matchIds.contains f.matchId && overlaps f.window target.window
  let own :=
    if switches.ownPool && ownBouts.isEmpty && target.groupId.isSome then
      pools.find? fun p => some p.groupId = target.groupId
    else none
  let spanning :=
    if switches.ownPoolSpan then
      pools.filter fun p =>
        !(some p.groupId = target.groupId ||
            (clashing.map (·.groupId)).contains (some p.groupId)) &&
          overlaps p.window target.window
    else []
  ownBouts.map (fun f => reason .ownMatch (some ⟨.bout, f.matchId, f.label⟩)) ++
    clashing.map (fun f => reason .fightsOverlap (some ⟨.bout, f.matchId, f.label⟩)) ++
    own.toList.map (fun p => reason .ownPool (some ⟨.pool, p.groupId, p.label⟩)) ++
    spanning.map (fun p => reason .ownPoolSpan (some ⟨.pool, p.groupId, p.label⟩))

/-- A duty on the target itself: same unit, same Pool, or one of its bouts. -/
def isOnTarget (duty : Duty) : Bool :=
  duty.unitId = target.unitId || (target.poolId.isSome && duty.poolId = target.poolId) ||
    duty.matchId.any target.matchIds.contains

def dutyReason (d : Duty) : Option RefereeReason :=
  let against : Against := ⟨.unit, d.unitId, d.label⟩
  let siblingBout := d.matchId.any (!target.matchIds.contains ·)
  if isOnTarget target d && siblingBout && overlaps d.window target.window then
    some (reason .refereesOverlap against)
  else if isOnTarget target d then
    if switches.twoRoles && d.role ≠ target.role then some (reason .twoRoles against) else none
  else if overlaps d.window target.window then some (reason .refereesOverlap against)
  else none

def dutyReasons (duties : List Duty) : List RefereeReason :=
  duties.filterMap (dutyReason target switches)

def tooClose (d : Duty) : Bool :=
  match target.slot, target.day, d.slot, d.day with
  | some slot, some day, some dutySlot, some dutyDay =>
    day = dutyDay && 0 < |dutySlot - slot| && |dutySlot - slot| ≤ switches.restSlots
  | _, _, _, _ => false

/-- The duties within `restSlots` slots of the target on its day, other than its own slot. -/
def dutiesTooClose (duties : List Duty) : List Duty :=
  if switches.restSlots ≤ 0 then [] else duties.filter (tooClose target switches)

/-- The distinct bouts under the duties of one day. -/
def boutsOnDay (duties : List Duty) (day : Option String) (extra : List String) : ℕ :=
  if day.isNone then 0
  else (extra ++ (duties.filter (·.day = day)).flatMap (·.matchIds)).toFinset.card

def boutsOverCap (duties : List Duty) : Option ℕ :=
  if switches.maxBoutsPerDay ≤ 0 || target.day.isNone then none
  else
    let total := boutsOnDay duties target.day target.matchIds
    if total > switches.maxBoutsPerDay then some total else none

def loadReasons (duties : List Duty) : List RefereeReason :=
  (dutiesTooClose target switches (duties.filter (!isOnTarget target ·))).map
      (fun d => reason .rest (some ⟨.unit, d.unitId, d.label⟩)) ++
    (boutsOverCap target switches duties).toList.map
      fun total => reason .cap (some ⟨.day, target.day.getD "null", toString total⟩)

def workshopReason : RefereeCommitment → Option RefereeReason
  | .teach w =>
    if overlaps w.window target.window then
      some (reason .teachesOverlap (some ⟨.workshop, w.sessionId, w.label⟩))
    else none
  | .attend w =>
    if overlaps w.window target.window && switches.attendWorkshop then
      some (reason .attendsOverlap (some ⟨.workshop, w.sessionId, w.label⟩))
    else none
  | _ => none

def workshopReasons (mine : List RefereeCommitment) : List RefereeReason :=
  mine.filterMap (workshopReason target switches)

def availabilityReasons (availability : RefereeAvailability) : List RefereeReason :=
  if isAvailableFor availability target.tournamentId target.day target.window then []
  else [reason .outsideAvailability none]

end Rules

/-- The source joins the three with colons, which neither a code nor a kind has. -/
def reasonKey (r : RefereeReason) : RefereeReasonCode × Option (AgainstKind × String) :=
  (r.code, r.against.map fun a => (a.kind, a.id))

/-- One reason for each code and thing it clashes with. -/
def dedupe : List RefereeReason → List RefereeReason
  | [] => []
  | r :: rest => r :: (dedupe rest).filter (reasonKey · ≠ reasonKey r)

def verdictOf (reasons : List RefereeReason) : RefereeVerdict where
  level :=
    if reasons.any (·.level = .impossible) then .refused .impossible
    else if reasons.any fun r => r.level = .discouraged && !r.confirmed then .refused .discouraged
    else .fine
  reasons := reasons

section Check

variable (personId : String) (target : RefereeTarget) (commitments : List RefereeCommitment)
variable (availability : RefereeAvailability) (switches : RefereeSwitches)

/-- Every reason that applies, before the same one is told twice. -/
def refereeReasons : List RefereeReason :=
  let mine := commitments.filter (·.personId = personId)
  let duties := mine.filterMap (·.duty?)
  fightReasons target switches (mine.filterMap (·.fight?)) (mine.filterMap (·.fightPool?)) ++
    dutyReasons target switches duties ++ loadReasons target switches duties ++
    workshopReasons target switches mine ++ availabilityReasons target availability

def checkReferee : RefereeVerdict :=
  verdictOf (dedupe (refereeReasons personId target commitments availability switches))

end Check

/-! ## When a verdict is fine -/

theorem dedupe_eq_nil_iff {reasons : List RefereeReason} : dedupe reasons = [] ↔ reasons = [] := by
  cases reasons <;> simp [dedupe]

theorem mem_of_mem_dedupe {reasons : List RefereeReason} {r : RefereeReason}
    (h : r ∈ dedupe reasons) : r ∈ reasons := by
  induction reasons with
  | nil => exact h
  | cons first rest ih =>
    rcases List.mem_cons.mp h with rfl | hRest
    · exact List.mem_cons_self
    · exact List.mem_cons_of_mem first (ih (List.mem_of_mem_filter hRest))

/-- A reason nobody confirmed makes the verdict a refusal, whatever its level. -/
theorem verdictOf_fine_iff {reasons : List RefereeReason} (h : ∀ r ∈ reasons, r.confirmed = false) :
    (verdictOf reasons).level = .fine ↔ reasons = [] := by
  constructor
  · intro hFine
    rw [verdictOf] at hFine
    split at hFine
    · cases hFine
    · rename_i hImpossible
      split at hFine
      · cases hFine
      · rename_i hDiscouraged
        cases reasons with
        | nil => rfl
        | cons r rest =>
          have hConfirmed := h r List.mem_cons_self
          cases hLevel : r.level <;> simp [hLevel, hConfirmed] at hImpossible hDiscouraged
  · rintro rfl
    rfl

section Fine

variable {personId : String} {target : RefereeTarget} {commitments : List RefereeCommitment}
variable {availability : RefereeAvailability} {switches : RefereeSwitches}

theorem dutyReason_eq_reason {d : Duty} {r : RefereeReason}
    (h : dutyReason target switches d = some r) : ∃ code against, r = reason code against := by
  simp only [dutyReason] at h
  split_ifs at h <;> cases h <;> exact ⟨_, _, rfl⟩

theorem workshopReason_eq_reason {c : RefereeCommitment} {r : RefereeReason}
    (h : workshopReason target switches c = some r) : ∃ code against, r = reason code against := by
  unfold workshopReason at h
  split at h
  · split_ifs at h; cases h; exact ⟨_, _, rfl⟩
  · split_ifs at h; cases h; exact ⟨_, _, rfl⟩
  · cases h

theorem eq_reason_of_mem {r : RefereeReason}
    (h : r ∈ refereeReasons personId target commitments availability switches) :
    ∃ code against, r = reason code against := by
  simp only [refereeReasons, List.mem_append] at h
  rcases h with (((h | h) | h) | h) | h
  · simp only [fightReasons, List.mem_append, List.mem_map] at h
    rcases h with ((⟨_, -, rfl⟩ | ⟨_, -, rfl⟩) | ⟨_, -, rfl⟩) | ⟨_, -, rfl⟩ <;> exact ⟨_, _, rfl⟩
  · obtain ⟨d, -, hd⟩ := List.mem_filterMap.mp h
    exact dutyReason_eq_reason hd
  · simp only [loadReasons, List.mem_append, List.mem_map] at h
    rcases h with ⟨_, -, rfl⟩ | ⟨_, -, rfl⟩ <;> exact ⟨_, _, rfl⟩
  · obtain ⟨c, -, hc⟩ := List.mem_filterMap.mp h
    exact workshopReason_eq_reason hc
  · rw [availabilityReasons] at h
    split_ifs at h
    · cases h
    · exact ⟨_, _, List.mem_singleton.mp h⟩

theorem refereeReasons_unconfirmed {r : RefereeReason}
    (h : r ∈ refereeReasons personId target commitments availability switches) :
    r.confirmed = false := by
  obtain ⟨code, against, rfl⟩ := eq_reason_of_mem h
  rfl

/-- A reason's level is read off its code. -/
theorem refereeReasons_level {r : RefereeReason}
    (h : r ∈ refereeReasons personId target commitments availability switches) :
    r.level = levelOf r.code := by
  obtain ⟨code, against, rfl⟩ := eq_reason_of_mem h
  rfl

theorem checkReferee_fine_iff :
    (checkReferee personId target commitments availability switches).level = .fine ↔
      refereeReasons personId target commitments availability switches = [] := by
  have hUnconfirmed := fun r hr => @refereeReasons_unconfirmed personId target commitments
    availability switches r (mem_of_mem_dedupe hr)
  rw [checkReferee, verdictOf_fine_iff hUnconfirmed, dedupe_eq_nil_iff]

end Fine

end MyClash.Referees
