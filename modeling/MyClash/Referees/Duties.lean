import MyClash.Referees.Checker
import Mathlib.Tactic.Simps.Basic

/-!
# One more duty

What the duties among a person's commitments add to a verdict: a rule on each duty alone, which
reads the same from either of the two targets, and the count of the day's bouts.
-/

namespace MyClash.Referees

/-- The duty of a person who takes the target. -/
@[simps]
def RefereeTarget.duty (target : RefereeTarget) (personId label : String) : Duty where
  personId := personId
  window := target.window
  label := label
  unitId := target.unitId
  poolId := target.poolId
  matchId := none
  role := target.role
  matchIds := target.matchIds
  slot := target.slot
  day := target.day

/-- The duty raises nothing against the target: neither a clash nor a lack of rest. -/
structure Compatible (switches : RefereeSwitches) (target : RefereeTarget) (d : Duty) : Prop where
  unclashed : dutyReason target switches d = none
  rested : isOnTarget target d = false → 0 < switches.restSlots →
    tooClose target switches d = false

/-- The person's fights, Workshops and availability raise nothing against the target. -/
structure Unhindered (personId : String) (target : RefereeTarget)
    (commitments : List RefereeCommitment) (availability : RefereeAvailability)
    (switches : RefereeSwitches) : Prop where
  fights : fightReasons target switches
    ((commitments.filter (·.personId = personId)).filterMap (·.fight?))
    ((commitments.filter (·.personId = personId)).filterMap (·.fightPool?)) = []
  workshops : workshopReasons target switches (commitments.filter (·.personId = personId)) = []
  available : availabilityReasons target availability = []

def ownDuties (personId : String) (commitments : List RefereeCommitment) : List Duty :=
  (commitments.filter (·.personId = personId)).filterMap (·.duty?)

def dayBouts (duties : List Duty) (day : String) : Finset String :=
  ((duties.filter (·.day = some day)).flatMap (·.matchIds)).toFinset

/-- The target and the duties of its day stay within the day's cap. -/
def WithinCap (switches : RefereeSwitches) (target : RefereeTarget) (duties : List Duty) : Prop :=
  ∀ day, target.day = some day → 0 < switches.maxBoutsPerDay →
    ((target.matchIds.toFinset ∪ dayBouts duties day).card : ℤ) ≤ switches.maxBoutsPerDay

variable {personId personId' label label' : String} {target target' : RefereeTarget}
variable {switches : RefereeSwitches} {availability : RefereeAvailability} {duties : List Duty}
variable {commitments : List RefereeCommitment}

/-! ## A pair of targets -/

theorem overlapsHalfOpen_comm (a b : TimeWindowMs) :
    overlapsHalfOpen a b = overlapsHalfOpen b a := by
  rw [overlapsHalfOpen, overlapsHalfOpen, Bool.and_comm]

theorem overlaps_comm (a b : Option TimeWindowMs) : overlaps a b = overlaps b a := by
  cases a <;> cases b <;> first | rfl | exact overlapsHalfOpen_comm _ _

theorem isOnTarget_duty_iff :
    isOnTarget target (target'.duty personId label) ↔
      target'.unitId = target.unitId ∨ target.poolId.isSome ∧ target'.poolId = target.poolId := by
  simp [isOnTarget]

variable (personId label) in
theorem isOnTarget_duty_comm :
    isOnTarget target (target'.duty personId label) =
      isOnTarget target' (target.duty personId' label') := by
  rw [Bool.eq_iff_iff, isOnTarget_duty_iff, isOnTarget_duty_iff]
  constructor
  · rintro (hUnit | ⟨hSome, hPool⟩)
    · exact Or.inl hUnit.symm
    · exact Or.inr ⟨hPool ▸ hSome, hPool.symm⟩
  · rintro (hUnit | ⟨hSome, hPool⟩)
    · exact Or.inl hUnit.symm
    · exact Or.inr ⟨hPool ▸ hSome, hPool.symm⟩

theorem dutyReason_duty :
    dutyReason target switches (target'.duty personId label) = none ↔
      if isOnTarget target (target'.duty personId label) then
        switches.twoRoles = true → target'.role = target.role
      else overlaps target'.window target.window = false := by
  cases hOn : isOnTarget target (target'.duty personId label) with
  | true => simp [dutyReason, hOn]
  | false => simp [dutyReason, hOn]

theorem tooClose_duty_iff :
    tooClose target switches (target'.duty personId label) ↔
      ∃ slot slot' day, target.slot = some slot ∧ target'.slot = some slot' ∧
        target.day = some day ∧ target'.day = some day ∧
          0 < |slot' - slot| ∧ |slot' - slot| ≤ switches.restSlots := by
  rw [tooClose, RefereeTarget.duty_slot, RefereeTarget.duty_day]
  constructor
  · intro h
    split at h
    · rename_i slot day slot' day' hSlot hDay hSlot' hDay'
      simp only [Bool.and_eq_true, decide_eq_true_eq] at h
      exact ⟨slot, slot', day, hSlot, hSlot', hDay, h.1.1 ▸ hDay', h.1.2, h.2⟩
    · cases h
  · rintro ⟨slot, slot', day, hSlot, hSlot', hDay, hDay', hApart, hNear⟩
    simp [hSlot, hSlot', hDay, hDay', hApart, hNear]

variable (personId label) in
theorem tooClose_duty_comm :
    tooClose target switches (target'.duty personId label) =
      tooClose target' switches (target.duty personId' label') := by
  rw [Bool.eq_iff_iff, tooClose_duty_iff, tooClose_duty_iff]
  constructor
  · rintro ⟨slot, slot', day, hSlot, hSlot', hDay, hDay', hGap⟩
    exact ⟨slot', slot, day, hSlot', hSlot, hDay', hDay, abs_sub_comm slot slot' ▸ hGap⟩
  · rintro ⟨slot', slot, day, hSlot', hSlot, hDay', hDay, hGap⟩
    exact ⟨slot, slot', day, hSlot, hSlot', hDay, hDay', abs_sub_comm slot slot' ▸ hGap⟩

theorem Compatible.symm (h : Compatible switches target (target'.duty personId label)) :
    Compatible switches target' (target.duty personId' label') where
  unclashed := by
    have hClash := dutyReason_duty.mp h.unclashed
    rw [dutyReason_duty, ← isOnTarget_duty_comm personId label]
    split_ifs at hClash ⊢ with hOn
    · exact fun hTwo => (hClash hTwo).symm
    · rw [overlaps_comm]
      exact hClash
  rested hOff hRest := by
    rw [← tooClose_duty_comm personId label]
    exact h.rested ((isOnTarget_duty_comm _ _).trans hOff) hRest

/-! ## The verdict, duty by duty -/

theorem duties_eq_nil_iff :
    dutyReasons target switches duties = [] ∧
        dutiesTooClose target switches (duties.filter (!isOnTarget target ·)) = [] ↔
      ∀ d ∈ duties, Compatible switches target d := by
  rw [dutyReasons, List.filterMap_eq_nil_iff, dutiesTooClose]
  constructor
  · rintro ⟨hClash, hRest⟩ d hd
    refine ⟨hClash d hd, fun hOff hSlots => ?_⟩
    rw [if_neg (not_le.mpr hSlots), List.filter_eq_nil_iff] at hRest
    exact Bool.eq_false_iff.mpr (hRest d (List.mem_filter.mpr ⟨hd, by rw [hOff]; rfl⟩))
  · intro h
    refine ⟨fun d hd => (h d hd).unclashed, ?_⟩
    split_ifs with hSlots
    · rfl
    · rw [List.filter_eq_nil_iff]
      intro d hd
      obtain ⟨hMem, hOff⟩ := List.mem_filter.mp hd
      rw [(h d hMem).rested (by simpa using hOff) (not_le.mp hSlots)]
      exact Bool.false_ne_true

theorem boutsOverCap_eq_none_iff :
    boutsOverCap target switches duties = none ↔ WithinCap switches target duties := by
  rw [boutsOverCap, WithinCap]
  cases hDay : target.day with
  | none => simp
  | some day =>
    have hTotal : boutsOnDay duties (some day) target.matchIds =
        (target.matchIds.toFinset ∪ dayBouts duties day).card := by
      rw [boutsOnDay, if_neg (by simp), List.toFinset_append, dayBouts]
    simp only [hTotal, Option.isNone_some, Bool.or_false, decide_eq_true_eq]
    split_ifs with hOff hOver
    · exact iff_of_true rfl fun _ _ hCap => absurd hCap (not_lt.mpr hOff)
    · refine iff_of_false nofun fun h => ?_
      exact absurd (h day rfl (not_le.mp hOff)) (not_le.mpr hOver)
    · refine iff_of_true rfl fun d hd _ => ?_
      cases hd
      exact not_lt.mp hOver

theorem ownDuties_append (duties : List Duty) :
    ownDuties personId (commitments ++ duties.map .referee) =
      ownDuties personId commitments ++ duties.filter (·.personId = personId) := by
  rw [ownDuties, List.filter_append, List.filterMap_append, ownDuties, List.filter_map,
    List.filterMap_map]
  congr 1
  exact List.filterMap_some

/-- A duty more changes what the duties raise, and nothing else. -/
theorem fine_iff :
    (checkReferee personId target (commitments ++ duties.map .referee) availability
        switches).level = .fine ↔
      Unhindered personId target commitments availability switches ∧
        (∀ d ∈ ownDuties personId commitments ++ duties.filter (·.personId = personId),
          Compatible switches target d) ∧
        WithinCap switches target
          (ownDuties personId commitments ++ duties.filter (·.personId = personId)) := by
  have hFight : ((duties.map .referee).filter (RefereeCommitment.personId · = personId)).filterMap
      (·.fight?) = [] := by
    rw [List.filter_map, List.filterMap_map, List.filterMap_eq_nil_iff]
    exact fun _ _ => rfl
  have hPool : ((duties.map .referee).filter (RefereeCommitment.personId · = personId)).filterMap
      (·.fightPool?) = [] := by
    rw [List.filter_map, List.filterMap_map, List.filterMap_eq_nil_iff]
    exact fun _ _ => rfl
  have hWorkshop : ((duties.map .referee).filter
      (RefereeCommitment.personId · = personId)).filterMap (workshopReason target switches) =
        [] := by
    rw [List.filter_map, List.filterMap_map, List.filterMap_eq_nil_iff]
    exact fun _ _ => rfl
  rw [checkReferee_fine_iff, ← duties_eq_nil_iff, ← boutsOverCap_eq_none_iff,
    ← ownDuties_append]
  simp only [refereeReasons, loadReasons, List.append_eq_nil_iff, List.map_eq_nil_iff,
    Option.toList_eq_nil_iff, ownDuties]
  rw [workshopReasons, List.filter_append]
  simp only [List.filterMap_append, hFight, hPool, hWorkshop, List.append_nil]
  constructor
  · rintro ⟨⟨⟨⟨hFights, hDuties⟩, hRest, hCap⟩, hWorkshops⟩, hAvailable⟩
    exact ⟨⟨hFights, hWorkshops, hAvailable⟩, ⟨hDuties, hRest⟩, hCap⟩
  · rintro ⟨⟨hFights, hWorkshops, hAvailable⟩, ⟨hDuties, hRest⟩, hCap⟩
    exact ⟨⟨⟨⟨hFights, hDuties⟩, hRest, hCap⟩, hWorkshops⟩, hAvailable⟩

end MyClash.Referees
