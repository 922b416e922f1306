import MyClash.Referees.Assigner
import MyClash.Referees.Duties

/-!
# What a run of the engine proposes

Every slot ends in one of three ways, and every proposal is still fine over the others of the
run. Overlap, rest and two roles are read off each pair of proposals; the cap off the day's total.
-/

namespace MyClash.Referees

open StableSort

/-! ## How a slot ends -/

inductive SlotOutcome where
  | filled (role : String)
  | assigned (assignment : RefereeAssignment)
  | missing (reasons : List EmptySlotReason)

structure SlotVisit where
  pool : PoolSlot
  slot : SlotDefinition
  outcome : SlotOutcome

structure Proposal where
  pool : PoolSlot
  assignment : RefereeAssignment

namespace Proposal

def target (x : Proposal) : RefereeTarget := { x.pool.target with role := x.assignment.role }

def personId (x : Proposal) : String := x.assignment.personId

def duty (x : Proposal) : Duty := x.target.duty x.personId x.pool.label

end Proposal

namespace SlotVisit

def proposal? (v : SlotVisit) : Option Proposal :=
  match v.outcome with
  | .assigned assignment => some ⟨v.pool, assignment⟩
  | _ => none

def missing? (v : SlotVisit) : Option MissingAssignment :=
  match v.outcome with
  | .missing reasons => some (missingAssignment v.pool v.slot reasons)
  | _ => none

/-- The role of the unit's prior that fills the slot. -/
def filled? (poolId : String) (v : SlotVisit) : Option String :=
  match v.outcome with
  | .filled role => if v.pool.poolId = poolId then some role else none
  | _ => none

/-- What fills a slot, or is proposed for it, is allowed there and names it. -/
def Fits (v : SlotVisit) : Prop :=
  match v.outcome with
  | .filled role => role ∈ v.slot.allowedSkillIds
  | .assigned assignment =>
    assignment.poolId = v.pool.poolId ∧ assignment.slotIndex = v.slot.index ∧
      assignment.role ∈ v.slot.allowedSkillIds
  | .missing reasons => reasons ≠ []

end SlotVisit

def visits (pools : List PoolSlot) : List (PoolSlot × SlotDefinition) :=
  pools.flatMap fun pool => pool.slots.map (pool, ·)

def proposalsOf (trace : List SlotVisit) : List Proposal := trace.filterMap (·.proposal?)

def RefereeAssignment.seat (a : RefereeAssignment) : String × String × String :=
  (a.poolId, a.personId, a.role)

def PriorAssignment.seat (prior : PriorAssignment) : String × String × String :=
  (prior.poolId, prior.personId, prior.role)

/-- What a run leaves: each slot of each unit filled, assigned or missing; each proposal fine over
what its person already does and all the other proposals; nobody in the same seat twice. -/
structure AssignmentLaw (rules : EngineRules) (pools : List PoolSlot)
    (priors : List PriorAssignment) (result : AssignmentResult) (trace : List SlotVisit) :
    Prop where
  covers : trace.map (fun v => (v.pool, v.slot)) = visits pools
  fits : ∀ v ∈ trace, v.Fits
  assignments : result.assignments = (proposalsOf trace).map (·.assignment)
  missing : result.missing = trace.filterMap (·.missing?)
  filled : ∀ poolId, (trace.filterMap (·.filled? poolId)).Subperm
    ((priors.filter (·.poolId = poolId)).map (·.role))
  fine : ∀ before x after, proposalsOf trace = before ++ x :: after →
    (checkReferee x.personId x.target
      (rules.commitmentsOf x.personId ++ (before ++ after).map fun y => .referee y.duty)
      (rules.availabilityOf x.personId) rules.switches).level = .fine
  seats : (result.assignments.map (·.seat)).Nodup
  apart : ∀ a ∈ result.assignments, a.seat ∉ priors.map (·.seat)

/-! ## What one slot does -/

section Slot

variable {settings : AssignmentSettings} {rules : EngineRules}
variable {candidates : List RefereeCandidate} {pool : PoolSlot} {slot : SlotDefinition}
variable {state : RunState} {assigned : RefereeAssignment}

theorem bestMatchingQual_allowed {candidate : RefereeCandidate} {q : Qualification}
    (h : bestMatchingQual candidate slot = some q) : q.role ∈ slot.allowedSkillIds := by
  rw [bestMatchingQual] at h
  have hAllowed : ∀ q' ∈ candidate.qualifications.filter (slot.allowedSkillIds.contains ·.role),
      q'.role ∈ slot.allowedSkillIds :=
    fun q' hq' => List.contains_iff_mem.mp (List.mem_filter.mp hq').2
  have hStart : ∀ q' ∈ (none : Option Qualification), q'.role ∈ slot.allowedSkillIds := nofun
  revert h hStart
  generalize (none : Option Qualification) = best
  generalize candidate.qualifications.filter (slot.allowedSkillIds.contains ·.role) = quals
    at hAllowed
  intro h hBest
  induction quals generalizing best with
  | nil => exact hBest q h
  | cons first rest ih =>
    refine ih _ (fun q' hq' => hAllowed q' (List.mem_cons_of_mem first hq')) h ?_
    have hFirst := hAllowed first List.mem_cons_self
    intro q' hq'
    cases best with
    | none => exact Option.some.inj hq' ▸ hFirst
    | some b =>
      dsimp only at hq'
      split_ifs at hq'
      · exact Option.some.inj hq' ▸ hFirst
      · exact hBest q' hq'

theorem fine_of_refusals {personId role : String}
    (h : refusals rules personId role pool state = []) :
    (checkReferee personId { pool.target with role := role }
      (rules.commitmentsOf personId ++ state.proposals personId)
      (rules.availabilityOf personId) rules.switches).level = .fine := by
  simp only [refusals] at h
  split at h
  · cases h
  · split at h
    · assumption
    · rw [checkReferee_fine_iff, ← dedupe_eq_nil_iff]
      exact List.map_eq_nil_iff.mp h

/-- Whom the engine picks is fine over the run so far, and not in that seat yet. -/
theorem assignSlot_ok (h : assignSlot settings rules candidates pool slot state = .ok assigned) :
    ∃ c : Contender, assigned = c.assigned pool slot ∧
      c.matchedQual.role ∈ slot.allowedSkillIds ∧
      seatKey c.candidate.personId c.matchedQual.role ∉ state.seated pool.poolId ∧
      c.refusals rules pool state = [] := by
  simp only [assignSlot] at h
  split at h
  · cases h
  · split at h
    · cases h
    · split at h
      · cases h
      · rename_i best rest hSorted
        have hBest : best ∈ sortWith _ _ := hSorted ▸ List.mem_cons_self
        rw [mem_sortWith, List.mem_filter, List.mem_filter, qualifiedFor,
          List.mem_filterMap] at hBest
        obtain ⟨⟨⟨candidate, -, hQualified⟩, hFree⟩, hFine⟩ := hBest
        obtain ⟨q, hq, rfl⟩ := Option.map_eq_some_iff.mp hQualified
        refine ⟨⟨candidate, q⟩, (Except.ok.inj h).symm, bestMatchingQual_allowed hq, ?_,
          List.isEmpty_iff.mp hFine⟩
        simpa using hFree

/-- An empty slot says why. -/
theorem assignSlot_error {reasons : List EmptySlotReason}
    (h : assignSlot settings rules candidates pool slot state = .error reasons) :
    reasons ≠ [] := by
  simp only [assignSlot] at h
  split at h
  · exact Except.error.inj h ▸ List.cons_ne_nil _ _
  · split at h
    · exact Except.error.inj h ▸ List.cons_ne_nil _ _
    · rename_i hFree
      split at h
      · rename_i hNone
        obtain ⟨c, hc⟩ := List.exists_mem_of_ne_nil _ (List.isEmpty_eq_false_iff.mp
          (Bool.eq_false_iff.mpr hFree))
        have hFine : c ∉ sortWith _ _ := hNone ▸ List.not_mem_nil
        rw [mem_sortWith, List.mem_filter, not_and] at hFine
        have hRefused : c.refusals rules pool state ≠ [] :=
          fun hNil => hFine hc (List.isEmpty_iff.mpr hNil)
        obtain ⟨code, hCode⟩ := List.exists_mem_of_ne_nil _ hRefused
        rw [← Except.error.inj h, Ne, List.map_eq_nil_iff, List.filter_eq_nil_iff]
        intro hAll
        refine hAll code (by cases code <;> decide) (List.contains_iff_mem.mpr ?_)
        exact List.mem_flatMap.mpr ⟨c, hc, hCode⟩
      · cases h

end Slot

/-! ## The proposals of a run, over each other -/

section Staffed

variable {rules : EngineRules} {placed : List Proposal} {x y : Proposal} {personId : String}

def dutiesOf (rules : EngineRules) (placed : List Proposal) (personId : String) : List Duty :=
  ownDuties personId (rules.commitmentsOf personId) ++
    (placed.map (·.duty)).filter (·.personId = personId)

structure Staffed (rules : EngineRules) (placed : List Proposal) : Prop where
  unhindered : ∀ x ∈ placed, Unhindered x.personId x.target (rules.commitmentsOf x.personId)
    (rules.availabilityOf x.personId) rules.switches
  kept : ∀ x ∈ placed, ∀ d ∈ ownDuties x.personId (rules.commitmentsOf x.personId),
    Compatible rules.switches x.target d
  apart : placed.Pairwise fun x y =>
    x.personId = y.personId → Compatible rules.switches y.target x.duty
  within : ∀ x ∈ placed, WithinCap rules.switches x.target (dutiesOf rules placed x.personId)

theorem mem_dayBouts {duties : List Duty} {day matchId : String} :
    matchId ∈ dayBouts duties day ↔ ∃ d ∈ duties, d.day = some day ∧ matchId ∈ d.matchIds := by
  simp [dayBouts, and_assoc]

theorem WithinCap.of_subset {switches : RefereeSwitches} {target target' : RefereeTarget}
    {duties duties' : List Duty} (h : WithinCap switches target duties)
    (hSubset : ∀ day, target'.day = some day → target.day = some day ∧
      target'.matchIds.toFinset ∪ dayBouts duties' day ⊆
        target.matchIds.toFinset ∪ dayBouts duties day) :
    WithinCap switches target' duties' := by
  intro day hDay hCap
  obtain ⟨hSame, hBouts⟩ := hSubset day hDay
  exact (Int.ofNat_le.mpr (Finset.card_le_card hBouts)).trans (h day hSame hCap)

theorem mem_dutiesOf_concat {d : Duty} :
    d ∈ dutiesOf rules (placed ++ [y]) personId ↔
      d ∈ dutiesOf rules placed personId ∨ y.personId = personId ∧ d = y.duty := by
  simp only [dutiesOf, List.map_append, List.map_singleton, List.filter_append, List.mem_append,
    List.mem_filter, List.mem_singleton, decide_eq_true_eq, or_assoc]
  refine or_congr_right (or_congr_right ?_)
  constructor
  · rintro ⟨rfl, rfl⟩
    exact ⟨rfl, rfl⟩
  · rintro ⟨rfl, rfl⟩
    exact ⟨rfl, rfl⟩

theorem duty_mem_dutiesOf (hx : x ∈ placed) : x.duty ∈ dutiesOf rules placed x.personId :=
  List.mem_append_right _
    (List.mem_filter.mpr ⟨List.mem_map_of_mem hx, decide_eq_true rfl⟩)

/-- The last proposal of a day is judged against the whole of that day. -/
theorem Staffed.within_concat (h : Staffed rules placed)
    (hCap : WithinCap rules.switches y.target (dutiesOf rules placed y.personId))
    (hx : x ∈ placed ++ [y]) :
    WithinCap rules.switches x.target (dutiesOf rules (placed ++ [y]) x.personId) := by
  have hOwn : ∀ {day}, x.target.day = some day → x ∈ placed →
      ∀ id ∈ x.target.matchIds, id ∈ dayBouts (dutiesOf rules placed x.personId) day :=
    fun hDay hPlaced id hid => mem_dayBouts.mpr ⟨x.duty, duty_mem_dutiesOf hPlaced, hDay, hid⟩
  by_cases hLast : y.personId = x.personId ∧ y.target.day = x.target.day
  · refine hCap.of_subset fun day hDay => ⟨hLast.2.trans hDay, fun id hid => ?_⟩
    rw [Finset.mem_union, List.mem_toFinset] at hid ⊢
    rw [hLast.1]
    rcases hid with hid | hid
    · rcases List.mem_append.mp hx with hPlaced | hEq
      · exact Or.inr (hOwn hDay hPlaced id hid)
      · exact Or.inl (List.mem_singleton.mp hEq ▸ hid)
    · obtain ⟨d, hd, hDayOf, hIn⟩ := mem_dayBouts.mp hid
      rcases mem_dutiesOf_concat.mp hd with hd | ⟨-, rfl⟩
      · exact Or.inr (mem_dayBouts.mpr ⟨d, hd, hDayOf, hIn⟩)
      · exact Or.inl hIn
  · have hPlaced : x ∈ placed := by
      rcases List.mem_append.mp hx with hPlaced | hEq
      · exact hPlaced
      · exact absurd (List.mem_singleton.mp hEq ▸ ⟨rfl, rfl⟩) hLast
    refine (h.within x hPlaced).of_subset fun day hDay => ⟨hDay, ?_⟩
    refine Finset.union_subset_union_right fun id hid => ?_
    obtain ⟨d, hd, hDayOf, hIn⟩ := mem_dayBouts.mp hid
    rcases mem_dutiesOf_concat.mp hd with hd | ⟨hPerson, rfl⟩
    · exact mem_dayBouts.mpr ⟨d, hd, hDayOf, hIn⟩
    · exact absurd ⟨hPerson, hDayOf.trans hDay.symm⟩ hLast

theorem Staffed.nil : Staffed rules [] where
  unhindered _ hx := (List.not_mem_nil hx).elim
  kept _ hx := (List.not_mem_nil hx).elim
  apart := List.Pairwise.nil
  within _ hx := (List.not_mem_nil hx).elim

theorem Staffed.concat (h : Staffed rules placed)
    (hFine : (checkReferee y.personId y.target
      (rules.commitmentsOf y.personId ++
        ((placed.map (·.duty)).filter (·.personId = y.personId)).map .referee)
      (rules.availabilityOf y.personId) rules.switches).level = .fine) :
    Staffed rules (placed ++ [y]) := by
  obtain ⟨hUnhindered, hDuties, hCap⟩ := fine_iff.mp hFine
  simp only [List.filter_filter, Bool.and_self] at hDuties hCap
  have hEach : ∀ {P : Proposal → Prop}, (∀ x ∈ placed, P x) → P y → ∀ x ∈ placed ++ [y], P x := by
    intro P hPlaced hLast x hx
    rcases List.mem_append.mp hx with hx | hx
    · exact hPlaced x hx
    · exact List.mem_singleton.mp hx ▸ hLast
  refine ⟨hEach h.unhindered hUnhindered, hEach h.kept fun d hd => ?_, ?_,
    fun x hx => h.within_concat hCap hx⟩
  · exact hDuties d (List.mem_append_left _ hd)
  · refine List.pairwise_append.mpr
      ⟨h.apart, List.pairwise_singleton _ _, fun x hx z hz hSame => ?_⟩
    obtain rfl := List.mem_singleton.mp hz
    exact hDuties x.duty (hSame ▸ duty_mem_dutiesOf hx)

/-- Each proposal is fine over all the others, those made after it included. -/
theorem Staffed.fine (h : Staffed rules placed) {before after : List Proposal}
    (hSplit : placed = before ++ x :: after) :
    (checkReferee x.personId x.target
      (rules.commitmentsOf x.personId ++ (before ++ after).map fun y => .referee y.duty)
      (rules.availabilityOf x.personId) rules.switches).level = .fine := by
  have hx : x ∈ placed := hSplit ▸ List.mem_append_right before List.mem_cons_self
  have hOthers : ((before ++ after).map fun y => RefereeCommitment.referee y.duty) =
      ((before ++ after).map (·.duty)).map .referee := List.map_map.symm
  have hApart := h.apart
  rw [hSplit, List.pairwise_append, List.pairwise_cons] at hApart
  obtain ⟨-, ⟨hAfter, -⟩, hBefore⟩ := hApart
  rw [hOthers, fine_iff]
  refine ⟨h.unhindered x hx, fun d hd => ?_, ?_⟩
  · rcases List.mem_append.mp hd with hd | hd
    · exact h.kept x hx d hd
    · obtain ⟨hd, hPerson⟩ := List.mem_filter.mp hd
      obtain ⟨y, hy, rfl⟩ := List.mem_map.mp hd
      have hSame : y.personId = x.personId := of_decide_eq_true hPerson
      rcases List.mem_append.mp hy with hy | hy
      · exact hBefore y hy x List.mem_cons_self hSame
      · exact (hAfter y hy hSame.symm).symm
  · refine (h.within x hx).of_subset fun day hDay => ⟨hDay, ?_⟩
    refine Finset.union_subset_union_right fun id hid => ?_
    obtain ⟨d, hd, hDayOf, hIn⟩ := mem_dayBouts.mp hid
    refine mem_dayBouts.mpr ⟨d, ?_, hDayOf, hIn⟩
    rcases List.mem_append.mp hd with hd | hd
    · exact List.mem_append_left _ hd
    · obtain ⟨hd, hPerson⟩ := List.mem_filter.mp hd
      refine List.mem_append_right _ (List.mem_filter.mpr ⟨?_, hPerson⟩)
      obtain ⟨y, hy, rfl⟩ := List.mem_map.mp hd
      refine List.mem_map_of_mem (hSplit ▸ ?_)
      rcases List.mem_append.mp hy with hy | hy
      · exact List.mem_append_left _ hy
      · exact List.mem_append_right _ (List.mem_cons_of_mem x hy)

end Staffed

/-! ## The run -/

/-- What the run has done after the visits of a trace. -/
structure Ledger (rules : EngineRules) (priors : List PriorAssignment) (p : Progress)
    (trace : List SlotVisit) : Prop where
  fits : ∀ v ∈ trace, v.Fits
  assignments : p.assignments = (proposalsOf trace).map (·.assignment)
  missing : p.missing = trace.filterMap (·.missing?)
  filled : ∀ poolId, (trace.filterMap (·.filled? poolId) ++ p.remaining poolId).Perm
    ((priors.filter (·.poolId = poolId)).map (·.role))
  proposals : ∀ personId, p.state.proposals personId =
    (((proposalsOf trace).map (·.duty)).filter (·.personId = personId)).map .referee
  seated : ∀ s ∈ p.assignments.map (·.seat) ++ priors.map (·.seat),
    seatKey s.2.1 s.2.2 ∈ p.state.seated s.1
  seats : (p.assignments.map (·.seat)).Nodup
  apart : ∀ a ∈ p.assignments, a.seat ∉ priors.map (·.seat)
  staffed : Staffed rules (proposalsOf trace)

section Run

variable {settings : AssignmentSettings} {rules : EngineRules} {priors : List PriorAssignment}
variable {candidates : List RefereeCandidate} {p : Progress} {trace : List SlotVisit}
variable {pool : PoolSlot} {slot : SlotDefinition}

theorem mem_seated_seat {state : RunState} {poolId poolId' personId role key : String} :
    key ∈ (seat state poolId' personId role).seated poolId ↔
      poolId = poolId' ∧ key = seatKey personId role ∨ key ∈ state.seated poolId := by
  rcases eq_or_ne poolId poolId' with rfl | hOther
  · simp [seat]
  · simp [seat, hOther]

theorem mem_seated_foldl {state : RunState} {poolId key : String} :
    key ∈ (priors.foldl (fun state prior => seat state prior.poolId prior.personId prior.role)
        state).seated poolId ↔
      (∃ prior ∈ priors, poolId = prior.poolId ∧ key = seatKey prior.personId prior.role) ∨
        key ∈ state.seated poolId := by
  induction priors generalizing state with
  | nil => simp
  | cons prior rest ih =>
    rw [List.foldl_cons, ih, mem_seated_seat, List.exists_mem_cons_iff, or_left_comm, or_assoc]

theorem proposals_foldl {state : RunState} :
    (priors.foldl (fun state prior => seat state prior.poolId prior.personId prior.role)
      state).proposals = state.proposals := by
  induction priors generalizing state with
  | nil => rfl
  | cons prior rest ih => rw [List.foldl_cons, ih]; rfl

theorem Ledger.start : Ledger rules priors (startOf priors) [] where
  fits _ hv := (List.not_mem_nil hv).elim
  assignments := rfl
  missing := rfl
  filled _ := List.Perm.refl _
  proposals personId := congrFun proposals_foldl personId
  seated s hs := by
    have hPriors : s ∈ priors.map (·.seat) := hs
    obtain ⟨prior, hPrior, rfl⟩ := List.mem_map.mp hPriors
    exact mem_seated_foldl.mpr (Or.inl ⟨prior, hPrior, rfl, rfl⟩)
  seats := List.nodup_nil
  apart _ ha := (List.not_mem_nil ha).elim
  staffed := .nil

/-- A prior's role is consumed once. -/
theorem Ledger.fill (h : Ledger rules priors p trace) {idx : ℕ}
    (hIdx : (p.remaining pool.poolId).findIdx? slot.allowedSkillIds.contains = some idx) :
    ∃ role, Ledger rules priors
      { p with
        remaining :=
          Function.update p.remaining pool.poolId ((p.remaining pool.poolId).eraseIdx idx) }
      (trace ++ [⟨pool, slot, .filled role⟩]) := by
  obtain ⟨hLt, hAllowed, -⟩ := List.findIdx?_eq_some_iff_getElem.mp hIdx
  have hFits : SlotVisit.Fits ⟨pool, slot, .filled (p.remaining pool.poolId)[idx]⟩ :=
    List.contains_iff_mem.mp hAllowed
  refine ⟨(p.remaining pool.poolId)[idx], ?_⟩
  have hProposals : proposalsOf (trace ++ [⟨pool, slot, .filled (p.remaining pool.poolId)[idx]⟩]) =
      proposalsOf trace := by
    rw [proposalsOf, List.filterMap_append]
    exact List.append_nil _
  refine ⟨?_, hProposals ▸ h.assignments, ?_, fun poolId => ?_, hProposals ▸ h.proposals, h.seated,
    h.seats, h.apart, hProposals ▸ h.staffed⟩
  · intro v hv
    rcases List.mem_append.mp hv with hv | hv
    · exact h.fits v hv
    · exact List.mem_singleton.mp hv ▸ hFits
  · rw [List.filterMap_append]
    exact h.missing.trans (List.append_nil _).symm
  · rw [List.filterMap_append]
    refine List.Perm.trans ?_ (h.filled poolId)
    rw [List.append_assoc]
    refine List.Perm.append_left _ ?_
    rcases eq_or_ne pool.poolId poolId with rfl | hOther
    · simpa [SlotVisit.filled?] using List.getElem_cons_eraseIdx_perm hLt
    · simp [SlotVisit.filled?, hOther, Function.update_of_ne hOther.symm]

theorem Ledger.miss (h : Ledger rules priors p trace) {reasons : List EmptySlotReason}
    (hReasons : reasons ≠ []) :
    Ledger rules priors { p with missing := p.missing ++ [missingAssignment pool slot reasons] }
      (trace ++ [⟨pool, slot, .missing reasons⟩]) := by
  have hProposals : proposalsOf (trace ++ [⟨pool, slot, .missing reasons⟩]) =
      proposalsOf trace := by
    rw [proposalsOf, List.filterMap_append]
    exact List.append_nil _
  refine ⟨?_, hProposals ▸ h.assignments, ?_, fun poolId => ?_, hProposals ▸ h.proposals, h.seated,
    h.seats, h.apart, hProposals ▸ h.staffed⟩
  · intro v hv
    rcases List.mem_append.mp hv with hv | hv
    · exact h.fits v hv
    · exact List.mem_singleton.mp hv ▸ hReasons
  · rw [List.filterMap_append, ← h.missing]
    rfl
  · rw [List.filterMap_append]
    exact (List.append_nil _).symm ▸ h.filled poolId

theorem Ledger.assign (h : Ledger rules priors p trace) {assigned : RefereeAssignment}
    (hOk : assignSlot settings rules candidates pool slot p.state = .ok assigned) :
    Ledger rules priors
      { p with
        assignments := p.assignments ++ [assigned]
        state := propose p.state pool assigned }
      (trace ++ [⟨pool, slot, .assigned assigned⟩]) := by
  obtain ⟨c, rfl, hAllowed, hSeat, hRefusals⟩ := assignSlot_ok hOk
  have hNew : ∀ s ∈ p.assignments.map (·.seat) ++ priors.map (·.seat),
      s ≠ (c.assigned pool slot).seat := by
    rintro s hs rfl
    exact hSeat (h.seated _ hs)
  have hProposals : proposalsOf (trace ++ [⟨pool, slot, .assigned (c.assigned pool slot)⟩]) =
      proposalsOf trace ++ [⟨pool, c.assigned pool slot⟩] := List.filterMap_append
  have hFine := fine_of_refusals hRefusals
  rw [h.proposals] at hFine
  refine ⟨fun v hv => ?_, ?_, ?_, fun poolId => ?_, fun personId => ?_, fun s hs => ?_, ?_,
    fun a ha => ?_, ?_⟩
  · rcases List.mem_append.mp hv with hv | hv
    · exact h.fits v hv
    · exact List.mem_singleton.mp hv ▸ ⟨rfl, rfl, hAllowed⟩
  · rw [hProposals, List.map_append, h.assignments]
    rfl
  · rw [List.filterMap_append]
    exact h.missing.trans (List.append_nil _).symm
  · rw [List.filterMap_append]
    exact (List.append_nil _).symm ▸ h.filled poolId
  · rw [hProposals, List.map_append, List.filter_append, List.map_append, ← h.proposals]
    rcases eq_or_ne personId c.candidate.personId with rfl | hOther
    · simp [propose, seat, Contender.assigned, Proposal.duty, Proposal.personId, proposedDuty,
        Proposal.target, RefereeTarget.duty]
    · simp [propose, seat, Contender.assigned, Proposal.duty, Proposal.personId, hOther,
        hOther.symm]
  · rw [List.map_append, List.map_singleton, List.append_assoc] at hs
    refine mem_seated_seat.mpr ?_
    rcases List.mem_append.mp hs with hs | hs
    · exact Or.inr (h.seated s (List.mem_append_left _ hs))
    · rcases List.mem_cons.mp hs with rfl | hs
      · exact Or.inl ⟨rfl, rfl⟩
      · exact Or.inr (h.seated s (List.mem_append_right _ hs))
  · rw [List.map_append, List.map_singleton]
    refine List.Nodup.append h.seats (List.nodup_singleton _) ?_
    rw [List.disjoint_singleton]
    exact fun hs => hNew _ (List.mem_append_left _ hs) rfl
  · rcases List.mem_append.mp ha with ha | ha
    · exact h.apart a ha
    · rw [List.mem_singleton.mp ha]
      exact fun hs => hNew _ (List.mem_append_right _ hs) rfl
  · rw [hProposals]
    exact h.staffed.concat hFine

variable (settings candidates)

theorem Ledger.visit (h : Ledger rules priors p trace) (pool : PoolSlot) (slot : SlotDefinition) :
    ∃ outcome, Ledger rules priors (visitSlot settings rules candidates pool p slot)
      (trace ++ [⟨pool, slot, outcome⟩]) := by
  simp only [visitSlot]
  split
  · rename_i idx hIdx
    obtain ⟨role, hFilled⟩ := h.fill hIdx
    exact ⟨_, hFilled⟩
  · split
    · rename_i assigned hOk
      exact ⟨_, h.assign hOk⟩
    · rename_i reasons hError
      exact ⟨_, h.miss (assignSlot_error hError)⟩

theorem foldl_visits (pools : List PoolSlot) (p : Progress) :
    pools.foldl (visitPool settings rules candidates) p =
      (visits pools).foldl (fun p v => visitSlot settings rules candidates v.1 p v.2) p := by
  rw [visits, List.foldl_flatMap]
  simp only [List.foldl_map]
  rfl

theorem Ledger.run (rules : EngineRules) (priors : List PriorAssignment) (pools : List PoolSlot) :
    ∃ trace, trace.map (fun v => (v.pool, v.slot)) = visits pools ∧
      Ledger rules priors (runOf settings rules pools candidates priors) trace := by
  rw [runOf, foldl_visits]
  induction visits pools using List.reverseRecOn with
  | nil => exact ⟨[], rfl, .start⟩
  | append_singleton before v ih =>
    obtain ⟨trace, hCovers, hLedger⟩ := ih
    rw [List.foldl_concat]
    obtain ⟨outcome, hNext⟩ := hLedger.visit settings candidates v.1 v.2
    refine ⟨_, ?_, hNext⟩
    rw [List.map_append, hCovers]
    rfl

end Run

end MyClash.Referees
