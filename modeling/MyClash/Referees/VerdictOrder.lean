import MyClash.Referees.Duties

/-!
# Verdicts in order

A verdict is read off the set of what a person does. Each commitment blocks a target, burdens it
or leaves it alone, whatever stands beside it: a reason that another one hides is hidden by one
that is worse. Hence a verdict does not get better as commitments are added, nor worse as the
switches are relaxed.
-/

namespace MyClash.Referees

namespace VerdictLevel

def rank : VerdictLevel → ℕ
  | .fine => 0
  | .refused .discouraged => 1
  | .refused .impossible => 2

theorem rank_injective : Function.Injective rank := by
  intro a b h
  rcases a with _ | (_ | _) <;> rcases b with _ | (_ | _) <;> first | rfl | cases h

/-- Fine, then discouraged, then impossible. -/
instance : LinearOrder VerdictLevel := LinearOrder.lift' rank rank_injective

theorem le_of_imp {a b : VerdictLevel}
    (hImpossible : a = .refused .impossible → b = .refused .impossible)
    (hFine : b = .fine → a = .fine) : a ≤ b := by
  rcases a with _ | (_ | _)
  · exact Nat.zero_le _
  · rw [hImpossible rfl]
  · rcases b with _ | (_ | _)
    · cases hFine rfl
    · exact Nat.le_succ 1
    · exact le_rfl

end VerdictLevel

/-! ## One commitment against a target -/

section Commitment

variable (target : RefereeTarget) (switches : RefereeSwitches)

/-- The commitment makes it impossible for its person to take the target. -/
def Blocks : RefereeCommitment → Prop
  | .fight f =>
    target.scope = .bout ∧ f.matchId ∈ target.matchIds ∨
      f.matchId ∉ target.matchIds ∧ overlaps f.window target.window = true
  | .referee d =>
    (isOnTarget target d = true → d.matchId.any (!target.matchIds.contains ·) = true) ∧
      overlaps d.window target.window = true
  | .teach w => overlaps w.window target.window = true
  | .fightPool _ | .attend _ => False

/-- The commitment is a reason against the target under the switches, if nothing worse is. -/
def Burdens : RefereeCommitment → Prop
  | .fightPool p =>
    switches.ownPool = true ∧ some p.groupId = target.groupId ∨
      switches.ownPoolSpan = true ∧ some p.groupId ≠ target.groupId ∧
        overlaps p.window target.window = true
  | .referee d =>
    isOnTarget target d = true ∧ switches.twoRoles = true ∧ d.role ≠ target.role ∨
      isOnTarget target d = false ∧ 0 < switches.restSlots ∧ tooClose target switches d = true
  | .attend w => overlaps w.window target.window = true ∧ switches.attendWorkshop = true
  | .fight _ | .teach _ => False

end Commitment

/-- Some commitment of the person blocks the target, or they are not available for it. -/
def Blocked (personId : String) (target : RefereeTarget) (commitments : List RefereeCommitment)
    (availability : RefereeAvailability) : Prop :=
  (∃ c ∈ commitments, c.personId = personId ∧ Blocks target c) ∨
    isAvailableFor availability target.tournamentId target.day target.window = false

/-- Nothing the person does is against the target. -/
structure Unburdened (personId : String) (target : RefereeTarget)
    (commitments : List RefereeCommitment) (availability : RefereeAvailability)
    (switches : RefereeSwitches) : Prop where
  unblocked : ¬Blocked personId target commitments availability
  light : ∀ c ∈ commitments, c.personId = personId → ¬Burdens target switches c
  withinCap : WithinCap switches target (ownDuties personId commitments)

/-- The switches of `lax` are off where those of `strict` are, and its limits are wider. A limit
of zero or less is none. -/
structure Relaxed (strict lax : RefereeSwitches) : Prop where
  ownPool : lax.ownPool = true → strict.ownPool = true
  ownPoolSpan : lax.ownPoolSpan = true → strict.ownPoolSpan = true
  twoRoles : lax.twoRoles = true → strict.twoRoles = true
  attendWorkshop : lax.attendWorkshop = true → strict.attendWorkshop = true
  restSlots : 0 < lax.restSlots → lax.restSlots ≤ strict.restSlots
  maxBoutsPerDay : 0 < lax.maxBoutsPerDay →
    0 < strict.maxBoutsPerDay ∧ strict.maxBoutsPerDay ≤ lax.maxBoutsPerDay

variable {personId : String} {target : RefereeTarget} {commitments more : List RefereeCommitment}
variable {availability : RefereeAvailability} {switches strict lax : RefereeSwitches}

/-! ## The reasons of each rule -/

/-- The bouts the rule tells of are the ones that block. -/
theorem toldBouts_eq_nil_iff {fights : List Fight} :
    (if target.scope = .bout then
        fights.filter (target.matchIds.contains ·.matchId) else []) = [] ∧
      (fights.filter fun f =>
        !target.matchIds.contains f.matchId && overlaps f.window target.window) = [] ↔
      ∀ f ∈ fights, ¬Blocks target (.fight f) := by
  cases hScope : target.scope with
  | pool => simp [Blocks, hScope]
  | bout => simp [Blocks, hScope, forall_and]

/-- Without a bout that blocks, every group of the person's own is told of. -/
theorem toldPools_eq_nil_iff {pools : List FightPool} :
    (if switches.ownPool && target.groupId.isSome then
        pools.find? fun p => some p.groupId = target.groupId else none) = none ∧
      (if switches.ownPoolSpan then
        pools.filter fun p => !(some p.groupId = target.groupId) && overlaps p.window target.window
        else []) = [] ↔
      ∀ p ∈ pools, ¬Burdens target switches (.fightPool p) := by
  simp only [Burdens, not_or, forall_and]
  refine and_congr ?_ ?_
  · cases switches.ownPool <;> cases target.groupId <;> simp
  · cases switches.ownPoolSpan <;> simp

theorem fightReasons_eq_nil_iff {fights : List Fight} {pools : List FightPool} :
    fightReasons target switches fights pools = [] ↔
      (∀ f ∈ fights, ¬Blocks target (.fight f)) ∧
        ∀ p ∈ pools, ¬Burdens target switches (.fightPool p) := by
  simp only [fightReasons, List.append_eq_nil_iff, List.map_eq_nil_iff,
    Option.toList_eq_nil_iff, and_assoc]
  rw [← and_assoc, toldBouts_eq_nil_iff]
  refine and_congr_right fun hFights => ?_
  obtain ⟨hOwn, hClashing⟩ := toldBouts_eq_nil_iff.mpr hFights
  simp only [← toldPools_eq_nil_iff, hOwn, hClashing, List.isEmpty_nil, Bool.and_true, List.map_nil,
    List.contains_nil, Bool.or_false]

/-- A duty raises nothing when it neither blocks the target nor burdens it. -/
theorem compatible_iff {d : Duty} :
    Compatible switches target d ↔
      ¬Blocks target (.referee d) ∧ ¬Burdens target switches (.referee d) := by
  have hFields : Compatible switches target d ↔ dutyReason target switches d = none ∧
      (isOnTarget target d = false → 0 < switches.restSlots →
        tooClose target switches d = false) :=
    ⟨fun h => ⟨h.unclashed, h.rested⟩, fun h => ⟨h.1, h.2⟩⟩
  rw [hFields]
  cases hOn : isOnTarget target d with
  | false => simp [dutyReason, Blocks, Burdens, hOn]
  | true =>
    simp only [dutyReason, Blocks, Burdens, hOn, Bool.true_and]
    generalize d.matchId.any (!target.matchIds.contains ·) = sibling
    cases sibling <;> cases overlaps d.window target.window <;> simp

theorem workshopReasons_eq_nil_iff {mine : List RefereeCommitment} :
    workshopReasons target switches mine = [] ↔
      (∀ w, .teach w ∈ mine → ¬Blocks target (.teach w)) ∧
        ∀ w, .attend w ∈ mine → ¬Burdens target switches (.attend w) := by
  rw [workshopReasons, List.filterMap_eq_nil_iff]
  constructor
  · intro h
    refine ⟨fun w hw => ?_, fun w hw => ?_⟩
    · have hNone := h _ hw
      simpa [workshopReason, Blocks] using hNone
    · have hNone := h _ hw
      simpa [workshopReason, Burdens] using hNone
  · rintro ⟨hTeach, hAttend⟩ c hc
    cases c with
    | teach w => simpa [workshopReason, Blocks] using hTeach w hc
    | attend w => simpa [workshopReason, Burdens] using hAttend w hc
    | fight f => rfl
    | fightPool p => rfl
    | referee d => rfl

/-! ## The level of a verdict -/

/-- Whatever holds of no commitment of the person, kind by kind. -/
theorem forall_commitment_iff {Holds : RefereeCommitment → Prop} :
    (∀ c ∈ commitments, c.personId = personId → Holds c) ↔
      let mine := commitments.filter (·.personId = personId)
      (∀ f ∈ mine.filterMap (·.fight?), Holds (.fight f)) ∧
        (∀ p ∈ mine.filterMap (·.fightPool?), Holds (.fightPool p)) ∧
        (∀ d ∈ ownDuties personId commitments, Holds (.referee d)) ∧
        (∀ w, .teach w ∈ mine → Holds (.teach w)) ∧ ∀ w, .attend w ∈ mine → Holds (.attend w) := by
  simp only [ownDuties, List.mem_filterMap, List.mem_filter, decide_eq_true_eq]
  constructor
  · intro h
    refine ⟨?_, ?_, ?_, fun w hw => h _ hw.1 hw.2, fun w hw => h _ hw.1 hw.2⟩
    · rintro f ⟨c, ⟨hMem, hMine⟩, hKind⟩
      cases c <;> cases hKind
      exact h _ hMem hMine
    · rintro p ⟨c, ⟨hMem, hMine⟩, hKind⟩
      cases c <;> cases hKind
      exact h _ hMem hMine
    · rintro d ⟨c, ⟨hMem, hMine⟩, hKind⟩
      cases c <;> cases hKind
      exact h _ hMem hMine
  · rintro ⟨hFight, hPool, hDuty, hTeach, hAttend⟩ c hMem hMine
    cases c with
    | fight f => exact hFight f ⟨_, ⟨hMem, hMine⟩, rfl⟩
    | fightPool p => exact hPool p ⟨_, ⟨hMem, hMine⟩, rfl⟩
    | referee d => exact hDuty d ⟨_, ⟨hMem, hMine⟩, rfl⟩
    | teach w => exact hTeach w ⟨hMem, hMine⟩
    | attend w => exact hAttend w ⟨hMem, hMine⟩

theorem not_blocked_iff :
    ¬Blocked personId target commitments availability ↔
      (∀ c ∈ commitments, c.personId = personId → ¬Blocks target c) ∧
        availabilityReasons target availability = [] := by
  rw [Blocked, availabilityReasons]
  simp

/-- The verdict is fine when no commitment of the person is against the target. -/
theorem level_fine_iff :
    (checkReferee personId target commitments availability switches).level = .fine ↔
      Unburdened personId target commitments availability switches := by
  have hReasons : refereeReasons personId target commitments availability switches = [] ↔
      ((∀ c ∈ commitments, c.personId = personId → ¬Blocks target c) ∧
        ∀ c ∈ commitments, c.personId = personId → ¬Burdens target switches c) ∧
          WithinCap switches target (ownDuties personId commitments) ∧
            availabilityReasons target availability = [] := by
    have hDuties := @duties_eq_nil_iff target switches (ownDuties personId commitments)
    simp only [compatible_iff, forall_and] at hDuties
    simp only [refereeReasons, loadReasons, List.append_eq_nil_iff, List.map_eq_nil_iff,
      Option.toList_eq_nil_iff, fightReasons_eq_nil_iff, workshopReasons_eq_nil_iff,
      boutsOverCap_eq_none_iff, forall_commitment_iff]
    rw [← ownDuties]
    constructor
    · rintro ⟨⟨⟨⟨⟨hFight, hPool⟩, hClash⟩, hRest, hCap⟩, hTeach, hAttend⟩, hAvailable⟩
      obtain ⟨hBlock, hBurden⟩ := hDuties.mp ⟨hClash, hRest⟩
      exact ⟨⟨⟨hFight, fun _ _ => id, hBlock, hTeach, fun _ _ => id⟩,
        ⟨fun _ _ => id, hPool, hBurden, fun _ _ => id, hAttend⟩⟩, hCap, hAvailable⟩
    · rintro ⟨⟨⟨hFight, -, hBlock, hTeach, -⟩, -, hPool, hBurden, -, hAttend⟩, hCap, hAvailable⟩
      obtain ⟨hClash, hRest⟩ := hDuties.mpr ⟨hBlock, hBurden⟩
      exact ⟨⟨⟨⟨⟨hFight, hPool⟩, hClash⟩, hRest, hCap⟩, hTeach, hAttend⟩, hAvailable⟩
  rw [checkReferee_fine_iff, hReasons]
  constructor
  · rintro ⟨⟨hBlock, hLight⟩, hCap, hAvailable⟩
    exact ⟨not_blocked_iff.mpr ⟨hBlock, hAvailable⟩, hLight, hCap⟩
  · rintro ⟨hUnblocked, hLight, hCap⟩
    obtain ⟨hBlock, hAvailable⟩ := not_blocked_iff.mp hUnblocked
    exact ⟨⟨hBlock, hLight⟩, hCap, hAvailable⟩

/-! ## When a verdict is impossible -/

theorem fightReasons_impossible_iff {fights : List Fight} {pools : List FightPool} :
    (∃ r ∈ fightReasons target switches fights pools, r.level = .impossible) ↔
      ∃ f ∈ fights, Blocks target (.fight f) := by
  simp only [fightReasons, List.mem_append, List.mem_map]
  constructor
  · rintro ⟨r, hr, hLevel⟩
    by_contra hNone
    push Not at hNone
    obtain ⟨hOwn, hClashing⟩ := toldBouts_eq_nil_iff.mpr hNone
    simp only [hOwn, hClashing, List.not_mem_nil, false_and, exists_false, false_or] at hr
    rcases hr with ⟨p, -, rfl⟩ | ⟨p, -, rfl⟩ <;> cases hLevel
  · rintro ⟨f, hf, ⟨hScope, hOn⟩ | ⟨hOff, hClash⟩⟩
    · refine ⟨_, Or.inl (Or.inl (Or.inl ⟨f, ?_, rfl⟩)), rfl⟩
      rw [if_pos hScope]
      exact List.mem_filter.mpr ⟨hf, List.contains_iff_mem.mpr hOn⟩
    · refine ⟨_, Or.inl (Or.inl (Or.inr ⟨f, ?_, rfl⟩)), rfl⟩
      exact List.mem_filter.mpr ⟨hf, by simpa using ⟨hOff, hClash⟩⟩

theorem dutyReason_impossible_iff {d : Duty} :
    (∃ r, dutyReason target switches d = some r ∧ r.level = .impossible) ↔
      Blocks target (.referee d) := by
  simp only [dutyReason, Blocks]
  generalize d.matchId.any (!target.matchIds.contains ·) = sibling
  cases isOnTarget target d <;> cases sibling <;> cases overlaps d.window target.window <;>
    cases switches.twoRoles <;> simp [reason, levelOf]

theorem workshopReason_impossible_iff {c : RefereeCommitment} :
    (∃ r, workshopReason target switches c = some r ∧ r.level = .impossible) ↔
      ∃ w, c = .teach w ∧ Blocks target (.teach w) := by
  cases c with
  | teach w => simp [workshopReason, Blocks, reason, levelOf]
  | attend w => simp [workshopReason, reason, levelOf]
  | fight f => simp [workshopReason]
  | fightPool p => simp [workshopReason]
  | referee d => simp [workshopReason]

theorem loadReasons_discouraged {duties : List Duty} {r : RefereeReason}
    (h : r ∈ loadReasons target switches duties) : r.level = .discouraged := by
  simp only [loadReasons, List.mem_append, List.mem_map] at h
  rcases h with ⟨_, -, rfl⟩ | ⟨_, -, rfl⟩ <;> rfl

theorem refereeReasons_impossible_iff :
    (∃ r ∈ refereeReasons personId target commitments availability switches,
        r.level = .impossible) ↔ Blocked personId target commitments availability := by
  simp only [refereeReasons, List.mem_append]
  constructor
  · rintro ⟨r, (((hr | hr) | hr) | hr) | hr, hLevel⟩
    · obtain ⟨f, hf, hBlocks⟩ := fightReasons_impossible_iff.mp ⟨r, hr, hLevel⟩
      obtain ⟨c, hc, hKind⟩ := List.mem_filterMap.mp hf
      obtain ⟨hMem, hMine⟩ := List.mem_filter.mp hc
      cases c <;> cases hKind
      exact Or.inl ⟨_, hMem, of_decide_eq_true hMine, hBlocks⟩
    · obtain ⟨d, hd, hReason⟩ := List.mem_filterMap.mp hr
      obtain ⟨c, hc, hKind⟩ := List.mem_filterMap.mp hd
      obtain ⟨hMem, hMine⟩ := List.mem_filter.mp hc
      cases c <;> cases hKind
      exact Or.inl ⟨_, hMem, of_decide_eq_true hMine,
        dutyReason_impossible_iff.mp ⟨r, hReason, hLevel⟩⟩
    · cases (loadReasons_discouraged hr).symm.trans hLevel
    · obtain ⟨c, hc, hReason⟩ := List.mem_filterMap.mp hr
      obtain ⟨hMem, hMine⟩ := List.mem_filter.mp hc
      obtain ⟨w, rfl, hBlocks⟩ := workshopReason_impossible_iff.mp ⟨r, hReason, hLevel⟩
      exact Or.inl ⟨_, hMem, of_decide_eq_true hMine, hBlocks⟩
    · rw [availabilityReasons] at hr
      split_ifs at hr with hAvailable
      · cases hr
      · exact Or.inr (Bool.eq_false_iff.mpr hAvailable)
  · rintro (⟨c, hMem, hMine, hBlocks⟩ | hAway)
    · have hc : c ∈ commitments.filter (·.personId = personId) :=
        List.mem_filter.mpr ⟨hMem, decide_eq_true hMine⟩
      cases c with
      | fight f =>
        have hf : f ∈ (commitments.filter (·.personId = personId)).filterMap (·.fight?) :=
          List.mem_filterMap.mpr ⟨_, hc, rfl⟩
        obtain ⟨r, hr, hLevel⟩ := fightReasons_impossible_iff.mpr ⟨f, hf, hBlocks⟩
        exact ⟨r, Or.inl (Or.inl (Or.inl (Or.inl hr))), hLevel⟩
      | referee d =>
        obtain ⟨r, hReason, hLevel⟩ := dutyReason_impossible_iff.mpr hBlocks
        have hd : d ∈ ownDuties personId commitments := List.mem_filterMap.mpr ⟨_, hc, rfl⟩
        exact ⟨r, Or.inl (Or.inl (Or.inl (Or.inr (List.mem_filterMap.mpr ⟨d, hd, hReason⟩)))),
          hLevel⟩
      | teach w =>
        obtain ⟨r, hReason, hLevel⟩ := workshopReason_impossible_iff.mpr ⟨w, rfl, hBlocks⟩
        exact ⟨r, Or.inl (Or.inr (List.mem_filterMap.mpr ⟨_, hc, hReason⟩)), hLevel⟩
      | fightPool p => exact hBlocks.elim
      | attend w => exact hBlocks.elim
    · refine ⟨reason .outsideAvailability none, Or.inr ?_, rfl⟩
      rw [availabilityReasons, if_neg (Bool.eq_false_iff.mp hAway)]
      exact List.mem_singleton_self _

/-! ## Told twice -/

theorem exists_mem_dedupe {reasons : List RefereeReason} {r : RefereeReason} (h : r ∈ reasons) :
    ∃ kept ∈ dedupe reasons, reasonKey kept = reasonKey r := by
  induction reasons with
  | nil => cases h
  | cons first rest ih =>
    by_cases hKey : reasonKey r = reasonKey first
    · exact ⟨first, List.mem_cons_self, hKey.symm⟩
    · have hRest : r ∈ rest :=
        (List.mem_cons.mp h).resolve_left fun hEq => hKey (hEq ▸ rfl)
      obtain ⟨kept, hKept, hSame⟩ := ih hRest
      refine ⟨kept, List.mem_cons_of_mem first (List.mem_filter.mpr ⟨hKept, ?_⟩), hSame⟩
      exact decide_eq_true (hSame ▸ hKey)

theorem level_impossible_iff :
    (checkReferee personId target commitments availability switches).level =
        .refused .impossible ↔ Blocked personId target commitments availability := by
  have hLevel (reasons : List RefereeReason) :
      (verdictOf reasons).level = .refused .impossible ↔
        ∃ r ∈ reasons, r.level = .impossible := by
    rw [verdictOf]
    split_ifs <;> simp_all
  rw [← @refereeReasons_impossible_iff _ _ _ _ switches, checkReferee, hLevel]
  constructor
  · rintro ⟨r, hr, hImpossible⟩
    exact ⟨r, mem_of_mem_dedupe hr, hImpossible⟩
  · rintro ⟨r, hr, hImpossible⟩
    obtain ⟨kept, hKept, hKey⟩ := exists_mem_dedupe hr
    refine ⟨kept, hKept, ?_⟩
    -- The two have one key, so one code, and a level is read off the code.
    have hCode : kept.code = r.code := (Prod.ext_iff.mp hKey).1
    rw [refereeReasons_level (mem_of_mem_dedupe hKept), hCode]
    exact (refereeReasons_level hr).symm.trans hImpossible

/-! ## More commitments, fewer rules -/

/-- What a person does in the one list they also do in the other. -/
def DoesAlso (personId : String) (commitments more : List RefereeCommitment) : Prop :=
  ∀ c ∈ commitments, c.personId = personId → c ∈ more

theorem Blocked.mono (hMore : DoesAlso personId commitments more)
    (h : Blocked personId target commitments availability) :
    Blocked personId target more availability := by
  rcases h with ⟨c, hMem, hMine, hBlocks⟩ | hAway
  · exact Or.inl ⟨c, hMore c hMem hMine, hMine, hBlocks⟩
  · exact Or.inr hAway

theorem Relaxed.refl (switches : RefereeSwitches) : Relaxed switches switches where
  ownPool := id
  ownPoolSpan := id
  twoRoles := id
  attendWorkshop := id
  restSlots _ := le_rfl
  maxBoutsPerDay h := ⟨h, le_rfl⟩

/-- Rest asked for over fewer slots is had where it is had over more. -/
theorem Relaxed.tooClose (h : Relaxed strict lax) (hOn : 0 < lax.restSlots) {d : Duty}
    (hClose : tooClose target lax d = true) : tooClose target strict d = true := by
  revert hClose
  rw [Referees.tooClose, Referees.tooClose]
  split
  · simp only [Bool.and_eq_true, decide_eq_true_eq]
    exact And.imp_right fun hNear => hNear.trans (h.restSlots hOn)
  · exact id

theorem Burdens.of_relaxed (h : Relaxed strict lax) {c : RefereeCommitment}
    (hBurdens : Burdens target lax c) : Burdens target strict c := by
  cases c with
  | fightPool p => exact hBurdens.imp (And.imp_left h.ownPool) (And.imp_left h.ownPoolSpan)
  | referee d =>
    refine hBurdens.imp (And.imp_right (And.imp_left h.twoRoles)) ?_
    rintro ⟨hOff, hRest, hClose⟩
    exact ⟨hOff, hRest.trans_le (h.restSlots hRest), h.tooClose hRest hClose⟩
  | attend w => exact And.imp_right h.attendWorkshop hBurdens
  | fight f => exact hBurdens
  | teach w => exact hBurdens

theorem dayBouts_subset (hMore : DoesAlso personId commitments more) (day : String) :
    dayBouts (ownDuties personId commitments) day ⊆ dayBouts (ownDuties personId more) day := by
  intro bout hBout
  simp only [dayBouts, ownDuties, List.mem_toFinset, List.mem_flatMap, List.mem_filter,
    List.mem_filterMap, decide_eq_true_eq] at hBout ⊢
  obtain ⟨d, ⟨⟨c, ⟨hMem, hMine⟩, hKind⟩, hDay⟩, hIn⟩ := hBout
  exact ⟨d, ⟨⟨c, ⟨hMore c hMem hMine, hMine⟩, hKind⟩, hDay⟩, hIn⟩

theorem Unburdened.mono (hMore : DoesAlso personId commitments more) (hRelaxed : Relaxed strict lax)
    (h : Unburdened personId target more availability strict) :
    Unburdened personId target commitments availability lax where
  unblocked hBlocked := h.unblocked (hBlocked.mono hMore)
  light c hMem hMine hBurdens := h.light c (hMore c hMem hMine) hMine (hBurdens.of_relaxed hRelaxed)
  withinCap day hDay hOn := by
    obtain ⟨hStrict, hWider⟩ := hRelaxed.maxBoutsPerDay hOn
    have hFewer := Finset.card_le_card
      (Finset.union_subset_union_right (s := target.matchIds.toFinset) (dayBouts_subset hMore day))
    calc ((target.matchIds.toFinset ∪ dayBouts (ownDuties personId commitments) day).card : ℤ)
        ≤ (target.matchIds.toFinset ∪ dayBouts (ownDuties personId more) day).card := by
          exact_mod_cast hFewer
      _ ≤ strict.maxBoutsPerDay := h.withinCap day hDay hStrict
      _ ≤ lax.maxBoutsPerDay := hWider

theorem level_mono (hMore : DoesAlso personId commitments more) (hRelaxed : Relaxed strict lax) :
    (checkReferee personId target commitments availability lax).level ≤
      (checkReferee personId target more availability strict).level := by
  refine VerdictLevel.le_of_imp (fun h => ?_) fun h => ?_
  · exact level_impossible_iff.mpr ((level_impossible_iff.mp h).mono hMore)
  · exact level_fine_iff.mpr ((level_fine_iff.mp h).mono hMore hRelaxed)

/-- A verdict's level is read off the set of the person's own commitments, whatever their order
and whatever others do, and it is monotone: it does not get better as commitments are added, nor
worse as switches are turned off and limits relaxed. -/
theorem checkReferee_level_order (personId : String) (target : RefereeTarget)
    (availability : RefereeAvailability) :
    (∀ switches commitments others,
      (∀ c, c.personId = personId → (c ∈ commitments ↔ c ∈ others)) →
        (checkReferee personId target commitments availability switches).level =
          (checkReferee personId target others availability switches).level) ∧
      (∀ switches commitments more, commitments ⊆ more →
        (checkReferee personId target commitments availability switches).level ≤
          (checkReferee personId target more availability switches).level) ∧
      ∀ strict lax commitments, Relaxed strict lax →
        (checkReferee personId target commitments availability lax).level ≤
          (checkReferee personId target commitments availability strict).level := by
  refine ⟨fun switches commitments others hSame => ?_, fun switches commitments more hMore => ?_,
    fun strict lax commitments hRelaxed => ?_⟩
  · exact le_antisymm
      (level_mono (fun c hMem hMine => (hSame c hMine).mp hMem) (Relaxed.refl switches))
      (level_mono (fun c hMem hMine => (hSame c hMine).mpr hMem) (Relaxed.refl switches))
  · exact level_mono (fun c hMem _ => hMore hMem) (Relaxed.refl switches)
  · exact level_mono (fun c hMem _ => hMem) hRelaxed

private def poolFinal : RefereeTarget where
  scope := .bout
  unitId := "final"
  poolId := none
  groupId := none
  matchIds := ["m9"]
  window := some ⟨600, 660⟩
  tournamentId := "longsword"
  day := some "2026-10-03"
  slot := some 2
  role := "table"

private def everyRule : RefereeSwitches := ⟨true, true, true, true, 1, 4⟩

private def ownGroup : RefereeCommitment := .fightPool ⟨"lea", some ⟨540, 640⟩, "Pool A", "a"⟩

private def ownBout : RefereeCommitment := .fight ⟨"lea", some ⟨610, 620⟩, "Pool A", "a1", some "a"⟩

/-- A bout that clashes hides the group it is of, and is worse. -/
theorem checkReferee_level_order_hidden :
    (checkReferee "lea" poolFinal [ownGroup, ownBout] ANY_AVAILABILITY everyRule).level =
        (checkReferee "lea" poolFinal [ownBout, ownGroup] ANY_AVAILABILITY everyRule).level ∧
      (checkReferee "lea" poolFinal [ownGroup] ANY_AVAILABILITY everyRule).level ≤
        (checkReferee "lea" poolFinal [ownGroup, ownBout] ANY_AVAILABILITY everyRule).level ∧
      (checkReferee "lea" poolFinal [ownGroup] ANY_AVAILABILITY
          { everyRule with ownPoolSpan := false }).level ≤
        (checkReferee "lea" poolFinal [ownGroup] ANY_AVAILABILITY everyRule).level := by
  obtain ⟨hSet, hMore, hRelaxed⟩ := checkReferee_level_order "lea" poolFinal ANY_AVAILABILITY
  refine ⟨hSet _ _ _ fun c _ => ?_, hMore _ _ _ (by simp), hRelaxed _ _ _ ?_⟩
  · simp [or_comm]
  · exact ⟨id, nofun, id, id, fun _ => le_rfl, fun h => ⟨h, le_rfl⟩⟩

end MyClash.Referees
