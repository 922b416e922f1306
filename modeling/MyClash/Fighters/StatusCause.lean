import Mathlib.Data.List.Perm.Subperm
import MyClash.Fighters.Status

/-!
# The cause read again is the one that put the Fighter out

Each arm of the database's rule has its branch in the cause. A card arm and the review's arm are
found in `cardCause`, the numbered forfeit in the list the API counts.
-/

namespace MyClash.Fighters

open StableSort Penalties

universe u v

variable {υ : Type u} {τ : Type v} [LinearOrder υ] [LinearOrder τ]

/-! ## Numbered rows -/

section RowNumber

variable {α : Type*} {time : α → τ} {id : α → υ} {rows : List α} {a : α} {n : ℕ}

theorem mem_rowNumber : (a, n) ∈ rowNumber time id rows ↔
    1 ≤ n ∧ (sortWith (compareLex (compareOn time) (compareOn id)) rows)[n - 1]? = some a :=
  List.mk_mem_zipIdx_iff_le_and_getElem?_sub

theorem le_length_of_mem_rowNumber (h : (a, n) ∈ rowNumber time id rows) :
    1 ≤ n ∧ n ≤ rows.length := by
  obtain ⟨hPos, hGet⟩ := mem_rowNumber.mp h
  obtain ⟨hLt, _⟩ := List.getElem?_eq_some_iff.mp hGet
  rw [length_sortWith] at hLt
  exact ⟨hPos, by omega⟩

theorem map_fst_rowNumber : (rowNumber time id rows).map Prod.fst =
    sortWith (compareLex (compareOn time) (compareOn id)) rows := List.zipIdx_map_fst 1 _

theorem pairwise_time (time : α → τ) (id : α → υ) (rows : List α) :
    (sortWith (compareLex (compareOn time) (compareOn id)) rows).Pairwise
      fun a b => time a ≤ time b := by
  refine (pairwise_sortWith rows).imp ?_
  intro a b hLE
  by_contra hLt
  have hGt : compareOn time a b = .gt := compare_gt_iff_gt.mpr (not_le.mp hLt)
  simp only [compareLex, hGt, Ordering.then] at hLE
  cases hLE

end RowNumber

variable {db : Tables υ τ} {reg : Registration υ} {rules : ForfeitRulesInForce}
  {forfeits : List (MatchForfeit υ τ)}

/-! ## The rows both readers keep -/

theorem LiveForfeitsOf.perm (h : LiveForfeitsOf db reg forfeits) :
    forfeits.Perm (liveForfeits db reg) := by
  refine h.rows.trans (List.Perm.of_eq (List.filter_congr ?_))
  intro f _
  rw [Bool.eq_iff_iff]
  simp only [Bool.and_eq_true, decide_eq_true_eq, Option.isNone_iff_eq_none, and_assoc]

omit [LinearOrder υ] [LinearOrder τ] in
theorem countedForfeits_eq (rules : ForfeitRulesInForce) (forfeits : List (MatchForfeit υ τ)) :
    countedForfeits forfeits = forfeits.filter fun f =>
      decide (f.parent_forfeit_id = none ∧ f.auto_created = false ∧ f.under_out_status = false ∧
        f.reason ∈ (settleRules rules).countedReasons) := by
  refine List.filter_congr ?_
  intro f _
  rw [Bool.eq_iff_iff]
  refine Iff.trans ?_ decide_eq_true_iff.symm
  simp only [settleRules, Bool.and_eq_true, Bool.not_eq_true', decide_eq_true_eq,
    Option.isNone_iff_eq_none]
  tauto

theorem countedForfeits_perm (rules : ForfeitRulesInForce) (h : LiveForfeitsOf db reg forfeits) :
    (countedForfeits forfeits).Perm
      ((counted db reg (settleRules rules)).map Prod.fst) := by
  rw [countedForfeits_eq rules, counted, map_fst_rowNumber]
  exact (h.perm.filter _).trans (sortWith_perm _).symm

/-- With no two forfeits of one moment, both readers count in one order. -/
theorem countedForfeits_numbered (rules : ForfeitRulesInForce)
    (h : LiveForfeitsOf db reg forfeits)
    (hApart : ∀ f ∈ forfeits, ∀ g ∈ forfeits, f.created_at = g.created_at → f = g) :
    countedForfeits forfeits = (counted db reg (settleRules rules)).map Prod.fst := by
  have hMem : ∀ f ∈ countedForfeits forfeits, f ∈ forfeits := fun f hf =>
    List.mem_of_mem_filter hf
  refine (countedForfeits_perm rules h).eq_of_pairwise ?_
    (h.oldest_first.sublist List.filter_sublist) ?_
  · intro f g hf hg hfg hgf
    have hg' := (countedForfeits_perm rules h).mem_iff.mpr hg
    exact hApart f (hMem f hf) g (hMem g hg') (le_antisymm hfg hgf)
  · rw [counted, map_fst_rowNumber]
    exact pairwise_time _ _ _

/-! ## Each arm has its branch -/

section Branches

omit [LinearOrder υ] [LinearOrder τ] in
theorem exists_ownOutcome {outcome : FighterOutcome} {f : MatchForfeit υ τ} (hf : f ∈ forfeits)
    (hOutcome : f.fighter_outcome = some outcome) : (ownOutcome forfeits outcome).isSome := by
  rw [ownOutcome, List.find?_isSome]
  exact ⟨f, hf, decide_eq_true hOutcome⟩

omit [LinearOrder τ] in
theorem cardIds_eq (db : Tables υ τ) (reg : Registration υ) :
    (db.match_penalties.filter fun p => decide (p.tournament_id = reg.tournament_id) &&
      decide (p.registration_id = reg.id) && decide (p.card = .black) && !p.voided).map (·.id) =
      (blackCards db reg).map (·.id) := by
  refine congrArg (List.map _) (List.filter_congr ?_)
  intro p _
  rw [Bool.eq_iff_iff]
  simp only [Bool.and_eq_true, decide_eq_true_eq, Bool.not_eq_true', and_assoc]

omit [LinearOrder τ] in
theorem cardCause_isSome
    (h : (1 ≤ (blackCards db reg).length ∧ rules.firstBlackCard = .tournament) ∨
      (2 ≤ (blackCards db reg).length ∧ rules.secondBlackCard = .tournament) ∨
      ∃ r, (db.tournament_penalty_reviews.find? fun r =>
          decide (r.tournament_id = reg.tournament_id) && decide (r.registration_id = reg.id) &&
            decide (r.review_type = .second_black_card)) = some r ∧ r.status = .confirmed ∧
        2 ≤ (idsOf r.payload_json.answeredPenaltyIds).countP
          (decide <| · ∈ (blackCards db reg).map (·.id))) :
    (cardCause db reg rules).isSome := by
  rw [cardCause, cardIds_eq, List.length_map]
  dsimp only
  split_ifs with h1 h2 h3
  · rfl
  · rfl
  · rfl
  · rcases h with h | h | ⟨r, hFind, hStatus, hCount⟩
    · exact absurd ⟨h.1, h.2⟩ h1
    · exact absurd ⟨h.1, h.2⟩ h2
    · refine absurd ⟨?_, ?_⟩ h3
      · rw [hFind, Option.map_some, hStatus]
      · rw [hFind]
        exact hCount

omit [LinearOrder τ] in
/-- A Fighter has one review of a type, so the first one read is the one there is. -/
theorem find_review {r : PenaltyReview υ τ} (hr : r ∈ db.tournament_penalty_reviews)
    (hTournament : r.tournament_id = reg.tournament_id) (hFighter : r.registration_id = reg.id)
    (hType : r.review_type = .second_black_card) :
    (db.tournament_penalty_reviews.find? fun r =>
      decide (r.tournament_id = reg.tournament_id) && decide (r.registration_id = reg.id) &&
        decide (r.review_type = .second_black_card)) = some r := by
  cases hFind : db.tournament_penalty_reviews.find? fun r =>
      decide (r.tournament_id = reg.tournament_id) && decide (r.registration_id = reg.id) &&
        decide (r.review_type = .second_black_card) with
  | none =>
    refine absurd ?_ (List.find?_eq_none.mp hFind r hr)
    simp [hTournament, hFighter, hType]
  | some other =>
    have hRead := List.find?_some hFind
    obtain ⟨hOther, hOtherType⟩ := Bool.and_eq_true_iff.mp hRead
    obtain ⟨hOtherTournament, hOtherFighter⟩ := Bool.and_eq_true_iff.mp hOther
    refine congrArg some (List.inj_on_of_nodup_map db.review_key (List.mem_of_find?_eq_some hFind)
      hr ?_)
    rw [of_decide_eq_true hOtherTournament, of_decide_eq_true hOtherFighter,
      of_decide_eq_true hOtherType, hTournament, hFighter]

/-- Every live card that was answered is an answer that names a live card. -/
theorem countP_answered_le (db : Tables υ τ) (reg : Registration υ) (answered : List υ) :
    ((cards db reg).countP fun k => decide (k.1.id ∈ answered)) ≤
      answered.countP (decide <| · ∈ (blackCards db reg).map (·.id)) := by
  have hIds : ((cards db reg).map fun k => k.1.id).Perm ((blackCards db reg).map (·.id)) := by
    have h : (cards db reg).map (fun k => k.1.id) = ((cards db reg).map Prod.fst).map (·.id) := by
      rw [List.map_map]
      rfl
    rw [h, cards, map_fst_rowNumber]
    exact (sortWith_perm _).map _
  have hNodup : ((cards db reg).map fun k => k.1.id).Nodup :=
    hIds.nodup_iff.mpr (db.penalty_key.sublist (List.filter_sublist.map _))
  have hCount : ((cards db reg).countP fun k => decide (k.1.id ∈ answered)) =
      (((cards db reg).map fun k => k.1.id).filter (decide <| · ∈ answered)).length := by
    rw [← List.countP_eq_length_filter, List.countP_map]
    rfl
  rw [hCount, List.countP_eq_length_filter]
  refine (List.Nodup.subperm (hNodup.filter _) ?_).length_le
  intro id hid
  obtain ⟨hMem, hAnswered⟩ := List.mem_filter.mp hid
  exact List.mem_filter.mpr ⟨of_decide_eq_true hAnswered, decide_eq_true (hIds.mem_iff.mp hMem)⟩

omit [LinearOrder τ] in
/-- A disqualified Fighter's branch finds its cause as soon as one of the rules holds. -/
theorem disqualifiedCause_isSome
    (h : (ownOutcome forfeits .disqualified).isSome ∨ (cardCause db reg rules).isSome ∨
      ∃ after, rules.disqualifyAfter = some after ∧
        after.1 ≤ (countedForfeits forfeits).length) :
    (disqualifiedCause db reg rules forfeits).isSome := by
  rw [disqualifiedCause]
  cases hOwn : ownOutcome forfeits .disqualified with
  | some f => rfl
  | none =>
    cases hCards : cardCause db reg rules with
    | some c => rfl
    | none =>
      rw [hOwn, hCards] at h
      obtain ⟨after, hAfter, hLength⟩ := (h.resolve_left nofun).resolve_left nofun
      have hPos := after.2.1
      have hLt : after.1 - 1 < (countedForfeits forfeits).length := by omega
      simp only [hAfter, if_pos hLength, List.getElem?_eq_getElem hLt, Option.map_some,
        Option.isSome_some]

/-- An arm that disqualifies is one the API's branch finds again. -/
theorem disqualifiedCause_of_arm (h : LiveForfeitsOf db reg forfeits) {arm : Arm τ}
    (hArm : arm ∈ arms db reg (settleRules rules)) (hStatus : arm.status = .disqualified) :
    (disqualifiedCause db reg rules forfeits).isSome := by
  apply disqualifiedCause_isSome
  simp only [arms, List.mem_append] at hArm
  rcases hArm with (((hForfeit | hCounted) | hFirst) | hSecond) | hReview
  · left
    obtain ⟨f, hf, hMap⟩ := List.mem_filterMap.mp hForfeit
    obtain ⟨outcome, hOutcome, rfl⟩ := Option.map_eq_some_iff.mp hMap
    have hStatus : outcome = .disqualified := hStatus
    exact exists_ownOutcome (h.perm.mem_iff.mpr hf) (hOutcome.trans (congrArg some hStatus))
  · right; right
    obtain ⟨c, hc, _⟩ := List.mem_map.mp hCounted
    obtain ⟨hc, hNumber⟩ := List.mem_filter.mp hc
    have hNumber : some c.2 = rules.disqualifyAfter.map (·.1) := of_decide_eq_true hNumber
    obtain ⟨after, hAfter, hEq⟩ := Option.map_eq_some_iff.mp hNumber.symm
    refine ⟨after, hAfter, ?_⟩
    have hLe := (le_length_of_mem_rowNumber (a := c.1) (n := c.2) hc).2
    have hLength := (countedForfeits_perm rules h).length_eq
    rw [List.length_map] at hLength
    have hCount : (counted db reg (settleRules rules)).length = _ := List.length_zipIdx
    rw [length_sortWith] at hCount
    omega
  · right; left
    obtain ⟨k, hk, _⟩ := List.mem_map.mp hFirst
    obtain ⟨hk, hRule⟩ := List.mem_filter.mp hk
    obtain ⟨_, hOut⟩ := Bool.and_eq_true_iff.mp hRule
    have hLe := le_length_of_mem_rowNumber (a := k.1) (n := k.2) hk
    exact cardCause_isSome (Or.inl ⟨by omega, of_decide_eq_true hOut⟩)
  · right; left
    obtain ⟨k, hk, _⟩ := List.mem_map.mp hSecond
    obtain ⟨hk, hRule⟩ := List.mem_filter.mp hk
    obtain ⟨hNumber, hOut⟩ := Bool.and_eq_true_iff.mp hRule
    have hNumber : k.2 = 2 := of_decide_eq_true hNumber
    have hLe := le_length_of_mem_rowNumber (a := k.1) (n := k.2) hk
    exact cardCause_isSome (Or.inr (Or.inl ⟨by omega, of_decide_eq_true hOut⟩))
  · right; left
    obtain ⟨r, hr, _⟩ := List.mem_map.mp hReview
    obtain ⟨hr, hRule⟩ := List.mem_filter.mp hr
    obtain ⟨hTournament, hFighter, hType, hConfirmed, hCount⟩ := of_decide_eq_true hRule
    refine cardCause_isSome (Or.inr (Or.inr ⟨r, ?_, hConfirmed, ?_⟩))
    · exact find_review hr hTournament hFighter hType
    · exact hCount.trans (countP_answered_le db reg _)

end Branches

/-! ## The oldest forfeit that withdrew -/

theorem arms_crossed_of_withdrawn {f : MatchForfeit υ τ} (h : LiveForfeitsOf db reg forfeits)
    (hf : ownOutcome forfeits .withdrawn = some f)
    (hNone : ∀ arm ∈ arms db reg (settleRules rules), arm.status ≠ .disqualified) :
    ((arms db reg (settleRules rules)).filterMap (·.crossed)).min? = some f.created_at := by
  obtain ⟨hOutcome, front, rest, rfl, hFront⟩ := List.find?_eq_some_iff_append.mp hf
  have hOutcome : f.fighter_outcome = some .withdrawn := of_decide_eq_true hOutcome
  obtain ⟨_, hRest, _⟩ := List.pairwise_append.mp h.oldest_first
  have hOldest := (List.pairwise_cons.mp hRest).1
  have hForfeit : ∀ arm ∈ arms db reg (settleRules rules), arm ∈ forfeitArms db reg := by
    intro arm hArm
    have hStatus := hNone arm hArm
    simp only [arms, List.mem_append] at hArm
    rcases hArm with (((hForfeit | hCounted) | hFirst) | hSecond) | hReview
    · exact hForfeit
    · obtain ⟨_, _, rfl⟩ := List.mem_map.mp hCounted
      exact absurd rfl hStatus
    · obtain ⟨_, _, rfl⟩ := List.mem_map.mp hFirst
      exact absurd rfl hStatus
    · obtain ⟨_, _, rfl⟩ := List.mem_map.mp hSecond
      exact absurd rfl hStatus
    · obtain ⟨_, _, rfl⟩ := List.mem_map.mp hReview
      exact absurd rfl hStatus
  refine List.min?_eq_some_iff.mpr ⟨?_, ?_⟩
  · refine List.mem_filterMap.mpr ⟨⟨.withdrawn, some f.created_at⟩, ?_, rfl⟩
    simp only [arms, List.mem_append]
    refine Or.inl (Or.inl (Or.inl (Or.inl (List.mem_filterMap.mpr ⟨f, ?_, ?_⟩))))
    · exact h.perm.mem_iff.mp (List.mem_append_right _ List.mem_cons_self)
    · rw [hOutcome, Option.map_some]
  · intro crossed hCrossed
    obtain ⟨arm, hArm, hCrossed⟩ := List.mem_filterMap.mp hCrossed
    obtain ⟨g, hg, hMap⟩ := List.mem_filterMap.mp (hForfeit arm hArm)
    obtain ⟨outcome, hOutcomeG, rfl⟩ := Option.map_eq_some_iff.mp hMap
    obtain rfl := Option.some.inj hCrossed
    have hWithdrew : g.fighter_outcome = some .withdrawn := by
      cases outcome with
      | withdrawn => exact hOutcomeG
      | disqualified => exact absurd rfl (hNone _ hArm)
    -- an older one that withdrew would have been found first
    rcases List.mem_append.mp (h.perm.mem_iff.mpr hg) with hFrontG | hRestG
    · have hNot := hFront g hFrontG
      rw [hWithdrew] at hNot
      cases hNot
    · rcases List.mem_cons.mp hRestG with rfl | hRestG
      · exact le_refl _
      · exact hOldest g hRestG

/-- Whatever the database answers, the cause read again is the one that put the Fighter out. -/
theorem causeOf_agrees (db : Tables υ τ) (reg : Registration υ) (rules : ForfeitRulesInForce)
    (hand : EntryStatus) (forfeits : List (MatchForfeit υ τ))
    (hRead : LiveForfeitsOf db reg forfeits) :
    ((fighter_status_under db reg (settleRules rules) hand).status = .disqualified →
      ∃ cause, disqualifiedCause db reg rules forfeits = some cause ∧
        causeOf db reg rules .disqualified forfeits = cause) ∧
    ((fighter_status_under db reg (settleRules rules) hand).status = .withdrawn →
      (∃ f ∈ liveForfeits db reg, f.fighter_outcome = some .withdrawn) →
      ∃ f ∈ liveForfeits db reg, f.fighter_outcome = some .withdrawn ∧
        (fighter_status_under db reg (settleRules rules) hand).crossed_at = some f.created_at ∧
        causeOf db reg rules .withdrawn forfeits =
          ⟨f.reason, some (f.parent_forfeit_id.getD f.id)⟩) ∧
    ((∀ f ∈ liveForfeits db reg, ∀ g ∈ liveForfeits db reg,
        f.created_at = g.created_at → f = g) →
      ∀ n f, (f, n) ∈ counted db reg (settleRules rules) ↔
        1 ≤ n ∧ (countedForfeits forfeits)[n - 1]? = some f) := by
  refine ⟨?_, ?_, ?_⟩
  · intro hStatus
    have hAny : (arms db reg (settleRules rules)).any (·.status = .disqualified) := by
      by_contra hNone
      rw [fighter_status_under, if_neg hNone] at hStatus
      dsimp only at hStatus
      split_ifs at hStatus
      cases hand <;> cases hStatus
    obtain ⟨arm, hArm, hOut⟩ := List.any_eq_true.mp hAny
    obtain ⟨cause, hCause⟩ := Option.isSome_iff_exists.mp
      (disqualifiedCause_of_arm hRead hArm (of_decide_eq_true hOut))
    refine ⟨cause, hCause, ?_⟩
    rw [causeOf, if_pos rfl, hCause]
  · rintro hStatus ⟨g, hg, hWithdrew⟩
    have hNone : ∀ arm ∈ arms db reg (settleRules rules), arm.status ≠ .disqualified := by
      intro arm hArm hOut
      have hAny : (arms db reg (settleRules rules)).any (·.status = .disqualified) :=
        List.any_eq_true.mpr ⟨arm, hArm, decide_eq_true hOut⟩
      rw [fighter_status_under, if_pos hAny] at hStatus
      cases hStatus
    obtain ⟨f, hf⟩ := Option.isSome_iff_exists.mp
      (exists_ownOutcome (hRead.perm.mem_iff.mpr hg) hWithdrew)
    refine ⟨f, hRead.perm.mem_iff.mp (List.mem_of_find?_eq_some hf), ?_, ?_, ?_⟩
    · have hFound := List.find?_some hf
      exact of_decide_eq_true hFound
    · exact arms_crossed_of_withdrawn hRead hf hNone
    · rw [causeOf, if_neg nofun, hf]
      rfl
  · intro hApart n f
    have hSame := countedForfeits_numbered rules hRead fun f hf g hg =>
      hApart f (hRead.perm.mem_iff.mp hf) g (hRead.perm.mem_iff.mp hg)
    rw [hSame, counted, map_fst_rowNumber]
    exact mem_rowNumber

/-- Out by the second counted forfeit, a record under a root not counted. -/
def twoForfeits : Tables ℕ ℕ where
  match_forfeits :=
    [⟨3, 1, 7, .injury, none, none, false, false, none, 12⟩,
      ⟨2, 1, 7, .voluntary, some .withdrawn, none, false, false, none, 10⟩,
      ⟨4, 1, 7, .voluntary, none, some 2, true, false, none, 11⟩]
  match_penalties := []
  tournament_penalty_reviews := []
  penalty_key := List.nodup_nil
  review_key := List.nodup_nil

theorem causeOf_agrees_two :
    (fighter_status_under twoForfeits ⟨7, 1⟩
      (settleRules ⟨some ⟨2, by decide⟩, .bout, .none⟩) .registered).status = .disqualified ∧
    ∃ cause, disqualifiedCause twoForfeits ⟨7, 1⟩ ⟨some ⟨2, by decide⟩, .bout, .none⟩
      [⟨2, 1, 7, .voluntary, some .withdrawn, none, false, false, none, 10⟩,
        ⟨4, 1, 7, .voluntary, none, some 2, true, false, none, 11⟩,
        ⟨3, 1, 7, .injury, none, none, false, false, none, 12⟩] = some cause ∧
      causeOf twoForfeits ⟨7, 1⟩ ⟨some ⟨2, by decide⟩, .bout, .none⟩ .disqualified
        [⟨2, 1, 7, .voluntary, some .withdrawn, none, false, false, none, 10⟩,
          ⟨4, 1, 7, .voluntary, none, some 2, true, false, none, 11⟩,
          ⟨3, 1, 7, .injury, none, none, false, false, none, 12⟩] = cause := by
  have hOut : (fighter_status_under twoForfeits ⟨7, 1⟩
      (settleRules ⟨some ⟨2, by decide⟩, .bout, .none⟩) .registered).status = .disqualified := by
    decide
  refine ⟨hOut, (causeOf_agrees twoForfeits ⟨7, 1⟩ _ .registered _ ⟨?_, ?_⟩).1 hOut⟩
  · decide
  · decide

end MyClash.Fighters
