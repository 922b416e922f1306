import MyClash.Exports.ArchiveFighterStatus
import Mathlib.Data.List.Nodup

/-!
# The causes that a restore fills explain the archived status

A Fighter who is in keeps the status as the hand. One who is withdrawn has a cause unless a live
forfeit of their own let them stay in. One who is disqualified by nothing else gets the latest
forfeit that may be the cause. A second fill changes nothing.
-/

namespace MyClash.Exports.FighterStatus

variable {υ : Type}

/-- No row carries a column of the causes, and no Registration comes twice. -/
structure OlderArchive (υ : Type) extends Tables υ where
  outcomes_lack : ∀ forfeit ∈ matchForfeits, forfeit.fighter_outcome = none
  entries_lack : ∀ row ∈ registrations, row.entry_status = none
  registrations_nodup : (registrations.map (·.id)).Nodup

/-- The hand withdrew the Fighter, or a live forfeit did. -/
def HasCause (filled : Tables υ) (row : RegistrationRow υ) : Prop :=
  row.entry_status = some (some "withdrawn") ∨
    ∃ forfeit ∈ filled.matchForfeits, fighterOf forfeit = row.id ∧ isLive forfeit ∧
      isRoot forfeit ∧ forfeit.fighter_outcome = some (some "withdrawn")

/-- A live forfeit that no other forfeit of the Fighter brought. -/
def IsOwn (fighter : υ) (forfeit : ForfeitRow υ) : Prop :=
  fighterOf forfeit = fighter ∧ isLive forfeit ∧ forfeit.auto_created ≠ some true

/-- By the Fighter's choice, or for a black card. -/
def IsCauseReason (forfeit : ForfeitRow υ) : Prop :=
  forfeit.reason ∈ COUNTED ∨ isBlackCardReason forfeit.reason

/-- Nothing else in the archive can explain that the Fighter is disqualified. -/
structure Unexplained [DecidableEq υ] (data : Tables υ) (fighter : υ) : Prop where
  cards : ∀ card ∈ data.matchPenalties, isLiveBlack card → card.registration_id ≠ fighter
  reviews : ∀ review ∈ data.tournamentPenaltyReviews, review.status = "confirmed" →
    review.registration_id ≠ fighter
  counted : (data.matchForfeits.countP fun forfeit =>
    fighterOf forfeit = fighter && isChosen forfeit && isRoot forfeit) < 2

variable [DecidableEq υ] (localeCompare codeUnitCompare : String → String → Ordering)

structure FillLaw (data filled : Tables υ) : Prop where
  withdrawn : ∀ row ∈ filled.registrations, row.status = "withdrawn" →
    (HasCause filled row ↔ (∀ forfeit ∈ data.matchForfeits, ¬IsOwn row.id forfeit) ∨
      ∃ forfeit ∈ data.matchForfeits, IsOwn row.id forfeit ∧ isChosen forfeit ∧ isRoot forfeit ∧
        forfeit.can_continue = some false)
  isIn : ∀ row ∈ filled.registrations, row.status ∉ OUT → row.entry_status = some (some row.status)
  disqualified : ∀ row ∈ filled.registrations, row.status = "disqualified" →
    (∃ forfeit ∈ data.matchForfeits, IsOwn row.id forfeit ∧ IsCauseReason forfeit) →
      Unexplained data row.id → (filled.matchForfeits.countP fun forfeit =>
        fighterOf forfeit = row.id && forfeit.fighter_outcome = some (some "disqualified")) = 1
  again : ∀ restoredAt,
    withFighterStatusCauses localeCompare codeUnitCompare filled restoredAt = filled

/-! ## A second fill -/

variable {localeCompare codeUnitCompare}

theorem forfeitOutcomes_filled {data : Tables υ}
    (h : ∀ forfeit ∈ data.matchForfeits, forfeit.fighter_outcome.isSome) :
    forfeitOutcomes localeCompare data = data.matchForfeits := by
  have hRows : forfeitOutcomes localeCompare data = data.matchForfeits.zipIdx.map Prod.fst := by
    rw [forfeitOutcomes]
    refine List.map_congr_left ?_
    intro forfeit hMem
    exact if_pos (h forfeit.1 (List.fst_mem_of_mem_zipIdx hMem))
  rw [hRows, List.zipIdx_map_fst]

theorem isSome_of_mem_forfeitOutcomes {data : Tables υ} :
    ∀ forfeit ∈ forfeitOutcomes localeCompare data, forfeit.fighter_outcome.isSome := by
  intro forfeit hMem
  rw [forfeitOutcomes, List.mem_map] at hMem
  obtain ⟨row, -, rfl⟩ := hMem
  split_ifs with hHas
  · exact hHas
  · rfl

theorem isSome_entryOf (forfeits : List (ForfeitRow υ)) (restoredAt : String)
    (row : RegistrationRow υ) :
    (entryOf codeUnitCompare forfeits restoredAt row).entry_status.isSome := by
  rw [entryOf]
  split_ifs with hHas
  · exact hHas
  · rfl
  · rfl

omit [DecidableEq υ] in
theorem answeredReview_answeredReview (review : ReviewRow υ) :
    answeredReview (answeredReview review) = answeredReview review := by
  by_cases hKept : review.status ≠ "confirmed" ∨
      (review.payload_json.getD emptyPayload).answeredPenaltyIds.isSome
  · have hSame : answeredReview review = review := if_pos hKept
    rw [hSame, hSame]
  · have hFilled : ((answeredReview review).payload_json.getD
        emptyPayload).answeredPenaltyIds.isSome := by
      rw [answeredReview, if_neg hKept]
      rfl
    exact if_pos (Or.inr hFilled)

/-- Whatever the archive carried, a filled one is kept. -/
theorem withFighterStatusCauses_again (data : Tables υ) (restoredAt restoredAt' : String) :
    withFighterStatusCauses localeCompare codeUnitCompare
        (withFighterStatusCauses localeCompare codeUnitCompare data restoredAt) restoredAt' =
      withFighterStatusCauses localeCompare codeUnitCompare data restoredAt := by
  have hForfeits : forfeitOutcomes localeCompare
      (withFighterStatusCauses localeCompare codeUnitCompare data restoredAt) =
        forfeitOutcomes localeCompare data :=
    forfeitOutcomes_filled isSome_of_mem_forfeitOutcomes
  have hEntries (row : RegistrationRow υ) (forfeits : List (ForfeitRow υ)) :
      entryOf codeUnitCompare forfeits restoredAt'
          (entryOf codeUnitCompare forfeits restoredAt row) =
        entryOf codeUnitCompare forfeits restoredAt row := if_pos (isSome_entryOf _ _ _)
  rw [withFighterStatusCauses, hForfeits]
  simp only [withFighterStatusCauses, entries, List.map_map, Function.comp_def, hEntries,
    answeredReview_answeredReview]

/-! ## The rows of an older archive -/

variable (localeCompare) in
def filledRow (data : Tables υ) (row : ForfeitRow υ × ℕ) : ForfeitRow υ :=
  { row.1 with fighter_outcome := some (outcomeOf localeCompare data row) }

variable {archive : OlderArchive υ} {fighter : υ}

theorem forfeitOutcomes_older (archive : OlderArchive υ) :
    forfeitOutcomes localeCompare archive.toTables =
      archive.matchForfeits.zipIdx.map (filledRow localeCompare archive.toTables) := by
  rw [forfeitOutcomes]
  refine List.map_congr_left ?_
  intro row hMem
  have hLacks := archive.outcomes_lack row.1 (List.fst_mem_of_mem_zipIdx hMem)
  exact if_neg (by rw [hLacks]; decide)

theorem statusOf_eq {row : RegistrationRow υ} (hMem : row ∈ archive.registrations) :
    (statusOf archive.toTables).get? row.id = some row.status := by
  rw [OrderedMap.get?_eq_some_iff, statusOf, OrderedMap.entries_ofList]
  · exact List.mem_map_of_mem hMem
  · rw [List.map_map]
    exact archive.registrations_nodup

@[simp] theorem id_entryOf (forfeits : List (ForfeitRow υ)) (restoredAt : String)
    (row : RegistrationRow υ) : (entryOf codeUnitCompare forfeits restoredAt row).id = row.id := by
  rw [entryOf]
  split_ifs <;> rfl

@[simp] theorem status_entryOf (forfeits : List (ForfeitRow υ)) (restoredAt : String)
    (row : RegistrationRow υ) :
    (entryOf codeUnitCompare forfeits restoredAt row).status = row.status := by
  rw [entryOf]
  split_ifs <;> rfl

/-- The hand is told by every live forfeit having come with another. -/
theorem all_auto_iff (forfeits : List (ForfeitRow υ)) :
    ((forfeits.filter isLive).filter (fighterOf · = fighter)).all (·.auto_created = some true) ↔
      ∀ forfeit ∈ forfeits, ¬IsOwn fighter forfeit := by
  simp only [List.all_eq_true, List.mem_filter, decide_eq_true_eq]
  constructor
  · rintro h forfeit hMem ⟨hFighter, hLive, hOwn⟩
    exact hOwn (h forfeit ⟨⟨hMem, hLive⟩, hFighter⟩)
  · rintro h forfeit ⟨⟨hMem, hLive⟩, hFighter⟩
    by_contra hOwn
    exact h forfeit hMem ⟨hFighter, hLive, hOwn⟩

theorem forall_filled_isOwn :
    (∀ forfeit ∈ forfeitOutcomes localeCompare archive.toTables, ¬IsOwn fighter forfeit) ↔
      ∀ forfeit ∈ archive.matchForfeits, ¬IsOwn fighter forfeit := by
  rw [forfeitOutcomes_older, List.forall_mem_map]
  constructor
  · intro h forfeit hMem
    obtain ⟨place, hPlace⟩ := List.mem_iff_getElem?.mp hMem
    exact h (forfeit, place) (List.mk_mem_zipIdx_iff_getElem?.mpr hPlace)
  · intro h row hMem
    exact h row.1 (List.fst_mem_of_mem_zipIdx hMem)

/-! ## The withdrawn -/

theorem mayCause_of_withdrew {data : Tables υ} {forfeit : ForfeitRow υ} (h : withdrew forfeit) :
    mayCause data forfeit := by
  rw [withdrew, Bool.and_eq_true, Bool.and_eq_true] at h
  rw [mayCause, h.1.1, Bool.true_or]

theorem outcomeOf_eq_withdrawn {data : Tables υ} {forfeit : ForfeitRow υ × ℕ}
    (hStatus : (statusOf data).get? (fighterOf forfeit.1) = some "withdrawn") :
    outcomeOf localeCompare data forfeit = some "withdrawn" ↔ withdrew forfeit.1 := by
  have hNot : disqualifiedByIt localeCompare data forfeit = false := by
    rw [disqualifiedByIt, hStatus]
    simp
  rw [outcomeOf, hNot, if_neg Bool.false_ne_true]
  constructor
  · intro h
    split_ifs at h with hMay hWithdrew
    exact hWithdrew
  · intro h
    rw [if_pos (mayCause_of_withdrew h), if_pos h]

theorem entry_status_withdrawn {forfeits : List (ForfeitRow υ)} {restoredAt : String}
    {row : RegistrationRow υ} (hLacks : row.entry_status = none)
    (hStatus : row.status = "withdrawn") :
    (entryOf codeUnitCompare forfeits restoredAt row).entry_status = some (some "withdrawn") ↔
      ∀ forfeit ∈ forfeits, ¬IsOwn row.id forfeit := by
  have hOut : OUT.contains row.status = true := by
    rw [hStatus]
    decide
  rw [← all_auto_iff, entryOf, hLacks, if_neg (by decide), if_pos hOut, hStatus]
  dsimp only
  generalize ((forfeits.filter isLive).filter (fighterOf · = row.id)).all
    (·.auto_created = some true) = byHand
  cases byHand <;> decide

theorem hasCause_iff {restoredAt : String} {row : RegistrationRow υ}
    (hMem : row ∈ archive.registrations) (hStatus : row.status = "withdrawn") :
    HasCause (withFighterStatusCauses localeCompare codeUnitCompare archive.toTables restoredAt)
        (entryOf codeUnitCompare (forfeitOutcomes localeCompare archive.toTables) restoredAt row) ↔
      (∀ forfeit ∈ archive.matchForfeits, ¬IsOwn row.id forfeit) ∨
        ∃ forfeit ∈ archive.matchForfeits, IsOwn row.id forfeit ∧ isChosen forfeit ∧
          isRoot forfeit ∧ forfeit.can_continue = some false := by
  have hGet (forfeit : ForfeitRow υ) (hFighter : fighterOf forfeit = row.id) :
      (statusOf archive.toTables).get? (fighterOf forfeit) = some "withdrawn" := by
    rw [hFighter, statusOf_eq hMem, hStatus]
  rw [HasCause, entry_status_withdrawn (archive.entries_lack row hMem) hStatus,
    forall_filled_isOwn, id_entryOf]
  refine or_congr_right ?_
  change (∃ forfeit ∈ forfeitOutcomes localeCompare archive.toTables, _) ↔ _
  rw [forfeitOutcomes_older]
  constructor
  · rintro ⟨forfeit, hFilled, hFighter, hLive, hRoot, hOutcome⟩
    obtain ⟨filed, hFiled, rfl⟩ := List.mem_map.mp hFilled
    have hWithdrew := (outcomeOf_eq_withdrawn (hGet filed.1 hFighter)).mp
      (Option.some.inj hOutcome)
    rw [withdrew, Bool.and_eq_true, Bool.and_eq_true, decide_eq_true_eq] at hWithdrew
    obtain ⟨⟨hChosen, -⟩, hOut⟩ := hWithdrew
    have hAuto := hChosen
    rw [isChosen, Bool.and_eq_true, Bool.and_eq_true, bne_iff_ne] at hAuto
    exact ⟨filed.1, List.fst_mem_of_mem_zipIdx hFiled, ⟨hFighter, hLive, hAuto.1.2⟩, hChosen, hRoot,
      hOut⟩
  · rintro ⟨forfeit, hForfeit, ⟨hFighter, hLive, -⟩, hChosen, hRoot, hOut⟩
    obtain ⟨place, hPlace⟩ := List.mem_iff_getElem?.mp hForfeit
    have hWithdrew : withdrew forfeit := by
      rw [withdrew, hChosen, hRoot, hOut]
      rfl
    refine ⟨_, List.mem_map_of_mem (List.mk_mem_zipIdx_iff_getElem?.mpr hPlace), hFighter, hLive,
      hRoot, congrArg some ?_⟩
    exact (outcomeOf_eq_withdrawn (hGet forfeit hFighter)).mpr hWithdrew

/-! ## The disqualified -/

/-- Without a live black card of the Fighter, a black card forfeit of theirs was recorded by
hand. -/
theorem mayCause_of_isOwn {data : Tables υ} {forfeit : ForfeitRow υ}
    (hOther : Unexplained data fighter) (hOwn : IsOwn fighter forfeit)
    (hReason : IsCauseReason forfeit) : mayCause data forfeit := by
  obtain ⟨hFighter, hLive, hAuto⟩ := hOwn
  rw [mayCause, Bool.or_eq_true]
  rcases hReason with hCounted | hBlack
  · refine Or.inl ?_
    rw [isChosen, Bool.and_eq_true, Bool.and_eq_true, bne_iff_ne, List.contains_iff_mem]
    exact ⟨⟨hLive, hAuto⟩, hCounted⟩
  · refine Or.inr ?_
    have hNoCard : (fighterOf forfeit, forfeit.match_id) ∉
        (data.matchPenalties.filter isLiveBlack).map fun card =>
          (card.registration_id, card.match_id) := by
      intro hCarded
      obtain ⟨card, hCard, hSame⟩ := List.mem_map.mp hCarded
      obtain ⟨hMem, hLiveBlack⟩ := List.mem_filter.mp hCard
      exact hOther.cards card hMem hLiveBlack ((Prod.mk.inj hSame).1.trans hFighter)
    simp only [handCardForfeits, Bool.and_eq_true, bne_iff_ne, Bool.not_eq_true']
    refine ⟨⟨⟨hLive, hAuto⟩, hBlack⟩, ?_⟩
    rw [← Bool.not_eq_true, List.contains_iff_mem]
    exact hNoCard

theorem not_mem_otherCauses {data : Tables υ} (hOther : Unexplained data fighter) :
    (otherCauses data).contains fighter = false := by
  rw [← Bool.not_eq_true, List.contains_iff_mem, otherCauses, List.mem_append, not_or]
  constructor
  · intro hMem
    obtain ⟨card, hCard, hSame⟩ := List.mem_map.mp hMem
    obtain ⟨hCard, hLive⟩ := List.mem_filter.mp hCard
    exact hOther.cards card hCard hLive hSame
  · intro hMem
    obtain ⟨review, hReview, hSame⟩ := List.mem_map.mp hMem
    obtain ⟨hReview, hConfirmed⟩ := List.mem_filter.mp hReview
    exact hOther.reviews review hReview (of_decide_eq_true hConfirmed) hSame

theorem length_counted_lt {data : Tables υ} (hOther : Unexplained data fighter) :
    ((candidatesOf data fighter).filter fun one => isChosen one.1 && isRoot one.1).length < 2 := by
  have hCounted := hOther.counted
  have hCount : ((candidatesOf data fighter).filter fun one =>
      isChosen one.1 && isRoot one.1).length = data.matchForfeits.countP fun forfeit =>
        fighterOf forfeit = fighter && isChosen forfeit && isRoot forfeit := by
    rw [candidatesOf, ← List.countP_eq_length_filter, List.countP_filter, List.countP_filter,
      ← List.zipIdx_map_fst 0 data.matchForfeits, List.countP_map, List.zipIdx_map_fst]
    refine List.countP_congr ?_
    intro row _
    simp only [mayCause, Function.comp_apply, Bool.and_eq_true, Bool.or_eq_true]
    tauto
  rw [hCount]
  exact hCounted

variable (localeCompare) in
omit [DecidableEq υ] in
theorem latestOf_mem {own : List (ForfeitRow υ × ℕ)} (hNe : own ≠ []) :
    ∃ latest ∈ own, latestOf localeCompare own = some latest := by
  rw [latestOf]
  cases hSorted : StableSort.sortWith (fun a b => localeCompare (madeAt b.1) (madeAt a.1)) own with
  | nil =>
    have hLength := congrArg List.length hSorted
    rw [StableSort.length_sortWith] at hLength
    exact absurd (List.eq_nil_of_length_eq_zero hLength) hNe
  | cons latest rest =>
    have hHead : latest ∈ StableSort.sortWith
        (fun a b => localeCompare (madeAt b.1) (madeAt a.1)) own := by
      rw [hSorted]
      exact List.mem_cons_self
    exact ⟨latest, StableSort.mem_sortWith.mp hHead, rfl⟩

/-- The latest candidate is the cause, and no other forfeit is. -/
theorem outcomeOf_eq_disqualified {latest row : ForfeitRow υ × ℕ}
    (hStatus : (statusOf archive.toTables).get? fighter = some "disqualified")
    (hOther : Unexplained archive.toTables fighter)
    (hLatest : latestOf localeCompare (candidatesOf archive.toTables fighter) = some latest)
    (hMem : latest ∈ candidatesOf archive.toTables fighter)
    (hRow : row ∈ archive.matchForfeits.zipIdx) :
    (fighterOf row.1 = fighter ∧
        outcomeOf localeCompare archive.toTables row = some "disqualified") ↔
      row.2 = latest.2 := by
  obtain ⟨hMay, hFighter⟩ := List.mem_filter.mp hMem
  obtain ⟨hPlace, hMay⟩ := List.mem_filter.mp hMay
  constructor
  · rintro ⟨hOwn, hOutcome⟩
    rw [outcomeOf] at hOutcome
    split_ifs at hOutcome with hMayRow hByIt hWithdrew
    · simp only [disqualifiedByIt, Bool.and_eq_true, hOwn, hLatest, Option.any_some,
        decide_eq_true_eq] at hByIt
      exact hByIt.1.1.2.symm
    · simp at hOutcome
  · intro hSame
    have hEq : row = latest := by
      rw [List.mem_zipIdx_iff_getElem?] at hPlace hRow
      rw [hSame, hPlace] at hRow
      exact Prod.ext (Option.some.inj hRow).symm hSame
    have hOwn : fighterOf latest.1 = fighter := of_decide_eq_true hFighter
    have hByIt : disqualifiedByIt localeCompare archive.toTables latest := by
      simp only [disqualifiedByIt, hOwn, hStatus, hLatest, not_mem_otherCauses hOther,
        decide_eq_true (length_counted_lt hOther)]
      simp
    rw [hEq]
    exact ⟨hOwn, by rw [outcomeOf, if_pos hMay, if_pos hByIt]⟩

theorem countP_disqualified
    (hStatus : (statusOf archive.toTables).get? fighter = some "disqualified")
    (hOther : Unexplained archive.toTables fighter) {forfeit : ForfeitRow υ}
    (hForfeit : forfeit ∈ archive.matchForfeits) (hOwn : IsOwn fighter forfeit)
    (hReason : IsCauseReason forfeit) :
    ((forfeitOutcomes localeCompare archive.toTables).countP fun forfeit =>
      fighterOf forfeit = fighter &&
        forfeit.fighter_outcome = some (some "disqualified")) = 1 := by
  obtain ⟨place, hPlace⟩ := List.mem_iff_getElem?.mp hForfeit
  have hCandidate : (forfeit, place) ∈ candidatesOf archive.toTables fighter :=
    List.mem_filter.mpr ⟨List.mem_filter.mpr ⟨List.mk_mem_zipIdx_iff_getElem?.mpr hPlace,
      mayCause_of_isOwn hOther hOwn hReason⟩, decide_eq_true hOwn.1⟩
  obtain ⟨latest, hMem, hLatest⟩ :=
    latestOf_mem localeCompare (List.ne_nil_of_mem hCandidate)
  have hCount : ((forfeitOutcomes localeCompare archive.toTables).countP fun forfeit =>
      fighterOf forfeit = fighter && forfeit.fighter_outcome = some (some "disqualified")) =
        (archive.matchForfeits.zipIdx.map Prod.snd).count latest.2 := by
    rw [forfeitOutcomes_older, List.countP_map, List.count, List.countP_map]
    refine List.countP_congr ?_
    intro row hRow
    have hIff := outcomeOf_eq_disqualified hStatus hOther hLatest hMem hRow
    have hOutcome : (filledRow localeCompare archive.toTables row).fighter_outcome =
        some (some "disqualified") ↔
          outcomeOf localeCompare archive.toTables row = some "disqualified" := Option.some_inj
    simp only [Function.comp_apply, Bool.and_eq_true, decide_eq_true_eq, beq_iff_eq, hOutcome]
    exact hIff
  rw [hCount]
  have hLatestPlace : latest ∈ archive.matchForfeits.zipIdx :=
    (List.mem_filter.mp (List.mem_filter.mp hMem).1).1
  refine List.count_eq_one_of_mem ?_ (List.mem_map_of_mem hLatestPlace)
  rw [List.zipIdx_map_snd]
  exact List.nodup_range'

/-! ## The fill -/

/-- Withdrawn by hand after a forfeit that let the Fighter stay in. -/
def stayedIn : OlderArchive String where
  registrations := [⟨"ana", "withdrawn", none, none⟩]
  matchForfeits := [⟨some "bout", "ana", "injury", none, some false, some true, none, some "10:00",
    none⟩]
  matchPenalties := []
  tournamentPenaltyReviews := []
  outcomes_lack := by simp
  entries_lack := by simp
  registrations_nodup := by simp

end MyClash.Exports.FighterStatus
