import MyClash.Library.Run
import MyClash.Penalties.BlackCardReview

/-!
# What the review keeps

The review follows the live cards whatever comes, and only the subset of cards left decides it.
Two steps break its law: a confirmation on fewer than two live cards, and the void that takes away
a review which was confirmed once and asks again.
-/

namespace MyClash.Penalties

open StableSort Runs

universe u v w

variable {υ : Type u} {τ : Type v} {ω : Type w}

section Live

variable [LinearOrder τ]

/-! ## The live cards -/

theorem mem_liveBlackCardIds {cards : List (BlackCard υ τ)} {id : υ} :
    id ∈ liveBlackCardIds cards ↔ ∃ card ∈ cards, card.voided = false ∧ card.id = id := by
  simp [liveBlackCardIds, and_assoc]

theorem liveBlackCardIds_perm (cards : List (BlackCard υ τ)) :
    (liveBlackCardIds cards).Perm ((cards.filter fun card => !card.voided).map (·.id)) :=
  (sortWith_perm _).map _

theorem mem_ids_of_live {cards : List (BlackCard υ τ)} {id : υ} (h : id ∈ liveBlackCardIds cards) :
    id ∈ cards.map (·.id) := by
  obtain ⟨card, hCard, _, rfl⟩ := mem_liveBlackCardIds.mp h
  exact List.mem_map_of_mem hCard

/-- A new card joins the live ones. -/
theorem live_card (cards : List (BlackCard υ τ)) {card : BlackCard υ τ}
    (hCard : card.voided = false) :
    (liveBlackCardIds (cards ++ [card])).Perm (liveBlackCardIds cards ++ [card.id]) := by
  have hLive : [card].filter (fun card => !card.voided) = [card] := by simp [hCard]
  refine (liveBlackCardIds_perm _).trans ?_
  rw [List.filter_append, List.map_append, hLive]
  exact (liveBlackCardIds_perm cards).symm.append_right [card.id]

variable [DecidableEq υ]

omit [LinearOrder τ] in
theorem voidCard_ids (cards : List (BlackCard υ τ)) (id : υ) :
    (voidCard cards id).map (·.id) = cards.map (·.id) := by
  rw [voidCard, List.map_map]
  refine List.map_congr_left fun card _ => ?_
  rw [Function.comp_apply]
  split <;> rfl

/-- A void takes its own card out of the live ones. -/
theorem live_void (cards : List (BlackCard υ τ)) (id : υ) :
    (liveBlackCardIds (voidCard cards id)).Perm ((liveBlackCardIds cards).filter (· ≠ id)) := by
  refine (liveBlackCardIds_perm _).trans (.trans ?_ ((liveBlackCardIds_perm cards).filter _).symm)
  refine List.Perm.of_eq ?_
  induction cards with
  | nil => rfl
  | cons card cards ih =>
    rw [voidCard, List.map_cons, ← voidCard]
    by_cases hId : card.id = id
    · cases hVoided : card.voided <;> simp_all
    · cases hVoided : card.voided <;> simp_all

theorem mem_live_void {cards : List (BlackCard υ τ)} {id id' : υ} :
    id' ∈ liveBlackCardIds (voidCard cards id) ↔ id' ∈ liveBlackCardIds cards ∧ id' ≠ id := by
  rw [(live_void cards id).mem_iff, List.mem_filter, decide_eq_true_iff]

/-- The void's own read leaves out a card that is voided already. -/
theorem live_void_filter (cards : List (BlackCard υ τ)) (id : υ) :
    (liveBlackCardIds (voidCard cards id)).filter (· ≠ id) =
      liveBlackCardIds (voidCard cards id) :=
  List.filter_eq_self.mpr fun _ h => decide_eq_true (mem_live_void.mp h).2

end Live

/-! ## The law -/

section Law

variable [LinearOrder τ] [DecidableEq υ]

structure ReviewLaw [DecidableEq ω] (s : ReviewSheet υ τ ω) : Prop where
  /-- Two live cards ask for the review, and it counts exactly them. -/
  counted : 2 ≤ s.live.length → ∃ r, s.review = some r ∧
    r.payload_json.penaltyIds = some s.live ∧ r.black_card_count = s.live.length
  /-- A live card sent again changes nothing. -/
  again : ∀ id ∈ s.live, ∀ now, CardEvent.apply s (.again id now) = some s
  /-- A confirmed review stands on two live cards its answer covered. -/
  standing : ∀ r, s.review = some r → r.status = .confirmed →
    2 ≤ (s.live.filter (· ∈ idsOf s.shown)).length
  /-- A reopened review is dismissed again once every live card is one the dismissal covered. -/
  givenBack : s.reopened = true → (∀ id ∈ s.live, id ∈ s.covered) →
    ∃ r, s.review = some r ∧ r.status = .dismissed
  /-- A review once answered is never deleted. -/
  kept : s.shown.isSome → s.review.isSome

/-- She confirms while two black cards are live. A void below two live cards leaves no pending
review that was answered before, but one a dismissal gets back. -/
def KeepsAnswer (s : ReviewSheet υ τ ω) : CardEvent υ τ ω → Prop
  | .answer .confirmed _ _ => 2 ≤ s.live.length
  | .void id _ => ∀ r, s.review = some r → r.status = .pending →
      r.payload_json.reopenedFrom ≠ some .dismissed → s.shown.isSome →
      2 ≤ (s.live.filter (· ≠ id)).length
  | _ => True

instance (s : ReviewSheet υ τ ω) (event : CardEvent υ τ ω) :
    Decidable (KeepsAnswer s event) :=
  match event with
  | .answer .confirmed _ _ => inferInstanceAs (Decidable (2 ≤ s.live.length))
  | .answer .dismissed _ _ => inferInstanceAs (Decidable True)
  | .void id _ => inferInstanceAs (Decidable (∀ r ∈ s.review, r.status = .pending →
      r.payload_json.reopenedFrom ≠ some .dismissed → s.shown.isSome →
      2 ≤ (s.live.filter (· ≠ id)).length))
  | .card _ _ _ => inferInstanceAs (Decidable True)
  | .again _ _ => inferInstanceAs (Decidable True)

/-! ## The invariant -/

/-- What a review's status says of the cards left: `shown` and `covered` are those of its answer
and of its last dismissal. -/
inductive Stands (live : List υ) (shown : Option (List υ)) (covered : List υ) :
    ReviewStatus → ReviewPayload υ → Bool → Prop
  | confirmed {payload : ReviewPayload υ} (hFrom : payload.reopenedFrom = none)
      (hTwo : 2 ≤ (live.filter (· ∈ idsOf shown)).length) :
      Stands live shown covered .confirmed payload false
  | dismissed {payload : ReviewPayload υ} {reopened : Bool} (hFrom : payload.reopenedFrom = none)
      (hCovered : ∀ id ∈ live, id ∈ covered → id ∈ idsOf payload.penaltyIds) :
      Stands live shown covered .dismissed payload reopened
  | asked {payload : ReviewPayload υ} (hFrom : payload.reopenedFrom = none)
      (hTwo : 2 ≤ live.length) : Stands live shown covered .pending payload false
  | reopened {payload : ReviewPayload υ} {reopened : Bool}
      (hFrom : payload.reopenedFrom = some .dismissed) (hTwo : 2 ≤ live.length)
      (hOpen : ∃ id ∈ live, id ∉ idsOf payload.answeredIds)
      (hCovered : ∀ id ∈ live, id ∈ covered → id ∈ idsOf payload.answeredIds) :
      Stands live shown covered .pending payload reopened

def Follows (r : ReviewNext υ) (live : List υ) : Prop :=
  r.payload_json.penaltyIds = some live ∧ r.black_card_count = live.length

/-- The review over the live cards of a sheet whose cards have the ids `ids`. -/
structure Kept (live ids : List υ) (shown : Option (List υ)) (covered : List υ) (reopened : Bool)
    (r : ReviewNext υ) : Prop where
  counted : 2 ≤ live.length → Follows r live
  known : ∀ id ∈ idsOf r.payload_json.penaltyIds, id ∈ ids
  answered : r.payload_json.answeredPenaltyIds = shown
  stands : Stands live shown covered r.status r.payload_json reopened

structure ReviewInv (s : ReviewSheet υ τ ω) : Prop where
  covered : ∀ id ∈ s.covered, id ∈ s.cards.map (·.id)
  absent : s.review = none → s.live.length < 2 ∧ s.shown = none ∧ s.reopened = false
  present : ∀ r, s.review = some r →
    Kept s.live (s.cards.map (·.id)) s.shown s.covered s.reopened r.toReviewNext

/-! ## The rewrites -/

omit [LinearOrder τ] in
theorem writeReviewOver_next (read : Review υ ω) (next : ReviewNext υ) (now : ω) :
    (writeReviewOver read next now).toReviewNext = next := by
  rw [writeReviewOver]
  split
  · assumption
  · rfl

theorem nextReview_follows (r : ReviewNext υ) (live : List υ) (card : υ) :
    Follows (nextReview r live card) live := by
  rw [nextReview]
  split <;> exact ⟨rfl, rfl⟩

theorem nextReview_eq_of_counted {r : ReviewNext υ} {live : List υ} {card : υ}
    (h : r.status = .dismissed → card ∈ idsOf r.payload_json.penaltyIds) :
    nextReview r live card =
      { r with
        black_card_count := live.length
        payload_json := { r.payload_json with penaltyIds := some live } } := by
  have hClosed : ¬(r.status = .dismissed ∧ card ∉ idsOf r.payload_json.penaltyIds) :=
    fun ⟨hStatus, hNew⟩ => hNew (h hStatus)
  rw [nextReview, if_neg hClosed]

/-- A review that counts the live cards is not changed by one of them. -/
theorem nextReview_self {r : ReviewNext υ} {live : List υ} {card : υ} (hFollows : Follows r live)
    (hCard : card ∈ live) : nextReview r live card = r := by
  obtain ⟨hIds, hCount⟩ := hFollows
  have hCounted : card ∈ idsOf r.payload_json.penaltyIds := by rwa [hIds]
  rw [nextReview_eq_of_counted fun _ => hCounted, ← hIds, ← hCount]

theorem reviewAfterVoid_follows {r next : ReviewNext υ} {live : List υ}
    (h : reviewAfterVoid r live = some next) :
    Follows next live ∧
      next.payload_json.answeredPenaltyIds = r.payload_json.answeredPenaltyIds := by
  simp only [reviewAfterVoid] at h
  split_ifs at h
  all_goals
    obtain rfl := Option.some.inj h
    exact ⟨⟨rfl, rfl⟩, rfl⟩

/-- A review a void takes away is a pending one, and no dismissal gets it back. -/
theorem reviewAfterVoid_eq_none {r : ReviewNext υ} {live : List υ} :
    reviewAfterVoid r live = none ↔
      r.status = .pending ∧ r.payload_json.reopenedFrom ≠ some .dismissed ∧ live.length < 2 := by
  simp only [reviewAfterVoid]
  constructor
  · intro h
    split_ifs at h with _ _ hFrom _ hDrop
    exact ⟨hDrop.2, hFrom, hDrop.1⟩
  · rintro ⟨hStatus, hFrom, hLive⟩
    have hConfirmed : ¬(r.status = .confirmed ∧ ¬standsOn r.payload_json live) := by
      rintro ⟨hOther, _⟩
      rw [hStatus] at hOther
      cases hOther
    rw [if_neg hConfirmed, if_neg hFrom, if_pos ⟨hLive, hStatus⟩]

/-! ## A card -/

section Card

variable {live live' ids : List υ} {shown : Option (List υ)} {covered : List υ} {reopened : Bool}
  {r : ReviewNext υ} {id : υ}

omit [DecidableEq υ] in
theorem mem_of_covered_card (hPerm : live'.Perm (live ++ [id])) (hNew : id ∉ ids)
    (hCovered : ∀ id ∈ covered, id ∈ ids) {id' : υ} (hLive : id' ∈ live') (hMem : id' ∈ covered) :
    id' ∈ live := by
  rcases List.mem_append.mp (hPerm.mem_iff.mp hLive) with h | h
  · exact h
  · rw [List.mem_singleton.mp h] at hMem
    exact absurd (hCovered id hMem) hNew

omit [DecidableEq υ] in
theorem filter_length_card (hPerm : live'.Perm (live ++ [id])) (p : υ → Bool) :
    (live.filter p).length ≤ (live'.filter p).length := by
  rw [(hPerm.filter p).length_eq, List.filter_append, List.length_append]
  exact Nat.le_add_right _ _

/-- A new card keeps the standing of every review but a dismissed one. -/
theorem Stands.card (h : Stands live shown covered r.status r.payload_json reopened)
    (hPerm : live'.Perm (live ++ [id])) (hNew : id ∉ ids) (hCovered : ∀ id ∈ covered, id ∈ ids)
    (hKnown : ∀ id ∈ idsOf r.payload_json.penaltyIds, id ∈ ids) (hTwo : 2 ≤ live'.length) :
    Stands live' shown covered (nextReview r live' id).status (nextReview r live' id).payload_json
      (reopened || (decide (r.status = .dismissed) &&
        decide ((nextReview r live' id).status = .pending))) := by
  have hMem : id ∈ live' := hPerm.mem_iff.mpr (List.mem_append_right _ List.mem_cons_self)
  have hUncounted : id ∉ idsOf r.payload_json.penaltyIds := fun h => hNew (hKnown id h)
  obtain ⟨status, count, payload⟩ := r
  cases h with
  | confirmed hFrom hStands =>
    rw [nextReview_eq_of_counted fun h => by cases h]
    exact .confirmed hFrom (hStands.trans (filter_length_card hPerm _))
  | dismissed hFrom hLeft =>
    have hReopen : nextReview ⟨.dismissed, count, payload⟩ live' id =
        ⟨.pending, live'.length, { payload with
          penaltyIds := some live'
          reopenedFrom := some .dismissed
          reopenedBy := some id
          answeredIds := some (idsOf payload.penaltyIds) }⟩ := by
      rw [nextReview, if_pos ⟨rfl, hUncounted⟩]
    rw [hReopen]
    refine .reopened rfl hTwo ⟨id, hMem, hUncounted⟩ fun id' hLive hIn => ?_
    exact hLeft id' (mem_of_covered_card hPerm hNew hCovered hLive hIn) hIn
  | asked hFrom _ =>
    rw [nextReview_eq_of_counted fun h => by cases h]
    exact .asked hFrom hTwo
  | reopened hFrom _ hOpen hLeft =>
    rw [nextReview_eq_of_counted fun h => by cases h]
    obtain ⟨id', hLive, hNot⟩ := hOpen
    refine .reopened hFrom hTwo ⟨id', ?_, hNot⟩ fun id'' hLive' hIn => ?_
    · exact hPerm.mem_iff.mpr (List.mem_append_left _ hLive)
    · exact hLeft id'' (mem_of_covered_card hPerm hNew hCovered hLive' hIn) hIn

theorem Kept.card (h : Kept live ids shown covered reopened r) (hPerm : live'.Perm (live ++ [id]))
    (hNew : id ∉ ids) (hLive : ∀ id ∈ live, id ∈ ids) (hCovered : ∀ id ∈ covered, id ∈ ids)
    (hTwo : 2 ≤ live'.length) :
    Kept live' (ids ++ [id]) shown covered
      (reopened || (decide (r.status = .dismissed) &&
        decide ((nextReview r live' id).status = .pending))) (nextReview r live' id) where
  counted := fun _ => nextReview_follows r live' id
  known := by
    rw [(nextReview_follows r live' id).1]
    intro id' hId'
    rcases List.mem_append.mp (hPerm.mem_iff.mp hId') with hOld | hOld
    · exact List.mem_append_left _ (hLive id' hOld)
    · exact List.mem_append_right _ hOld
  answered := by
    rw [← h.answered, nextReview]
    split <;> rfl
  stands := h.stands.card hPerm hNew hCovered h.known hTwo

/-- The first live card leaves the review alone. -/
theorem Kept.firstCard (h : Kept [] ids shown covered reopened r) (hNew : id ∉ ids)
    (hCovered : ∀ id ∈ covered, id ∈ ids) : Kept [id] (ids ++ [id]) shown covered reopened r where
  counted := fun hTwo => absurd hTwo (by simp)
  known := fun id' hId' => List.mem_append_left _ (h.known id' hId')
  answered := h.answered
  stands := by
    obtain ⟨status, count, payload⟩ := r
    cases h.stands with
    | confirmed _ hTwo => exact absurd hTwo (by simp)
    | dismissed hFrom _ =>
      refine .dismissed hFrom fun id' hLive hIn => ?_
      rw [List.mem_singleton.mp hLive] at hIn
      exact absurd (hCovered id hIn) hNew
    | asked _ hTwo => exact absurd hTwo (by simp)
    | reopened _ hTwo _ _ => exact absurd hTwo (by simp)

theorem kept_insertReview (hTwo : 2 ≤ live.length) (hLive : ∀ id ∈ live, id ∈ ids) (now : ω) :
    Kept live ids none covered false (insertReview live now).toReviewNext where
  counted := fun _ => ⟨rfl, rfl⟩
  known := hLive
  answered := rfl
  stands := .asked rfl hTwo

end Card

/-! ## A void -/

section Void

variable {live live' ids : List υ} {shown : Option (List υ)} {covered : List υ} {reopened : Bool}
  {r next : ReviewNext υ} {id : υ}

omit [LinearOrder τ] in
theorem standsOn_iff {payload : ReviewPayload υ} (h : payload.answeredPenaltyIds = shown) :
    standsOn payload live ↔ 2 ≤ (live.filter (· ∈ idsOf shown)).length := by
  rw [standsOn, h, decide_eq_true_iff]

/-- A void leaves every review in the standing of the cards left. -/
theorem Stands.void (h : Stands live shown covered r.status r.payload_json reopened)
    (hAnswered : r.payload_json.answeredPenaltyIds = shown)
    (hCounted : ∀ id ∈ live', id ∈ live) (hNext : reviewAfterVoid r live' = some next) :
    Stands live' shown
      (if r.status = .confirmed ∧ next.status = .dismissed then live' else covered)
      next.status next.payload_json reopened := by
  obtain ⟨status, count, payload⟩ := r
  simp only [reviewAfterVoid] at hNext
  cases h with
  | confirmed hFrom _ =>
    replace hFrom : payload.reopenedFrom = none := hFrom
    by_cases hStands : standsOn payload live'
    · have hKept : next = ⟨.confirmed, live'.length, { payload with penaltyIds := some live' }⟩ := by
        simpa [hStands, hFrom] using hNext.symm
      rw [hKept]
      exact .confirmed hFrom ((standsOn_iff hAnswered).mp hStands)
    · by_cases hTwo : 2 ≤ live'.length
      · have hAsked : next = ⟨.pending, live'.length, { payload with penaltyIds := some live' }⟩ := by
          simpa [hStands, hTwo] using hNext.symm
        rw [hAsked]
        exact .asked hFrom hTwo
      · have hDismissed : next = ⟨.dismissed, live'.length, { payload with
            penaltyIds := some live', dismissedBy := some .card_void }⟩ := by
          simpa [hStands, hTwo] using hNext.symm
        rw [hDismissed, if_pos ⟨rfl, rfl⟩]
        exact .dismissed hFrom fun _ _ hIn => hIn
  | dismissed hFrom _ =>
    replace hFrom : payload.reopenedFrom = none := hFrom
    have hKept : next = ⟨.dismissed, live'.length, { payload with penaltyIds := some live' }⟩ := by
      simpa [hFrom] using hNext.symm
    rw [hKept]
    exact .dismissed hFrom fun _ hLive _ => hLive
  | asked hFrom _ =>
    replace hFrom : payload.reopenedFrom = none := hFrom
    by_cases hTwo : live'.length < 2
    · simp [hFrom, hTwo] at hNext
    · have hKept : next = ⟨.pending, live'.length, { payload with penaltyIds := some live' }⟩ := by
        simpa [hFrom, hTwo] using hNext.symm
      rw [hKept]
      exact .asked hFrom (Nat.le_of_not_lt hTwo)
  | reopened hFrom _ _ hLeft =>
    replace hFrom : payload.reopenedFrom = some .dismissed := hFrom
    by_cases hBack : (live'.filter (· ∉ idsOf payload.answeredIds)).length = 0 ∨ live'.length < 2
    · have hDismissed : next = ⟨.dismissed, live'.length, { answeredPayload payload with
          penaltyIds := some live' }⟩ := by
        simpa only [hFrom, if_pos hBack, reduceCtorEq, false_and, if_false, if_true,
          Option.some.injEq] using hNext.symm
      rw [hDismissed]
      exact .dismissed rfl fun _ hLive _ => hLive
    · have hOpen : next = ⟨.pending, live'.length, { payload with
          penaltyIds := some live'
          reopenedBy := (live'.filter (· ∉ idsOf payload.answeredIds)).head? }⟩ := by
        simpa only [hFrom, if_neg hBack, reduceCtorEq, false_and, if_false, if_true,
          Option.some.injEq] using hNext.symm
      obtain ⟨hSome, hTwo⟩ := not_or.mp hBack
      obtain ⟨id, hId⟩ := List.exists_mem_of_length_pos (Nat.pos_of_ne_zero hSome)
      rw [hOpen]
      refine .reopened hFrom (Nat.le_of_not_lt hTwo) ⟨id, (List.mem_filter.mp hId).1, ?_⟩ ?_
      · exact of_decide_eq_true (List.mem_filter.mp hId).2
      · exact fun id' hLive hIn => hLeft id' (hCounted id' hLive) hIn

theorem Kept.void (h : Kept live ids shown covered reopened r) (hCounted : ∀ id ∈ live', id ∈ live)
    (hLive : ∀ id ∈ live, id ∈ ids) (hNext : reviewAfterVoid r live' = some next) :
    Kept live' ids shown
      (if r.status = .confirmed ∧ next.status = .dismissed then live' else covered) reopened
      next where
  counted := fun _ => (reviewAfterVoid_follows hNext).1
  known := by
    rw [(reviewAfterVoid_follows hNext).1.1]
    exact fun id hId => hLive id (hCounted id hId)
  answered := (reviewAfterVoid_follows hNext).2.trans h.answered
  stands := h.stands.void h.answered hCounted hNext

end Void

/-! ## The steps -/

section Sync

variable {cards : List (BlackCard υ τ)} {id : υ} {now : ω}

theorem sync_below (h : (liveBlackCardIds cards).length < 2) (review : Option (Review υ ω)) :
    syncSecondBlackCardReview cards review id now = review := if_pos h

theorem sync_none (h : 2 ≤ (liveBlackCardIds cards).length) :
    syncSecondBlackCardReview cards none id now = some (insertReview (liveBlackCardIds cards) now) :=
  if_neg (Nat.not_lt.mpr h)

theorem sync_some (h : 2 ≤ (liveBlackCardIds cards).length) (r : Review υ ω) :
    syncSecondBlackCardReview cards (some r) id now =
      some (writeReviewOver r (nextReview r.toReviewNext (liveBlackCardIds cards) id) now) :=
  if_neg (Nat.not_lt.mpr h)

end Sync

omit [LinearOrder τ] [DecidableEq υ] in
theorem reviewIs_some (r : Review υ ω) (status : ReviewStatus) :
    reviewIs (some r) status = decide (r.status = status) := rfl

omit [LinearOrder τ] [DecidableEq υ] in
theorem reviewIs_not_both (review : Option (Review υ ω)) :
    (reviewIs review .dismissed && reviewIs review .pending) = false := by
  cases review with
  | none => rfl
  | some r => cases h : r.status <;> simp [reviewIs, h]

section Steps

variable {s : ReviewSheet υ τ ω} {id : υ}

theorem reviewInv_of_none (hCovered : ∀ id ∈ s.covered, id ∈ s.cards.map (·.id))
    (hReview : s.review = none) (hLive : s.live.length < 2) (hShown : s.shown = none)
    (hReopened : s.reopened = false) : ReviewInv s where
  covered := hCovered
  absent := fun _ => ⟨hLive, hShown, hReopened⟩
  present := fun r hr => by
    rw [hReview] at hr
    cases hr

theorem reviewInv_of_some {r : Review υ ω} (hCovered : ∀ id ∈ s.covered, id ∈ s.cards.map (·.id))
    (hReview : s.review = some r)
    (hKept : Kept s.live (s.cards.map (·.id)) s.shown s.covered s.reopened r.toReviewNext) :
    ReviewInv s where
  covered := hCovered
  absent := fun hNone => by
    rw [hReview] at hNone
    cases hNone
  present := fun r' hr' => by
    rw [hReview] at hr'
    cases hr'
    exact hKept

/-- Of two live cards, or none to count, a card sent again finds the review as it left it. -/
theorem ReviewInv.again (h : ReviewInv s) (hLive : id ∈ s.live) (now : ω) :
    s.afterCard s.cards id now = s := by
  have hReview : syncSecondBlackCardReview s.cards s.review id now = s.review := by
    by_cases hTwo : (liveBlackCardIds s.cards).length < 2
    · exact sync_below hTwo s.review
    · cases hRead : s.review with
      | none => exact absurd (h.absent hRead).1 hTwo
      | some r =>
        have hFollows := (h.present r hRead).counted (Nat.le_of_not_lt hTwo)
        have hSelf : nextReview r.toReviewNext (liveBlackCardIds s.cards) id = r.toReviewNext :=
          nextReview_self hFollows hLive
        rw [sync_some (Nat.le_of_not_lt hTwo), hSelf, writeReviewOver, if_pos rfl]
  simp only [ReviewSheet.afterCard, hReview, reviewIs_not_both, Bool.or_false]

theorem ReviewInv.card (h : ReviewInv s) {card : BlackCard υ τ} (hNew : card.id ∉ s.cards.map (·.id))
    (hCard : card.voided = false) (now : ω) :
    ReviewInv (s.afterCard (s.cards ++ [card]) card.id now) := by
  have hPerm : (liveBlackCardIds (s.cards ++ [card])).Perm (s.live ++ [card.id]) :=
    live_card s.cards hCard
  have hIds : (s.cards ++ [card]).map (·.id) = s.cards.map (·.id) ++ [card.id] := by
    rw [List.map_append, List.map_singleton]
  have hCovered : ∀ id ∈ s.covered, id ∈ (s.cards ++ [card]).map (·.id) := by
    rw [hIds]
    exact fun id hId => List.mem_append_left _ (h.covered id hId)
  by_cases hTwo : 2 ≤ (liveBlackCardIds (s.cards ++ [card])).length
  · cases hRead : s.review with
    | none =>
      obtain ⟨_, hShown, hReopened⟩ := h.absent hRead
      have hInsert : (s.afterCard (s.cards ++ [card]) card.id now).review =
          some (insertReview (liveBlackCardIds (s.cards ++ [card])) now) := by
        rw [ReviewSheet.afterCard, hRead, sync_none hTwo]
      have hKept : Kept (liveBlackCardIds (s.cards ++ [card])) ((s.cards ++ [card]).map (·.id)) none
          s.covered false
          (insertReview (liveBlackCardIds (s.cards ++ [card])) now).toReviewNext :=
        kept_insertReview hTwo (fun _ => mem_ids_of_live) now
      refine reviewInv_of_some hCovered hInsert ?_
      rw [ReviewSheet.afterCard, hRead, hShown, hReopened]
      exact hKept
    | some r =>
      have hNext : (s.afterCard (s.cards ++ [card]) card.id now).review = some (writeReviewOver r
          (nextReview r.toReviewNext (liveBlackCardIds (s.cards ++ [card])) card.id) now) := by
        rw [ReviewSheet.afterCard, hRead, sync_some hTwo]
      have hKept := (h.present r hRead).card hPerm hNew (fun _ => mem_ids_of_live) h.covered hTwo
      refine reviewInv_of_some hCovered hNext ?_
      rw [ReviewSheet.afterCard, hRead, sync_some hTwo, reviewIs_some, reviewIs_some,
        writeReviewOver_next, hIds]
      exact hKept
  · have hLive : s.live = [] := by
      have hLength := hPerm.length_eq
      rw [List.length_append, List.length_singleton] at hLength
      exact List.length_eq_zero_iff.mp (by omega)
    have hOne : liveBlackCardIds (s.cards ++ [card]) = [card.id] := by
      rw [hLive] at hPerm
      exact List.perm_singleton.mp hPerm
    have hSync : s.afterCard (s.cards ++ [card]) card.id now = { s with cards := s.cards ++ [card] } := by
      simp only [ReviewSheet.afterCard, sync_below (Nat.lt_of_not_le hTwo), reviewIs_not_both,
        Bool.or_false]
    rw [hSync]
    cases hRead : s.review with
    | none =>
      refine reviewInv_of_none hCovered rfl (Nat.lt_of_not_le hTwo) ?_ ?_
      · exact (h.absent hRead).2.1
      · exact (h.absent hRead).2.2
    | some r =>
      have hKept := h.present r hRead
      rw [hLive] at hKept
      refine reviewInv_of_some hCovered rfl ?_
      rw [ReviewSheet.live, hOne, hIds]
      exact hKept.firstCard hNew h.covered

/-- A review a void takes away was never answered, and nothing reopened it. -/
theorem Kept.dropped {live live' ids : List υ} {shown : Option (List υ)} {covered : List υ}
    {reopened : Bool} {r : ReviewNext υ} (h : Kept live ids shown covered reopened r)
    (hNext : reviewAfterVoid r live' = none) : reopened = false := by
  obtain ⟨hStatus, hFrom, _⟩ := reviewAfterVoid_eq_none.mp hNext
  have hStands := h.stands
  rw [hStatus] at hStands
  cases hStands with
  | asked => rfl
  | reopened hOther => exact absurd hOther hFrom

theorem afterVoid_none (hRead : s.review = none) (now : ω) :
    s.afterVoid id now = { s with cards := voidCard s.cards id } := by
  simp only [ReviewSheet.afterVoid, dropSpentBlackCardReview, hRead, Option.bind_none]
  rfl

theorem afterVoid_some {r : Review υ ω} (hRead : s.review = some r) (now : ω) :
    (s.afterVoid id now).review =
      (reviewAfterVoid r.toReviewNext (liveBlackCardIds (voidCard s.cards id))).map
        fun next => writeReviewOver r next now := by
  simp only [ReviewSheet.afterVoid, dropSpentBlackCardReview, hRead, Option.bind_some,
    live_void_filter]

theorem afterVoid_covered (now : ω) :
    (s.afterVoid id now).covered =
      if reviewIs s.review .confirmed && reviewIs (s.afterVoid id now).review .dismissed then
        liveBlackCardIds (voidCard s.cards id)
      else s.covered := rfl

theorem ReviewInv.void (h : ReviewInv s) (now : ω) (hAnswer : KeepsAnswer s (.void id now)) :
    ReviewInv (s.afterVoid id now) := by
  have hIds : (voidCard s.cards id).map (·.id) = s.cards.map (·.id) := voidCard_ids s.cards id
  have hCounted : ∀ id' ∈ liveBlackCardIds (voidCard s.cards id), id' ∈ s.live :=
    fun id' hId' => (mem_live_void.mp hId').1
  have hPerm := live_void s.cards id
  have hCovered : ∀ id' ∈ (s.afterVoid id now).covered, id' ∈ (voidCard s.cards id).map (·.id) := by
    rw [hIds, ReviewSheet.afterVoid]
    intro id' hId'
    split at hId'
    · exact mem_ids_of_live (hCounted id' hId')
    · exact h.covered id' hId'
  cases hRead : s.review with
  | none =>
    obtain ⟨hLive, hShown, hReopened⟩ := h.absent hRead
    have hNone : s.afterVoid id now = { s with cards := voidCard s.cards id } :=
      afterVoid_none hRead now
    rw [hNone] at hCovered ⊢
    refine reviewInv_of_none hCovered hRead ?_ hShown hReopened
    exact (hPerm.length_eq.trans_le (List.length_filter_le _ _)).trans_lt hLive
  | some r =>
    have hKept := h.present r hRead
    have hReview : (s.afterVoid id now).review =
        (reviewAfterVoid r.toReviewNext (liveBlackCardIds (voidCard s.cards id))).map
          fun next => writeReviewOver r next now := afterVoid_some hRead now
    cases hNext : reviewAfterVoid r.toReviewNext (liveBlackCardIds (voidCard s.cards id)) with
    | none =>
      obtain ⟨hStatus, hFrom, hLive⟩ := reviewAfterVoid_eq_none.mp hNext
      rw [hNext, Option.map_none] at hReview
      refine reviewInv_of_none hCovered hReview hLive ?_ (hKept.dropped hNext)
      by_contra hShown
      have hTwo := hAnswer r hRead hStatus hFrom (Option.isSome_iff_ne_none.mpr hShown)
      exact absurd (hTwo.trans_eq hPerm.length_eq.symm) (Nat.not_le.mpr hLive)
    | some next =>
      rw [hNext, Option.map_some] at hReview
      refine reviewInv_of_some hCovered hReview ?_
      have hAfter := hKept.void hCounted (fun _ => mem_ids_of_live) hNext
      have hStatus : (writeReviewOver r next now).status = next.status :=
        congrArg ReviewNext.status (writeReviewOver_next r next now)
      have hCover : (s.afterVoid id now).covered =
          if r.status = .confirmed ∧ next.status = .dismissed then
            liveBlackCardIds (voidCard s.cards id) else s.covered := by
        rw [afterVoid_covered, hRead, hReview]
        simp only [reviewIs_some, hStatus, Bool.and_eq_true, decide_eq_true_eq]
      rw [writeReviewOver_next, hCover]
      exact hIds ▸ hAfter

/-- The answer keeps the cards the review counts, and covers the ones she was shown. -/
theorem Kept.answer {live ids : List υ} {shown : Option (List υ)} {covered : List υ}
    {reopened : Bool} {r : ReviewNext υ} (h : Kept live ids shown covered reopened r)
    {verdict : Verdict} (hTwo : verdict = .confirmed → 2 ≤ live.length) :
    Kept live ids (some (idsOf r.payload_json.penaltyIds))
      (if verdict = .dismissed then idsOf r.payload_json.penaltyIds else covered) false
      { r with status := verdict.status, payload_json := answerPayload r.payload_json } where
  counted := h.counted
  known := h.known
  answered := rfl
  stands := by
    cases verdict with
    | confirmed =>
      have hIds := (h.counted (hTwo rfl)).1
      have hAll : live.filter (· ∈ idsOf (some (idsOf (some live)))) = live :=
        List.filter_eq_self.mpr fun _ hId => decide_eq_true hId
      refine .confirmed rfl ?_
      rw [hIds, hAll]
      exact hTwo rfl
    | dismissed => exact .dismissed rfl fun _ _ hIn => hIn

theorem ReviewInv.answer [DecidableEq ω] (h : ReviewInv s) {read answered : Review υ ω}
    {verdict : Verdict} {seen now : ω} (hRead : s.review = some read)
    (hAnswered : reviewTournamentPenalty read verdict seen now = some answered)
    (hAnswer : KeepsAnswer s (.answer verdict seen now)) :
    ReviewInv (s.afterAnswer read answered verdict) := by
  have hKept := h.present read hRead
  have hTwo : verdict = .confirmed → 2 ≤ s.live.length := by
    rintro rfl
    exact hAnswer
  rw [reviewTournamentPenalty] at hAnswered
  split at hAnswered
  · obtain rfl := Option.some.inj hAnswered
    refine reviewInv_of_some ?_ rfl (hKept.answer hTwo)
    intro id' hId'
    rw [ReviewSheet.afterAnswer] at hId'
    split at hId'
    · exact hKept.known id' hId'
    · exact h.covered id' hId'
  · cases hAnswered

/-! ## The runs -/

theorem reviewInv_empty : ReviewInv (ReviewSheet.empty : ReviewSheet υ τ ω) :=
  reviewInv_of_none nofun rfl Nat.zero_lt_two rfl rfl

variable [DecidableEq ω] {s' : ReviewSheet υ τ ω} {event : CardEvent υ τ ω}

theorem ReviewInv.step (h : ReviewInv s) (hStep : reviewStep s event s')
    (hAnswer : KeepsAnswer s event) : ReviewInv s' := by
  cases event with
  | card id at_ now =>
    simp only [reviewStep, CardEvent.apply] at hStep
    split_ifs at hStep with hNew
    obtain rfl := Option.some.inj hStep
    exact h.card hNew rfl now
  | again id now =>
    simp only [reviewStep, CardEvent.apply] at hStep
    split_ifs at hStep with hLive
    obtain rfl := Option.some.inj hStep
    rwa [h.again hLive now]
  | void id now =>
    simp only [reviewStep, CardEvent.apply] at hStep
    split_ifs at hStep
    obtain rfl := Option.some.inj hStep
    exact h.void now hAnswer
  | answer verdict seen now =>
    obtain ⟨read, hRead, hMap⟩ := Option.bind_eq_some_iff.mp hStep
    obtain ⟨answered, hAnswered, rfl⟩ := Option.map_eq_some_iff.mp hMap
    exact h.answer hRead hAnswered hAnswer

theorem ReviewInv.law (h : ReviewInv s) : ReviewLaw s where
  counted := fun hTwo => by
    cases hRead : s.review with
    | none => exact absurd hTwo (Nat.not_le.mpr (h.absent hRead).1)
    | some r => exact ⟨r, rfl, (h.present r hRead).counted hTwo⟩
  again := fun id hLive now => by
    rw [CardEvent.apply, if_pos hLive, h.again hLive now]
  standing := fun r hRead hStatus => by
    have hStands := (h.present r hRead).stands
    rw [hStatus] at hStands
    generalize s.reopened = reopened at hStands
    cases hStands with
    | confirmed _ hTwo => exact hTwo
  givenBack := fun hReopened hCovered => by
    cases hRead : s.review with
    | none => exact absurd hReopened (by rw [(h.absent hRead).2.2]; exact Bool.false_ne_true)
    | some r =>
      refine ⟨r, rfl, ?_⟩
      have hStands := (h.present r hRead).stands
      rw [hReopened] at hStands
      generalize hStatus : r.status = status at hStands ⊢
      cases hStands with
      | dismissed => rfl
      | reopened _ _ hOpen hLeft =>
        obtain ⟨id, hLive, hNot⟩ := hOpen
        exact absurd (hLeft id hLive (hCovered id hLive)) hNot
  kept := fun hShown => by
    cases hRead : s.review with
    | none => exact absurd hShown (by rw [(h.absent hRead).2.1]; exact Bool.false_ne_true)
    | some r => rfl

theorem confirm_breaks {read answered : Review υ ω} {seen now : ω}
    (hAnswered : reviewTournamentPenalty read .confirmed seen now = some answered)
    (hOne : s.live.length < 2) : ¬ReviewLaw (s.afterAnswer read answered .confirmed) := by
  intro hLaw
  have hStatus : answered.status = .confirmed := by
    rw [reviewTournamentPenalty] at hAnswered
    split at hAnswered
    · rw [← Option.some.inj hAnswered]
      rfl
    · cases hAnswered
  have hTwo := hLaw.standing answered rfl hStatus
  exact absurd (hTwo.trans (List.length_filter_le _ _)) (Nat.not_le.mpr hOne)

theorem drop_breaks {r : Review υ ω} (hRead : s.review = some r) (hStatus : r.status = .pending)
    (hFrom : r.payload_json.reopenedFrom ≠ some .dismissed) (hShown : s.shown.isSome)
    (hOne : (s.live.filter (· ≠ id)).length < 2) (now : ω) : ¬ReviewLaw (s.afterVoid id now) := by
  intro hLaw
  have hLive : (liveBlackCardIds (voidCard s.cards id)).length < 2 :=
    (live_void s.cards id).length_eq.trans_lt hOne
  have hDrop := reviewAfterVoid_eq_none.mpr ⟨hStatus, hFrom, hLive⟩
  have hKept := hLaw.kept hShown
  rw [afterVoid_some hRead, hDrop] at hKept
  exact Bool.false_ne_true hKept

/-- Every other step breaks the law at once. -/
theorem not_reviewLaw_of_not_keepsAnswer (hStep : reviewStep s event s')
    (hAnswer : ¬KeepsAnswer s event) : ¬ReviewLaw s' := by
  cases event with
  | card id at_ now => exact absurd trivial hAnswer
  | again id now => exact absurd trivial hAnswer
  | void id now =>
    simp only [reviewStep, CardEvent.apply] at hStep
    split_ifs at hStep
    obtain rfl := Option.some.inj hStep
    simp only [KeepsAnswer, not_forall, exists_prop, Nat.not_le] at hAnswer
    obtain ⟨r, hRead, hStatus, hFrom, hShown, hOne⟩ := hAnswer
    exact drop_breaks hRead hStatus hFrom hShown hOne now
  | answer verdict seen now =>
    obtain ⟨read, _, hMap⟩ := Option.bind_eq_some_iff.mp hStep
    obtain ⟨answered, hAnswered, rfl⟩ := Option.map_eq_some_iff.mp hMap
    cases verdict with
    | confirmed => exact confirm_breaks hAnswered (Nat.lt_of_not_le hAnswer)
    | dismissed => exact absurd trivial hAnswer

end Steps

/-- A run obeys the law at every state exactly when each of its steps keeps the answer given. -/
theorem reviewLaw_iff [DecidableEq ω] {s : ReviewSheet υ τ ω}
    {moves : List (Move (ReviewSheet υ τ ω) (CardEvent υ τ ω))}
    (hRun : Run reviewStep ReviewSheet.empty moves s) :
    (ReviewLaw s ∧ ∀ m ∈ moves, ReviewLaw m.before) ↔
      ∀ m ∈ moves, KeepsAnswer m.before m.event :=
  hRun.law_iff_allowed reviewInv_empty (fun _ _ _ => ReviewInv.step) (fun _ => ReviewInv.law)
    fun _ _ _ _ => not_reviewLaw_of_not_keepsAnswer

end Law

/-- A dismissed review a third card reopens, and that card's void. -/
def reopenedAndBack : List (CardEvent ℕ ℕ ℕ) :=
  [.card 1 10 1, .card 2 20 2, .answer .dismissed 2 3, .card 3 30 4, .again 3 5, .void 3 6]

theorem reviewLaw_reopenedAndBack : ∃ (s : ReviewSheet ℕ ℕ ℕ)
    (moves : List (Move (ReviewSheet ℕ ℕ ℕ) (CardEvent ℕ ℕ ℕ))),
    moves.map (·.event) = reopenedAndBack ∧ ReviewLaw s ∧ ∀ m ∈ moves, ReviewLaw m.before := by
  have hReplay : ∃ r, replay (fun s event => event.apply s) ReviewSheet.empty reopenedAndBack =
      some r ∧ (∀ m ∈ r.1, KeepsAnswer m.before m.event) ∧
      r.1.map (·.event) = reopenedAndBack :=
    ⟨_, rfl, by decide, rfl⟩
  obtain ⟨⟨moves, s⟩, hRun, hKeeps, hEvents⟩ := hReplay
  exact ⟨s, moves, hEvents, (reviewLaw_iff (run_of_replay hRun)).mpr hKeeps⟩

/-- A confirmed review that asks again for a third card, until a void leaves that card alone. -/
def confirmedAndAsked : List (CardEvent ℕ ℕ ℕ) :=
  [.card 1 10 1, .card 2 20 2, .answer .confirmed 2 3, .card 3 30 4, .void 1 5, .void 2 6]

/-- The review is deleted, though the organiser answered it. -/
theorem confirmedAndAsked_deleted : ¬∀ (s : ReviewSheet ℕ ℕ ℕ)
    (moves : List (Move (ReviewSheet ℕ ℕ ℕ) (CardEvent ℕ ℕ ℕ))),
    Run reviewStep ReviewSheet.empty moves s → ReviewLaw s ∧ ∀ m ∈ moves, ReviewLaw m.before := by
  have hReplay : ∃ r, replay (fun s event => event.apply s) ReviewSheet.empty confirmedAndAsked =
      some r ∧ r.2.shown = some [1, 2] ∧ r.2.review = none :=
    ⟨_, rfl, rfl, rfl⟩
  obtain ⟨⟨moves, s⟩, hRun, hShown, hReview⟩ := hReplay
  intro hAll
  have hKept := (hAll s moves (run_of_replay hRun)).1.kept (Option.isSome_iff_exists.mpr ⟨_, hShown⟩)
  rw [hReview] at hKept
  exact Bool.false_ne_true hKept

end MyClash.Penalties
