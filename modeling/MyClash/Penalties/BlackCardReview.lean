import MyClash.Library.StableSort

/-!
# The review a second black card asks for

A Fighter's live black cards in a Tournament, and the review that follows them: a card or a void
rewrites it, the organiser answers it. One thing happens at a time, so a write over the review as
it was read always finds it.
-/

namespace MyClash.Penalties

open StableSort

universe u v w

variable {υ : Type u} {τ : Type v} {ω : Type w}

/-! ## The review -/

inductive ReviewStatus where
  | pending
  | confirmed
  | dismissed
  deriving DecidableEq

inductive DismissedBy where
  | card_void
  deriving DecidableEq

/-- The keys of `payload_json` that are read or written; one that is absent is `none`. -/
structure ReviewPayload (υ : Type u) where
  penaltyIds : Option (List υ)
  reopenedFrom : Option ReviewStatus
  reopenedBy : Option υ
  answeredIds : Option (List υ)
  answeredPenaltyIds : Option (List υ)
  dismissedBy : Option DismissedBy
  deriving DecidableEq

/-- A review as it is written over the one that was read. -/
structure ReviewNext (υ : Type u) where
  status : ReviewStatus
  black_card_count : ℕ
  payload_json : ReviewPayload υ
  deriving DecidableEq

structure Review (υ : Type u) (ω : Type w) extends ReviewNext υ where
  updated_at : ω

def idsOf (value : Option (List υ)) : List υ := value.getD []

section Rewrite

variable [DecidableEq υ]

/-- The review once `cardIds` are the live black cards and `card` is the one just written. -/
def nextReview (review : ReviewNext υ) (cardIds : List υ) (card : υ) : ReviewNext υ :=
  let payload := review.payload_json
  let counted := idsOf payload.penaltyIds
  if review.status = .dismissed ∧ card ∉ counted then
    { status := .pending
      black_card_count := cardIds.length
      payload_json := { payload with
        penaltyIds := some cardIds
        reopenedFrom := some .dismissed
        reopenedBy := some card
        answeredIds := some counted } }
  else
    { status := review.status
      black_card_count := cardIds.length
      payload_json := { payload with penaltyIds := some cardIds } }

def answeredPayload (payload : ReviewPayload υ) : ReviewPayload υ :=
  { payload with reopenedFrom := none, reopenedBy := none, answeredIds := none, dismissedBy := none }

def answerPayload (payload : ReviewPayload υ) : ReviewPayload υ :=
  let own := answeredPayload payload
  { own with answeredPenaltyIds := some (idsOf own.penaltyIds) }

/-- Two of the cards a confirmed review answered are among `liveIds`. -/
def standsOn (payload : ReviewPayload υ) (liveIds : List υ) : Bool :=
  2 ≤ (liveIds.filter (· ∈ idsOf payload.answeredPenaltyIds)).length

/-- `none` is `'drop'`. -/
def reviewAfterVoid (review : ReviewNext υ) (liveIds : List υ) : Option (ReviewNext υ) :=
  let payload := review.payload_json
  if review.status = .confirmed ∧ ¬standsOn payload liveIds then
    if 2 ≤ liveIds.length then
      some { status := .pending
             black_card_count := liveIds.length
             payload_json := { payload with penaltyIds := some liveIds } }
    else
      some { status := .dismissed
             black_card_count := liveIds.length
             payload_json := { payload with
               penaltyIds := some liveIds
               dismissedBy := some .card_void } }
  else if payload.reopenedFrom = some .dismissed then
    let answered := idsOf payload.answeredIds
    let unanswered := liveIds.filter (· ∉ answered)
    if unanswered.length = 0 ∨ liveIds.length < 2 then
      some { status := .dismissed
             black_card_count := liveIds.length
             payload_json := { answeredPayload payload with penaltyIds := some liveIds } }
    else
      some { status := review.status
             black_card_count := liveIds.length
             payload_json := { payload with
               penaltyIds := some liveIds
               reopenedBy := unanswered.head? } }
  else if liveIds.length < 2 ∧ review.status = .pending then none
  else
    some { status := review.status
           black_card_count := liveIds.length
           payload_json := { payload with penaltyIds := some liveIds } }

/-- Nothing is written where nothing would change. -/
def writeReviewOver (read : Review υ ω) (next : ReviewNext υ) (now : ω) : Review υ ω :=
  if read.toReviewNext = next then read else { next with updated_at := now }

end Rewrite

def insertReview (cardIds : List υ) (now : ω) : Review υ ω where
  status := .pending
  black_card_count := cardIds.length
  payload_json :=
    { penaltyIds := some cardIds
      reopenedFrom := none
      reopenedBy := none
      answeredIds := none
      answeredPenaltyIds := none
      dismissedBy := none }
  updated_at := now

/-! ## The cards and the doors -/

structure BlackCard (υ : Type u) (τ : Type v) where
  id : υ
  occurred_at : τ
  voided : Bool

section Doors

variable [LinearOrder τ]

/-- Oldest first. -/
def liveBlackCardIds (cards : List (BlackCard υ τ)) : List υ :=
  (sortWith (fun a b => compare a.occurred_at b.occurred_at)
    (cards.filter fun card => !card.voided)).map (·.id)

variable [DecidableEq υ]

def syncSecondBlackCardReview (cards : List (BlackCard υ τ)) (review : Option (Review υ ω))
    (card : υ) (now : ω) : Option (Review υ ω) :=
  let live := liveBlackCardIds cards
  if live.length < 2 then review
  else
    match review with
    | none => some (insertReview live now)
    | some review => some (writeReviewOver review (nextReview review.toReviewNext live card) now)

def dropSpentBlackCardReview (cards : List (BlackCard υ τ)) (review : Option (Review υ ω))
    (card : υ) (now : ω) : Option (Review υ ω) :=
  let live := (liveBlackCardIds cards).filter (· ≠ card)
  review.bind fun review =>
    (reviewAfterVoid review.toReviewNext live).map fun next => writeReviewOver review next now

end Doors

inductive Verdict where
  | confirmed
  | dismissed
  deriving DecidableEq

def Verdict.status : Verdict → ReviewStatus
  | .confirmed => .confirmed
  | .dismissed => .dismissed

/-- The answer to the review the organiser saw; `none` where a card changed it since. -/
def reviewTournamentPenalty [DecidableEq ω] (review : Review υ ω) (verdict : Verdict)
    (seenUpdatedAt now : ω) : Option (Review υ ω) :=
  if review.updated_at = seenUpdatedAt then
    some { review with
      status := verdict.status
      payload_json := answerPayload review.payload_json
      updated_at := now }
  else none

/-- The Fighter's black cards and the review, with what an answer and a dismissal covered. -/
structure ReviewSheet (υ : Type u) (τ : Type v) (ω : Type w) where
  cards : List (BlackCard υ τ)
  review : Option (Review υ ω)
  /-- The cards the organiser was shown when she last answered. -/
  shown : Option (List υ)
  /-- The cards the last dismissal covered: those she was shown, or those a void left. -/
  covered : List υ
  /-- New cards reopened a dismissed review, and she has not answered it since. -/
  reopened : Bool

def ReviewSheet.empty : ReviewSheet υ τ ω := ⟨[], none, none, [], false⟩

/-- `now` is the time a review is written at. -/
inductive CardEvent (υ : Type u) (τ : Type v) (ω : Type w) where
  | card (id : υ) (occurred_at : τ) (now : ω)
  | again (id : υ) (now : ω)
  | void (id : υ) (now : ω)
  | answer (verdict : Verdict) (seenUpdatedAt now : ω)

def reviewIs (review : Option (Review υ ω)) (status : ReviewStatus) : Bool :=
  review.any (·.status = status)

def voidCard [DecidableEq υ] (cards : List (BlackCard υ τ)) (id : υ) : List (BlackCard υ τ) :=
  cards.map fun card => if card.id = id then { card with voided := true } else card

section Step

variable [LinearOrder τ] [DecidableEq υ]

def ReviewSheet.live (s : ReviewSheet υ τ ω) : List υ := liveBlackCardIds s.cards

def ReviewSheet.afterCard (s : ReviewSheet υ τ ω) (cards : List (BlackCard υ τ)) (id : υ)
    (now : ω) : ReviewSheet υ τ ω :=
  let review := syncSecondBlackCardReview cards s.review id now
  { s with
    cards := cards
    review := review
    reopened := s.reopened || (reviewIs s.review .dismissed && reviewIs review .pending) }

def ReviewSheet.afterVoid (s : ReviewSheet υ τ ω) (id : υ) (now : ω) : ReviewSheet υ τ ω :=
  let cards := voidCard s.cards id
  let review := dropSpentBlackCardReview cards s.review id now
  { s with
    cards := cards
    review := review
    covered :=
      if reviewIs s.review .confirmed && reviewIs review .dismissed then liveBlackCardIds cards
      else s.covered }

def ReviewSheet.afterAnswer (s : ReviewSheet υ τ ω) (read answered : Review υ ω)
    (verdict : Verdict) : ReviewSheet υ τ ω :=
  let shown := idsOf read.payload_json.penaltyIds
  { s with
    review := some answered
    shown := some shown
    covered := if verdict = .dismissed then shown else s.covered
    reopened := false }

variable [DecidableEq ω]

/-- A new card has an id of its own; a card is sent again, or taken back, while it is live. -/
def CardEvent.apply (s : ReviewSheet υ τ ω) : CardEvent υ τ ω → Option (ReviewSheet υ τ ω)
  | .card id occurred_at now =>
    if id ∈ s.cards.map (·.id) then none
    else some (s.afterCard (s.cards ++ [⟨id, occurred_at, false⟩]) id now)
  | .again id now => if id ∈ s.live then some (s.afterCard s.cards id now) else none
  | .void id now => if id ∈ s.live then some (s.afterVoid id now) else none
  | .answer verdict seenUpdatedAt now =>
    s.review.bind fun read =>
      (reviewTournamentPenalty read verdict seenUpdatedAt now).map fun answered =>
        s.afterAnswer read answered verdict

def reviewStep (s : ReviewSheet υ τ ω) (event : CardEvent υ τ ω) (s' : ReviewSheet υ τ ω) :
    Prop :=
  event.apply s = some s'

end Step

end MyClash.Penalties
