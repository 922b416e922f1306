import MyClash.Fighters.Status
import MyClash.Library.OrderedMap

/-!
# The status columns that an older archive lacks

Such an archive carries each Fighter's status and none of the columns of its causes. A restore
fills them from the archive alone, each where a row lacks its key: what each forfeit did to its
Fighter, the organiser's hand with the time the Fighter went out, and the cards that a confirmed
review answered.
-/

namespace MyClash.Exports.FighterStatus

open Fighters (ForfeitReason)
open Penalties (ReviewPayload)

/-! ## The rows -/

/-- A row lacks a key that is `none`. -/
structure RegistrationRow (υ : Type) where
  id : υ
  status : String
  entry_status : Option (Option String)
  out_since : Option (Option String)

structure ForfeitRow (υ : Type) where
  match_id : Option υ
  forfeiting_registration_id : υ
  reason : String
  parent_forfeit_id : Option υ
  auto_created : Option Bool
  can_continue : Option Bool
  voided_at : Option String
  created_at : Option String
  fighter_outcome : Option (Option String)

structure PenaltyRow (υ : Type) where
  registration_id : υ
  match_id : Option υ
  card : String
  voided : Option Bool

structure ReviewRow (υ : Type) where
  registration_id : υ
  status : String
  payload_json : Option (ReviewPayload υ)

structure Tables (υ : Type) where
  registrations : List (RegistrationRow υ)
  matchForfeits : List (ForfeitRow υ)
  matchPenalties : List (PenaltyRow υ)
  tournamentPenaltyReviews : List (ReviewRow υ)

/-! ## The forfeits -/

def OUT : List String := ["withdrawn", "disqualified"]

def reasonText : ForfeitReason → String
  | .injury => "injury"
  | .voluntary => "voluntary"
  | .black_card_1 => "black_card_1"
  | .black_card_2 => "black_card_2"
  | .conduct_violation => "conduct_violation"
  | .referee_decision => "referee_decision"
  | .admin_correction => "admin_correction"
  | .technical_failure => "technical_failure"

def COUNTED : List String := Fighters.COUNTED_FORFEIT_REASONS.map reasonText

def isBlackCardReason (reason : String) : Bool :=
  (Fighters.BLACK_CARD_REASONS.map reasonText).contains reason

variable {υ : Type}

def isLive (forfeit : ForfeitRow υ) : Bool := forfeit.voided_at.isNone

/-- A forfeit the Fighter chose. -/
def isChosen (forfeit : ForfeitRow υ) : Bool :=
  isLive forfeit && forfeit.auto_created != some true && COUNTED.contains forfeit.reason

def isRoot (forfeit : ForfeitRow υ) : Bool := forfeit.parent_forfeit_id.isNone

def madeAt (forfeit : ForfeitRow υ) : String := forfeit.created_at.getD ""

def fighterOf (forfeit : ForfeitRow υ) : υ := forfeit.forfeiting_registration_id

def isLiveBlack (card : PenaltyRow υ) : Bool := card.card = "black" && card.voided != some true

variable [DecidableEq υ]

/-- The Fighters that a live black card or a confirmed review could have put out. -/
def otherCauses (data : Tables υ) : List υ :=
  (data.matchPenalties.filter isLiveBlack).map (·.registration_id) ++
    (data.tournamentPenaltyReviews.filter (·.status = "confirmed")).map (·.registration_id)

/-- A black card forfeit recorded by hand: no live black card of its Fighter is on its bout. -/
def handCardForfeits (data : Tables υ) (forfeit : ForfeitRow υ) : Bool :=
  let carded := (data.matchPenalties.filter isLiveBlack).map fun card =>
    (card.registration_id, card.match_id)
  isLive forfeit && forfeit.auto_created != some true && isBlackCardReason forfeit.reason &&
    !carded.contains (fighterOf forfeit, forfeit.match_id)

def mayCause (data : Tables υ) (forfeit : ForfeitRow υ) : Bool :=
  isChosen forfeit || handCardForfeits data forfeit

def statusOf (data : Tables υ) : OrderedMap υ String :=
  .ofList (data.registrations.map fun row => (row.id, row.status))

variable (localeCompare codeUnitCompare : String → String → Ordering)

/-- A forfeit with its place in the table, by which the source tells two rows apart. -/
def candidatesOf (data : Tables υ) (fighter : υ) : List (ForfeitRow υ × ℕ) :=
  (data.matchForfeits.zipIdx.filter (mayCause data ·.1)).filter (fighterOf ·.1 = fighter)

def latestOf (own : List (ForfeitRow υ × ℕ)) : Option (ForfeitRow υ × ℕ) :=
  (StableSort.sortWith (fun a b => localeCompare (madeAt b.1) (madeAt a.1)) own).head?

def disqualifiedByIt (data : Tables υ) (forfeit : ForfeitRow υ × ℕ) : Bool :=
  let own := candidatesOf data (fighterOf forfeit.1)
  (statusOf data).get? (fighterOf forfeit.1) = some "disqualified" &&
    (latestOf localeCompare own).any (·.2 = forfeit.2) &&
    !(otherCauses data).contains (fighterOf forfeit.1) &&
    (own.filter fun one => isChosen one.1 && isRoot one.1).length < 2

def withdrew (forfeit : ForfeitRow υ) : Bool :=
  isChosen forfeit && isRoot forfeit && forfeit.can_continue = some false

def outcomeOf (data : Tables υ) (forfeit : ForfeitRow υ × ℕ) : Option String :=
  if mayCause data forfeit.1 then
    if disqualifiedByIt localeCompare data forfeit then some "disqualified"
    else if withdrew forfeit.1 then some "withdrawn"
    else none
  else none

def forfeitOutcomes (data : Tables υ) : List (ForfeitRow υ) :=
  data.matchForfeits.zipIdx.map fun forfeit =>
    if forfeit.1.fighter_outcome.isSome then forfeit.1
    else { forfeit.1 with fighter_outcome := some (outcomeOf localeCompare data forfeit) }

/-! ## The Registrations -/

def entryOf (forfeits : List (ForfeitRow υ)) (restoredAt : String) (row : RegistrationRow υ) :
    RegistrationRow υ :=
  if row.entry_status.isSome then row
  else if OUT.contains row.status then
    let own := (forfeits.filter isLive).filter (fighterOf · = row.id)
    let byHand := own.all (·.auto_created = some true)
    let oldestChild := (StableSort.sortWith codeUnitCompare
      ((own.filter (·.auto_created = some true)).map madeAt)).head?
    let latestCause := (StableSort.sortWith codeUnitCompare
      ((own.filter fun forfeit => isRoot forfeit && forfeit.fighter_outcome.join.isSome).map
        madeAt)).getLast?
    { row with
      entry_status :=
        some (some (if row.status = "withdrawn" && byHand then "withdrawn" else "checked_in"))
      out_since := some (some ((oldestChild.or latestCause).getD restoredAt)) }
  else { row with entry_status := some (some row.status), out_since := some none }

def entries (data : Tables υ) (forfeits : List (ForfeitRow υ)) (restoredAt : String) :
    List (RegistrationRow υ) :=
  data.registrations.map (entryOf codeUnitCompare forfeits restoredAt)

/-! ## The reviews -/

omit [DecidableEq υ] in
def emptyPayload : ReviewPayload υ := ⟨none, none, none, none, none, none⟩

omit [DecidableEq υ] in
def answeredReview (review : ReviewRow υ) : ReviewRow υ :=
  let payload := review.payload_json.getD emptyPayload
  if review.status ≠ "confirmed" ∨ payload.answeredPenaltyIds.isSome then review
  else
    { review with
      payload_json := some { payload with
        answeredPenaltyIds := some (payload.penaltyIds.getD []) } }

def withFighterStatusCauses (data : Tables υ) (restoredAt : String) : Tables υ :=
  let matchForfeits := forfeitOutcomes localeCompare data
  { registrations := entries codeUnitCompare data matchForfeits restoredAt
    matchForfeits := matchForfeits
    matchPenalties := data.matchPenalties
    tournamentPenaltyReviews := data.tournamentPenaltyReviews.map answeredReview }

end MyClash.Exports.FighterStatus
