import Mathlib.Order.MinMax
import MyClash.Penalties.BlackCardReview
import MyClash.Penalties.RulesetVersions

/-!
# The status a Fighter has, and the cause that puts them out

The database owns the rule for the status; the cause the bouts are forfeited for is read again
from the same rows by the API. Both read the live rows of one Fighter in one Tournament.
-/

namespace MyClash.Fighters

open StableSort Penalties

universe u v

/-! ## The rows -/

inductive ForfeitReason where
  | injury
  | voluntary
  | black_card_1
  | black_card_2
  | conduct_violation
  | referee_decision
  | admin_correction
  | technical_failure
  deriving DecidableEq

def FORFEIT_REASONS : List ForfeitReason :=
  [.injury, .voluntary, .black_card_1, .black_card_2, .conduct_violation]

def BLACK_CARD_REASONS : List ForfeitReason := [.black_card_1, .black_card_2]

def isBlackCardReason (reason : ForfeitReason) : Bool := decide (reason ∈ BLACK_CARD_REASONS)

/-- The forfeits the Fighter chose. -/
def COUNTED_FORFEIT_REASONS : List ForfeitReason :=
  FORFEIT_REASONS.filter fun reason => !isBlackCardReason reason

/-- What a forfeit did to its Fighter. -/
inductive FighterOutcome where
  | withdrawn
  | disqualified
  deriving DecidableEq

structure MatchForfeit (υ : Type u) (τ : Type v) where
  id : υ
  tournament_id : υ
  forfeiting_registration_id : υ
  reason : ForfeitReason
  fighter_outcome : Option FighterOutcome
  parent_forfeit_id : Option υ
  auto_created : Bool
  under_out_status : Bool
  voided_at : Option τ
  created_at : τ
  deriving DecidableEq

inductive Card where
  | yellow
  | red
  | black
  deriving DecidableEq

structure MatchPenalty (υ : Type u) (τ : Type v) where
  id : υ
  tournament_id : υ
  registration_id : υ
  card : Card
  voided : Bool
  recorded_at : τ

inductive ReviewType where
  | second_black_card
  deriving DecidableEq

structure PenaltyReview (υ : Type u) (τ : Type v) extends ReviewNext υ where
  tournament_id : υ
  registration_id : υ
  review_type : ReviewType
  reviewed_at : Option τ

/-- The tables both readers query, with their keys. -/
structure Tables (υ : Type u) (τ : Type v) where
  match_forfeits : List (MatchForfeit υ τ)
  match_penalties : List (MatchPenalty υ τ)
  tournament_penalty_reviews : List (PenaltyReview υ τ)
  penalty_key : (match_penalties.map (·.id)).Nodup
  review_key : (tournament_penalty_reviews.map fun r =>
    (r.tournament_id, r.registration_id, r.review_type)).Nodup

structure Registration (υ : Type u) where
  id : υ
  tournament_id : υ

/-- The organiser's hand: `registrations.entry_status`. -/
inductive EntryStatus where
  | registered
  | checked_in
  | withdrawn
  | waitlist

/-- `registrations.status`. -/
inductive Status where
  | registered
  | checked_in
  | withdrawn
  | waitlist
  | disqualified
  deriving DecidableEq

def EntryStatus.status : EntryStatus → Status
  | .registered => .registered
  | .checked_in => .checked_in
  | .withdrawn => .withdrawn
  | .waitlist => .waitlist

/-! ## The rules in force -/

structure ForfeitRulesInForce where
  /-- `none` is `'off'`. -/
  disqualifyAfter : Option { n : ℕ // 1 ≤ n ∧ n ≤ 10 }
  firstBlackCard : BlackCardEffect
  secondBlackCard : BlackCardEffect

def blackCardEffectOf (rules : ForfeitRulesInForce) (reason : ForfeitReason) : BlackCardEffect :=
  if reason = .black_card_2 then rules.secondBlackCard else rules.firstBlackCard

/-- What the database reads of the rules. -/
structure SettleRules where
  disqualifyAfter : Option ℕ
  firstCardOut : Bool
  secondCardOut : Bool
  countedReasons : List ForfeitReason

def settleRules (rules : ForfeitRulesInForce) : SettleRules where
  disqualifyAfter := rules.disqualifyAfter.map (·.1)
  firstCardOut := blackCardEffectOf rules .black_card_1 = .tournament
  secondCardOut := blackCardEffectOf rules .black_card_2 = .tournament
  countedReasons := COUNTED_FORFEIT_REASONS

variable {υ : Type u} {τ : Type v}

/-- `row_number() over (order by at, id)`, each row with its number. -/
def rowNumber {α : Type*} [LinearOrder υ] [LinearOrder τ] (time : α → τ) (id : α → υ)
    (rows : List α) : List (α × ℕ) :=
  (sortWith (compareLex (compareOn time) (compareOn id)) rows).zipIdx 1

/-! ## The status, as the database decides it -/

/-- A cause that holds, and its time. -/
structure Arm (τ : Type v) where
  status : FighterOutcome
  crossed : Option τ

structure StatusUnder (τ : Type v) where
  status : Status
  crossed_at : Option τ

section Database

variable [LinearOrder υ] [LinearOrder τ] (db : Tables υ τ) (reg : Registration υ)
  (p_rules : SettleRules)

def liveForfeits : List (MatchForfeit υ τ) :=
  db.match_forfeits.filter fun f => decide (f.tournament_id = reg.tournament_id ∧
    f.forfeiting_registration_id = reg.id ∧ f.voided_at = none)

/-- The forfeits "disqualify after" counts, in order, with their numbers. -/
def counted : List (MatchForfeit υ τ × ℕ) :=
  rowNumber (·.created_at) (·.id) <| (liveForfeits db reg).filter fun f =>
    decide (f.parent_forfeit_id = none ∧ f.auto_created = false ∧ f.under_out_status = false ∧
      f.reason ∈ p_rules.countedReasons)

def blackCards : List (MatchPenalty υ τ) :=
  db.match_penalties.filter fun p => decide (p.tournament_id = reg.tournament_id ∧
    p.registration_id = reg.id ∧ p.card = .black ∧ p.voided = false)

def cards : List (MatchPenalty υ τ × ℕ) :=
  rowNumber (·.recorded_at) (·.id) (blackCards db reg)

def forfeitArms : List (Arm τ) :=
  (liveForfeits db reg).filterMap fun f => f.fighter_outcome.map fun outcome =>
    ⟨outcome, some f.created_at⟩

def countedArms : List (Arm τ) :=
  ((counted db reg p_rules).filter fun c => decide (some c.2 = p_rules.disqualifyAfter)).map
    fun c => ⟨.disqualified, some c.1.created_at⟩

/-- The black card of a number, when the rules say it puts out. -/
def cardArms (n : ℕ) (out : Bool) : List (Arm τ) :=
  ((cards db reg).filter fun k => decide (k.2 = n) && out).map
    fun k => ⟨.disqualified, some k.1.recorded_at⟩

/-- A confirmed review stands while two of the cards it answered are live. -/
def reviewArms : List (Arm τ) :=
  (db.tournament_penalty_reviews.filter fun r =>
    decide (r.tournament_id = reg.tournament_id ∧ r.registration_id = reg.id ∧
      r.review_type = .second_black_card ∧ r.status = .confirmed ∧
      2 ≤ (cards db reg).countP fun k =>
        decide (k.1.id ∈ idsOf r.payload_json.answeredPenaltyIds))).map
    fun r => ⟨.disqualified, r.reviewed_at⟩

def arms : List (Arm τ) :=
  forfeitArms db reg ++ countedArms db reg p_rules ++ cardArms db reg 1 p_rules.firstCardOut ++
    cardArms db reg 2 p_rules.secondCardOut ++ reviewArms db reg

def fighter_status_under (p_entry : EntryStatus) : StatusUnder τ where
  status :=
    if (arms db reg p_rules).any (·.status = .disqualified) then .disqualified
    else if (arms db reg p_rules).any (·.status = .withdrawn) then .withdrawn
    else p_entry.status
  crossed_at := ((arms db reg p_rules).filterMap (·.crossed)).min?

end Database

/-! ## The cause, as the API reads it -/

/-- The reason the bouts are forfeited for, and the record they hang off. -/
structure Cause (υ : Type u) where
  reason : ForfeitReason
  parentForfeitId : Option υ

def fromForfeit (f : MatchForfeit υ τ) : Cause υ where
  reason := f.reason
  parentForfeitId := some (f.parent_forfeit_id.getD f.id)

def byCard (reason : ForfeitReason) : Cause υ := ⟨reason, none⟩

def ownOutcome (forfeits : List (MatchForfeit υ τ)) (outcome : FighterOutcome) :
    Option (MatchForfeit υ τ) :=
  forfeits.find? fun f => decide (f.fighter_outcome = some outcome)

def countedForfeits (forfeits : List (MatchForfeit υ τ)) : List (MatchForfeit υ τ) :=
  forfeits.filter fun f => !f.auto_created && f.parent_forfeit_id.isNone &&
    !f.under_out_status && decide (f.reason ∈ COUNTED_FORFEIT_REASONS)

section Api

variable [DecidableEq υ] (db : Tables υ τ) (fighter : Registration υ) (rules : ForfeitRulesInForce)

/-- The live forfeits of the Fighter as the read returns them: oldest first, those of one moment
in any order. -/
structure LiveForfeitsOf [LE τ] (forfeits : List (MatchForfeit υ τ)) : Prop where
  rows : forfeits.Perm (db.match_forfeits.filter fun f =>
    decide (f.tournament_id = fighter.tournament_id) &&
      decide (f.forfeiting_registration_id = fighter.id) && f.voided_at.isNone)
  oldest_first : forfeits.Pairwise fun f g => f.created_at ≤ g.created_at

def cardCause : Option (Cause υ) :=
  let cards := (db.match_penalties.filter fun p => decide (p.tournament_id = fighter.tournament_id)
    && decide (p.registration_id = fighter.id) && decide (p.card = .black) && !p.voided).map (·.id)
  if 1 ≤ cards.length ∧ blackCardEffectOf rules .black_card_1 = .tournament then
    some (byCard .black_card_1)
  else if 2 ≤ cards.length ∧ blackCardEffectOf rules .black_card_2 = .tournament then
    some (byCard .black_card_2)
  else
    let review := db.tournament_penalty_reviews.find? fun r =>
      decide (r.tournament_id = fighter.tournament_id) && decide (r.registration_id = fighter.id) &&
        decide (r.review_type = .second_black_card)
    let answered := (review.bind (·.payload_json.answeredPenaltyIds)).getD []
    if review.map (·.status) = some .confirmed ∧ 2 ≤ answered.countP (decide <| · ∈ cards) then
      some (byCard .black_card_2)
    else none

/-- The branch a disqualified Fighter takes. -/
def disqualifiedCause (forfeits : List (MatchForfeit υ τ)) : Option (Cause υ) :=
  match ownOutcome forfeits .disqualified with
  | some disqualifying => some (fromForfeit disqualifying)
  | none =>
    match cardCause db fighter rules with
    | some byCards => some byCards
    | none =>
      let counted := countedForfeits forfeits
      match rules.disqualifyAfter with
      | none => none
      | some after =>
        if after.1 ≤ counted.length then (counted[after.1 - 1]?).map fromForfeit else none

def causeOf (status : Status) (forfeits : List (MatchForfeit υ τ)) : Cause υ :=
  match if status = .disqualified then disqualifiedCause db fighter rules forfeits else none with
  | some cause => cause
  | none =>
    match ownOutcome forfeits .withdrawn with
    | some withdrawing => fromForfeit withdrawing
    | none => ⟨.voluntary, none⟩

end Api

end MyClash.Fighters
