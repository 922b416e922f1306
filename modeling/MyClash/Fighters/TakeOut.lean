import MyClash.Fighters.Status
import MyClash.Library.CutShort
import MyClash.MatchStatus

/-!
# The bouts of a Fighter who is out

`takeOut` forfeits their scheduled and paused Pool and Swiss bouts: a record, the bout completed,
its clock ended, and the result stamped on the record. No transaction holds these writes together.
`putBack` takes one such record back.
-/

namespace MyClash.Fighters

open StableSort CutShort

universe u v

/-! ## The rows -/

inductive EndReason where
  | forfeit
  | black_card
  | override
  | fought (how : String)
  deriving DecidableEq

/-- The six columns of a bout that a forfeit changes. -/
structure MatchSnapshot (υ : Type u) (τ : Type v) where
  status : MatchStatus
  red_score : ℤ
  blue_score : ℤ
  winner_registration_id : Option υ
  ended_at : Option τ
  end_reason : Option EndReason
  deriving DecidableEq

structure Bout (υ : Type u) (τ : Type v) extends MatchSnapshot υ τ where
  phase_id : υ
  swiss_round_id : Option υ
  red_registration_id : Option υ
  blue_registration_id : Option υ
  deriving DecidableEq

inductive ScorePolicy where
  | keep_current
  | fixed_loss
  | draw
  | explicit
  deriving DecidableEq

/-- A row of `match_forfeits`; `none` for a result not stamped yet. -/
structure ForfeitRecord (υ : Type u) (τ : Type v) extends MatchForfeit υ τ where
  winner_registration_id : Option υ
  score_policy : ScorePolicy
  forfeiting_score : ℤ
  opponent_score : ℤ
  can_continue : Bool
  previous_match_state : MatchSnapshot υ τ
  resulting_match_state : Option (MatchSnapshot υ τ)
  deriving DecidableEq

/-- A voided record, as far as the bouts put back by hand are read from it. -/
structure VoidedForfeit (υ : Type u) (τ : Type v) where
  match_id : υ
  tournament_id : υ
  forfeiting_registration_id : υ
  auto_created : Bool
  voided_by_return : Bool
  voided_at : τ

inductive PhaseType where
  | pool
  | swiss
  | bracket

/-- `finalized` and `roundCount` are keys of `config_json`. -/
structure PhaseRow (υ : Type u) where
  id : υ
  tournament_id : υ
  type : PhaseType
  finalized : Bool
  roundCount : Option ℕ

structure SwissRoundRow (υ : Type u) where
  id : υ
  phase_id : υ
  round_number : ℕ

/-- What no write of `takeOut` touches, and the ids of the bouts as a read returns them. -/
structure Tournament (υ : Type u) (τ : Type v) where
  tables : Tables υ τ
  match_ids : List υ
  match_key : match_ids.Nodup
  voided : List (VoidedForfeit υ τ)
  phases : List (PhaseRow υ)
  swiss_rounds : List (SwissRoundRow υ)

/-- The bouts by their id, and the one live record a bout can hold
(`match_forfeits_one_active_per_match`). -/
structure BoutRows (υ : Type u) (τ : Type v) where
  bout : υ → Option (Bout υ τ)
  live : υ → Option (ForfeitRecord υ τ)

structure Fighter (υ : Type u) (τ : Type v) extends Registration υ where
  status : Status
  outSince : τ

/-! ## The rules -/

structure ForfeitReasonRule where
  outcome : { policy : ScorePolicy // policy ≠ .explicit }
  opponentScore : ℤ

structure ForfeitRules extends ForfeitRulesInForce where
  injury : ForfeitReasonRule
  voluntary : ForfeitReasonRule
  conduct_violation : ForfeitReasonRule
  blackCardOpponentScore : ℤ

structure ForfeitOutcome where
  scorePolicy : ScorePolicy
  lossScore : ℤ
  opponentScore : ℤ

def OVERRIDE_OUTCOME : ForfeitOutcome := ⟨.explicit, 0, 0⟩

def ForfeitReasonRule.applied (rule : ForfeitReasonRule) (poolOrSwiss : Bool) : ForfeitOutcome where
  scorePolicy :=
    if rule.outcome.1 = .draw ∧ poolOrSwiss = false then .fixed_loss else rule.outcome.1
  lossScore := 0
  opponentScore := rule.opponentScore

def forfeitOutcomeOf (rules : ForfeitRules) (reason : ForfeitReason) (poolOrSwiss : Bool) :
    ForfeitOutcome :=
  match reason with
  | .referee_decision | .admin_correction | .technical_failure => OVERRIDE_OUTCOME
  | .black_card_1 | .black_card_2 => ⟨.fixed_loss, 0, rules.blackCardOpponentScore⟩
  | .injury => rules.injury.applied poolOrSwiss
  | .voluntary => rules.voluntary.applied poolOrSwiss
  | .conduct_violation => rules.conduct_violation.applied poolOrSwiss

def forfeitEndReason (reason : ForfeitReason) : EndReason :=
  match reason with
  | .referee_decision | .admin_correction | .technical_failure => .override
  | .black_card_1 | .black_card_2 => .black_card
  | .injury | .voluntary | .conduct_violation => .forfeit

section Bouts

variable {υ : Type u} {τ : Type v} [DecidableEq υ]

/-- Nobody on a draw. -/
def winnerOf (bout : Bout υ τ) (forfeiting : υ) (policy : ForfeitOutcome) : Option υ :=
  if policy.scorePolicy = .draw then none
  else if some forfeiting = bout.red_registration_id then bout.blue_registration_id
  else bout.red_registration_id

structure Scores where
  redScore : ℤ
  blueScore : ℤ
  forfeitingScore : ℤ
  opponentScore : ℤ

/-- `none` where an override states no scores: the source throws. -/
def resolveScores (bout : Bout υ τ) (forfeiting : υ) (policy : ForfeitOutcome) : Option Scores :=
  let redForfeits := decide (some forfeiting = bout.red_registration_id)
  match policy.scorePolicy with
  | .explicit => none
  | .draw => some ⟨0, 0, 0, 0⟩
  | .keep_current => some
      { redScore := bout.red_score
        blueScore := bout.blue_score
        forfeitingScore := if redForfeits then bout.red_score else bout.blue_score
        opponentScore := if redForfeits then bout.blue_score else bout.red_score }
  | .fixed_loss => some
      { redScore := if redForfeits then policy.lossScore else policy.opponentScore
        blueScore := if redForfeits then policy.opponentScore else policy.lossScore
        forfeitingScore := policy.lossScore
        opponentScore := policy.opponentScore }

end Bouts

/-! ## The bouts to take out -/

section Read

variable {υ : Type u} {τ : Type v} [DecidableEq υ] (t : Tournament υ τ) (s : BoutRows υ τ)

/-- The `matches` rows, each with its id. -/
def matchRows : List (υ × Bout υ τ) := t.match_ids.filterMap fun id => (s.bout id).map (id, ·)

def lastRoundOf (phase : υ) : Option (SwissRoundRow υ) :=
  let rounds := t.swiss_rounds.filter fun r => decide (r.phase_id = phase)
  rounds.find? fun r => rounds.all fun other => decide (other.round_number ≤ r.round_number)

/-- Finalised, or its last configured round paired and fought. A round with no bout is not. -/
def swiss_phase_over (phase : PhaseRow υ) : Bool :=
  phase.finalized ||
    match phase.roundCount, lastRoundOf t phase.id with
    | some roundCount, some last =>
      let bouts := (matchRows t s).filter fun row => decide (row.2.swiss_round_id = some last.id)
      decide (roundCount ≤ last.round_number) && !bouts.isEmpty &&
        bouts.all fun row => decide (row.2.status = .completed)
    | _, _ => false

def phasesToTakeOutOf (tournament : υ) : List υ :=
  (t.phases.filter fun phase => decide (phase.tournament_id = tournament) &&
    match phase.type with
    | .pool => true
    | .swiss => !swiss_phase_over t s phase
    | .bracket => false).map (·.id)

def UNFOUGHT_STATUSES : List MatchStatus := [.scheduled, .paused]

def Bout.has (bout : Bout υ τ) (fighter : υ) : Bool :=
  decide (bout.red_registration_id = some fighter) ||
    decide (bout.blue_registration_id = some fighter)

def unfoughtBoutsOf (fighter : Registration υ) : List (υ × Bout υ τ) :=
  let phases := phasesToTakeOutOf t s fighter.tournament_id
  (matchRows t s).filter fun row => decide (row.2.phase_id ∈ phases) &&
    decide (row.2.status ∈ UNFOUGHT_STATUSES) && row.2.has fighter.id

/-- The bouts of which the organiser voided the forfeit during the spell. -/
def putBackByHand [LinearOrder τ] (fighter : Fighter υ τ) : List υ :=
  (t.voided.filter fun f => decide (f.tournament_id = fighter.tournament_id) &&
    decide (f.forfeiting_registration_id = fighter.id) && f.auto_created &&
      !f.voided_by_return && decide (fighter.outSince ≤ f.voided_at)).map (·.match_id)

def boutsToTakeOut [LinearOrder τ] (fighter : Fighter υ τ) : List (υ × Bout υ τ) :=
  (unfoughtBoutsOf t s fighter.toRegistration).filter fun row =>
    decide (row.1 ∉ putBackByHand t fighter)

/-- Oldest first. -/
def liveForfeitsOf [LinearOrder τ] (fighter : Registration υ) : List (MatchForfeit υ τ) :=
  sortWith (fun f g => compare f.created_at g.created_at) <|
    ((t.match_ids.filterMap s.live).map (·.toMatchForfeit)).filter fun f =>
      decide (f.tournament_id = fighter.tournament_id) &&
        decide (f.forfeiting_registration_id = fighter.id) && f.voided_at.isNone

end Read

/-! ## The writes -/

/-- What `completeMatch` writes on a bout. -/
structure CompletedBy (υ : Type u) (τ : Type v) where
  winnerRegistrationId : Option υ
  redScore : ℤ
  blueScore : ℤ
  endReason : EndReason
  endedAt : τ
  deriving DecidableEq

inductive TakeOutWrite (υ : Type u) (τ : Type v) where
  | insertForfeit (matchId : υ) (record : ForfeitRecord υ τ)
  | completeMatch (matchId : υ) (result : CompletedBy υ τ)
  /-- A row of the bout's timeline: no column kept here. -/
  | endClock (matchId : υ)
  | stampResultingState (forfeitId matchId : υ)
  deriving DecidableEq

section Writes

variable {υ : Type u} {τ : Type v}

def CompletedBy.snapshot (result : CompletedBy υ τ) : MatchSnapshot υ τ where
  status := .completed
  red_score := result.redScore
  blue_score := result.blueScore
  winner_registration_id := result.winnerRegistrationId
  ended_at := some result.endedAt
  end_reason := some result.endReason

def Bout.completed (bout : Bout υ τ) (result : CompletedBy υ τ) : Bout υ τ :=
  { bout with toMatchSnapshot := result.snapshot }

def ForfeitRecord.stamped (record : ForfeitRecord υ τ) (bout : Bout υ τ) : ForfeitRecord υ τ :=
  { record with resulting_match_state := some bout.toMatchSnapshot }

variable [DecidableEq υ]

/-- An update is of the row with that id, a stamp of the record with that id; a bout that is gone
stamps nothing. -/
def TakeOutWrite.run : TakeOutWrite υ τ → BoutRows υ τ → BoutRows υ τ
  | .insertForfeit matchId record, s =>
    { s with live := Function.update s.live matchId (some record) }
  | .completeMatch matchId result, s =>
    { s with bout := Function.update s.bout matchId ((s.bout matchId).map (·.completed result)) }
  | .endClock _, s => s
  | .stampResultingState forfeitId matchId, s =>
    match s.bout matchId with
    | none => s
    | some bout =>
      { s with
        live := Function.update s.live matchId ((s.live matchId).map fun record =>
          if record.id = forfeitId then record.stamped bout else record) }

end Writes

/-! ## Out -/

/-- What the clock and the generator of ids give a call for each bout. -/
structure Given (υ : Type u) (τ : Type v) where
  newId : υ → υ
  createdAt : υ → τ
  endedAt : υ → τ

section TakeOut

variable {υ : Type u} {τ : Type v} [DecidableEq υ] [LinearOrder τ]
variable (t : Tournament υ τ) (rules : ForfeitRules) (given : Given υ τ) (fighter : Fighter υ τ)

def completeWrites (forfeitId matchId : υ) (result : CompletedBy υ τ) :
    List (TakeOutWrite υ τ) :=
  [.completeMatch matchId result, .endClock matchId, .stampResultingState forfeitId matchId]

def takeOutRecord (cause : Cause υ) (policy : ForfeitOutcome) (scores : Scores) (matchId : υ)
    (bout : Bout υ τ) : ForfeitRecord υ τ where
  id := given.newId matchId
  tournament_id := fighter.tournament_id
  forfeiting_registration_id := fighter.id
  reason := cause.reason
  fighter_outcome := none
  parent_forfeit_id := cause.parentForfeitId
  auto_created := true
  under_out_status := false
  voided_at := none
  created_at := given.createdAt matchId
  winner_registration_id := winnerOf bout fighter.id policy
  score_policy := policy.scorePolicy
  forfeiting_score := scores.forfeitingScore
  opponent_score := scores.opponentScore
  can_continue := false
  previous_match_state := bout.toMatchSnapshot
  resulting_match_state := none

def takeOutResult (cause : Cause υ) (policy : ForfeitOutcome) (scores : Scores) (matchId : υ)
    (bout : Bout υ τ) : CompletedBy υ τ where
  winnerRegistrationId := winnerOf bout fighter.id policy
  redScore := scores.redScore
  blueScore := scores.blueScore
  endReason := forfeitEndReason cause.reason
  endedAt := given.endedAt matchId

/-- The result of the record that holds the bout already. -/
def heldResult (held : ForfeitRecord υ τ) (matchId : υ) (bout : Bout υ τ) :
    CompletedBy υ τ where
  winnerRegistrationId := held.winner_registration_id
  redScore :=
    if bout.red_registration_id = some fighter.id then held.forfeiting_score
    else held.opponent_score
  blueScore :=
    if bout.red_registration_id = some fighter.id then held.opponent_score
    else held.forfeiting_score
  endReason := forfeitEndReason held.reason
  endedAt := given.endedAt matchId

/-- A record a reconcile cut short wrote is finished; anyone else's is left. -/
def finishHeldBout (held : ForfeitRecord υ τ) (matchId : υ) (bout : Bout υ τ) :
    List (TakeOutWrite υ τ) :=
  if held.forfeiting_registration_id ≠ fighter.id ∨ held.auto_created = false then []
  else completeWrites held.id matchId (heldResult given fighter held matchId bout)

/-- The insert is refused where the bout holds a live record. -/
def forfeitBout (s : BoutRows υ τ) (cause : Cause υ) (policy : ForfeitOutcome) (scores : Scores)
    (matchId : υ) (bout : Bout υ τ) : List (TakeOutWrite υ τ) :=
  match s.live matchId with
  | some held => finishHeldBout given fighter held matchId bout
  | none =>
    .insertForfeit matchId (takeOutRecord given fighter cause policy scores matchId bout) ::
      completeWrites (given.newId matchId) matchId
        (takeOutResult given fighter cause policy scores matchId bout)

inductive TakeOutRefusal where
  | overrideWithoutScores

def causeOfNow (s : BoutRows υ τ) : Cause υ :=
  causeOf t.tables fighter.toRegistration rules.toForfeitRulesInForce fighter.status
    (liveForfeitsOf t s fighter.toRegistration)

/-- The writes on one bout. No other bout's writes touch what it reads. -/
def boutWrites (s : BoutRows υ τ) (cause : Cause υ) (row : υ × Bout υ τ) :
    List (TakeOutWrite υ τ) :=
  let policy := forfeitOutcomeOf rules cause.reason true
  match resolveScores row.2 fighter.id policy with
  | none => []
  | some scores => forfeitBout given fighter s cause policy scores row.1 row.2

/-- An override as the cause ends the call at the first bout. -/
def takeOut (s : BoutRows υ τ) : Sent (TakeOutWrite υ τ) TakeOutRefusal :=
  let bouts := boutsToTakeOut t s fighter
  let cause := causeOfNow t rules fighter s
  ⟨bouts.flatMap (boutWrites rules given fighter s cause),
    if bouts = [] ∨ (forfeitOutcomeOf rules cause.reason true).scorePolicy ≠ .explicit then none
    else some .overrideWithoutScores⟩

/-- One call that is not cut short. -/
def takenOut (s : BoutRows υ τ) : BoutRows υ τ :=
  (takeOut t rules given fighter s).done TakeOutWrite.run s

/-- The call was cut short after these writes, and comes to its end when it is made again. -/
def takenOutAgain (s : BoutRows υ τ) (before : List (TakeOutWrite υ τ)) : BoutRows υ τ :=
  takenOut t rules given fighter (runAll TakeOutWrite.run before s)

end TakeOut

/-! ## A record taken back -/

section PutBack

variable {υ : Type u} {τ : Type v} [DecidableEq υ]

/-- `RESULT_DECISION_KEYS`: all but the time it ended. -/
def MatchSnapshot.sameResult (a b : MatchSnapshot υ τ) : Bool :=
  decide (a.status = b.status) && decide (a.winner_registration_id = b.winner_registration_id) &&
    decide (a.red_score = b.red_score) && decide (a.blue_score = b.blue_score) &&
      decide (a.end_reason = b.end_reason)

/-- `none` where there is nothing to compare. -/
def recordedResultDiverged (record : ForfeitRecord υ τ) (bout : Option (Bout υ τ)) :
    Option Bool :=
  match record.resulting_match_state, bout with
  | some recorded, some bout => some !bout.toMatchSnapshot.sameResult recorded
  | _, _ => none

/-- `liveMatchIds` -/
def Bout.inPlay (bout : Bout υ τ) : Bool := decide (bout.status ∈ [.running, .paused])

def ForfeitRecord.restored (record : ForfeitRecord υ τ) (bout : Option (Bout υ τ)) : Bool :=
  !bout.any (·.inPlay) && decide (recordedResultDiverged record bout ≠ some true)

/-- The bout after its record is voided by a return. -/
def putBack (record : ForfeitRecord υ τ) (bout : Option (Bout υ τ)) : Option (Bout υ τ) :=
  if record.restored bout then
    bout.map fun bout => { bout with toMatchSnapshot := record.previous_match_state }
  else bout

end PutBack

end MyClash.Fighters
