import Mathlib
import MyClash.MatchStatus
import MyClash.Swiss.Engine

/-!
# Rounds and results in, pairing input out

The rules that turn the stored rows of a Swiss phase into the engine's players, and
the check that a stored round still deals every active entrant exactly once.
-/

namespace MyClash.Swiss

open StableSort

universe u

inductive EndReason where
  | maxDoubles
  | other (text : String)
  deriving DecidableEq

structure SwissMatchRecord (ι : Type u) where
  redRegistrationId : Option ι
  blueRegistrationId : Option ι
  winnerRegistrationId : Option ι
  status : MatchStatus
  endReason : Option EndReason
  deriving DecidableEq

/-- `ranked` is the one key of `pairing_meta_json` the pairing reads back. -/
structure SwissRoundRecord (ι : Type u) where
  roundNumber : ℕ
  byeRegistrationId : Option ι
  ranked : Option (List ι)
  bouts : List (SwissMatchRecord ι)

structure SwissEntrantRecord (ι : Type u) where
  registrationId : ι
  withdrawnAtRound : Option ℕ
  missedRounds : List ℕ
  deriving DecidableEq

structure SwissPoints where
  win : ℚ
  draw : ℚ
  loss : ℚ
  bye : ℚ
  deriving DecidableEq

variable {ι : Type u}

/-- Takes part in the round: not withdrawn by then, and not put back over it. -/
def SwissEntrantRecord.activeAt (nextRoundNumber : ℕ) (e : SwissEntrantRecord ι) : Bool :=
  (match e.withdrawnAtRound with
    | none => true
    | some withdrawn => decide (nextRoundNumber < withdrawn)) &&
  !e.missedRounds.contains nextRoundNumber

def activeEntrants (entrants : List (SwissEntrantRecord ι)) (nextRoundNumber : ℕ) :
    List (SwissEntrantRecord ι) :=
  entrants.filter (·.activeAt nextRoundNumber)

/-- Points for (red, blue) from one completed match. -/
def outcomePoints [DecidableEq ι] (record : SwissMatchRecord ι) (points : SwissPoints) : ℚ × ℚ :=
  if record.endReason = some .maxDoubles then (points.loss, points.loss)
  else if record.winnerRegistrationId = none then (points.draw, points.draw)
  else if record.winnerRegistrationId = record.redRegistrationId then (points.win, points.loss)
  else (points.loss, points.win)

/-- The maps of `accumulate`; an id they do not know keeps the initial value. -/
structure Tally (ι : Type u) where
  total : ι → ℚ
  opponents : ι → List ι
  byes : ι → Bool

section Accumulate

variable [DecidableEq ι]

def Tally.credit (t : Tally ι) (ids : List ι) (id : ι) (points : ℚ) : Tally ι :=
  if id ∈ ids then { t with total := Function.update t.total id (t.total id + points) } else t

def Tally.meet (t : Tally ι) (ids : List ι) (id opponent : ι) : Tally ι :=
  if id ∈ ids then
    { t with opponents := Function.update t.opponents id (t.opponents id ++ [opponent]) }
  else t

def Tally.addBye (t : Tally ι) (ids : List ι) (points : SwissPoints) : Option ι → Tally ι
  | none => t
  | some id =>
    if id ∈ ids then
      { t with byes := Function.update t.byes id true }.credit ids id points.bye
    else t

def Tally.addMatch (ids : List ι) (points : SwissPoints) (t : Tally ι)
    (record : SwissMatchRecord ι) : Tally ι :=
  match record.redRegistrationId, record.blueRegistrationId with
  | some red, some blue =>
    let met := (t.meet ids red blue).meet ids blue red
    if record.status = .completed then
      let earned := outcomePoints record points
      (met.credit ids red earned.1).credit ids blue earned.2
    else met
  | _, _ => t

def Tally.addRound (ids : List ι) (points : SwissPoints) (t : Tally ι)
    (round : SwissRoundRecord ι) : Tally ι :=
  round.bouts.foldl (Tally.addMatch ids points) (t.addBye ids points round.byeRegistrationId)

def accumulate (ids : List ι) (rounds : List (SwissRoundRecord ι)) (points : SwissPoints) :
    Tally ι :=
  rounds.foldl (Tally.addRound ids points) ⟨fun _ => 0, fun _ => [], fun _ => false⟩

/-- `Number.MAX_SAFE_INTEGER`, the place of an id the draw does not list. -/
def maxSafeInteger : ℕ := 2 ^ 53 - 1

/-- A map built from the order: an id listed twice keeps its last place. -/
def seedOf (seedOrder : List ι) (id : ι) : ℕ :=
  ((seedOrder.zipIdx.filter fun p => p.1 = id).getLast?.map (·.2)).getD maxSafeInteger

end Accumulate

section Players

variable [LinearOrder ι]

/-- Swiss points first, then the draw order, then the id. -/
def pairingOrder (total : ι → ℚ) (seedOrder : List ι) : ι → ι → Ordering :=
  compareLex (fun a b => compare (total b) (total a))
    (compareLex (compareOn (seedOf seedOrder)) compare)

def buildSwissPlayers (entrants : List (SwissEntrantRecord ι)) (rounds : List (SwissRoundRecord ι))
    (points : SwissPoints) (seedOrder : List ι) : List (SwissPlayer ι) :=
  let ids := entrants.map (·.registrationId)
  let tally := accumulate ids rounds points
  (sortWith (pairingOrder tally.total seedOrder) ids).mapIdx fun index registrationId =>
    { registrationId
      points := tally.total registrationId
      score := none
      opponentIds := tally.opponents registrationId
      hadBye := tally.byes registrationId
      rank := index + 1 }

structure SwissRoundValidation (ι : Type u) where
  valid : Bool
  duplicated : List ι
  missing : List ι
  unknown : List ι
  deriving DecidableEq

/-- Every id a round names, its bye last. -/
def noted (records : List (SwissMatchRecord ι)) (byeRegistrationId : Option ι) : List ι :=
  (records.flatMap fun m => m.redRegistrationId.toList ++ m.blueRegistrationId.toList) ++
    byeRegistrationId.toList

attribute [local instance] lawfulBEq

def validateSwissRound (activeEntrantIds : List ι) (records : List (SwissMatchRecord ι))
    (byeRegistrationId : Option ι) : SwissRoundValidation ι :=
  let seen := noted records byeRegistrationId
  let duplicated := sortWith compare (seen.dedup.filter fun id => 1 < seen.count id)
  let unknown := sortWith compare (seen.dedup.filter fun id => id ∉ activeEntrantIds)
  let missing := sortWith compare (activeEntrantIds.dedup.filter fun id => id ∉ seen)
  { valid := decide (duplicated.length = 0 ∧ unknown.length = 0 ∧ missing.length = 0)
    duplicated, missing, unknown }

/-- A round is valid exactly when it deals each active entrant once. -/
theorem validateSwissRound_valid_iff {activeEntrantIds : List ι}
    {records : List (SwissMatchRecord ι)} {byeRegistrationId : Option ι} :
    (validateSwissRound activeEntrantIds records byeRegistrationId).valid = true ↔
      (noted records byeRegistrationId).Nodup ∧
        ∀ id, id ∈ noted records byeRegistrationId ↔ id ∈ activeEntrantIds := by
  simp only [validateSwissRound, decide_eq_true_eq, length_sortWith, List.length_eq_zero_iff,
    List.filter_eq_nil_iff, List.mem_dedup, not_not, not_lt]
  constructor
  · rintro ⟨hOnce, hKnown, hDealt⟩
    refine ⟨List.nodup_iff_count_le_one.mpr fun id => ?_, fun id => ⟨fun h => ?_, fun h => ?_⟩⟩
    · by_cases hMem : id ∈ noted records byeRegistrationId
      · simpa using hOnce id hMem
      · simp [List.count_eq_zero_of_not_mem hMem]
    · simpa using hKnown id h
    · simpa using hDealt id h
  · rintro ⟨hNodup, hSame⟩
    refine ⟨fun id _ => ?_, fun id h => ?_, fun id h => ?_⟩
    · simpa using List.nodup_iff_count_le_one.mp hNodup id
    · simpa using (hSame id).mp h
    · simpa using (hSame id).mpr h

end Players

end MyClash.Swiss
