import MyClash.Bracket.DoubleElim
import MyClash.Library.Buckets
import MyClash.Library.Placing
import MyClash.Library.StableSort
import Mathlib.Data.Rat.Defs
import Mathlib.Algebra.Order.Ring.Unbundled.Rat

/-!
# The vocabulary of the final ranking

Who won a bout, and the accumulator that numbers the places. A `Ranking` carries what its
places are as fields, so nothing that pushes can number them wrong or list anyone twice.
-/

namespace MyClash.FinalRanking

open StableSort

structure RankingSlot where
  id : String
  round : ℕ
  position : ℕ
  status : String
  redRegistrationId : Option String
  blueRegistrationId : Option String
  redFighterName : Option String
  blueFighterName : Option String
  redClubAbbrev : Option String
  blueClubAbbrev : Option String
  redScore : Option ℚ
  blueScore : Option ℚ
  winnerRegistrationId : Option String

/-- A pool score is a number, which need not be finite. -/
inductive PoolScore where
  | finite (score : ℚ)
  | nonFinite

structure PoolEntry where
  registrationId : String
  fighterName : String
  clubAbbrev : Option String
  poolScore : Option PoolScore

inductive FinalRankingResultKind where
  | champion
  | runnerUp
  | third
  | fourth
  | round
  | pool
  | swiss

inductive FinalRankingBracketSection where
  | WB
  | LB
  | PLAYIN

structure FinalRankingEntry where
  place : ℕ
  registrationId : String
  fighterName : String
  clubAbbrev : Option String
  poolScore : Option ℚ
  resultKind : FinalRankingResultKind
  eliminationRound : Option ℕ
  bracketSection : Option FinalRankingBracketSection

structure Side where
  registrationId : String
  fighterName : String
  clubAbbrev : Option String

structure WinnerLoser where
  winner : Side
  loser : Side

/-- A text that is there and not empty. -/
def truthy (text : Option String) : Option String := text.filter (· ≠ "")

def side (registrationId fighterName clubAbbrev : Option String) : Option Side :=
  match truthy registrationId, truthy fighterName with
  | some registrationId, some fighterName => some ⟨registrationId, fighterName, clubAbbrev⟩
  | _, _ => none

/-- The recorded winner decides, and the scores only without one: a forfeit may award the
fighter with the lower score. -/
def winnerLoser (slot : RankingSlot) : Option WinnerLoser :=
  if slot.status ≠ "completed" then none
  else
    match side slot.redRegistrationId slot.redFighterName slot.redClubAbbrev,
      side slot.blueRegistrationId slot.blueFighterName slot.blueClubAbbrev with
    | some red, some blue =>
      if slot.winnerRegistrationId = some red.registrationId then some ⟨red, blue⟩
      else if slot.winnerRegistrationId = some blue.registrationId then some ⟨blue, red⟩
      else
        match slot.redScore, slot.blueScore with
        | some redScore, some blueScore =>
          if redScore = blueScore then none
          else if blueScore < redScore then some ⟨red, blue⟩ else some ⟨blue, red⟩
        | _, _ => none
    | _, _ => none

/-- Who beat whom. -/
def resultIds (slot : RankingSlot) : Option (String × String) :=
  (winnerLoser slot).map fun wl => (wl.winner.registrationId, wl.loser.registrationId)

/-- The round and the section a fighter went out in. -/
structure Exit where
  eliminationRound : Option ℕ := none
  bracketSection : Option FinalRankingBracketSection := none

/-- `poolScoreByReg` has the newest score of an id first. -/
structure Ranking where
  entries : List FinalRankingEntry
  poolScoreByReg : List (String × ℚ)
  places : entries.map FinalRankingEntry.place = List.range' 1 entries.length
  nodup : (entries.map FinalRankingEntry.registrationId).Nodup

namespace Ranking

def new (poolEntries : List PoolEntry) : Ranking where
  entries := []
  poolScoreByReg := poolEntries.foldl (fun scores e =>
    match e.poolScore with
    | some (.finite score) => (e.registrationId, score) :: scores
    | _ => scores) []
  places := rfl
  nodup := List.nodup_nil

def poolScoreOf (r : Ranking) (regId : String) : Option ℚ := r.poolScoreByReg.lookup regId

/-- The registrations placed so far, in order. -/
def ids (r : Ranking) : List String := r.entries.map FinalRankingEntry.registrationId

def has (r : Ranking) (regId : String) : Bool := decide (regId ∈ r.ids)

/-- The entry the next place goes to. -/
def nextEntry (r : Ranking) (side : Side) (resultKind : FinalRankingResultKind) (extra : Exit) :
    FinalRankingEntry where
  place := r.entries.length + 1
  registrationId := side.registrationId
  fighterName := side.fighterName
  clubAbbrev := side.clubAbbrev
  poolScore := r.poolScoreOf side.registrationId
  resultKind := resultKind
  eliminationRound := extra.eliminationRound
  bracketSection := extra.bracketSection

def push (r : Ranking) (side : Side) (resultKind : FinalRankingResultKind) (extra : Exit := {}) :
    Ranking :=
  if h : side.registrationId ∈ r.ids then r
  else
    { r with
      entries := r.entries ++ [r.nextEntry side resultKind extra]
      places := by
        rw [List.map_append, r.places, List.length_append, List.length_singleton,
          List.range'_1_concat, Nat.add_comm 1]
        rfl
      nodup := by
        rw [List.map_append]
        exact List.concat_eq_append ▸ List.Nodup.concat h r.nodup }

variable (collate : String → String → Ordering)

/-- Pool score descending, no score last; then the name, as `localeCompare` has it. -/
def byPoolScore (r : Ranking) (a b : Side) : Ordering :=
  match r.poolScoreOf a.registrationId, r.poolScoreOf b.registrationId with
  | some na, some nb => if nb ≠ na then compare nb na else collate a.fighterName b.fighterName
  | some _, none => .lt
  | none, some _ => .gt
  | none, none => collate a.fighterName b.fighterName

/-- The kind of a loser of a round: the places after the runner-up make the podium where
the caller says so. -/
def roundKind (podiumKinds : Bool) (nextPlace : ℕ) : FinalRankingResultKind :=
  if podiumKinds && nextPlace == 3 then .third
  else if podiumKinds && nextPlace == 4 then .fourth
  else .round

def pushRound (r : Ranking) (losers : List Side) (extra : Exit) (podiumKinds : Bool := false) :
    Ranking :=
  (sortWith (r.byPoolScore collate) losers).foldl
    (fun r side => r.push side (roundKind podiumKinds (r.entries.length + 1)) extra) r

end Ranking

/-- The loser of a decided slot, unless placed already. -/
def openLoser (r : Ranking) (slot : RankingSlot) : Option (ℕ × Side) :=
  match winnerLoser slot with
  | some wl => if r.has wl.loser.registrationId then none else some (slot.round, wl.loser)
  | none => none

/-- Losers of every completed slot, keyed by round. -/
def losersByRound (slots : List RankingSlot) (r : Ranking) : List (ℕ × List (ℕ × Side)) :=
  Buckets.collect Prod.fst (slots.filterMap (openLoser r))

def losersOf (byRound : List (ℕ × List (ℕ × Side))) (round : ℕ) : List Side :=
  (Buckets.bucket byRound round).map Prod.snd

/-- The rounds that have losers, the deepest first. -/
def deepestFirst (byRound : List (ℕ × List (ℕ × Side))) : List ℕ :=
  sortWith (fun a b => compare b a) (Buckets.keys byRound)

/-- The loop that places the losers of `slots`, round after round. -/
def Ranking.pushRounds (collate : String → String → Ordering) (r : Ranking)
    (slots : List RankingSlot) (exit : ℕ → Exit) (podiumKinds : Bool := false) : Ranking :=
  let byRound := losersByRound slots r
  (deepestFirst byRound).foldl
    (fun r round => r.pushRound collate (losersOf byRound round) (exit round) podiumKinds) r

end MyClash.FinalRanking
