import MyClash.Library.Buckets
import MyClash.Library.StableSort
import MyClash.Schedule.MatchWindow
import MyClash.Schedule.RoundCode

/-!
# Schedule blocks

The schedule board draws one block for each run of scheduled bouts: a Pool, a round read off the
bouts' codes, or a bout on its own. A run fanned across several lices is one block over all of
them, from the earliest start to the latest end of its bouts.
-/

namespace MyClash.Schedule

structure BlockMatchInput (τ : Type*) where
  id : String
  liceId : Option String
  scheduledAt : Option τ
  poolId : Option String
  poolName : Option String
  roundCode : Option (List Char)
  tournamentName : Option String
  tournamentSlug : Option String
  redFighterName : Option String
  blueFighterName : Option String
  durationMinutes : ℕ+
  status : Option String

structure ScheduleBlockMatch (τ : Type*) where
  id : String
  liceId : String
  code : String
  startIso : τ
  durationMinutes : ℕ+
  status : Option String
  redFighterName : Option String
  blueFighterName : Option String

inductive BlockKind where
  | pool
  | bracket
  | other

def BlockKind.text : BlockKind → String
  | .pool => "pool"
  | .bracket => "bracket"
  | .other => "other"

structure ScheduleBlock (τ : Type*) where
  key : String
  liceIds : List String
  label : String
  tournamentName : Option String
  tournamentSlug : Option String
  kind : BlockKind
  startIso : τ
  endIso : τ
  matchCount : ℕ
  bouts : List (ScheduleBlockMatch τ)

variable {τ : Type*}

/-- A bout with its lice and its start. -/
structure PlacedMatch (τ : Type*) where
  row : BlockMatchInput τ
  liceId : String
  scheduledAt : τ

/-- A bout without a lice or a start is in no block. The empty text is no lice. -/
def placed (m : BlockMatchInput τ) : Option (PlacedMatch τ) :=
  match m.liceId.filter (· ≠ ""), m.scheduledAt with
  | some liceId, some scheduledAt => some ⟨m, liceId, scheduledAt⟩
  | _, _ => none

/-- The run of a bout, and its kind. The lice is not part of it. -/
def runKey (m : BlockMatchInput τ) : String × BlockKind :=
  match m.poolId.filter (· ≠ "") with
  | some poolId => ("pool:" ++ poolId, .pool)
  | none =>
    match parseBracketRound m.roundCode with
    | some round =>
      ("round:" ++ m.tournamentName.getD "" ++ "|" ++ String.ofList round.token, .bracket)
    | none => ("solo:" ++ m.id, .other)

def groupKey (m : PlacedMatch τ) : String := (runKey m.row).1 ++ "|" ++ (runKey m.row).2.text

def windowOf (iso : IsoClock τ) (m : PlacedMatch τ) : Referees.TimeWindowMs :=
  matchWindowMs (iso.getTime m.scheduledAt) m.row.durationMinutes

def codeOf (m : BlockMatchInput τ) : String := (m.roundCode.map String.ofList).getD m.id

def blockLabel (kind : BlockKind) (first : BlockMatchInput τ) : String :=
  match kind with
  | .pool => first.poolName.getD "Pool"
  | .bracket => ((parseBracketRound first.roundCode).map (·.label)).getD "Bracket"
  | .other => codeOf first

def blockMatch (m : PlacedMatch τ) : ScheduleBlockMatch τ where
  id := m.row.id
  liceId := m.liceId
  code := codeOf m.row
  startIso := m.scheduledAt
  durationMinutes := m.row.durationMinutes
  status := m.row.status
  redFighterName := m.row.redFighterName
  blueFighterName := m.row.blueFighterName

/-- The distinct lices of a run, in the order of their ids. -/
def distinctLices (sorted : List (PlacedMatch τ)) : List String :=
  StableSort.sortWith compare (sorted.map (·.liceId)).eraseDups

variable [LinearOrder τ]

/-- The bouts of a run by the text of their start. -/
def sortByStart (group : List (PlacedMatch τ)) : List (PlacedMatch τ) :=
  StableSort.sortWith (fun a b => compare a.scheduledAt b.scheduledAt) group

/-- A group holds at least one bout, so that it has a first bout and a hull. -/
def blockOf (iso : IsoClock τ) (key : String) (group : List (PlacedMatch τ)) :
    Option (ScheduleBlock τ) :=
  let sorted := sortByStart group
  group.head?.bind fun m =>
    sorted.head?.bind fun first =>
      (hullMs (sorted.map (windowOf iso))).map fun hull =>
        let kind := (runKey m.row).2
        { key
          liceIds := distinctLices sorted
          label := blockLabel kind first.row
          tournamentName := first.row.tournamentName
          tournamentSlug := first.row.tournamentSlug
          kind
          startIso := iso.toISOString hull.startMs
          endIso := iso.toISOString hull.endMs
          matchCount := sorted.length
          bouts := sorted.map blockMatch }

/-- By the first lice, then by the start. Equal blocks have no order of their own. -/
def compareBlocks (a b : ScheduleBlock τ) : Ordering :=
  let al := a.liceIds.headD ""
  let bl := b.liceIds.headD ""
  if al < bl then .lt
  else if al > bl then .gt
  else if a.startIso < b.startIso then .lt
  else .gt

def buildScheduleBlocks (iso : IsoClock τ) (rows : List (BlockMatchInput τ)) :
    List (ScheduleBlock τ) :=
  let groups := Buckets.collect groupKey (rows.filterMap placed)
  StableSort.sortWith compareBlocks (groups.filterMap fun (key, group) => blockOf iso key group)

end MyClash.Schedule
