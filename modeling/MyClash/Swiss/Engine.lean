import MyClash.Library.Buckets
import MyClash.Swiss.Matching

/-!
# Planning one Swiss round

The field loses its bye, splits into groups, and the groups are closed best first:
each bracket is the group with the fighters floated down to it, and the last one has
to close. `PlanState` is what the loop over the groups carries; the source mutates
the warnings in place, here they travel with it.
-/

namespace MyClash.Swiss

open StableSort

universe u

inductive SwissGrouping where
  | points
  | scoreBands (boundaries : List ℚ)
  deriving DecidableEq

structure SwissPairing (ι : Type u) where
  board : ℕ
  aId : ι
  bId : ι
  rematch : Bool
  deriving DecidableEq

inductive SwissWarningCode where
  | forcedRematch
  | noPerfectMatching
  | singletonBand
  deriving DecidableEq

structure SwissWarning (ι : Type u) where
  code : SwissWarningCode
  registrationIds : List ι

structure SwissRoundPlan (ι : Type u) where
  pairings : List (SwissPairing ι)
  byeRegistrationId : Option ι
  warnings : List (SwissWarning ι)

structure SwissOptions where
  pairingMethod : SwissPairingMethod
  grouping : SwissGrouping

variable {ι : Type u} [LinearOrder ι]

def rankOrder : SwissPlayer ι → SwissPlayer ι → Ordering :=
  compareLex (compareOn (·.rank)) (compareOn (·.registrationId))

def sortByRank (players : List (SwissPlayer ι)) : List (SwissPlayer ι) :=
  sortWith rankOrder players

/-- The bye and the fighters left; `rest` drops the bye by id. -/
def takeBye (field : List (SwissPlayer ι)) : Option (SwissPlayer ι) × List (SwissPlayer ι) :=
  if field.length % 2 = 0 then (none, field)
  else
    match (field.reverse.find? fun p => !p.hadBye).or field.getLast? with
    | none => (none, field)
    | some chosen => (some chosen, field.filter fun p => p.registrationId != chosen.registrationId)

def groupByPoints (players : List (SwissPlayer ι)) : List (List (SwissPlayer ι)) :=
  let byPoints := Buckets.collect (·.points) players
  (sortWith (fun a b => compare b a) (Buckets.keys byPoints)).map fun points =>
    sortByRank (Buckets.bucket byPoints points)

/-- How many edges the score has cleared; no score clears none. -/
def bandIndex (edges : List ℚ) : Option ℚ → ℕ
  | none => 0
  | some score => (edges.takeWhile fun edge => edge ≤ score).length

def bandsOf (players : List (SwissPlayer ι)) (boundaries : List ℚ) :
    List (List (SwissPlayer ι)) :=
  let edges := sortWith compare boundaries.dedup
  let bands := (List.range (edges.length + 1)).map fun index =>
    players.filter fun p => bandIndex edges p.score = index
  bands.reverse.map sortByRank

def groupsOf (grouping : SwissGrouping) (rest : List (SwissPlayer ι)) :
    List (List (SwissPlayer ι)) :=
  match grouping with
  | .scoreBands boundaries => bandsOf rest boundaries
  | .points => groupByPoints rest

def singletonWarnings (grouping : SwissGrouping) (groups : List (List (SwissPlayer ι))) :
    List (SwissWarning ι) :=
  match grouping with
  | .scoreBands _ => groups.filterMap fun group =>
      match group with
      | [p] => some ⟨.singletonBand, [p.registrationId]⟩
      | _ => none
  | .points => []

structure Closed (ι : Type u) where
  indexPairs : List IndexPair
  floated : List (SwissPlayer ι)
  budget : SearchBudget
  warnings : List (SwissWarning ι)

/-- The largest even prefix that pairs cleanly, `2 * half` being the next size tried. -/
def closePrefix (bracket : List (SwissPlayer ι)) (method : SwissPairingMethod) :
    ℕ → SearchBudget → Closed ι
  | 0, budget => ⟨[], bracket, budget, []⟩
  | half + 1, budget =>
    match searchMatching (haveMetLookup bracket) method (2 * (half + 1)) budget with
    | (some solved, budget') => ⟨solved, bracket.drop (2 * (half + 1)), budget', []⟩
    | (none, budget') => closePrefix bracket method half budget'

def closeBracket (bracket : List (SwissPlayer ι)) (method : SwissPairingMethod) (isLast : Bool)
    (budget : SearchBudget) : Closed ι :=
  if isLast then
    if bracket.length = 0 then ⟨[], [], budget, []⟩
    else
      match searchMatching (haveMetLookup bracket) method bracket.length budget with
      | (some solved, budget') => ⟨solved, [], budget', []⟩
      | (none, budget') =>
        ⟨idealPairs bracket.length method, [], budget',
          [⟨.noPerfectMatching, bracket.map (·.registrationId)⟩]⟩
  else closePrefix bracket method (bracket.length / 2) budget

def toPairing (a b : SwissPlayer ι) (boardIndex : ℕ) (rematch : Bool) : SwissPairing ι :=
  ⟨boardIndex + 1, a.registrationId, b.registrationId, rematch⟩

/-- The warning `toPairing` adds for its pairing. -/
def rematchWarning (p : SwissPairing ι) : Option (SwissWarning ι) :=
  if p.rematch then some ⟨.forcedRematch, [p.aId, p.bId]⟩ else none

/-- The pairings of one closed bracket, their boards counted on from `paired`. -/
def toPairings (bracket : List (SwissPlayer ι)) : ℕ → List IndexPair → List (SwissPairing ι)
  | _, [] => []
  | paired, (x, y) :: indexPairs =>
    match bracket[x]?, bracket[y]? with
    | some a, some b =>
      toPairing a b paired (haveMetLookup bracket x y) :: toPairings bracket (paired + 1) indexPairs
    | _, _ => toPairings bracket (paired + 1) indexPairs

structure PlanState (ι : Type u) where
  pairings : List (SwissPairing ι)
  carried : List (SwissPlayer ι)
  budget : SearchBudget
  warnings : List (SwissWarning ι)

def pairGroup (method : SwissPairingMethod) (isLast : Bool) (group : List (SwissPlayer ι))
    (s : PlanState ι) : PlanState ι :=
  let bracket := sortByRank (s.carried ++ group)
  let closed := closeBracket bracket method isLast s.budget
  let added := toPairings bracket s.pairings.length closed.indexPairs
  { pairings := s.pairings ++ added
    carried := closed.floated
    budget := closed.budget
    warnings := s.warnings ++ closed.warnings ++ added.filterMap rematchWarning }

def pairGroups (method : SwissPairingMethod) :
    List (List (SwissPlayer ι)) → PlanState ι → PlanState ι
  | [], s => s
  | group :: groups, s => pairGroups method groups (pairGroup method groups.isEmpty group s)

/-- The state the loop over the groups ends in, the search budget with it. -/
def planState (players : List (SwissPlayer ι)) (opts : SwissOptions) : PlanState ι :=
  let groups := groupsOf opts.grouping (takeBye (sortByRank players)).2
  pairGroups opts.pairingMethod groups
    ⟨[], [], newBudget, singletonWarnings opts.grouping groups⟩

def planSwissRound (players : List (SwissPlayer ι)) (opts : SwissOptions) : SwissRoundPlan ι :=
  if (sortByRank players).length = 0 then ⟨[], none, []⟩
  else
    { pairings := (planState players opts).pairings
      byeRegistrationId := (takeBye (sortByRank players)).1.map (·.registrationId)
      warnings := (planState players opts).warnings }

end MyClash.Swiss
