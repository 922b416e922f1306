import MyClash.Swiss.Snapshot

/-!
# Swapping two fighters of a Swiss round

The stored rows of one phase, the picture an override loads from them, and the writes a swap
sends back one after another.
-/

namespace MyClash.Swiss.Override

universe u

/-! ## The rows -/

inductive RoundStatus where
  | pending
  | running
  | completed
  deriving DecidableEq

inductive Side where
  | red
  | blue
  deriving DecidableEq

def Side.other : Side → Side
  | .red => .blue
  | .blue => .red

structure MatchRow (ι : Type u) where
  id : ι
  status : MatchStatus
  red_registration_id : Option ι
  blue_registration_id : Option ι
  deriving DecidableEq

inductive WarningCode where
  | createsRematch
  | repeatBye
  | sameClub
  deriving DecidableEq

structure OverrideWarning (ι : Type u) where
  code : WarningCode
  registrationIds : List ι
  deriving DecidableEq

/-- What `pairing_meta_json.manualAdjustments` keeps of a swap. -/
structure Adjustment (ι : Type u) where
  aRegistrationId : ι
  bRegistrationId : ι
  warnings : List (OverrideWarning ι)
  deriving DecidableEq

structure SwissRoundRow (ι : Type u) where
  id : ι
  round_number : ℕ
  status : RoundStatus
  bye_registration_id : Option ι
  manualAdjustments : List (Adjustment ι)
  bouts : List (MatchRow ι)
  deriving DecidableEq

/-- An entrant with the club of the person behind the registration. -/
structure EntrantClub (ι : Type u) extends SwissEntrantRecord ι where
  club_id : Option ι

/-- The rows of one phase; ids are unique in each table. -/
@[ext] structure PhaseStore (ι : Type u) where
  finalized : Bool
  entrants : List (EntrantClub ι)
  rounds : List (SwissRoundRow ι)
  round_key : (rounds.map (·.id)).Nodup
  bout_key : (rounds.flatMap fun r => r.bouts.map (·.id)).Nodup

inductive OverrideRefusal (ι : Type u) where
  | withThemselves
  | roundNotFound (roundId : ι)
  | roundStarted (roundNumber : ℕ)
  | boutUnderWay (roundNumber : ℕ)
  | finalised
  | notInRound (registrationId : ι) (roundNumber : ℕ)
  | needsConfirmation (warnings : List (OverrideWarning ι))

def OverrideRefusal.message {ι : Type u} (text : ι → String) : OverrideRefusal ι → String
  | .withThemselves => "Cannot swap a fighter with themselves"
  | .roundNotFound roundId => "Swiss round " ++ text roundId ++ " not found"
  | .roundStarted n => "Round " ++ toString n ++ " has started; pairings can no longer be changed"
  | .boutUnderWay n => "Round " ++ toString n ++ " has a bout already under way"
  | .finalised => "This Swiss phase is finalised; resume it before editing"
  | .notInRound id n => "Fighter " ++ text id ++ " is not in round " ++ toString n
  | .needsConfirmation _ => "Swap needs confirmation"

variable {ι : Type u}

def MatchRow.seat (m : MatchRow ι) : Side → Option ι
  | .red => m.red_registration_id
  | .blue => m.blue_registration_id

/-- The columns `validate` picks; the others are not read. -/
def MatchRow.pick (m : MatchRow ι) : SwissMatchRecord ι :=
  ⟨m.red_registration_id, m.blue_registration_id, none, m.status, none⟩

/-- Everyone the round names. -/
def SwissRoundRow.noted (r : SwissRoundRow ι) : List ι :=
  Swiss.noted (r.bouts.map MatchRow.pick) r.bye_registration_id

/-! ## The picture an override needs -/

section Load

variable [DecidableEq ι]

/-- `priorOpponents` and `priorByes`. -/
structure Meetings (ι : Type u) where
  priorOpponents : ι → List ι
  priorByes : List ι

def Meetings.addMatch (t : Meetings ι) (m : MatchRow ι) : Meetings ι :=
  match m.red_registration_id, m.blue_registration_id with
  | some red, some blue =>
    let met := Function.update t.priorOpponents red ((t.priorOpponents red).insert blue)
    { t with priorOpponents := Function.update met blue ((met blue).insert red) }
  | _, _ => t

def Meetings.addRound (t : Meetings ι) (prior : SwissRoundRow ι) : Meetings ι :=
  prior.bouts.foldl Meetings.addMatch
    { t with priorByes := match prior.bye_registration_id with
      | none => t.priorByes
      | some bye => t.priorByes.insert bye }

/-- Who has faced whom, and who has sat out, in every round except this one. -/
def priorMeetings (rounds : List (SwissRoundRow ι)) (excludeRoundId : ι) : Meetings ι :=
  rounds.foldl (fun t prior => if prior.id = excludeRoundId then t else t.addRound prior)
    ⟨fun _ => [], []⟩

/-- Built row by row, a later row of a registration over an earlier one. -/
def clubsFor (entrants : List (EntrantClub ι)) (registrationId : ι) : Option ι :=
  ((entrants.filterMap fun e => e.club_id.map (e.registrationId, ·)).filter
    (·.1 = registrationId)).getLast?.map (·.2)

structure EditableRound (ι : Type u) extends SwissRoundRow ι where
  priorOpponents : ι → List ι
  priorByes : List ι
  clubByRegistration : ι → Option ι

def loadRound (db : PhaseStore ι) (roundId : ι) :
    Except (OverrideRefusal ι) (EditableRound ι) :=
  match db.rounds.find? (·.id = roundId) with
  | none => .error (.roundNotFound roundId)
  | some row =>
    let meetings := priorMeetings db.rounds roundId
    .ok { row with
      priorOpponents := meetings.priorOpponents
      priorByes := meetings.priorByes
      clubByRegistration := clubsFor db.entrants }

def loadEditableRound (db : PhaseStore ι) (roundId : ι) :
    Except (OverrideRefusal ι) (EditableRound ι) := do
  let round ← loadRound db roundId
  if round.status ≠ .pending then .error (.roundStarted round.round_number)
  else if round.bouts.any (·.status ≠ .scheduled) then .error (.boutUnderWay round.round_number)
  else if db.finalized then .error .finalised
  else .ok round

end Load

/-! ## The swap -/

inductive Position (ι : Type u) where
  | bye
  | bout (row : MatchRow ι) (side : Side)

inductive Write (ι : Type u) where
  | side (matchId : ι) (side : Side) (registrationId : Option ι)
  | sides (matchId : ι) (red blue : Option ι)
  | bye (roundId : ι) (registrationId : Option ι)
  | adjustment (roundId : ι) (entry : Adjustment ι)

section Swap

variable [DecidableEq ι]

/-- The first side of the bouts, in their order, that holds the fighter. -/
def locateIn (registrationId : ι) : List (MatchRow ι) → Option (Position ι)
  | [] => none
  | m :: bouts =>
    if m.red_registration_id = some registrationId then some (.bout m .red)
    else if m.blue_registration_id = some registrationId then some (.bout m .blue)
    else locateIn registrationId bouts

def locate (round : EditableRound ι) (registrationId : ι) : Option (Position ι) :=
  if round.bye_registration_id = some registrationId then some .bye
  else locateIn registrationId round.bouts

def occupant (round : EditableRound ι) : Position ι → Option ι
  | .bye => round.bye_registration_id
  | .bout m side => m.seat side

/-- Both positions are in one bout. -/
def sameBout : Position ι → Position ι → Bool
  | .bout m _, .bout m' _ => decide (m.id = m'.id)
  | _, _ => false

def writeTo (roundId : ι) (position : Position ι) (registrationId : Option ι) : Write ι :=
  match position with
  | .bye => .bye roundId registrationId
  | .bout m side => .side m.id side registrationId

/-- The writes of the bouts go before the write of the bye. -/
def applySwap (round : EditableRound ι) (a b : Position ι) : List (Write ι) :=
  let aId := occupant round a
  let bId := occupant round b
  match a, b with
  | .bout m sideA, .bout m' sideB =>
    if m.id = m'.id then [.sides m.id bId aId]
    else [.side m.id sideA bId, .side m'.id sideB aId]
  | .bout m sideA, .bye => [.side m.id sideA bId, .bye round.id aId]
  | .bye, .bout m' sideB => [.side m'.id sideB aId, .bye round.id bId]
  | .bye, .bye => [.bye round.id bId, .bye round.id aId]

/-- The fighter waiting at a position for the one who moves in, `moving` out of it. -/
def opponentAfter (position : Position ι) (moving : Option ι) : Option ι :=
  match position with
  | .bye => none
  | .bout m side =>
    let other := m.seat side.other
    if other = moving then none else other

def sameClub (round : EditableRound ι) (a b : ι) : Bool :=
  match round.clubByRegistration a, round.clubByRegistration b with
  | some clubA, some clubB => decide (clubA = clubB)
  | _, _ => false

def pairWarnings (round : EditableRound ι) (fighter opponent : Option ι) :
    List (OverrideWarning ι) :=
  match fighter, opponent with
  | some fighter, some opponent =>
    (if opponent ∈ round.priorOpponents fighter then
      [⟨.createsRematch, [fighter, opponent]⟩] else []) ++
    (if sameClub round fighter opponent then [⟨.sameClub, [fighter, opponent]⟩] else [])
  | _, _ => []

def byeWarnings (round : EditableRound ι) (fighter : Option ι) (position : Position ι) :
    List (OverrideWarning ι) :=
  match fighter, position with
  | some fighter, .bye => if fighter ∈ round.priorByes then [⟨.repeatBye, [fighter]⟩] else []
  | _, _ => []

def swapWarnings (round : EditableRound ι) (a b : Position ι) : List (OverrideWarning ι) :=
  if sameBout a b then []
  else
    let aId := occupant round a
    let bId := occupant round b
    pairWarnings round aId (opponentAfter b bId) ++ pairWarnings round bId (opponentAfter a aId) ++
      byeWarnings round aId b ++ byeWarnings round bId a

/-- The writes of a swap, in the order they are sent. -/
def swapPairing (db : PhaseStore ι) (roundId aRegistrationId bRegistrationId : ι)
    (confirm : Bool) : Except (OverrideRefusal ι) (List (Write ι)) := do
  if aRegistrationId = bRegistrationId then .error .withThemselves
  else
    let round ← loadEditableRound db roundId
    match locate round aRegistrationId, locate round bRegistrationId with
    | none, _ => .error (.notInRound aRegistrationId round.round_number)
    | some _, none => .error (.notInRound bRegistrationId round.round_number)
    | some a, some b =>
      let warnings := swapWarnings round a b
      if 0 < warnings.length ∧ confirm = false then .error (.needsConfirmation warnings)
      else .ok (applySwap round a b ++
        [.adjustment round.id ⟨aRegistrationId, bRegistrationId, warnings⟩])

end Swap

/-! ## What a write does to the rows -/

/-- A change of the rounds that leaves every id where it is. -/
structure RoundChange (ι : Type u) where
  change : SwissRoundRow ι → SwissRoundRow ι
  id_eq : ∀ r, (change r).id = r.id
  bout_ids : ∀ r, (change r).bouts.map (·.id) = r.bouts.map (·.id)

def PhaseStore.mapRounds (c : RoundChange ι) (db : PhaseStore ι) : PhaseStore ι where
  finalized := db.finalized
  entrants := db.entrants
  rounds := db.rounds.map c.change
  round_key := by simpa only [List.map_map, Function.comp_def, c.id_eq] using db.round_key
  bout_key := by simpa only [List.flatMap_map, c.bout_ids] using db.bout_key

section Writes

variable [DecidableEq ι]

def MatchRow.put (m : MatchRow ι) (side : Side) (registrationId : Option ι) : MatchRow ι :=
  match side with
  | .red => { m with red_registration_id := registrationId }
  | .blue => { m with blue_registration_id := registrationId }

/-- An update `where id = matchId`. -/
def changeBout (matchId : ι) (update : MatchRow ι → MatchRow ι)
    (hId : ∀ m, (update m).id = m.id) : RoundChange ι where
  change r := { r with bouts := r.bouts.map fun m => if m.id = matchId then update m else m }
  id_eq _ := rfl
  bout_ids r := by
    rw [List.map_map]
    refine List.map_congr_left fun m _ => ?_
    rw [Function.comp_apply]
    split_ifs
    · exact hId m
    · rfl

/-- An update of the round `where id = roundId`, of columns other than its bouts. -/
def changeRound (roundId : ι) (bye : Option ι → Option ι)
    (entries : List (Adjustment ι)) : RoundChange ι where
  change r :=
    if r.id = roundId then
      { r with
        bye_registration_id := bye r.bye_registration_id
        manualAdjustments := r.manualAdjustments ++ entries }
    else r
  id_eq r := by split_ifs <;> rfl
  bout_ids r := by split_ifs <;> rfl

def Write.change : Write ι → RoundChange ι
  | .side matchId place registrationId =>
    changeBout matchId (·.put place registrationId) fun _ => by cases place <;> rfl
  | .sides matchId red blue =>
    changeBout matchId (fun m => (m.put .red red).put .blue blue) fun _ => rfl
  | .bye roundId registrationId => changeRound roundId (fun _ => registrationId) []
  | .adjustment roundId entry => changeRound roundId id [entry]

def applyWrites (writes : List (Write ι)) (db : PhaseStore ι) : PhaseStore ι :=
  writes.foldl (fun db w => db.mapRounds w.change) db

end Writes

/-- Whether the stored round is a legal one for its active field. -/
def validate [LinearOrder ι] (db : PhaseStore ι) (roundId : ι) :
    Except (OverrideRefusal ι) (SwissRoundValidation ι) := do
  let round ← loadRound db roundId
  let field := (activeEntrants (db.entrants.map (·.toSwissEntrantRecord)) round.round_number).map
    (·.registrationId)
  .ok (validateSwissRound field (round.bouts.map MatchRow.pick) round.bye_registration_id)

end MyClash.Swiss.Override
