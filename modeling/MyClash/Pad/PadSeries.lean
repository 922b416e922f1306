import MyClash.Library.StableSort
import MyClash.Offline.Store
import MyClash.Scoring.Series

/-!
# The rounds on the pad

`padSeries`: the server's row and lists, with the hits, the cards and the round presses the tablet
still holds counted on top. A round is added up in what the sides earned and turned into a score
by the server's own function.
-/

namespace MyClash.Pad

open MatchFormat Scoring Standings StableSort
open Offline (RoundPress)

universe u

/-! ## What the pad holds -/

/-- A hit, as far as the rounds read it. -/
structure ExchangeRow where
  type : ExchangeType
  scoringSide : Option Color
  scoreDelta : Option ℚ
  defenderDelta : Option ℚ
  round_number : Option ℕ

structure Penalty (ι : Type u) where
  registration_id : ι
  score_delta : ℚ
  voided : Bool
  round_number : Option ℕ

/-- What "End round" was pressed on. -/
structure PressedOn where
  red : ℚ
  blue : ℚ
  winner : Option Color

structure RoundRow where
  roundAction : RoundPress
  round : Option ℕ
  endScore : Option PressedOn

/-- A row of `rounds_json`; one with no round is no round. -/
structure RoundJson where
  round : Option ℕ
  redScore : Option ℚ
  blueScore : Option ℚ
  winnerColor : Option Color
  endReason : Option String

structure ServerRounds where
  currentRound : ℕ
  awaitingRoundAdvance : Bool
  isOver : Bool
  roundsJson : List RoundJson
  redScore : ℚ
  blueScore : ℚ

structure PadSeriesArgs (ι : Type u) where
  bestOf : ℕ
  format : FormatMatch
  matchFormat : MatchFormatConfig
  server : ServerRounds
  redRegistrationId : ι
  blueRegistrationId : ι
  exchanges : List ExchangeRow
  penalties : List (Penalty ι)
  queued : List ExchangeRow
  queuedPenalties : List (Penalty ι)
  roundPresses : List RoundRow
  held : Bool
  edition : DecisionEdition

/-- Who says a round is closed, and who a view is of. -/
inductive SaidBy where
  | server
  | tablet
  deriving DecidableEq

structure PadRound where
  round : ℕ
  redScore : ℚ
  blueScore : ℚ
  winnerColor : Option Color
  saidBy : SaidBy
  onTime : Bool
  deriving DecidableEq

/-- How one round counts on the pad. -/
structure RoundCount where
  round : ℕ
  redScore : ℚ
  blueScore : ℚ
  redQueued : ℚ
  blueQueued : ℚ
  redBelowZero : Option ℚ
  blueBelowZero : Option ℚ
  doubles : ℕ
  deriving DecidableEq

structure PadSeries extends RoundCount where
  doublesLimit : Option ℕ
  closed : List PadRound
  redRoundWins : ℕ
  blueRoundWins : ℕ
  awaitingStart : Bool
  decided : Option (Option Color)
  saidBy : SaidBy
  deriving DecidableEq

def RoundCount.cap (count : RoundCount) : CapScore where
  redScore := count.redScore
  blueScore := count.blueScore
  redBelowZero := count.redBelowZero
  blueBelowZero := count.blueBelowZero
  doubles := count.doubles

/-- As `seriesResult` reads it. -/
def PadRound.counted (row : PadRound) : ClosedRound where
  round := row.round
  redScore := row.redScore
  blueScore := row.blueScore
  winnerColor := row.winnerColor
  endReason := none

def seriesOf (closed : List PadRound) (bestOf : ℕ) : SeriesResult :=
  seriesResult (closed.map PadRound.counted) bestOf

def roundsWon (closed : List PadRound) (color : Color) : ℕ :=
  (closed.filter fun row => row.winnerColor = some color).length

def RoundJson.padRound? (row : RoundJson) : Option PadRound :=
  row.round.map fun round =>
    { round
      redScore := row.redScore.getD 0
      blueScore := row.blueScore.getD 0
      winnerColor := row.winnerColor
      saidBy := .server
      onTime := row.endReason = none ∨ row.endReason = some "time_limit" }

def serverRounds (roundsJson : List RoundJson) : List PadRound :=
  sortWith (fun a b => compare a.round b.round) (roundsJson.filterMap RoundJson.padRound?)

/-! ## One round -/

section Count

variable {ι : Type u} [DecidableEq ι]

def addRow (sum : ℚ × ℚ) (row : ExchangeRow) : ℚ × ℚ :=
  match row.scoringSide with
  | none => sum
  | some .red => (sum.1 + row.scoreDelta.getD 0, sum.2 + row.defenderDelta.getD 0)
  | some .blue => (sum.1 + row.defenderDelta.getD 0, sum.2 + row.scoreDelta.getD 0)

def addPenalty (redRegistrationId blueRegistrationId : ι) (sum : ℚ × ℚ) (penalty : Penalty ι) :
    ℚ × ℚ :=
  if penalty.voided then sum
  else
    (if penalty.registration_id = redRegistrationId then sum.1 + penalty.score_delta else sum.1,
      if penalty.registration_id = blueRegistrationId then sum.2 + penalty.score_delta else sum.2)

/-- What hits and cards add to each side. -/
def provisionalDeltas (redRegistrationId blueRegistrationId : ι) (exchanges : List ExchangeRow)
    (penalties : List (Penalty ι)) : ℚ × ℚ :=
  penalties.foldl (addPenalty redRegistrationId blueRegistrationId) (exchanges.foldl addRow (0, 0))

namespace PadSeriesArgs

variable (args : PadSeriesArgs ι)

def countsDown : Bool := args.matchFormat.scoringDirection == .reverseZeroLoses

def sum (exchanges : List ExchangeRow) (penalties : List (Penalty ι)) : ℚ × ℚ :=
  provisionalDeltas args.redRegistrationId args.blueRegistrationId exchanges penalties

def isDouble (row : ExchangeRow) : Bool := row.type == .double

/-- The doubles of the list reach the limit of a format that wipes the board. -/
def wiped (listed : List ExchangeRow) : Bool :=
  match getEffectiveMaxDoubles args.format args.matchFormat with
  | some limit => args.matchFormat.maxDoubleHitOutcome != .resultStands &&
      decide ((listed.filter isDouble).length ≥ limit)
  | none => false

/-- The server's score of its open round. In a bout that counts down a 0-0 in play is one only
when the list explains it; else the round is not scored yet. -/
def serverScore : Option (ℚ × ℚ) :=
  let server := args.server
  let score := (server.redScore, server.blueScore)
  if !args.countsDown || server.awaitingRoundAdvance || server.isOver then some score
  else if server.redScore ≠ 0 ∨ server.blueScore ≠ 0 then some score
  else
    let listed := args.exchanges.filter fun row => row.round_number.getD 1 = server.currentRound
    let earned := args.sum listed []
    let bothOut := decide (earned.1 ≥ args.matchFormat.pointCap) &&
      decide (earned.2 ≥ args.matchFormat.pointCap)
    if bothOut || args.wiped listed then some score else none

/-- What each side has earned on the server, read back from its row. -/
def earnedOnServer (base : Option (ℚ × ℚ)) (carded : ℚ × ℚ) : ℚ × ℚ :=
  match base with
  | none => (0, 0)
  | some score =>
    let part := (score.1 - carded.1, score.2 - carded.2)
    if args.countsDown then (args.matchFormat.pointCap - part.2, args.matchFormat.pointCap - part.1)
    else part

/-- The unsent hits go on top of what was earned; the cards land after the turn. -/
def scoreOnPad (base : Option (ℚ × ℚ)) (serverCards : List (Penalty ι))
    (queued : List ExchangeRow) (queuedCards : List (Penalty ι)) (round doubles : ℕ) :
    RoundCount :=
  let carded := args.sum [] serverCards
  let hits := args.sum queued []
  let cards := args.sum [] queuedCards
  let earned := args.earnedOnServer base carded
  let scored := fun plus : ℚ × ℚ =>
    let score := applyScoringDirection args.matchFormat (earned.1 + plus.1) (earned.2 + plus.2)
    (score.1 + carded.1, score.2 + carded.2)
  let sent := scored (0, 0)
  let withHits := scored hits
  let below := belowZero args.matchFormat (earned.1 + hits.1) (earned.2 + hits.2)
  { round
    redScore := withHits.1 + cards.1
    blueScore := withHits.2 + cards.2
    redQueued := withHits.1 + cards.1 - sent.1
    blueQueued := withHits.2 + cards.2 - sent.2
    redBelowZero := below.1
    blueBelowZero := below.2
    doubles }

/-- A row with no round, or with a round the server has passed, counts in the server's. -/
def queuedIn (round serverRound : ℕ) (round_number : Option ℕ) : Bool :=
  max (round_number.getD serverRound) serverRound = round

def roundCount (round serverRound : ℕ) : RoundCount :=
  let queued := args.queued.filter fun row => queuedIn round serverRound row.round_number
  let ofRound := fun round_number : Option ℕ => decide (round_number.getD 1 = round)
  let serverDoubles :=
    (args.exchanges.filter fun row => ofRound row.round_number && isDouble row).length
  args.scoreOnPad (if round = serverRound then args.serverScore else none)
    (args.penalties.filter fun row => ofRound row.round_number) queued
    (args.queuedPenalties.filter fun row => queuedIn round serverRound row.round_number) round
    (serverDoubles + (queued.filter isDouble).length)

/-! ## The view -/

def standing (on : RoundCount) (closed : List PadRound) (saidBy : SaidBy) : PadSeries :=
  let series := seriesOf closed args.bestOf
  let roundClosed :=
    match saidBy with
    | .server => args.server.awaitingRoundAdvance && !args.server.isOver
    | .tablet => closed.any fun row => row.round = on.round
  { on with
    doublesLimit := getEffectiveMaxDoubles args.format args.matchFormat
    closed
    redRoundWins := roundsWon closed .red
    blueRoundWins := roundsWon closed .blue
    awaitingStart := roundClosed && !series.isOver
    decided := if series.isOver then some series.winnerColor else none
    saidBy }

/-- A bout of one round, never closed here. -/
def singleRound : PadSeries :=
  let on := args.scoreOnPad args.serverScore args.penalties args.queued args.queuedPenalties 1
    ((args.exchanges.filter isDouble).length + (args.queued.filter isDouble).length)
  { standing { args with bestOf := 1 } on [] .server with
    awaitingStart := false
    decided := none }

variable (upperTrimmed : String → String)

def outcome (count : RoundCount) : RoundOutcome :=
  roundOutcome count.cap args.matchFormat args.edition upperTrimmed args.format

/-- A round the tablet moved past, or closed: by its "End round", or by its own score. -/
def tabletRound (count : RoundCount) : PadRound :=
  let ended := args.roundPresses.find? fun row =>
    row.roundAction = .endRound ∧ row.round = some count.round
  let endScore := ended.bind RoundRow.endScore
  let score :=
    match endScore with
    | some pressed => (pressed.red, pressed.blue)
    | none => (count.redScore, count.blueScore)
  let outcome := args.outcome upperTrimmed count
  if ended.isSome || !outcome.autoOver then
    ⟨count.round, score.1, score.2,
      (endScore.bind PressedOn.winner).or (leadingColor score.1 score.2), .tablet, false⟩
  else
    let shown := if outcome.endReason = some .maxDoubles then (0, 0) else score
    ⟨count.round, shown.1, shown.2, outcome.winnerColor, .tablet, false⟩

/-- The server's own view, with what the tablet holds shown in the server's open round. -/
def serverView (fromServer : List PadRound) : PadSeries :=
  let flat :=
    { args with
      queued := args.queued.map fun row => { row with round_number := none }
      queuedPenalties := args.queuedPenalties.map fun row => { row with round_number := none } }
  let round := args.server.currentRound
  args.standing (roundCount flat round round) fromServer .server

def stamps : List ℕ :=
  args.queued.map (·.round_number.getD 0) ++ args.queuedPenalties.map (·.round_number.getD 0)

def advances : List ℕ :=
  (args.roundPresses.filter fun row => row.roundAction = .advance).map (·.round.getD 0)

/-- The round open on the tablet. -/
def openRound : ℕ := (args.stamps ++ args.advances).foldl max args.server.currentRound

def known (closed : List PadRound) (round : ℕ) : Bool := closed.any fun row => row.round = round

/-- The rounds the tablet moved past, which the server's row does not hold yet. -/
def passed (closed : List PadRound) : List PadRound :=
  (List.range' args.server.currentRound (args.openRound - args.server.currentRound)).foldl
    (fun closed round =>
      if known closed round then closed
      else closed ++
        [args.tabletRound upperTrimmed (args.roundCount round args.server.currentRound)])
    closed

/-- Every closed round, the open one too when it ended. -/
def closedOnPad (fromServer : List PadRound) : List PadRound :=
  let closed := args.passed upperTrimmed fromServer
  let count := args.roundCount args.openRound args.server.currentRound
  let ended := args.roundPresses.any fun row =>
    row.roundAction = .endRound ∧ row.round = some args.openRound
  if !known closed args.openRound && (ended || (args.outcome upperTrimmed count).autoOver) then
    closed ++ [args.tabletRound upperTrimmed count]
  else closed

def tabletView (fromServer : List PadRound) : PadSeries :=
  let closed := args.closedOnPad upperTrimmed fromServer
  let count := args.roundCount args.openRound args.server.currentRound
  let on :=
    match closed.find? fun row => row.round = args.openRound with
    | some stoodOn => { count with redScore := stoodOn.redScore, blueScore := stoodOn.blueScore }
    | none => count
  let ahead := decide (args.openRound > args.server.currentRound) ||
    closed.any fun row => row.saidBy = .tablet
  args.standing on closed (if ahead then .tablet else .server)

end PadSeriesArgs

def padSeries (upperTrimmed : String → String) (args : PadSeriesArgs ι) : PadSeries :=
  if args.bestOf ≤ 1 then args.singleRound
  else
    let fromServer := serverRounds args.server.roundsJson
    let waits := !args.queued.isEmpty || !args.queuedPenalties.isEmpty ||
      !args.roundPresses.isEmpty
    if args.held || !waits || args.server.isOver then args.serverView fromServer
    else args.tabletView upperTrimmed fromServer

end Count

end MyClash.Pad
