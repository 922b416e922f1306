import MyClash.Pad.PadSeries

/-!
# What the bout's screen remembers

The rows of the queue, as `padSeries` counts them, and the view the screen shows: the one computed
now, behind what the screen showed before.
-/

namespace MyClash.Pad

open StableSort Scoring
open Offline (RoundPress)

universe u v w

/-! ## The queue -/

/-- A row of the bout's queue, with the round it was tapped in. -/
inductive QueuedRow (ι : Type u) (κ : Type v) where
  | hit (row : ExchangeRow)
  | card (registrationId : ι) (card : κ) (round : Option ℕ)
  | press (row : RoundRow)
  | clock

section Queue

variable {ι : Type u} {κ : Type v}

def queuedRound (own : Option ℕ) (opened : ℕ) : Option ℕ :=
  let round := max (own.getD 0) opened
  if round > 0 then some round else none

structure PendingRows (ι : Type u) (κ : Type v) where
  exchanges : List ExchangeRow
  penalties : List (Penalty ι)
  priced : List (ι × κ)
  opened : ℕ

/-- The points of a card, by the cards queued before it; one that could not be priced adds none. -/
abbrev CardPrice (ι : Type u) (κ : Type v) := List (ι × κ) → ι × κ → Option ℚ

def addPending (price : CardPrice ι κ) (rows : PendingRows ι κ) : QueuedRow ι κ → PendingRows ι κ
  | .hit row =>
    { rows with
      exchanges := rows.exchanges ++
        [{ row with round_number := queuedRound row.round_number rows.opened }] }
  | .card registrationId card round =>
    { rows with
      penalties := rows.penalties ++
        [{ registration_id := registrationId
           score_delta := (price rows.priced (registrationId, card)).getD 0
           voided := false
           round_number := queuedRound round rows.opened }]
      priced := rows.priced ++ [(registrationId, card)] }
  | .press row =>
    if row.roundAction = .advance then { rows with opened := max rows.opened (row.round.getD 0) }
    else rows
  | .clock => rows

def pendingRowsForMatch (price : CardPrice ι κ) (queue : List (QueuedRow ι κ)) :
    PendingRows ι κ :=
  queue.foldl (addPending price) ⟨[], [], [], 0⟩

def QueuedRow.roundPress? : QueuedRow ι κ → Option RoundRow
  | .press row => some row
  | _ => none

end Queue

/-! ## The view to show -/

/-- How far a view has gone: its round, then "that round is closed". -/
def stage (view : PadSeries) : ℕ :=
  view.round * 2 + if view.awaitingStart || view.decided.isSome then 1 else 0

/-- The rounds the tablet closed that the view computed now does not confirm. -/
def keptRounds (now before : PadSeries) : List PadRound :=
  let seen := before.closed.filter fun row => row.saidBy = .tablet
  let confirmed := fun round => now.closed.any fun row => row.round = round ∧ row.saidBy = .server
  seen.filter fun row => !confirmed row.round && decide (row.round ≤ now.round)

def mergedRounds (now : PadSeries) (kept : List PadRound) : List PadRound :=
  sortWith (fun a b => compare a.round b.round)
    ((now.closed.filter fun row => !kept.any fun keep => keep.round = row.round) ++ kept)

def mergeSeries (now : PadSeries) (closed : List PadRound) (bestOf : ℕ) : PadSeries :=
  let series := seriesOf closed bestOf
  let stoodOn := closed.find? fun row => row.round = now.round
  { now with
    redScore := (stoodOn.map (·.redScore)).getD now.redScore
    blueScore := (stoodOn.map (·.blueScore)).getD now.blueScore
    closed
    redRoundWins := roundsWon closed .red
    blueRoundWins := roundsWon closed .blue
    awaitingStart := stoodOn.isSome && !series.isOver
    decided := if series.isOver then some series.winnerColor else none }

def rememberSeries (now : PadSeries) (before : Option PadSeries) (held : Bool) (bestOf : ℕ) :
    PadSeries :=
  match before with
  | none => now
  | some before =>
    if held ∨ before.saidBy ≠ .tablet then now
    else if now.saidBy = .server then
      if stage now < stage before then before else now
    else if (keptRounds now before).isEmpty then now
    else mergeSeries now (mergedRounds now (keptRounds now before)) bestOf

/-- The one branch that gives the view shown before itself, and not one made at this draw. -/
def isBefore (now : PadSeries) (before : Option PadSeries) (held : Bool) : Bool :=
  before.any fun before =>
    !held && before.saidBy == .tablet && now.saidBy == .server && decide (stage now < stage before)

structure SeriesMemory (ρ : Type w) where
  view : PadSeries
  /-- The read of the bout the memory began to stand over. -/
  standsOver : Option ρ
  /-- The view computed when the official took an entry back. -/
  forgotten : Option PadSeries

def showSeries {ρ : Type w} [DecidableEq ρ] (now : PadSeries) (memory : Option (SeriesMemory ρ))
    (held : Bool) (bestOf : ℕ) (read : ρ) : SeriesMemory ρ :=
  match memory.bind SeriesMemory.forgotten with
  | some forgotten => ⟨now, none, if forgotten = now then some forgotten else none⟩
  | none =>
    let before := memory.map SeriesMemory.view
    let view := rememberSeries now before held bestOf
    if now.saidBy = .tablet ∨ !isBefore now before held then ⟨view, none, none⟩
    else
      let standsOver := (memory.bind SeriesMemory.standsOver).getD read
      if read = standsOver then ⟨view, some standsOver, none⟩ else ⟨now, none, none⟩

/-! ## The screen of one bout -/

structure Screen (ι : Type u) (κ : Type v) (ρ : Type w) where
  queue : List (QueuedRow ι κ)
  memory : SeriesMemory ρ

/-- A bout nothing of which is held, as it was last read. -/
structure ReadBout (ι : Type u) (κ : Type v) (ρ : Type w) where
  server : PadSeriesArgs ι
  price : CardPrice ι κ
  read : ρ
  upperTrimmed : String → String

namespace ReadBout

variable {ι : Type u} {κ : Type v} {ρ : Type w} [DecidableEq ι] [DecidableEq ρ]
variable (bout : ReadBout ι κ ρ)

def args (queue : List (QueuedRow ι κ)) : PadSeriesArgs ι :=
  let pending := pendingRowsForMatch bout.price queue
  { bout.server with
    queued := pending.exchanges
    queuedPenalties := pending.penalties
    roundPresses := queue.filterMap QueuedRow.roundPress?
    held := false }

def seriesNow (queue : List (QueuedRow ι κ)) : PadSeries :=
  padSeries bout.upperTrimmed (bout.args queue)

def draw (queue : List (QueuedRow ι κ)) (memory : Option (SeriesMemory ρ)) : Screen ι κ ρ :=
  ⟨queue, showSeries (bout.seriesNow queue) memory false bout.server.bestOf bout.read⟩

/-- The screens of a queue while the official taps. -/
inductive Tapped : Screen ι κ ρ → Prop
  | opened (queue : List (QueuedRow ι κ)) : Tapped (bout.draw queue none)
  | tapped (rows : List (QueuedRow ι κ)) {screen : Screen ι κ ρ} (h : Tapped screen) :
      Tapped (bout.draw (screen.queue ++ rows) (some screen.memory))

/-- The server takes the front row. -/
def taken (screen : Screen ι κ ρ) : Screen ι κ ρ :=
  bout.draw screen.queue.tail (some screen.memory)

end ReadBout

end MyClash.Pad
