import MyClash.Bracket.DoubleElim
import MyClash.Bracket.SingleElim
import MyClash.MatchStatus

/-!
# Bracket advancement

The slots of a phase and the rows of their bouts. A completed bout puts its winner and its loser
on the sides that name them, each while it is empty; the row of a bout follows its slot until the
bout is started. A slot is known by its own reference.
-/

namespace MyClash.Bracket.Advance

open Knockout

universe u v

inductive Side where
  | a
  | b
  deriving DecidableEq

/-- A `bracket_slots` row as it was generated, with the reference `buildSelfRef` gives it. -/
structure PhaseSlot (κ : Type u) where
  selfRef : κ
  round : ℕ
  sourceA : Feed κ
  sourceB : Feed κ
  deriving DecidableEq

/-- `grandFinalRound`: the round of the grand final of a double elimination with a reset. -/
structure BracketPhase (κ : Type u) where
  slots : List (PhaseSlot κ)
  grandFinalRound : Option ℕ
  autoAdvance : Bool

/-- The live `matches` row of a slot. `started`: it has a start time. -/
structure BoutRow (F : Type v) where
  status : MatchStatus
  started : Bool
  winner : Option F
  red : Option F
  blue : Option F
  live : status ≠ .voided

structure BracketState (κ : Type u) (F : Type v) where
  side : κ → Side → Option F
  row : κ → Option (BoutRow F)

variable {κ : Type u} {F : Type v}

def PhaseSlot.source (slot : PhaseSlot κ) : Side → Feed κ
  | .a => slot.sourceA
  | .b => slot.sourceB

/-- No bout is fought at a bye. -/
def PhaseSlot.isBye (slot : PhaseSlot κ) : Bool := slot.sourceB.isBye

def PhaseSlot.node (slot : PhaseSlot κ) : Node κ := ⟨slot.selfRef, slot.sourceA, slot.sourceB⟩

def BoutRow.hasStarted (row : BoutRow F) : Bool := hasBeenFought row.status row.started

/-- Null when the winner is on neither side. -/
def resolveLoser [DecidableEq F] (winner : F) (red blue : Option F) : Option F :=
  if some winner = red then blue else if some winner = blue then red else none

namespace BracketPhase

variable (phase : BracketPhase κ)

def nodes : List (Node κ) := phase.slots.map PhaseSlot.node

def isGrandFinalWithReset (slot : PhaseSlot κ) : Bool := phase.grandFinalRound = some slot.round

/-- The reset is the one slot with no row until it is needed. -/
def isReset (slot : PhaseSlot κ) : Bool := phase.grandFinalRound.any (· + 1 = slot.round)

/-- Nothing downstream is to be filled: the winners-bracket entrant, on side A, won. -/
def grandFinalEndsBracket [DecidableEq F] (slot : PhaseSlot κ) (sideA winner : Option F) : Bool :=
  phase.isGrandFinalWithReset slot && winner.isSome && winner = sideA

end BracketPhase

variable [DecidableEq κ]

/-- Does the side take the winner or the loser of this bout? -/
def feeds (self : κ) (source : Feed κ) : Bool := source = .winnerOf self || source = .loserOf self

def BracketPhase.downstreamSlots (phase : BracketPhase κ) (self : κ) : List (PhaseSlot κ) :=
  phase.slots.filter fun slot => feeds self slot.sourceA || feeds self slot.sourceB

namespace BracketState

def writeSlotSide (s : BracketState κ F) (k : κ) (side : Side) (f : Option F) : BracketState κ F :=
  { s with side := Function.update s.side k (Function.update (s.side k) side f) }

def setRow (s : BracketState κ F) (k : κ) (row : Option (BoutRow F)) : BracketState κ F :=
  { s with row := Function.update s.row k row }

end BracketState

/-! ## The row follows the slot -/

def scheduledRow (a b : Option F) : BoutRow F where
  status := .scheduled
  started := false
  winner := none
  red := a
  blue := b
  live := MatchStatus.scheduled_ne_voided

/-- A started bout is left alone; a row is made only once both fighters are known. -/
def syncMatchToSlot (slot : PhaseSlot κ) (a b : Option F) (s : BracketState κ F) :
    BracketState κ F :=
  if slot.isBye then s
  else
    match s.row slot.selfRef with
    | some row =>
      if row.hasStarted then s
      else s.setRow slot.selfRef (some { row with red := a, blue := b })
    | none =>
      if a.isSome && b.isSome then s.setRow slot.selfRef (some (scheduledRow a b)) else s

/-! ## Advancing -/

/-- What a side holds once a bout has been told: a side that is filled keeps what it holds. -/
def resolveSide (self : κ) (winner : F) (loser : Option F) (source : Feed κ)
    (current : Option F) : Option F :=
  match current with
  | some f => some f
  | none =>
    if source = .winnerOf self then some winner
    else if source = .loserOf self then loser
    else none

/-- The slots are read once, before the first write. -/
def advanceFromSlot (phase : BracketPhase κ) (self : κ) (winner : F) (loser : Option F)
    (s : BracketState κ F) : BracketState κ F :=
  (phase.downstreamSlots self).foldl
    (fun t ds =>
      let a := resolveSide self winner loser ds.sourceA (s.side ds.selfRef .a)
      let b := resolveSide self winner loser ds.sourceB (s.side ds.selfRef .b)
      syncMatchToSlot ds a b
        ((t.writeSlotSide ds.selfRef .a a).writeSlotSide ds.selfRef .b b)) s

/-- Null every side of the slot that the bout feeds, in one write. -/
def clearSlot (self : κ) (slot : PhaseSlot κ) (s : BracketState κ F) : BracketState κ F :=
  { s with
    side := Function.update s.side slot.selfRef fun side =>
      if feeds self (slot.source side) then none else s.side slot.selfRef side }

def clearFedSides (phase : BracketPhase κ) (self : κ) (s : BracketState κ F) : BracketState κ F :=
  (phase.downstreamSlots self).foldl (fun t ds => clearSlot self ds t) s

def deleteUnplayedSlotMatch (k : κ) (s : BracketState κ F) : BracketState κ F :=
  match s.row k with
  | some row => if row.status = .scheduled && !row.started then s.setRow k none else s
  | none => s

/-- Un-make the reset once the grand final has ended the bracket. -/
def retractGrandFinalReset (phase : BracketPhase κ) (self : κ) (s : BracketState κ F) :
    BracketState κ F :=
  (phase.downstreamSlots self).foldl (fun t ds => deleteUnplayedSlotMatch ds.selfRef t)
    (clearFedSides phase self s)

/-- A bye slot whose fighter is known sends the fighter on. -/
def advanceBye (phase : BracketPhase κ) (s t : BracketState κ F) (slot : PhaseSlot κ) :
    BracketState κ F :=
  match s.side slot.selfRef .a with
  | some f => advanceFromSlot phase slot.selfRef f none t
  | none => t

def advanceByeSlots (phase : BracketPhase κ) (s : BracketState κ F) : BracketState κ F :=
  (phase.slots.filter (·.isBye)).foldl (advanceBye phase s) s

section Completed

variable [DecidableEq F] (phase : BracketPhase κ) (slot : PhaseSlot κ)

/-- The bout of the slot is completed: advance its winner and its loser. The pairing is the slot's,
which the row may lag. -/
def onMatchCompleted (s : BracketState κ F) : BracketState κ F :=
  match s.row slot.selfRef with
  | none => s
  | some row =>
    match row.winner with
    | none => s
    | some winner =>
      if !phase.autoAdvance then s
      else if phase.grandFinalEndsBracket slot (s.side slot.selfRef .a) (some winner) then
        retractGrandFinalReset phase slot.selfRef s
      else
        advanceFromSlot phase slot.selfRef winner
          (resolveLoser winner ((s.side slot.selfRef .a).or row.red)
            ((s.side slot.selfRef .b).or row.blue)) s

/-- Does the stored result ask for a second grand final? -/
def asksForGrandFinalReset (s : BracketState κ F) : Bool :=
  match s.row slot.selfRef with
  | none => false
  | some row =>
    phase.isGrandFinalWithReset slot &&
      !phase.grandFinalEndsBracket slot (s.side slot.selfRef .a) row.winner

omit [DecidableEq F] in
/-- Take the fighters back off a bout's row. -/
def clearDependentPairing (k : κ) (s : BracketState κ F) : BracketState κ F :=
  match s.row k with
  | some row => s.setRow k (some { row with red := none, blue := none })
  | none => s

omit [DecidableEq F] in
/-- The sides the bout feeds are cleared, and the pairings of the rows there. -/
def clearFedBouts (self : κ) (s : BracketState κ F) : BracketState κ F :=
  (phase.downstreamSlots self).foldl (fun t ds => clearDependentPairing ds.selfRef t)
    (clearFedSides phase self s)

/-- What the old result sent on is cleared, and the bout is advanced again. On an event that is
over, a result that asks for a reset is not. -/
def onResultChanged (eventOver : Bool) (s : BracketState κ F) : BracketState κ F :=
  let cleared := clearFedBouts phase slot.selfRef s
  if eventOver && asksForGrandFinalReset phase slot cleared then cleared
  else onMatchCompleted phase slot cleared

end Completed

/-! ## A bracket before its first bout -/

section Populated

variable (phase : BracketPhase κ) (entrant : ℕ → F)

def BracketPhase.slot? (k : κ) : Option (PhaseSlot κ) :=
  phase.slots.find? fun slot => slot.selfRef = k

def seededSide (slot : PhaseSlot κ) (side : Side) : Option F :=
  (sourceSeed (slot.source side)).map entrant

/-- Round 1 has its fighters; every slot but a bye and the reset has a row. -/
def seeded : BracketState κ F where
  side k side := (phase.slot? k).bind fun slot => seededSide entrant slot side
  row k := (phase.slot? k).bind fun slot =>
    if slot.isBye || phase.isReset slot then none
    else some (scheduledRow (seededSide entrant slot .a) (seededSide entrant slot .b))

def populated : BracketState κ F := advanceByeSlots phase (seeded phase entrant)

end Populated

/-! ## The phases of the two generators -/

def singleElimPhase (b : SingleElimBracket) : BracketPhase SlotRef where
  slots := b.slots.map fun s => ⟨s.ref, s.round, s.homeSource, s.awaySource⟩
  grandFinalRound := none
  autoAdvance := true

def doubleElimPhase (b : DoubleElimBracket) : BracketPhase MatchRef where
  slots := b.slots.map fun s => ⟨b.selfRef s, s.round, s.homeSource, s.awaySource⟩
  grandFinalRound := if b.grandFinalReset then some (b.wbRounds + b.lbRounds + 1) else none
  autoAdvance := true

end MyClash.Bracket.Advance
