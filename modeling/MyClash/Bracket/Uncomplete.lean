import MyClash.Bracket.Advance
import MyClash.Library.CutShort
import Mathlib.Data.List.Sort

/-!
# A bout that is no longer completed

The bouts behind it that were fought are put back to unplayed, deepest round first. Then the sides
that it and they had filled are cleared, and the pairings of all the rows behind it. No
transaction holds these writes together.
-/

namespace MyClash.Bracket.Advance

open CutShort

universe u v

variable {κ : Type u} {F : Type v} [DecidableEq κ]

/-! ## The bouts behind -/

/-- The slots visited, those found, and of these the ones found last. -/
structure Walk (κ : Type u) where
  visited : List κ
  found : List (PhaseSlot κ)
  frontier : List (PhaseSlot κ)

def isFedBy (slot : PhaseSlot κ) (self : κ) : Bool :=
  feeds self slot.sourceA || feeds self slot.sourceB

def Walk.visit (self : κ) (walk : Walk κ) (slot : PhaseSlot κ) : Walk κ :=
  if slot.selfRef ∈ walk.visited then walk
  else if !isFedBy slot self then walk
  else ⟨slot.selfRef :: walk.visited, walk.found ++ [slot], walk.frontier ++ [slot]⟩

/-- One hop on from the slots found last. -/
def Walk.hop (phase : BracketPhase κ) (walk : Walk κ) : Walk κ :=
  walk.frontier.foldl (fun walk from' => phase.slots.foldl (Walk.visit from'.selfRef) walk)
    { walk with frontier := [] }

def MAX_DEPTH : ℕ := 32

/-- The walk ends with nothing found; past its hops it is given up. -/
def Walk.run (phase : BracketPhase κ) : ℕ → Walk κ → Option (List (PhaseSlot κ))
  | _, ⟨_, found, []⟩ => some found
  | 0, _ => none
  | hops + 1, walk => Walk.run phase hops (walk.hop phase)

/-- Breadth first, one visit a slot, deepest round first. -/
def dependentClosure (phase : BracketPhase κ) (root : PhaseSlot κ) :
    Option (List (PhaseSlot κ)) :=
  (Walk.run phase (MAX_DEPTH + 1) ⟨[root.selfRef], [], [root]⟩).map
    (List.insertionSort fun a b => b.round ≤ a.round)

/-! ## The writes -/

inductive UncompleteWrite (κ : Type u) where
  /-- A write that touches no slot and no column of a row kept here: the exchanges, penalties,
  events and requests of a bout, the copies of the rules, the forfeit records. -/
  | elsewhere
  | revertMatchToUnplayed (k : κ)
  | clearFedSides (self : κ) (slot : PhaseSlot κ)
  | clearDependentPairing (k : κ)
  deriving DecidableEq

def BoutRow.unplayed (row : BoutRow F) : BoutRow F :=
  { row with status := .scheduled, started := false, winner := none, live := MatchStatus.scheduled_ne_voided }

def UncompleteWrite.run : UncompleteWrite κ → BracketState κ F → BracketState κ F
  | .elsewhere, s => s
  | .revertMatchToUnplayed k, s => s.setRow k ((s.row k).map BoutRow.unplayed)
  | .clearFedSides self slot, s => clearSlot self slot s
  | .clearDependentPairing k, s => Advance.clearDependentPairing k s

def BracketState.hasBeenFought (s : BracketState κ F) (bout : PhaseSlot κ) : Bool :=
  (s.row bout.selfRef).any BoutRow.hasStarted

/-- Exchanges, penalties and the reset event first, the row, then the requests. -/
def revertFought (fought : List (PhaseSlot κ)) : List (UncompleteWrite κ) :=
  (fought.flatMap fun bout => [.elsewhere, .elsewhere, .elsewhere,
    .revertMatchToUnplayed bout.selfRef, .elsewhere]) ++
  if fought = [] then [] else [.elsewhere]

def clearDownstreamOf (phase : BracketPhase κ) (self : κ) : List (UncompleteWrite κ) :=
  (phase.downstreamSlots self).map (.clearFedSides self)

def clearAllFed (phase : BracketPhase κ) (root : PhaseSlot κ)
    (fought dependents : List (PhaseSlot κ)) (s : BracketState κ F) : List (UncompleteWrite κ) :=
  clearDownstreamOf phase root.selfRef ++
  (fought.flatMap fun bout => clearDownstreamOf phase bout.selfRef) ++
  (dependents.filter fun bout => (s.row bout.selfRef).isSome).map fun bout =>
    .clearDependentPairing bout.selfRef

inductive UncompleteRefusal where
  | walkExceeded

/-- Allowed, and with the loss of the later bouts accepted. -/
def onMatchUncompleted (phase : BracketPhase κ) (root : PhaseSlot κ) (s : BracketState κ F) :
    Sent (UncompleteWrite κ) UncompleteRefusal :=
  match dependentClosure phase root with
  | none => .refuse .walkExceeded
  | some dependents =>
    let fought := dependents.filter s.hasBeenFought
    .write (revertFought fought ++ clearAllFed phase root fought dependents s ++ [.elsewhere])

section Sent

variable (phase : BracketPhase κ) (root : PhaseSlot κ) (s : BracketState κ F)

/-- One call that is not cut short. -/
def uncompleted : BracketState κ F :=
  (onMatchUncompleted phase root s).done UncompleteWrite.run s

/-- The call is cut short after these writes, and comes to its end when it is called again. -/
def uncompletedAgain (before : List (UncompleteWrite κ)) : BracketState κ F :=
  uncompleted phase root (runAll UncompleteWrite.run before s)

end Sent

end MyClash.Bracket.Advance
