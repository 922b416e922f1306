import MyClash.Bracket.Seeding
import MyClash.Bracket.Source

/-!
# The double-elimination generator

`resolveDoubleElimShape` sizes a bracket and turns down what does not fit; the slot
builders write the play-in, the winners bracket, the losers bracket and the finals.
-/

namespace MyClash.Bracket

open Knockout

inductive SecondChanceTarget where
  | gold
  | bronze
  deriving DecidableEq

structure DoubleElimOptions where
  bracketSize : Option ℕ := none
  grandFinalReset : Option Bool := none
  secondChanceTarget : Option SecondChanceTarget := none
  bronzeMatch : Option Bool := none
  repechageEntrySize : Option ℕ := none

structure DoubleElimShape where
  bracketSize : ℕ
  fighterCount : ℕ
  playInMatchCount : ℕ
  hasPlayInRound : Bool
  byeSeedCount : ℕ
  wbRounds : ℕ
  lbRounds : ℕ
  secondChanceTarget : SecondChanceTarget
  bronzeMatch : Bool
  repechageEntrySize : ℕ
  repechageEntryRound : ℕ
  grandFinalReset : Bool

def MAX_DOUBLE_ELIM_BRACKET_SIZE : ℕ := 128

namespace DoubleElim

def resolveBracketSize (fighterCount : ℕ) (options : DoubleElimOptions) : Except String ℕ :=
  match options.bracketSize with
  | none =>
    .ok (if isPowerOf2 fighterCount then fighterCount else highestPowerOf2Below fighterCount)
  | some bracketSize =>
    if bracketSize < 2 || !isPowerOf2 bracketSize then
      .error s!"bracketSize must be a power of 2 (got {bracketSize})"
    else if fighterCount < bracketSize then
      .error (s!"bracketSize ({bracketSize}) must be <= fighterCount ({fighterCount}) — " ++
        "double elimination requires a full bracket, because byes in the winners " ++
        "bracket leave the losers bracket unfillable")
    else if bracketSize * 2 < fighterCount then
      .error (s!"fighterCount ({fighterCount}) must be <= 2 x bracketSize ({bracketSize}) — " ++
        "the play-in round cannot absorb more than one extra fighter per seat")
    else .ok bracketSize

def resolveRepechageEntrySize (bracketSize : ℕ) (options : DoubleElimOptions) :
    Except String ℕ :=
  match options.repechageEntrySize with
  | none => .ok bracketSize
  | some requested =>
    if requested < 2 || !isPowerOf2 requested then
      .error s!"repechageEntrySize must be a power of 2 (got {requested})"
    else if bracketSize < requested then
      .error (s!"repechageEntrySize ({requested}) must be <= bracketSize ({bracketSize}) — " ++
        "the cutoff names a winners-bracket depth, so it cannot be deeper than the bracket")
    else .ok requested

/-- The option that does nothing under the target, if one is set. -/
def rejectInapplicableOptions (target : SecondChanceTarget) (options : DoubleElimOptions) :
    Except String Unit :=
  if target = .gold ∧ options.bronzeMatch.isSome then
    .error ("bronzeMatch does not apply when secondChanceTarget is \"gold\" — third place is " ++
      "already decided by the losers-bracket final")
  else if target = .bronze ∧ options.grandFinalReset = some true then
    .error ("grandFinalReset does not apply when secondChanceTarget is \"bronze\" — the " ++
      "winners-bracket final decides gold and silver, so there is no grand final")
  else .ok ()

def resolveLbRounds (repechageEntrySize : ℕ) (target : SecondChanceTarget) (bronzeMatch : Bool) :
    Except String ℕ :=
  let full := 2 * (Nat.log2 repechageEntrySize - 1)
  match target with
  | .gold => .ok full
  | .bronze =>
    let lbRounds := full - (if bronzeMatch then 1 else 2)
    if lbRounds < 1 then
      .error ("secondChanceTarget \"bronze\"" ++
        (if bronzeMatch then "" else " without a bronze match") ++
        " needs a second-chance field of at least " ++ (if bronzeMatch then "4" else "8") ++
        s!" (got {repechageEntrySize}) — below that the repechage has no rounds left to play")
    else .ok lbRounds

def resolveDoubleElimShape (fighterCount : ℕ) (options : DoubleElimOptions) :
    Except String DoubleElimShape := do
  if fighterCount < 2 then throw "Need at least 2 fighters for a bracket"
  let bracketSize ← resolveBracketSize fighterCount options
  if MAX_DOUBLE_ELIM_BRACKET_SIZE < bracketSize then
    throw s!"bracketSize must be <= {MAX_DOUBLE_ELIM_BRACKET_SIZE} (got {bracketSize})"
  let secondChanceTarget := options.secondChanceTarget.getD .gold
  rejectInapplicableOptions secondChanceTarget options
  let repechageEntrySize ← resolveRepechageEntrySize bracketSize options
  let bronzeMatch := secondChanceTarget == .bronze && options.bronzeMatch.getD true
  let lbRounds ← resolveLbRounds repechageEntrySize secondChanceTarget bronzeMatch
  let wbRounds := Nat.log2 bracketSize
  let playInMatchCount := fighterCount - bracketSize
  let hasPlayInRound := decide (0 < playInMatchCount)
  return {
    bracketSize
    fighterCount
    playInMatchCount
    hasPlayInRound
    byeSeedCount := if hasPlayInRound then bracketSize - playInMatchCount else 0
    wbRounds
    lbRounds
    secondChanceTarget
    bronzeMatch
    repechageEntrySize
    repechageEntryRound := wbRounds + 1 - Nat.log2 repechageEntrySize
    grandFinalReset := secondChanceTarget == .gold && options.grandFinalReset == some true }

end DoubleElim

/-- The canonical reference of a slot. -/
inductive MatchRef where
  | wb (round position : ℕ)
  | lb (round position : ℕ)
  | gf
  | gfReset
  deriving DecidableEq

namespace MatchRef

def text : MatchRef → String
  | .wb round position => "WB" ++ roundPositionText round position
  | .lb round position => "LB" ++ roundPositionText round position
  | .gf => "GF"
  | .gfReset => "GFRESET"

theorem text_injective : Function.Injective text := by
  intro a b h
  have hChars := congrArg String.toList h
  cases a <;> cases b <;> simp [text] at h hChars ⊢
  · exact roundPositionText_inj h
  · exact roundPositionText_inj h

end MatchRef

abbrev MatchSource := Feed MatchRef

inductive SlotSection where
  | WB
  | LB
  | GF
  | RESET
  deriving DecidableEq

structure DoubleElimSlot where
  round : ℕ
  position : ℕ
  slotSection : SlotSection
  homeSource : MatchSource
  awaySource : MatchSource
  sourceAType : SourceType
  sourceBType : SourceType
  isBye : Bool
  homeSeed : Option ℕ
  awaySeed : Option ℕ

namespace DoubleElim

/-- Every slot is written so; none of them is a bye. -/
def slot (round position : ℕ) (slotSection : SlotSection) (homeSource awaySource : MatchSource) :
    DoubleElimSlot where
  round := round
  position := position
  slotSection := slotSection
  homeSource := homeSource
  awaySource := awaySource
  sourceAType := sourceType homeSource
  sourceBType := sourceType awaySource
  isBye := false
  homeSeed := sourceSeed homeSource
  awaySeed := sourceSeed awaySource

def buildPlayInSlots (fighterCount byeSeedCount playInMatchCount : ℕ) : List DoubleElimSlot :=
  (List.range' 1 playInMatchCount).map fun pos =>
    slot 0 pos .WB (.seed (byeSeedCount + pos)) (.seed (fighterCount - pos + 1))

/-- A low seat of round 1 waits for a play-in winner. -/
def seatSource (hasPlayInRound : Bool) (byeSeedCount seed : ℕ) : MatchSource :=
  if hasPlayInRound && decide (byeSeedCount < seed) then .winnerOf (.wb 0 (seed - byeSeedCount))
  else .seed seed

def buildWinnersSlots (bracketSize byeSeedCount : ℕ) (hasPlayInRound : Bool) (wbRounds : ℕ) :
    List DoubleElimSlot :=
  (((buildSeedingOrder bracketSize).zipIdx 1).map fun (pair, pos) =>
    slot 1 pos .WB (seatSource hasPlayInRound byeSeedCount pair.1)
      (seatSource hasPlayInRound byeSeedCount pair.2)) ++
  (List.range' 2 (wbRounds - 1)).flatMap fun wbRound =>
    (List.range' 1 (bracketSize / 2 ^ wbRound)).map fun pos =>
      slot wbRound pos .WB (.winnerOf (.wb (wbRound - 1) ((pos - 1) * 2 + 1)))
        (.winnerOf (.wb (wbRound - 1) ((pos - 1) * 2 + 2)))

/-- The two sources of losers-bracket round `k`, position `pos`. -/
def lbSources (k pos entryRound : ℕ) : MatchSource × MatchSource :=
  if k = 1 then
    (.loserOf (.wb entryRound (2 * pos - 1)), .loserOf (.wb entryRound (2 * pos)))
  else if k % 2 = 0 then
    (.winnerOf (.lb (k - 1) pos), .loserOf (.wb (entryRound + k / 2) pos))
  else
    (.winnerOf (.lb (k - 1) (2 * pos - 1)), .winnerOf (.lb (k - 1) (2 * pos)))

def buildLosersSlots (repechageEntrySize entryRound wbRounds lbRounds : ℕ) :
    List DoubleElimSlot :=
  (List.range' 1 lbRounds).flatMap fun k =>
    (List.range' 1 (repechageEntrySize / (4 * 2 ^ ((k - 1) / 2)))).map fun pos =>
      slot (wbRounds + k) pos .LB (lbSources k pos entryRound).1 (lbSources k pos entryRound).2

def buildFinalsSlots (wbRounds lbRounds : ℕ) (grandFinalReset : Bool)
    (secondChanceTarget : SecondChanceTarget) : List DoubleElimSlot :=
  match secondChanceTarget with
  | .bronze => []
  | .gold =>
    let gfRound := wbRounds + lbRounds + 1
    slot gfRound 1 .GF (.winnerOf (.wb wbRounds 1))
        (if 0 < lbRounds then .winnerOf (.lb lbRounds 1) else .loserOf (.wb wbRounds 1)) ::
      if grandFinalReset then [slot (gfRound + 1) 1 .RESET (.loserOf .gf) (.winnerOf .gf)] else []

end DoubleElim

structure DoubleElimBracket where
  bracketSize : ℕ
  mainBracketSize : ℕ
  fighterCount : ℕ
  byeCount : ℕ
  byeSeedCount : ℕ
  playInMatchCount : ℕ
  hasPlayInRound : Bool
  wbRounds : ℕ
  lbRounds : ℕ
  secondChanceTarget : SecondChanceTarget
  bronzeMatch : Bool
  repechageEntrySize : ℕ
  repechageEntryRound : ℕ
  grandFinalReset : Bool
  slots : List DoubleElimSlot

namespace DoubleElim

def ofShape (shape : DoubleElimShape) : DoubleElimBracket where
  bracketSize := shape.bracketSize
  mainBracketSize := shape.bracketSize
  fighterCount := shape.fighterCount
  byeCount := 0
  byeSeedCount := shape.byeSeedCount
  playInMatchCount := shape.playInMatchCount
  hasPlayInRound := shape.hasPlayInRound
  wbRounds := shape.wbRounds
  lbRounds := shape.lbRounds
  secondChanceTarget := shape.secondChanceTarget
  bronzeMatch := shape.bronzeMatch
  repechageEntrySize := shape.repechageEntrySize
  repechageEntryRound := shape.repechageEntryRound
  grandFinalReset := shape.grandFinalReset
  slots :=
    buildPlayInSlots shape.fighterCount shape.byeSeedCount shape.playInMatchCount ++
      buildWinnersSlots shape.bracketSize shape.byeSeedCount shape.hasPlayInRound
        shape.wbRounds ++
      buildLosersSlots shape.repechageEntrySize shape.repechageEntryRound shape.wbRounds
        shape.lbRounds ++
      buildFinalsSlots shape.wbRounds shape.lbRounds shape.grandFinalReset
        shape.secondChanceTarget

end DoubleElim

def doubleElimBracket (fighterCount : ℕ) (options : DoubleElimOptions) :
    Except String DoubleElimBracket :=
  (DoubleElim.resolveDoubleElimShape fighterCount options).map DoubleElim.ofShape

/-- The closed form the generator's slot count is checked against. -/
def totalDoubleElimMatches (fighterCount : ℕ) (options : DoubleElimOptions) :
    Except String ℕ :=
  (DoubleElim.resolveDoubleElimShape fighterCount options).map fun shape =>
    let truncation :=
      if shape.secondChanceTarget = .bronze then (if shape.bronzeMatch then 1 else 2) else 0
    let lbMatches := shape.repechageEntrySize - 2 - truncation
    let finals :=
      if shape.secondChanceTarget = .bronze then 0 else 1 + (if shape.grandFinalReset then 1 else 0)
    shape.playInMatchCount + (shape.bracketSize - 1) + lbMatches + finals

namespace DoubleElimBracket

/-- `buildSelfRef`, which reads a slot by its absolute round. -/
def selfRef (b : DoubleElimBracket) (s : DoubleElimSlot) : MatchRef :=
  if s.round ≤ b.wbRounds then .wb s.round s.position
  else if s.round ≤ b.wbRounds + b.lbRounds then .lb (s.round - b.wbRounds) s.position
  else if s.round = b.wbRounds + b.lbRounds + 1 then .gf
  else .gfReset

def node (b : DoubleElimBracket) (s : DoubleElimSlot) : Node MatchRef :=
  ⟨b.selfRef s, s.homeSource, s.awaySource⟩

def nodes (b : DoubleElimBracket) : List (Node MatchRef) := b.slots.map b.node

def sides (b : DoubleElimBracket) : List MatchSource := b.nodes.flatMap Node.sides

/-- The bouts that come to be fought: a reset only when the losers-bracket entrant wins the
grand final (`grandFinalEndsBracket`). -/
def fought (b : DoubleElimBracket) (homeWins : MatchRef → Bool) : List (Node MatchRef) :=
  if b.grandFinalReset && homeWins .gf then b.nodes.filter fun n => n.key != .gfReset
  else b.nodes

def played (b : DoubleElimBracket) (homeWins : MatchRef → Bool) : MatchRef → Result :=
  play homeWins (b.fought homeWins) noResults

end DoubleElimBracket

end MyClash.Bracket
