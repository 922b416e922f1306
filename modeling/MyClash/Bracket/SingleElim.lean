import MyClash.Bracket.Seeding
import MyClash.Bracket.Source

/-!
# The single-elimination generator

`singleElimBracket`. Without an explicit size the bracket rounds down and the surplus
meets in round 0; with one, the seeds past the field become byes of round 1.
-/

namespace MyClash.Bracket

open Knockout

structure SlotRef where
  round : ℕ
  position : ℕ
  deriving DecidableEq

abbrev Source := Feed SlotRef

namespace SlotRef

/-- `buildSelfRef` for a single elimination. -/
def text (ref : SlotRef) : String := roundPositionText ref.round ref.position

theorem text_injective : Function.Injective text := by
  intro a b h
  obtain ⟨hRound, hPosition⟩ := roundPositionText_inj h
  cases a
  cases b
  simp_all

end SlotRef

structure BracketSlot where
  round : ℕ
  position : ℕ
  homeSeed : Option ℕ
  awaySeed : Option ℕ
  isBye : Bool
  homeSource : Source
  awaySource : Source
  sourceAType : SourceType
  sourceBType : SourceType
  deriving DecidableEq

/-- Every slot is written so: a seed on the seed-sourced sides only, and a bye when one of
its sides is. -/
def bracketSlot (round position : ℕ) (homeSource awaySource : Source) : BracketSlot where
  round := round
  position := position
  homeSeed := sourceSeed homeSource
  awaySeed := sourceSeed awaySource
  isBye := homeSource.isBye || awaySource.isBye
  homeSource := homeSource
  awaySource := awaySource
  sourceAType := sourceType homeSource
  sourceBType := sourceType awaySource

namespace BracketSlot

def ref (s : BracketSlot) : SlotRef := ⟨s.round, s.position⟩

def node (s : BracketSlot) : Node SlotRef := ⟨s.ref, s.homeSource, s.awaySource⟩

end BracketSlot

structure SingleElimBracket where
  bracketSize : ℕ
  mainBracketSize : ℕ
  fighterCount : ℕ
  byeCount : ℕ
  byeSeedCount : ℕ
  playInMatchCount : ℕ
  hasPlayInRound : Bool
  rounds : ℕ
  slots : List BracketSlot

def MAX_SINGLE_ELIM_BRACKET_SIZE : ℕ := 128

/-- Round 0: the lowest direct seed meets the lowest fighter. -/
def playInSlots (fighterCount byeSeedCount playInMatchCount : ℕ) : List BracketSlot :=
  (List.range' 1 playInMatchCount).map fun pos =>
    bracketSlot 0 pos (.seed (byeSeedCount + pos)) (.seed (fighterCount - pos + 1))

/-- Where a seat of round 1 takes its fighter from. -/
def seatSource (useLegacyByeMode hasPlayInRound : Bool) (fighterCount byeSeedCount seed : ℕ) :
    Source :=
  if useLegacyByeMode && decide (fighterCount < seed) then .bye
  else if hasPlayInRound && decide (byeSeedCount < seed) then .winnerOf ⟨0, seed - byeSeedCount⟩
  else .seed seed

def firstRoundSlots (bracketSize : ℕ) (seat : ℕ → Source) : List BracketSlot :=
  ((buildSeedingOrder bracketSize).zipIdx 1).map fun (pair, pos) =>
    bracketSlot 1 pos (seat pair.1) (seat pair.2)

def winnerSlots (bracketSize rounds : ℕ) : List BracketSlot :=
  (List.range' 2 (rounds - 1)).flatMap fun round =>
    (List.range' 1 (bracketSize / 2 ^ round)).map fun pos =>
      bracketSlot round pos (.winnerOf ⟨round - 1, (pos - 1) * 2 + 1⟩)
        (.winnerOf ⟨round - 1, (pos - 1) * 2 + 2⟩)

def bronzeSlots (bracketSize rounds : ℕ) : List BracketSlot :=
  if 4 ≤ bracketSize then
    [bracketSlot rounds 2 (.loserOf ⟨rounds - 1, 1⟩) (.loserOf ⟨rounds - 1, 2⟩)]
  else []

/-- The size the options ask for, before the upper limit. -/
def resolveBracketSize (fighterCount : ℕ) : Option ℕ → Except String ℕ
  | some bracketSize =>
    if bracketSize < 2 ∨ bracketSize &&& (bracketSize - 1) ≠ 0 then
      .error s!"bracketSize must be a power of 2 (got {bracketSize})"
    else if bracketSize < fighterCount then
      .error s!"bracketSize ({bracketSize}) must be ≥ fighterCount ({fighterCount})"
    else .ok bracketSize
  | none =>
    .ok (if isPowerOf2 fighterCount then fighterCount else highestPowerOf2Below fighterCount)

def singleElimSlots (useLegacyByeMode hasPlayInRound : Bool)
    (fighterCount bracketSize byeSeedCount playInMatchCount rounds : ℕ) : List BracketSlot :=
  playInSlots fighterCount byeSeedCount playInMatchCount ++
    firstRoundSlots bracketSize
      (seatSource useLegacyByeMode hasPlayInRound fighterCount byeSeedCount) ++
    winnerSlots bracketSize rounds ++ bronzeSlots bracketSize rounds

def singleElimBracket (fighterCount : ℕ) (size : Option ℕ) : Except String SingleElimBracket :=
  if fighterCount < 2 then .error "Need at least 2 fighters for a bracket"
  else
    match resolveBracketSize fighterCount size with
    | .error message => .error message
    | .ok bracketSize =>
      if MAX_SINGLE_ELIM_BRACKET_SIZE < bracketSize then
        .error s!"bracketSize must be <= {MAX_SINGLE_ELIM_BRACKET_SIZE} (got {bracketSize})"
      else
        let useLegacyByeMode := size.isSome
        let playInMatchCount :=
          if useLegacyByeMode || isPowerOf2 fighterCount then 0 else fighterCount - bracketSize
        let hasPlayInRound := decide (0 < playInMatchCount)
        let byeSeedCount :=
          if useLegacyByeMode then bracketSize - fighterCount
          else if hasPlayInRound then bracketSize - playInMatchCount
          else 0
        let byeCount := if useLegacyByeMode then bracketSize - fighterCount else byeSeedCount
        let rounds := Nat.log2 bracketSize
        .ok
          { bracketSize
            mainBracketSize := bracketSize
            fighterCount
            byeCount
            byeSeedCount
            playInMatchCount
            hasPlayInRound
            rounds
            slots := singleElimSlots useLegacyByeMode hasPlayInRound fighterCount bracketSize
              byeSeedCount playInMatchCount rounds }

namespace SingleElimBracket

def nodes (b : SingleElimBracket) : List (Node SlotRef) := b.slots.map BracketSlot.node

def isFinal (b : SingleElimBracket) (s : BracketSlot) : Bool :=
  s.round == b.rounds && s.position == 1

/-- Only its position tells the bronze bout from the final. -/
def isBronze (b : SingleElimBracket) (s : BracketSlot) : Bool :=
  s.round == b.rounds && s.position == 2

def isSemiFinal (b : SingleElimBracket) (s : BracketSlot) : Bool :=
  s.round + 1 == b.rounds

/-- The bracket played to its end, byes letting their lone fighter through. -/
def played (b : SingleElimBracket) (homeWins : SlotRef → Bool) : SlotRef → Result :=
  play homeWins b.nodes noResults

end SingleElimBracket

example : (singleElimBracket 13 none).toOption.map
    (fun b => (b.slots.take 8).map fun s => (s.homeSource, s.awaySource)) =
    some [(.seed 4, .seed 13), (.seed 5, .seed 12), (.seed 6, .seed 11), (.seed 7, .seed 10),
      (.seed 8, .seed 9), (.seed 1, .winnerOf ⟨0, 5⟩), (.winnerOf ⟨0, 1⟩, .winnerOf ⟨0, 2⟩),
      (.seed 2, .winnerOf ⟨0, 4⟩)] := by
  decide +kernel

end MyClash.Bracket
