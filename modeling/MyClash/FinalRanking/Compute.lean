import MyClash.FinalRanking.Placement

/-!
# The final ranking

The two bracket orderings, the order of a Swiss phase, and `computeFinalRanking`, which puts
everyone who only fought in the pools below the bracket.
-/

namespace MyClash.FinalRanking

open StableSort
open Bracket (SecondChanceTarget)

inductive PhaseType where
  | single_elim
  | double_elim
  | swiss
  deriving DecidableEq

structure RankingBracketShape where
  phaseType : PhaseType
  wbRounds : Option ℕ := none
  lbRounds : Option ℕ := none
  secondChanceTarget : Option SecondChanceTarget := none
  bronzeMatch : Option Bool := none
  repechageEntryRound : Option ℕ := none

/-- What a bracket payload says of its shape. -/
structure BracketPayload where
  phaseType : Option String
  wbRounds : Option ℕ
  lbRounds : Option ℕ
  secondChanceTarget : Option String
  bronzeMatch : Option Bool
  repechageEntryRound : Option ℕ

/-- Anything not recorded as a double elimination or a Swiss phase reads as a single
elimination. -/
def rankingBracketShape (bracket : BracketPayload) : RankingBracketShape where
  phaseType :=
    if bracket.phaseType = some "double_elim" then .double_elim
    else if bracket.phaseType = some "swiss" then .swiss
    else .single_elim
  wbRounds := bracket.wbRounds
  lbRounds := bracket.lbRounds
  secondChanceTarget :=
    some (if bracket.secondChanceTarget = some "bronze" then .bronze else .gold)
  bronzeMatch := bracket.bronzeMatch
  repechageEntryRound := bracket.repechageEntryRound

variable (collate : String → String → Ordering)

/-! ## Single elimination -/

def maxRound (slots : List RankingSlot) : ℕ := slots.foldl (fun m s => max m s.round) 0

def findBronzeSlot (slots : List RankingSlot) (bronzeSlotId : Option String) :
    Option RankingSlot :=
  match truthy bronzeSlotId with
  | some id => slots.find? fun s => s.id == id
  | none => slots.find? fun s => s.round == maxRound slots && s.position == 2

/-- Everything but the bronze bout. -/
def mainSlotsOf (slots : List RankingSlot) (bronzeSlot : Option RankingSlot) :
    List RankingSlot :=
  match bronzeSlot with
  | some bronze => slots.filter fun s => s.id != bronze.id
  | none => slots

def placePodium (r : Ranking) (wl : WinnerLoser) (first second : FinalRankingResultKind) :
    Ranking := (r.push wl.winner first).push wl.loser second

def placeBronzeBout (bronzeSlot : Option RankingSlot) (r : Ranking) : Ranking :=
  match bronzeSlot.bind winnerLoser with
  | some wl => placePodium r wl .third .fourth
  | none => r

/-- The bronze bout's two, then the losers of the rounds before the last. -/
def placeBelowFinal (bronzeSlot : Option RankingSlot) (mainSlots : List RankingSlot) (last : ℕ)
    (r : Ranking) : Ranking :=
  (placeBronzeBout bronzeSlot r).pushRounds collate (mainSlots.filter fun s => s.round != last)
    fun round => { eliminationRound := some round }

/-- Without a decided final there is no ranking. -/
def orderSingleElim (slots : List RankingSlot) (bronzeSlotId : Option String) (r : Ranking) :
    Option Ranking :=
  let last := maxRound slots
  let bronzeSlot := findBronzeSlot slots bronzeSlotId
  let mainSlots := mainSlotsOf slots bronzeSlot
  let finalSlot := (mainSlots.find? fun s => s.round == last && s.position == 1).or
    (mainSlots.find? fun s => s.round == last)
  match finalSlot.bind winnerLoser with
  | none => none
  | some finalWl =>
    some (placeBelowFinal collate bronzeSlot mainSlots last
      (placePodium r finalWl .champion .runnerUp))

/-! ## Double elimination -/

structure DoubleElimLayout where
  wbRounds : ℕ
  lbRounds : ℕ
  isBronze : Bool
  bronzeMatch : Bool
  entryRound : ℕ
  lastLbRound : ℕ

def readLayout (shape : RankingBracketShape) : DoubleElimLayout :=
  let wbRounds := shape.wbRounds.getD 0
  let lbRounds := shape.lbRounds.getD 0
  let isBronze := shape.secondChanceTarget == some .bronze
  { wbRounds
    lbRounds
    isBronze
    bronzeMatch := isBronze && shape.bronzeMatch != some false
    entryRound := shape.repechageEntryRound.getD 1
    lastLbRound := wbRounds + lbRounds }

/-- The first bout of a round. -/
def slotAt (slots : List RankingSlot) (round : ℕ) : Option RankingSlot :=
  slots.find? fun s => s.round == round && s.position == 1

/-- The bout that decides the title: a reset only once it was played. -/
def decidingSlot (slots : List RankingSlot) (layout : DoubleElimLayout) : Option RankingSlot :=
  if layout.isBronze then slotAt slots layout.wbRounds
  else
    let gfRound := layout.lastLbRound + 1
    match slotAt slots (gfRound + 1) with
    | some reset => if (winnerLoser reset).isSome then some reset else slotAt slots gfRound
    | none => slotAt slots gfRound

def placeTitle (slots : List RankingSlot) (layout : DoubleElimLayout) (r : Ranking) :
    Option Ranking :=
  match (decidingSlot slots layout).bind winnerLoser with
  | none => none
  | some wl => some (placePodium r wl .champion .runnerUp)

/-- Third and fourth of the bronze mode: the bronze bout's two, or the two survivors. -/
def placeBronzePodium (slots : List RankingSlot) (layout : DoubleElimLayout) (r : Ranking) :
    Ranking :=
  if !layout.isBronze then r
  else
    let lastRound := slots.filter fun s => s.round == layout.lastLbRound
    if layout.bronzeMatch then placeBronzeBout lastRound.head? r
    else
      let survivors := (lastRound.filterMap winnerLoser).map WinnerLoser.winner
      (sortWith (r.byPoolScore collate) survivors).foldl
        (fun r side => r.push side (if r.entries.length == 2 then .third else .fourth)) r

/-- Losers-bracket exits, counted from its first round. -/
def placeLosersBracket (slots : List RankingSlot) (layout : DoubleElimLayout) (r : Ranking) :
    Ranking :=
  r.pushRounds collate
    (slots.filter fun s => decide (layout.wbRounds < s.round ∧ s.round ≤ layout.lastLbRound))
    (fun round => { eliminationRound := some (round - layout.wbRounds), bracketSection := some .LB })
    (!layout.isBronze)

/-- The rounds whose losers have no second chance. -/
def placePreCutoffWinners (slots : List RankingSlot) (layout : DoubleElimLayout) (r : Ranking) :
    Ranking :=
  if layout.entryRound ≤ 1 then r
  else
    r.pushRounds collate
      (slots.filter fun s => decide (1 ≤ s.round ∧ s.round < layout.entryRound))
      fun round => { eliminationRound := some round, bracketSection := some .WB }

def placePlayIn (slots : List RankingSlot) (r : Ranking) : Ranking :=
  let playIn := losersByRound (slots.filter fun s => s.round == 0) r
  (sortWith (r.byPoolScore collate) (losersOf playIn 0)).foldl
    (fun r side =>
      r.push side .round { eliminationRound := some 0, bracketSection := some .PLAYIN }) r

/-- Everyone below the title. Play-in losers went out on a single loss, below everyone who
reached the main bracket. -/
def placeBelowTitle (slots : List RankingSlot) (layout : DoubleElimLayout) (r : Ranking) :
    Ranking :=
  let r := placeBronzePodium collate slots layout r
  let r := placeLosersBracket collate slots layout r
  let r := placePreCutoffWinners collate slots layout r
  placePlayIn collate slots r

def orderDoubleElim (slots : List RankingSlot) (shape : RankingBracketShape) (r : Ranking) :
    Option Ranking :=
  let layout := readLayout shape
  (placeTitle slots layout r).map (placeBelowTitle collate slots layout)

/-! ## The whole ranking -/

def PoolEntry.side (e : PoolEntry) : Side := ⟨e.registrationId, e.fighterName, e.clubAbbrev⟩

def swissResultKind (placedSoFar : ℕ) : FinalRankingResultKind :=
  match placedSoFar with
  | 0 => .champion
  | 1 => .runnerUp
  | 2 => .third
  | 3 => .fourth
  | _ => .swiss

/-- The standings as they are. -/
def orderSwiss (standings : List PoolEntry) (r : Ranking) : Ranking :=
  standings.foldl (fun r entry => r.push entry.side (swissResultKind r.entries.length)) r

/-- Every registration that stands anywhere in the bracket. -/
def bracketRegIds (slots : List RankingSlot) : List String :=
  slots.flatMap fun s =>
    (truthy s.redRegistrationId).toList ++ (truthy s.blueRegistrationId).toList

/-- Everyone who fought in the pools but never reached the bracket. -/
def placeNonBracket (slots : List RankingSlot) (poolEntries : List PoolEntry) (r : Ranking) :
    Ranking :=
  let nonBracket := (poolEntries.map PoolEntry.side).filter fun e =>
    decide (e.registrationId ∉ bracketRegIds slots) && !r.has e.registrationId
  (sortWith (r.byPoolScore collate) nonBracket).foldl (fun r side => r.push side .pool) r

def orderBracket (slots : List RankingSlot) (bronzeSlotId : Option String)
    (bracket : Option RankingBracketShape) (r : Ranking) : Option Ranking :=
  match bracket with
  | some shape =>
    if shape.phaseType = .double_elim then orderDoubleElim collate slots shape r
    else orderSingleElim collate slots bronzeSlotId r
  | none => orderSingleElim collate slots bronzeSlotId r

def computeFinalRanking (slots : List RankingSlot) (poolEntries : List PoolEntry)
    (bronzeSlotId : Option String) (bracket : Option RankingBracketShape) :
    List FinalRankingEntry :=
  let r := Ranking.new poolEntries
  if bracket.map RankingBracketShape.phaseType = some .swiss then
    (orderSwiss poolEntries r).entries
  else
    match orderBracket collate slots bronzeSlotId bracket r with
    | none => []
    | some r => (placeNonBracket collate slots poolEntries r).entries

end MyClash.FinalRanking
