import MyClash.Swiss.Phase
import Mathlib.Data.Nat.Log

/-!
# Drawing the field and generating the phase

`resolveSeeding` orders the field, `generateSwiss` stores it as entrant rows and pairs
round 1 through `planRound`, which every later round goes through as well.
-/

namespace MyClash.Swiss

open StableSort

universe u

/-! ## The strategies -/

structure SeedableRegistration (ι : Type u) where
  id : ι
  seed : Option ℤ
  bibNumber : Option ℤ
  hemaRatingsId : Option String
  deriving DecidableEq

structure RankedRegistration (ι : Type u) where
  rank : ℕ
  registrationId : ι

/-- One step of the generator: the next state and the 32 bits it draws. -/
def mulberry32 (seed : UInt32) : UInt32 × UInt32 :=
  let seed := seed + 0x6d2b79f5
  let t := (seed ^^^ (seed >>> 15)) * (1 ||| seed)
  let t := (t + (t ^^^ (t >>> 7)) * (61 ||| t)) ^^^ t
  (seed, t ^^^ (t >>> 14))

/-- The swaps from `i` down to 1, with `j` the drawn fraction of `i + 1`. -/
def shuffleFrom {α : Type*} : ℕ → UInt32 → Array α → Array α
  | 0, _, pool => pool
  | i + 1, seed, pool =>
    let (seed', draw) := mulberry32 seed
    shuffleFrom i seed' (pool.swapIfInBounds (i + 1) (draw.toNat * (i + 2) / 2 ^ 32))

def noneLast {α : Type*} (cmp : α → α → Ordering) : Option α → Option α → Ordering
  | some a, some b => cmp a b
  | some _, none => .lt
  | none, some _ => .gt
  | none, none => .eq

section Strategies

variable {ι : Type u} [LinearOrder ι]

def rankInOrder (ids : List ι) : List (RankedRegistration ι) :=
  ids.mapIdx fun index registrationId => ⟨index + 1, registrationId⟩

def rankRandom (regs : List (SeedableRegistration ι)) (prngSeed : ℤ) :
    List (RankedRegistration ι) :=
  let pool := sortWith compare (regs.map (·.id))
  rankInOrder (shuffleFrom (pool.length - 1) (UInt32.ofInt prngSeed) pool.toArray).toList

/-- An empty HEMA id is no id. -/
def ratingOf (ratings : String → Option ℚ) (reg : SeedableRegistration ι) : Option ℚ :=
  (reg.hemaRatingsId.filter (· ≠ "")).bind ratings

def ratingOrder (ratings : String → Option ℚ) (a b : SeedableRegistration ι) : Ordering :=
  ((noneLast (fun x y => compare y x) (ratingOf ratings a) (ratingOf ratings b)).then
    (noneLast compare (a.seed.or a.bibNumber) (b.seed.or b.bibNumber))).then (compare a.id b.id)

def rankByRating (regs : List (SeedableRegistration ι)) (ratings : String → Option ℚ) :
    List (RankedRegistration ι) :=
  rankInOrder ((sortWith (ratingOrder ratings) regs).map (·.id))

def idsOf (ranked : List (RankedRegistration ι)) : List ι :=
  (sortWith (compareOn (·.rank)) ranked).map (·.registrationId)

structure PoolMember (ι : Type u) where
  registrationId : ι
  seed : Option ℤ
  poolOrder : Option ℤ

def snakeAcrossPools (members : List (PoolMember ι)) : List ι :=
  (sortWith (compareLex (compareOn fun m : PoolMember ι => m.seed.getD maxSafeInteger)
    (compareOn fun m => m.poolOrder.getD 0)) members).map (·.registrationId)

end Strategies

/-! ## Resolving the order -/

inductive SwissSeedingStrategy where
  | random
  | byRating
  | byPoolRank

structure RatingCoverage where
  rated : ℕ
  total : ℕ
  percent : ℕ
  deriving DecidableEq

structure SwissSeeding (ι : Type u) where
  order : List ι
  seed : Option ℤ
  coverage : Option RatingCoverage
  deriving DecidableEq

structure PoolPhase (ι : Type u) where
  bouts : List MatchStatus
  members : List (PoolMember ι)

/-- Between 3 and 9, as the config schema has it. -/
abbrev RoundCount := { n : ℕ // 3 ≤ n ∧ n ≤ 9 }

structure GenerateSwissDto where
  roundCount : Option RoundCount
  seedingStrategy : Option SwissSeedingStrategy
  seedingRandomSeed : Option ℤ
  pairingMethod : Option SwissPairingMethod
  grouping : Option SwissGrouping
  points : Option SwissPoints
  minRatingCoveragePercent : Option ℚ

/-- What generation reads from outside: the ratings service and its rounded percentage, the
pool phase, the drawn seed, the standings' scores, and the entrant rows as a read orders them. -/
structure SwissSource (ι : Type u) where
  registrations : List (SeedableRegistration ι)
  ratings : String → Option ℚ
  percentOf : ℕ → ℕ → ℕ
  poolPhase : Option (PoolPhase ι)
  drawnSeed : ℤ
  standings : Option (ι → Option ℚ)
  load : List (SwissEntrantRecord ι) → List (SwissEntrantRecord ι)

inductive GenerateRefusal (ι : Type u) where
  | tooFewFighters
  | lowCoverage (coverage : RatingCoverage) (threshold : ℚ)
  | noPoolPhase
  | poolPhaseOpen
  | duplicateEntrant
  | previousRoundInvalid (roundNumber : ℕ) (validation : SwissRoundValidation ι)
  deriving DecidableEq

section Resolve

variable {ι : Type u} [LinearOrder ι]

def describeInvalidRound [ToString ι] (validation : SwissRoundValidation ι) : Option String :=
  if validation.valid then none
  else
    let part := fun (label : String) (ids : List ι) =>
      if 0 < ids.length then label ++ ", ".intercalate (ids.map toString) else ""
    some ("; ".intercalate (([part "fighting twice: " validation.duplicated,
      part "not in the round: " validation.missing,
      part "not an entrant: " validation.unknown]).filter (· ≠ "")))

def GenerateRefusal.message [ToString ι] : GenerateRefusal ι → String
  | .tooFewFighters => "A Swiss phase needs at least 2 registered fighters"
  | .lowCoverage coverage threshold =>
    "Only " ++ toString coverage.rated ++ " of " ++ toString coverage.total ++ " fighters (" ++
      toString coverage.percent ++ "%) have a HEMA rating, below the " ++ toString threshold ++
      "% required. Seed by random draw instead, or lower the threshold."
  | .noPoolPhase => "by-pool-rank seeding needs a pool phase on this tournament; none was found."
  | .poolPhaseOpen =>
    "by-pool-rank seeding needs the pool phase to be complete; some bouts are still open."
  | .duplicateEntrant => "duplicate key value violates unique constraint"
  | .previousRoundInvalid roundNumber validation =>
    "Round " ++ toString roundNumber ++ " is not a valid Swiss round (" ++
      (describeInvalidRound validation).getD "" ++
      "). Fix it before the next round can be paired."

def ratingCoverage (source : SwissSource ι) : RatingCoverage :=
  let rated := (source.registrations.filter fun reg => (ratingOf source.ratings reg).isSome).length
  let total := source.registrations.length
  ⟨rated, total, if total = 0 then 0 else source.percentOf rated total⟩

def rankFromCompletedPools (poolPhase : Option (PoolPhase ι)) :
    Except (GenerateRefusal ι) (List ι) :=
  match poolPhase with
  | none => .error .noPoolPhase
  | some phase =>
    if phase.bouts.length = 0 ∨ phase.bouts.any (· ≠ .completed) then .error .poolPhaseOpen
    else .ok (snakeAcrossPools phase.members)

def resolveSeeding (source : SwissSource ι) (dto : GenerateSwissDto) :
    Except (GenerateRefusal ι) (SwissSeeding ι) :=
  match dto.seedingStrategy.getD .random with
  | .byPoolRank => (rankFromCompletedPools source.poolPhase).map fun order => ⟨order, none, none⟩
  | .byRating =>
    let coverage := ratingCoverage source
    let threshold := dto.minRatingCoveragePercent.getD 0
    if coverage.percent < threshold then .error (.lowCoverage coverage threshold)
    else .ok ⟨idsOf (rankByRating source.registrations source.ratings), none, some coverage⟩
  | .random =>
    let seed := dto.seedingRandomSeed.getD source.drawnSeed
    .ok ⟨idsOf (rankRandom source.registrations seed), some seed, none⟩

end Resolve

/-! ## Planning and generating -/

structure SwissConfig where
  roundCount : RoundCount
  pairingMethod : SwissPairingMethod
  grouping : SwissGrouping
  points : SwissPoints
  deriving DecidableEq

def SwissConfig.options (config : SwissConfig) : SwissOptions :=
  ⟨config.pairingMethod, config.grouping⟩

def DEFAULT_SWISS_POINTS : SwissPoints := ⟨3, 1, 0, 3⟩

/-- `Nat.clog` is where the doubling loop of the source stops. -/
def recommendedRoundCount (fighterCount : ℕ) : RoundCount :=
  ⟨min 9 (max 3 (Nat.clog 2 fighterCount)), by omega⟩

def buildConfig (dto : GenerateSwissDto) (fighterCount : ℕ) : SwissConfig where
  roundCount := dto.roundCount.getD (recommendedRoundCount fighterCount)
  pairingMethod := dto.pairingMethod.getD .fold
  grouping := dto.grouping.getD .points
  points := dto.points.getD DEFAULT_SWISS_POINTS

section Generate

variable {ι : Type u} [LinearOrder ι]

def seedOrderOf (rounds : List (SwissRoundRecord ι)) : List ι :=
  match rounds.find? (·.roundNumber = 1) with
  | none => []
  | some first => first.ranked.getD []

/-- Only score bands read the scores, and only when the standings are there. -/
def withScores (config : SwissConfig) (standings : Option (ι → Option ℚ))
    (players : List (SwissPlayer ι)) : List (SwissPlayer ι) :=
  match config.grouping, standings with
  | .scoreBands _, some scoreOf => players.map fun p => { p with score := scoreOf p.registrationId }
  | _, _ => players

def planRound (config : SwissConfig) (standings : Option (ι → Option ℚ))
    (entrants : List (SwissEntrantRecord ι)) (rounds : List (SwissRoundRecord ι)) :
    Except (GenerateRefusal ι) (Option (PlannedRound ι)) :=
  let nextRoundNumber := rounds.length + 1
  if config.roundCount < nextRoundNumber then .ok none
  else
    let field := activeEntrants entrants nextRoundNumber
    let players := buildSwissPlayers field rounds config.points (seedOrderOf rounds)
    let planned : PlannedRound ι :=
      { roundNumber := nextRoundNumber
        plan := planSwissRound (withScores config standings players) config.options
        field := field.map (·.registrationId) }
    match rounds.getLast? with
    | none => .ok (some planned)
    | some previous =>
      let validation := validateSwissRound
        ((activeEntrants entrants previous.roundNumber).map (·.registrationId))
        previous.bouts previous.byeRegistrationId
      if validation.valid then .ok (some planned)
      else .error (.previousRoundInvalid previous.roundNumber validation)

def freshEntrant (registrationId : ι) : SwissEntrantRecord ι := ⟨registrationId, none, []⟩

structure GeneratedSwiss (ι : Type u) where
  seeding : SwissSeeding ι
  config : SwissConfig
  rows : PhaseRows ι
  deriving DecidableEq

/-- The entrant rows are unique per phase; round 1 is planned from them as they are read back. -/
def generateSwiss (source : SwissSource ι) (dto : GenerateSwissDto) (out : List ι) :
    Except (GenerateRefusal ι) (GeneratedSwiss ι) :=
  if source.registrations.length < 2 then .error .tooFewFighters
  else
    match resolveSeeding source dto with
    | .error refusal => .error refusal
    | .ok seeding =>
      let config := buildConfig dto source.registrations.length
      if ¬seeding.order.Nodup then .error .duplicateEntrant
      else
        let entrants := seeding.order.map freshEntrant
        let rows : PhaseRows ι :=
          { config := ⟨false, some (config.roundCount : ℕ)⟩
            entrants := entrants.map fun e => ⟨e, none⟩
            rounds := []
            out }
        match planRound config source.standings (source.load entrants) [] with
        | .error refusal => .error refusal
        | .ok none => .ok ⟨seeding, config, rows⟩
        | .ok (some planned) => .ok ⟨seeding, config, (writeRound rows planned).2⟩

end Generate

end MyClash.Swiss
