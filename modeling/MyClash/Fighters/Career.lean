import MyClash.Library.OrderedMap
import MyClash.Library.StableSort
import MyClash.MatchFormat.Outcome
import Mathlib.Data.Rat.Floor

/-!
# A fighter's career

The counts of a public profile, over the fighter's completed bouts: in all, by weapon, by year and
by event. The exchanges of these bouts are counted in a second pass, and the recent form and the
streak are read in a third.
-/

namespace MyClash.Fighters.Career

open MatchFormat (BoutOutcome boutOutcomes)

/-- `ρ` are the registrations' ids, none of them the empty text. -/
structure CareerRegistrationInput (ρ : Type) where
  id : ρ
  tournamentId : String
  tournamentName : String
  tournamentSlug : String
  tournamentStatus : String
  weapon : Option String
  eventId : String
  eventName : String
  eventSlug : String
  eventStatus : String
  eventStartDate : Option String
  eventEndDate : Option String

structure CareerMatchInput (ρ : Type) where
  id : String
  status : String
  redRegistrationId : Option ρ
  blueRegistrationId : Option ρ
  winnerRegistrationId : Option ρ
  endReason : Option String
  redScore : ℚ
  blueScore : ℚ
  scheduledAt : Option String

structure CareerExchangeInput where
  matchId : String
  type : String
  voided : Bool

structure CareerPenaltyInput (ρ : Type) where
  registrationId : ρ
  card : String
  category : Option String

structure TournamentPlacement where
  place : ℕ
  resultKind : String
  totalRanked : ℕ

structure BuildFighterCareerInput (ρ : Type) where
  registrations : List (CareerRegistrationInput ρ)
  bouts : List (CareerMatchInput ρ)
  exchanges : List CareerExchangeInput
  placementByRegistrationId : ρ → Option TournamentPlacement
  penalties : Option (List (CareerPenaltyInput ρ))

/-- The counts of a bucket. `bouts` are its `matches`. -/
structure CareerCounts where
  bouts : ℕ
  wins : ℕ
  losses : ℕ
  doubleHits : ℕ
  exchanges : ℕ

def emptyStats : CareerCounts := ⟨0, 0, 0, 0, 0⟩

structure FighterCareerStats where
  counts : CareerCounts
  winLossRatio : Option ℚ
  doubleHitPercentage : ℚ

structure FighterEventStat where
  eventKey : String
  eventId : String
  eventName : String
  weapon : String
  counts : CareerCounts

def roundPercent (value : ℚ) : ℚ := ⌊value * 100 + 1 / 2⌋ / 100

def finalizeStats (stats : CareerCounts) : FighterCareerStats where
  counts := stats
  winLossRatio :=
    if stats.losses = 0 then if stats.wins > 0 then some stats.wins else none
    else some (stats.wins / stats.losses)
  doubleHitPercentage :=
    if stats.exchanges = 0 then 0 else roundPercent (stats.doubleHits / stats.exchanges * 100)

def eventKeyOf (eventId eventName : String) : String :=
  if eventId ≠ "" then eventId else "name:" ++ (if eventName ≠ "" then eventName else "unknown")

section Registrations

variable {ρ : Type} (registration : CareerRegistrationInput ρ)

def weaponOf : String := registration.weapon.getD "Unknown"

def yearOf : String :=
  (registration.eventStartDate.map fun date => String.ofList (date.toList.take 4)).getD "unknown"

def keyOf : String := eventKeyOf registration.eventId registration.eventName

def eventBucketKey : String := keyOf registration ++ "|" ++ weaponOf registration

end Registrations

variable {ρ : Type} [DecidableEq ρ]

def registrationById (registrations : List (CareerRegistrationInput ρ)) :
    OrderedMap ρ (CareerRegistrationInput ρ) :=
  .ofList (registrations.map fun registration => (registration.id, registration))

def matchById (bouts : List (CareerMatchInput ρ)) : OrderedMap String (CareerMatchInput ρ) :=
  .ofList (bouts.map fun bout => (bout.id, bout))

/-- The fighter holds the registration. -/
def isMine (registrations : List (CareerRegistrationInput ρ)) (id : Option ρ) : Bool :=
  id.any fun id => registrations.any fun registration => registration.id = id

/-- The fighter's registration in a bout: red's where both are. -/
def registrationIdOf (registrations : List (CareerRegistrationInput ρ))
    (bout : CareerMatchInput ρ) : Option ρ :=
  if isMine registrations bout.redRegistrationId then bout.redRegistrationId
  else if isMine registrations bout.blueRegistrationId then bout.blueRegistrationId
  else none

def outcomeOf (bout : CareerMatchInput ρ) (registrationId : ρ) : BoutOutcome :=
  let outcomes := boutOutcomes ⟨bout.winnerRegistrationId, bout.redRegistrationId,
    bout.blueRegistrationId, some bout.redScore, some bout.blueScore, bout.endReason⟩
  if bout.redRegistrationId = some registrationId then outcomes.1 else outcomes.2

/-! ## The counts -/

structure Tallies where
  overall : CareerCounts
  byWeapon : OrderedMap String CareerCounts
  byYear : OrderedMap String CareerCounts
  byEvent : OrderedMap String FighterEventStat
  foughtEventIds : List String
  foughtTournamentIds : List String

def emptyTallies : Tallies := ⟨emptyStats, .empty, .empty, .empty, [], []⟩

def countOutcome (outcome : BoutOutcome) (stats : CareerCounts) : CareerCounts :=
  { stats with
    bouts := stats.bouts + 1
    wins := if outcome = .win then stats.wins + 1 else stats.wins
    losses := if outcome = .loss then stats.losses + 1 else stats.losses }

def countExchange (exchange : CareerExchangeInput) (stats : CareerCounts) : CareerCounts :=
  { stats with
    exchanges := stats.exchanges + 1
    doubleHits := if exchange.type = "double" then stats.doubleHits + 1 else stats.doubleHits }

def FighterEventStat.update (f : CareerCounts → CareerCounts) (stat : FighterEventStat) :
    FighterEventStat :=
  { stat with counts := f stat.counts }

def emptyEventStat (registration : CareerRegistrationInput ρ) : FighterEventStat :=
  ⟨keyOf registration, registration.eventId, registration.eventName, weaponOf registration,
    emptyStats⟩

def addId (id : String) (ids : List String) : List String :=
  if id = "" ∨ id ∈ ids then ids else ids ++ [id]

/-- The buckets of a registration, made where they are missing. -/
def fileBout (registration : CareerRegistrationInput ρ) (f : CareerCounts → CareerCounts)
    (t : Tallies) : Tallies where
  overall := f t.overall
  byWeapon := t.byWeapon.set (weaponOf registration)
    (f ((t.byWeapon.get? (weaponOf registration)).getD emptyStats))
  byYear := t.byYear.set (yearOf registration)
    (f ((t.byYear.get? (yearOf registration)).getD emptyStats))
  byEvent := t.byEvent.set (eventBucketKey registration)
    (((t.byEvent.get? (eventBucketKey registration)).getD (emptyEventStat registration)).update f)
  foughtEventIds := addId registration.eventId t.foughtEventIds
  foughtTournamentIds := addId registration.tournamentId t.foughtTournamentIds

/-- The buckets of a registration, where they are there. -/
def fileExchange (registration : CareerRegistrationInput ρ) (f : CareerCounts → CareerCounts)
    (t : Tallies) : Tallies :=
  { t with
    overall := f t.overall
    byWeapon := t.byWeapon.revise (weaponOf registration) f
    byYear := t.byYear.revise (yearOf registration) f
    byEvent := t.byEvent.revise (eventBucketKey registration) (·.update f) }

def tallyMatch (registrations : List (CareerRegistrationInput ρ)) (t : Tallies)
    (bout : CareerMatchInput ρ) : Tallies :=
  if bout.status ≠ "completed" then t
  else
    match registrationIdOf registrations bout with
    | none => t
    | some registrationId =>
      match (registrationById registrations).get? registrationId with
      | none => t
      | some registration => fileBout registration (countOutcome (outcomeOf bout registrationId)) t

def tallyExchange (registrations : List (CareerRegistrationInput ρ))
    (bouts : List (CareerMatchInput ρ)) (t : Tallies) (exchange : CareerExchangeInput) : Tallies :=
  if exchange.voided then t
  else
    match (matchById bouts).get? exchange.matchId with
    | none => t
    | some bout =>
      if bout.status ≠ "completed" then t
      else
        match registrationIdOf registrations bout with
        | none => t
        | some registrationId =>
          match (registrationById registrations).get? registrationId with
          | none => t
          | some registration => fileExchange registration (countExchange exchange) t

def tallies (input : BuildFighterCareerInput ρ) : Tallies :=
  input.exchanges.foldl (tallyExchange input.registrations input.bouts)
    (input.bouts.foldl (tallyMatch input.registrations) emptyTallies)

/-! ## The recent form -/

structure FormMatch where
  matchId : String
  date : Option String
  outcome : BoutOutcome
  ourScore : ℚ
  opponentScore : ℚ

inductive StreakKind where
  | win
  | loss
  | none

structure CurrentStreak where
  kind : StreakKind
  count : ℕ

def formMatchOf (registrations : List (CareerRegistrationInput ρ)) (bout : CareerMatchInput ρ) :
    Option FormMatch :=
  let onRed := isMine registrations bout.redRegistrationId
  (registrationIdOf registrations bout).map fun registrationId =>
    { matchId := bout.id
      date := bout.scheduledAt
      outcome := outcomeOf bout registrationId
      ourScore := if onRed then bout.redScore else bout.blueScore
      opponentScore := if onRed then bout.blueScore else bout.redScore }

variable (localeCompare : String → String → Ordering)

/-- The latest first, those without a date last. -/
def formMatches (input : BuildFighterCareerInput ρ) : List FormMatch :=
  StableSort.sortWith (fun a b => localeCompare (b.date.getD "") (a.date.getD ""))
    ((input.bouts.filter (·.status = "completed")).filterMap (formMatchOf input.registrations))

/-- How many from the first on have the outcome. -/
def runLength (outcome : BoutOutcome) : List FormMatch → ℕ
  | [] => 0
  | formMatch :: later => if formMatch.outcome = outcome then runLength outcome later + 1 else 0

def currentStreakOf (form : List FormMatch) : CurrentStreak :=
  match form with
  | [] => ⟨.none, 0⟩
  | mostRecent :: _ =>
    match mostRecent.outcome with
    | .draw => ⟨.none, 0⟩
    | .win => ⟨.win, runLength .win form⟩
    | .loss => ⟨.loss, runLength .loss form⟩

/-! ## The career -/

structure EventParticipation where
  eventId : String
  eventName : String
  eventSlug : String
  startDate : Option String
  endDate : Option String

structure TournamentRow where
  tournamentId : String
  tournamentName : String
  tournamentSlug : String
  eventId : String
  eventName : String
  eventSlug : String
  weapon : Option String
  date : Option String
  placement : Option TournamentPlacement

structure FighterPenalty where
  eventKey : String
  eventId : String
  eventName : String
  weapon : String
  card : String
  category : Option String

structure FighterCareer (ρ : Type) where
  recentForm : List FormMatch
  currentStreak : CurrentStreak
  eventParticipation : List EventParticipation
  tournamentsAttended : ℕ
  upcoming : List (CareerRegistrationInput ρ)
  tournamentPlacements : List TournamentRow
  overall : FighterCareerStats
  byWeapon : List (String × FighterCareerStats)
  byYear : List (String × FighterCareerStats)
  byEvent : List FighterEventStat
  penalties : Option (List FighterPenalty)

/-- An event is attended once it is over or the fighter has fought there. -/
def attendedEvents (registrations : List (CareerRegistrationInput ρ)) (t : Tallies) :
    OrderedMap String (CareerRegistrationInput ρ) :=
  .ofList ((registrations.filter fun registration =>
    registration.eventStatus = "completed" || t.foughtEventIds.contains registration.eventId).map
      fun registration => (registration.eventId, registration))

def tournamentRow (input : BuildFighterCareerInput ρ) (registration : CareerRegistrationInput ρ) :
    TournamentRow where
  tournamentId := registration.tournamentId
  tournamentName := registration.tournamentName
  tournamentSlug := registration.tournamentSlug
  eventId := registration.eventId
  eventName := registration.eventName
  eventSlug := registration.eventSlug
  weapon := registration.weapon
  date := registration.eventStartDate
  placement := input.placementByRegistrationId registration.id

def fighterPenalty (registrations : List (CareerRegistrationInput ρ))
    (penalty : CareerPenaltyInput ρ) : Option FighterPenalty :=
  ((registrationById registrations).get? penalty.registrationId).map fun registration =>
    ⟨keyOf registration, registration.eventId, registration.eventName, weaponOf registration,
      penalty.card, penalty.category⟩

def isOver (status : String) : Bool := ["completed", "archived"].contains status

def buildFighterCareer (input : BuildFighterCareerInput ρ) : FighterCareer ρ :=
  let t := tallies input
  let form := formMatches localeCompare input
  { recentForm := form.take 10
    currentStreak := currentStreakOf form
    eventParticipation := (attendedEvents input.registrations t).values.map fun registration =>
      ⟨registration.eventId, registration.eventName, registration.eventSlug,
        registration.eventStartDate, registration.eventEndDate⟩
    tournamentsAttended := t.foughtTournamentIds.length
    upcoming := input.registrations.filter fun registration =>
      !isOver registration.eventStatus && !isOver registration.tournamentStatus &&
        !t.foughtEventIds.contains registration.eventId
    tournamentPlacements := StableSort.sortWith
      (fun a b => localeCompare (b.date.getD "") (a.date.getD ""))
      ((input.registrations.filter fun registration =>
        registration.tournamentStatus = "completed" ||
          t.foughtTournamentIds.contains registration.tournamentId).map (tournamentRow input))
    overall := finalizeStats t.overall
    byWeapon := t.byWeapon.entries.map fun entry => (entry.1, finalizeStats entry.2)
    byYear := t.byYear.entries.map fun entry => (entry.1, finalizeStats entry.2)
    byEvent := t.byEvent.values
    penalties := input.penalties.map fun penalties =>
      penalties.filterMap (fighterPenalty input.registrations) }

end MyClash.Fighters.Career
