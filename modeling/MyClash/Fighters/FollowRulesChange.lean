import Mathlib
import MyClash.Fighters.TakeOut

/-!
# The Fighters follow a change of the forfeit rules

Two loops over the Registrations the database names: each settles those going out in the given
order, then those coming back, and holds back a Fighter who shares an unfought bout with one that
failed or was held before them.
-/

namespace MyClash.Fighters

open StableSort

universe u v w

def isOut (status : Status) : Bool := status == .withdrawn || status == .disqualified

/-! ## Who the change moves -/

/-- One Registration as `fighters_status_under` answers it. -/
structure StatusRow (υ : Type u) (τ : Type v) where
  registration_id : υ
  status_now : Status
  status_before : Status
  status_after : Status
  crossed_at : Option τ

structure RulesMove where
  before : SettleRules
  after : SettleRules
  beforeUnparsable : Bool

section Move

variable {υ : Type u} {τ : Type v} (change : RulesMove) (row : StatusRow υ τ)

def statusBeforeOf : Status := if change.beforeUnparsable then row.status_now else row.status_before

def isMovedBy : Bool := statusBeforeOf change row != row.status_after

def StatusRow.goesOut : Bool := isOut row.status_after

end Move

section Answers

variable {υ : Type u} {τ : Type v} [LinearOrder υ] [LinearOrder τ]

/-- A row of `registrations`. -/
structure RegistrationRow (υ : Type u) extends Registration υ where
  status : Status
  entry_status : EntryStatus

/-- By when they crossed out, those that never did last, then by id. -/
def crossedOrder (a b : StatusRow υ τ) : Ordering :=
  (match a.crossed_at, b.crossed_at with
    | some x, some y => compare x y
    | some _, none => .lt
    | none, some _ => .gt
    | none, none => .eq).then (compare a.registration_id b.registration_id)

attribute [local instance] lawfulBEq

def fighters_status_under (db : Tables υ τ) (registrations : List (RegistrationRow υ))
    (p_tournament : υ) (p_rules_before p_rules_after : SettleRules) (p_also : List υ) :
    List (StatusRow υ τ) :=
  let rows := (registrations.filter fun r => r.tournament_id = p_tournament).map fun r =>
    let after := fighter_status_under db r.toRegistration p_rules_after r.entry_status
    { registration_id := r.id
      status_now := r.status
      status_before :=
        (fighter_status_under db r.toRegistration p_rules_before r.entry_status).status
      status_after := after.status
      crossed_at := after.crossed_at : StatusRow υ τ }
  sortWith crossedOrder <| rows.filter fun row =>
    row.status_before ≠ row.status_after ∨ row.status_now ≠ row.status_after ∨
      row.registration_id ∈ p_also

end Answers

/-! ## What is followed -/

/-- The answers of the database on the Registrations of one Tournament: those of the Tournament
alone, and every one the caller names. -/
structure StatusAnswers (ω : Type w) (υ : Type u) (τ : Type v) where
  registrations : List υ
  answer : ω → SettleRules → SettleRules → List υ → List (StatusRow υ τ)
  inTournament : ∀ world before after also, ∀ row ∈ answer world before after also,
    row.registration_id ∈ registrations
  also_named : ∀ world before after also, ∀ id ∈ also, id ∈ registrations →
    ∃ row ∈ answer world before after also, row.registration_id = id

/-- What the follow calls, over the world it is called in. A call answers with whether it went
through, and with the world it leaves: what others write in between is in it. -/
structure FollowDeps (ω : Type w) (υ : Type u) (τ : Type v) where
  statuses : StatusAnswers ω υ τ
  statusRead : ω → Bool × ω
  board : ω → Tournament υ τ × BoutRows υ τ
  boutsRead : υ → ω → Bool × ω
  settle : υ → ω → Bool × ω

inductive Fate where
  | settled
  | failed
  | held
  deriving DecidableEq

/-- What a loop did with a row, and the world it decided in. -/
structure Decided (ω : Type w) (υ : Type u) (τ : Type v) where
  row : StatusRow υ τ
  world : ω
  fate : Fate

/-- A loop under way; `settled` is the list the two loops share. -/
structure Loop (ω : Type w) (υ : Type u) (τ : Type v) where
  world : ω
  settled : List υ
  blocked : List υ
  readFailed : Bool
  decided : List (Decided ω υ τ)

structure RulesFollowed (υ : Type u) where
  notSettled : List υ
  inStep : List υ
  followFailed : Bool

/-- The follow's result, with the first read and the two loops it comes from. -/
structure FollowRun (ω : Type w) (υ : Type u) (τ : Type v) where
  first : Option (List (StatusRow υ τ))
  second : List (StatusRow υ τ)
  loop1 : Loop ω υ τ
  loop2 : Loop ω υ τ
  result : RulesFollowed υ

section Loops

variable {ω : Type w} {υ : Type u} {τ : Type v} [DecidableEq υ] (deps : FollowDeps ω υ τ)
  (tournamentId : υ)

def settleRow (loop : Loop ω υ τ) (row : StatusRow υ τ) : Loop ω υ τ :=
  let settle := deps.settle row.registration_id loop.world
  if settle.1 then
    { loop with
      world := settle.2
      settled := loop.settled ++ [row.registration_id]
      decided := loop.decided ++ [⟨row, loop.world, .settled⟩] }
  else
    { loop with
      world := settle.2
      blocked := loop.blocked ++ [row.registration_id]
      decided := loop.decided ++ [⟨row, loop.world, .failed⟩] }

def unfoughtAt (world : ω) (registrationId : υ) : List (υ × Bout υ τ) :=
  unfoughtBoutsOf (deps.board world).1 (deps.board world).2 ⟨registrationId, tournamentId⟩

/-- One of their unfought bouts faces a Fighter failed or held before them. -/
def facesBlocked (world : ω) (blocked : List υ) (registrationId : υ) : Bool :=
  (unfoughtAt deps tournamentId world registrationId).any fun bout =>
    [bout.2.red_registration_id, bout.2.blue_registration_id].any fun corner =>
      corner.any fun id => id ≠ registrationId ∧ id ∈ blocked

def isHeld (loop : Loop ω υ τ) (registrationId : υ) : Bool × Loop ω υ τ :=
  if loop.readFailed then (true, loop)
  else if loop.blocked.isEmpty then (false, loop)
  else
    let bouts := deps.boutsRead registrationId loop.world
    if bouts.1 then
      (facesBlocked deps tournamentId bouts.2 loop.blocked registrationId,
        { loop with world := bouts.2 })
    else (true, { loop with world := bouts.2, readFailed := true })

def goOut (loop : Loop ω υ τ) (row : StatusRow υ τ) : Loop ω υ τ :=
  let held := isHeld deps tournamentId loop row.registration_id
  if held.1 then
    { held.2 with
      blocked := held.2.blocked ++ [row.registration_id]
      decided := held.2.decided ++ [⟨row, held.2.world, .held⟩] }
  else settleRow deps held.2 row

/-- Those going out in the given order, each settled unless held, then those coming back. -/
def settleInOrder (world : ω) (rows : List (StatusRow υ τ)) (settled : List υ) : Loop ω υ τ :=
  let out := (rows.filter StatusRow.goesOut).foldl (goOut deps tournamentId)
    ⟨world, settled, [], false, []⟩
  (rows.filter fun row => !row.goesOut).foldl (settleRow deps) out

def followRulesChangeOf (change : RulesMove) (world : ω) : FollowRun ω υ τ :=
  let read1 := deps.statusRead world
  let first :=
    if read1.1 then some (deps.statuses.answer read1.2 change.before change.after []) else none
  let rows := first.getD []
  let loop1 := settleInOrder deps tournamentId read1.2 rows []
  let read2 := deps.statusRead loop1.world
  let second :=
    if read2.1 then deps.statuses.answer read2.2 change.after change.after loop1.blocked
    -- a later row of one id takes an earlier one's place
    else loop1.blocked.filterMap fun id => rows.reverse.find? fun row => row.registration_id = id
  let loop2 := settleInOrder deps tournamentId read2.2 second loop1.settled
  let moved := (rows.filter (isMovedBy change)).map StatusRow.registration_id
  { first
    second
    loop1
    loop2
    result :=
      { notSettled := loop2.blocked
        inStep :=
          if first.isSome then
            loop2.settled.eraseDups.filter fun id => id ∉ moved ∧ id ∉ loop2.blocked
          else []
        followFailed := first.isNone || !read2.1 || loop1.readFailed || loop2.readFailed } }

end Loops

end MyClash.Fighters
