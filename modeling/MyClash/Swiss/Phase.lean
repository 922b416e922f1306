import MyClash.Swiss.Snapshot

/-!
# The locked steps of a Swiss phase

`swiss_commit_round`, `swiss_withdraw`, `swiss_put_back` and `swiss_delete_last_round`,
each one transaction under the phase's row lock. A step that raises writes nothing.
-/

namespace MyClash.Swiss

universe u

inductive WithdrawnBy where
  | hand
  | status
  deriving DecidableEq

structure EntrantRow (ι : Type u) extends SwissEntrantRecord ι where
  withdrawnBy : Option WithdrawnBy
  deriving DecidableEq

/-- A bout row, with whether a live black card or a live forfeit sits on it. -/
structure BoutRow (ι : Type u) extends SwissMatchRecord ι where
  liveBlackCard : Bool
  liveForfeit : Bool
  deriving DecidableEq

/-- A row `swiss_commit_round` reads from `p_bouts`. -/
structure NewBout (ι : Type u) where
  redRegistrationId : Option ι
  blueRegistrationId : Option ι
  status : MatchStatus
  deriving DecidableEq

/-- What `swiss_commit_round` is called with. -/
structure CommitCall (ι : Type u) where
  round : ℕ
  field : List ι
  bye : Option ι
  ranked : Option (List ι)
  bouts : List (NewBout ι)
  deriving DecidableEq

/-- `writtenBy` is history, the call that wrote the round: no column stores its field. -/
structure RoundRow (ι : Type u) where
  roundNumber : ℕ
  byeRegistrationId : Option ι
  ranked : Option (List ι)
  bouts : List (BoutRow ι)
  writtenBy : CommitCall ι
  deriving DecidableEq

structure PhaseConfig where
  finalized : Bool
  roundCount : Option ℚ
  deriving DecidableEq

/-- The rows one Swiss phase reads and writes; `out` holds whoever has `out_since` set. -/
structure PhaseRows (ι : Type u) where
  config : PhaseConfig
  entrants : List (EntrantRow ι)
  rounds : List (RoundRow ι)
  out : List ι
  deriving DecidableEq

inductive SwissRefusal (ι : Type u) where
  | notInPhase (registration : ι)
  | unknownKind
  | fighterOut (registration : ι)
  | noRounds
  | notLastRound (last : ℕ)
  | roundUnderWay
  | roundHasRecords

def SwissRefusal.errcode {ι : Type u} : SwissRefusal ι → String
  | .notInPhase _ => "P0002"
  | .unknownKind => "22023"
  | .fighterOut _ => "P0001"
  | .noRounds => "P0002"
  | .notLastRound _ => "P0001"
  | .roundUnderWay => "P0001"
  | .roundHasRecords => "P0001"

structure WithdrawAnswer where
  withdrawnAtRound : Option ℕ
  changed : Bool

inductive PutBackStatus where
  | alreadyIn
  | kept
  | putBack

structure PutBackAnswer where
  status : PutBackStatus
  missedRounds : List ℕ

inductive CommitStatus where
  | committed
  | standing
  | stale
  deriving DecidableEq

variable {ι : Type u} [DecidableEq ι]

namespace PhaseRows

/-- `coalesce(max(round_number), 0)`. -/
def lastRound (p : PhaseRows ι) : ℕ := (p.rounds.map (·.roundNumber)).foldl max 0

def entrant? (p : PhaseRows ι) (registration : ι) : Option (EntrantRow ι) :=
  p.entrants.find? (·.registrationId = registration)

def round? (p : PhaseRows ι) (number : ℕ) : Option (RoundRow ι) :=
  p.rounds.find? (·.roundNumber = number)

def setEntrant (p : PhaseRows ι) (registration : ι) (change : EntrantRow ι → EntrantRow ι) :
    PhaseRows ι :=
  { p with entrants := p.entrants.map fun e => if e.registrationId = registration then change e else e }

/-- The active field as the commit reads it: from the withdrawal alone. -/
def unwithdrawn (p : PhaseRows ι) (number : ℕ) : List ι :=
  (p.entrants.filter fun e =>
    match e.withdrawnAtRound with
    | none => true
    | some withdrawn => decide (number < withdrawn)).map (·.registrationId)

end PhaseRows

def swissPhaseOver (p : PhaseRows ι) : Bool :=
  if p.config.finalized then true
  else
    match p.config.roundCount, p.round? p.lastRound with
    | some roundCount, some last =>
      if (last.roundNumber : ℚ) < roundCount then false
      else last.bouts ≠ [] && last.bouts.all (·.status = .completed)
    | _, _ => false

def EntrantRow.withdraw (round : ℕ) (kind : WithdrawnBy) (e : EntrantRow ι) : EntrantRow ι :=
  { e with withdrawnAtRound := some round, withdrawnBy := some kind }

def EntrantRow.putBack (missed : List ℕ) (e : EntrantRow ι) : EntrantRow ι :=
  { e with withdrawnAtRound := none, withdrawnBy := none, missedRounds := missed }

def EntrantRow.forgetRound (round : ℕ) (e : EntrantRow ι) : EntrantRow ι :=
  { e with missedRounds := e.missedRounds.filter (· ≠ round) }

/-- A kind the function does not know comes as `none`. -/
def swissWithdraw (p : PhaseRows ι) (registration : ι) (kind : Option WithdrawnBy) :
    Except (SwissRefusal ι) (WithdrawAnswer × PhaseRows ι) :=
  match kind with
  | none => .error .unknownKind
  | some kind =>
    match p.entrant? registration with
    | none => .error (.notInPhase registration)
    | some entrant =>
      match entrant.withdrawnAtRound with
      | some withdrawn => .ok (⟨some withdrawn, false⟩, p)
      | none =>
        if kind = .status ∧ swissPhaseOver p then .ok (⟨none, false⟩, p)
        else
          .ok (⟨some (p.lastRound + 1), true⟩,
            p.setEntrant registration (·.withdraw (p.lastRound + 1) kind))

def swissPutBack (p : PhaseRows ι) (registration : ι) (kind : Option WithdrawnBy) :
    Except (SwissRefusal ι) (PutBackAnswer × PhaseRows ι) :=
  match kind with
  | none => .error .unknownKind
  | some kind =>
    match p.entrant? registration with
    | none => .error (.notInPhase registration)
    | some entrant =>
      match entrant.withdrawnAtRound with
      | none => .ok (⟨.alreadyIn, entrant.missedRounds⟩, p)
      | some withdrawn =>
        if registration ∈ p.out then
          if kind = .hand then .error (.fighterOut registration)
          else .ok (⟨.kept, entrant.missedRounds⟩, p)
        else
          match kind with
          | .status =>
            if entrant.withdrawnBy = some .hand ∨ swissPhaseOver p ∨ withdrawn ≤ p.lastRound then
              .ok (⟨.kept, entrant.missedRounds⟩, p)
            else
              .ok (⟨.putBack, entrant.missedRounds⟩,
                p.setEntrant registration (·.putBack entrant.missedRounds))
          | .hand =>
            -- the rounds paired while they were withdrawn
            let missed := entrant.missedRounds ++
              List.range' withdrawn (p.lastRound + 1 - withdrawn)
            .ok (⟨.putBack, missed⟩, p.setEntrant registration (·.putBack missed))

def NewBout.insert (b : NewBout ι) : BoutRow ι :=
  { redRegistrationId := b.redRegistrationId
    blueRegistrationId := b.blueRegistrationId
    winnerRegistrationId := none
    status := b.status
    endReason := none
    liveBlackCard := false
    liveForfeit := false }

def swissCommitRound (p : PhaseRows ι) (call : CommitCall ι) : CommitStatus × PhaseRows ι :=
  if (p.round? call.round).isSome then (.standing, p)
  else if p.lastRound + 1 ≠ call.round then (.stale, p)
  else if ¬(call.field ⊆ p.unwithdrawn call.round ∧ p.unwithdrawn call.round ⊆ call.field) then
    (.stale, p)
  else
    (.committed,
      { p with rounds := p.rounds ++
        [⟨call.round, call.bye, call.ranked, call.bouts.map NewBout.insert, call⟩] })

def swissDeleteLastRound (p : PhaseRows ι) (round : Option ℕ) (fought : List MatchStatus) :
    Except (SwissRefusal ι) (ℕ × PhaseRows ι) :=
  match p.round? p.lastRound with
  | none => .error .noRounds
  | some row =>
    if round ≠ some p.lastRound then .error (.notLastRound p.lastRound)
    else if row.bouts.any (fun b => b.status ∈ fought) then .error .roundUnderWay
    else if row.bouts.any (fun b => b.liveBlackCard || b.liveForfeit) then .error .roundHasRecords
    else
      .ok (row.bouts.length,
        { p with
          rounds := p.rounds.filter (·.roundNumber ≠ p.lastRound)
          entrants := p.entrants.map (·.forgetRound p.lastRound) })

/-! ## The caller of the commit -/

/-- The `matches` rows of a round; red and blue are the engine's `a` and `b`. -/
def swissMatchRows (plan : SwissRoundPlan ι) : List (NewBout ι) :=
  plan.pairings.map fun pairing => ⟨some pairing.aId, some pairing.bId, .scheduled⟩

structure PlannedRound (ι : Type u) where
  roundNumber : ℕ
  plan : SwissRoundPlan ι
  field : List ι

/-- The call `writeRound` makes; `ranked` lists the pairings, board by board. -/
def PlannedRound.call (planned : PlannedRound ι) : CommitCall ι where
  round := planned.roundNumber
  field := planned.field
  bye := planned.plan.byeRegistrationId
  ranked := some (planned.plan.pairings.flatMap fun p => [p.aId, p.bId])
  bouts := swissMatchRows planned.plan

def writeRound (p : PhaseRows ι) (planned : PlannedRound ι) : CommitStatus × PhaseRows ι :=
  swissCommitRound p planned.call

end MyClash.Swiss
