import MyClash.Library.Run
import MyClash.Offline.Places

/-!
# The send

One pass lists the queue, asks which bouts are held, and sends row by row. Between any
two of its steps the referee may press, retry, discard or undo.
-/

namespace MyClash.Offline

open KeyTable

universe u v

variable {β : Type u} {υ : Type v}

/-! ## Answers -/

structure Body (υ : Type v) where
  id : Option υ
  message : Option String
  error : Option String
  code : Option String
  deriving DecidableEq

/-- An answer; no body where it cannot be read. -/
structure Response (υ : Type v) where
  status : ℕ
  body : Option (Body υ)
  deriving DecidableEq

def Response.ok (res : Response υ) : Bool := 200 ≤ res.status ∧ res.status < 300

/-- The `{}` that stands for a body that cannot be read. -/
def Body.none : Body υ := ⟨.none, .none, .none, .none⟩

def Response.readBody (res : Response υ) : Body υ := res.body.getD Body.none

/-- The statuses `answerRefusal` reads. -/
def REFUSALS : List ℕ := [409, 403, 401]

def CLOCK_ROW_COLLIDED : String := "clock_row_collided"

inductive CallerRefusal where
  | accountRefused
  | pinDisabled
  | pinRoleRefused

def callerRefusalOf (code : Option String) : Option CallerRefusal :=
  if code = some "account_cannot_score" then some .accountRefused
  else if code = some "staff_account_disabled" then some .pinDisabled
  else if code = some "staff_role_not_allowed" then some .pinRoleRefused
  else none

inductive SyncFailureKind where
  | offline
  | maintenance
  | server
  deriving DecidableEq

def SyncFailureKind.text : SyncFailureKind → String
  | .offline => "offline"
  | .maintenance => "maintenance"
  | .server => "server"

def classifySyncFailure (status : ℕ) (body : Option (Body υ)) : SyncFailureKind :=
  if (body.bind (·.error)) = some "offline" then .offline
  else if (body.bind (·.code)) = some "read_only_mode" then .maintenance
  else if status = 0 ∨ status = 503 then .offline
  else .server

/-! ## The order of a bout's rows in one pass -/

/-- How the send of one row ended. -/
inductive Filed where
  | sent
  | held
  | failed
  | offline
  | stopped
  deriving DecidableEq

inductive NotSent where
  | failed
  | offline

/-- Why a row is not sent in this pass. -/
inductive Waits where
  | behindHeld
  /-- A row of its bout before it was not sent: it meets that row's end. -/
  | behind (outcome : NotSent)

/-- What a pass knows of a bout one of whose rows it could not send. -/
structure Unsent where
  press : Bool
  outcome : NotSent

structure BoutOrder (β : Type u) where
  held : List β
  unsent : β → Option Unsent

section Order

variable [DecidableEq β]

def BoutOrder.waits (order : BoutOrder β) (entry : OutboxEntry β υ) : Option Waits :=
  if entry.matchId ∈ order.held then some .behindHeld
  else
    match order.unsent entry.matchId with
    | none => none
    | some before => if before.press ∨ isTap entry then some (.behind before.outcome) else none

/-- A bout gets an unsent row. -/
def BoutOrder.noteUnsent (order : BoutOrder β) (entry : OutboxEntry β υ) (outcome : NotSent) :
    BoutOrder β :=
  let before := (order.unsent entry.matchId).any (·.press)
  let unsent := some ⟨isTap entry || before, outcome⟩
  ⟨order.held, Function.update order.unsent entry.matchId unsent⟩

def BoutOrder.note (order : BoutOrder β) (entry : OutboxEntry β υ) : Filed → BoutOrder β
  | .sent => order
  | .held => { order with held := entry.matchId :: order.held }
  | .failed => order.noteUnsent entry .failed
  | .offline => order.noteUnsent entry .offline
  | .stopped => order

end Order

/-! ## The filing of an answer -/

def httpText (res : Response υ) : String := "HTTP " ++ toString res.status

/-- A 409, a 403 or a 401. -/
def answerRefusal (s : Store β υ (Option υ)) (id : ℕ) (res : Response υ) :
    Filed × Store β υ (Option υ) :=
  let body := res.readBody
  if res.status = 401 then (.stopped, s)
  else if res.status = 403 ∧ (callerRefusalOf body.code).isSome then (.stopped, s)
  else if res.status = 403 ∧ (body.code = none ∨ body.code = some "") then
    (.failed, markFailed s id (httpText res))
  else if body.code = some CLOCK_ROW_COLLIDED then
    (.failed, markFailed s id CLOCK_ROW_COLLIDED)
  else (.held, quarantine s id (body.message.getD (httpText res)) body.code)

/-- An answer that is no verdict on the row. -/
def fileUnanswered (s : Store β υ (Option υ)) (id : ℕ) (res : Response υ) :
    Filed × Store β υ (Option υ) :=
  let kind := classifySyncFailure res.status res.body
  if kind = .maintenance then (.stopped, s)
  else
    let marked := markFailed s id ((res.body.bind (·.message)).getD kind.text)
    (if kind = .offline then .offline else .failed, marked)

/-- A 400 of a tap, or a second one of a hit: held under the words of the first. -/
def holdRefused (s : Store β υ (Option υ)) (id : ℕ) (first : Response υ) :
    Filed × Store β υ (Option υ) :=
  let body := first.readBody
  (.held, quarantine s id (body.message.getD (httpText first)) body.code)

/-- The send threw. -/
def fileThrown (s : Store β υ (Option υ)) (id : ℕ) (error : String) :
    Filed × Store β υ (Option υ) :=
  (.offline, markFailed s id error)

/-- How far the send of one row is. -/
inductive Stage (υ : Type v) where
  | claimed
  | out
  /-- A 400 came; the next number is being read. -/
  | refused (first : Response υ)
  | numbered (first : Response υ) (sequence : ℕ)
  | outAgain (first : Response υ) (sequence : ℕ)
  | filed (outcome : Filed)
  deriving DecidableEq

/-- Where a request is out that may throw. -/
def Stage.asks : Stage υ → Bool
  | .out => true
  | .refused _ => true
  | .outAgain _ _ => true
  | .claimed => false
  | .numbered _ _ => false
  | .filed _ => false

section Answers

variable [DecidableEq υ]

/-- `sendEntry` on the answer to its POST. -/
def sendEntryAnswer (s : Store β υ (Option υ)) (id : ℕ) (entry : OutboxEntry β υ)
    (res : Response υ) : Stage υ × Store β υ (Option υ) :=
  if res.ok ∧ isTap entry then (.filed .sent, dropSentPress s id)
  else if res.ok then
    match res.body with
    | some data =>
      (.filed .sent, markSynced s id entry.clientUuid entry.matchId entry.sequence data.id)
    | none =>
      let (outcome, s) := fileThrown s id "Unexpected end of JSON input"
      (.filed outcome, s)
  else if res.status = 400 ∧ isTap entry = false then (.refused res, s)
  else
    let (outcome, s) :=
      if res.status = 400 then holdRefused s id res
      else if res.status ∈ REFUSALS then answerRefusal s id res
      else fileUnanswered s id res
    (.filed outcome, s)

/-- `retryWithFreshSequence` on the answer to its POST. -/
def secondTryAnswer (s : Store β υ (Option υ)) (id : ℕ) (entry : OutboxEntry β υ)
    (first : Response υ) (sequence : ℕ) (res : Response υ) : Stage υ × Store β υ (Option υ) :=
  let (outcome, s) :=
    if res.status ∈ REFUSALS then answerRefusal s id res
    else if res.status = 400 then holdRefused s id first
    else if ¬ res.ok then fileUnanswered s id res
    else (.sent, markSynced s id entry.clientUuid entry.matchId sequence
      (some (res.readBody.id.getD entry.clientUuid)))
  (.filed outcome, s)

end Answers

/-! ## The pass -/

inductive Pass (β : Type u) (υ : Type v) where
  | idle
  /-- The queue is listed; the held bouts are not read yet. -/
  | listed (pending : List (ℕ × OutboxEntry β υ))
  | walking (order : BoutOrder β) (left : List (ℕ × OutboxEntry β υ)) (failures : ℕ)
  | sending (order : BoutOrder β) (id : ℕ) (entry : OutboxEntry β υ)
      (left : List (ℕ × OutboxEntry β υ)) (failures : ℕ) (stage : Stage υ)

structure Engine (β : Type u) (υ : Type v) where
  tablet : Tablet β υ (Option υ)
  pass : Pass β υ

def Engine.empty : Engine β υ := ⟨Tablet.empty, .idle⟩

def Engine.store (e : Engine β υ) : Store β υ (Option υ) := e.tablet.store

/-- The row the undo finds on its way. -/
def Engine.sendingId (e : Engine β υ) : Option ℕ :=
  match e.pass with
  | .sending _ id _ _ _ _ => some id
  | _ => none

def maxConsecutiveFailures : ℕ := 3

inductive EngineEvent (β : Type u) (υ : Type v) where
  | referee (act : RefereeAct β υ)
  | takeBack (clientUuid : υ)
  | getAllPending
  | boutsBehindHeldRow
  | nextRow
  | post
  | answer (res : Response υ)
  | lost (error : String)
  | freshSequence (serverMax : ℕ)
  | freshUnanswered (res : Response υ)
  | noted
  | abort

section Steps

variable [DecidableEq β]

/-- The pass once a row was not sent, or was. -/
def afterRow (order : BoutOrder β) (left : List (ℕ × OutboxEntry β υ)) (failures : ℕ)
    (failed : Bool) : Pass β υ :=
  let failures := if failed then failures + 1 else 0
  if maxConsecutiveFailures ≤ failures then .idle else .walking order left failures

def nextRow (s : Store β υ (Option υ)) (order : BoutOrder β)
    (left : List (ℕ × OutboxEntry β υ)) (failures : ℕ) : Pass β υ :=
  match left with
  | [] => .idle
  | (id, entry) :: left =>
    match order.waits entry with
    | some .behindHeld => .walking order left failures
    | some (.behind .failed) => .walking (order.note entry .failed) left failures
    | some (.behind .offline) => afterRow (order.note entry .offline) left failures true
    | none =>
      if claimForSend s id then .sending order id entry left failures .claimed
      else .walking order left failures

/-- The pass once an answer is filed and the bar has said so. -/
def afterFiled (order : BoutOrder β) (entry : OutboxEntry β υ)
    (left : List (ℕ × OutboxEntry β υ)) (failures : ℕ) (outcome : Filed) : Pass β υ :=
  if outcome = .stopped then .idle
  else afterRow (order.note entry outcome) left failures
    (outcome = .failed ∨ outcome = .offline)

variable [DecidableEq υ]

/-- The engine after an event; none where the send is not there. -/
def EngineEvent.apply (e : Engine β υ) : EngineEvent β υ → Option (Engine β υ)
  | .referee act => (act.apply e.tablet).map fun tablet => { e with tablet := tablet }
  | .takeBack clientUuid =>
    some { e with
      tablet.store := (takeOffTablet e.store clientUuid fun id => e.sendingId = some id).2 }
  | .getAllPending =>
    match e.pass with
    | .idle =>
      let pending := e.store.outbox.rows
      some { e with pass := if pending = [] then .idle else .listed pending }
    | _ => none
  | .boutsBehindHeldRow =>
    match e.pass with
    | .listed pending =>
      let order := ⟨Offline.boutsBehindHeldRow e.store, fun _ => none⟩
      some { e with pass := .walking order pending 0 }
    | _ => none
  | .nextRow =>
    match e.pass with
    | .walking order left failures =>
      some { e with pass := Offline.nextRow e.store order left failures }
    | _ => none
  | .post =>
    match e.pass with
    | .sending order id entry left failures .claimed =>
      some { e with pass := .sending order id entry left failures .out }
    | .sending order id entry left failures (.numbered first sequence) =>
      some { e with pass := .sending order id entry left failures (.outAgain first sequence) }
    | _ => none
  | .answer res =>
    match e.pass with
    | .sending order id entry left failures .out =>
      let (stage, store) := sendEntryAnswer e.store id entry res
      some ⟨⟨store, e.tablet.calls⟩, .sending order id entry left failures stage⟩
    | .sending order id entry left failures (.outAgain first sequence) =>
      let (stage, store) := secondTryAnswer e.store id entry first sequence res
      some ⟨⟨store, e.tablet.calls⟩, .sending order id entry left failures stage⟩
    | _ => none
  | .lost error =>
    match e.pass with
    | .sending order id entry left failures stage =>
      if stage.asks then
        let (outcome, store) := fileThrown e.store id error
        some ⟨⟨store, e.tablet.calls⟩, .sending order id entry left failures (.filed outcome)⟩
      else none
    | _ => none
  | .freshSequence serverMax =>
    match e.pass with
    | .sending order id entry left failures (.refused first) =>
      let sequence := max (serverMax + 1) (nextSequence e.store entry.matchId)
      some { e with pass := .sending order id entry left failures (.numbered first sequence) }
    | _ => none
  | .freshUnanswered res =>
    match e.pass with
    | .sending order id entry left failures (.refused _) =>
      let (outcome, store) := fileUnanswered e.store id res
      some ⟨⟨store, e.tablet.calls⟩, .sending order id entry left failures (.filed outcome)⟩
    | _ => none
  | .noted =>
    match e.pass with
    | .sending order _ entry left failures (.filed outcome) =>
      some { e with pass := afterFiled order entry left failures outcome }
    | _ => none
  | .abort =>
    match e.pass with
    | .walking _ _ _ => some { e with pass := .idle }
    | _ => none

def engineStep (e : Engine β υ) (event : EngineEvent β υ) (e' : Engine β υ) : Prop :=
  event.apply e = some e'

end Steps

/-! ## What a step can do -/

/-- The filing of an answer that names the saved row as `named` says. -/
inductive Filing [DecidableEq υ] (named : Option υ → Prop) (s : Store β υ (Option υ)) (id : ℕ)
    (entry : OutboxEntry β υ) : Stage υ → Store β υ (Option υ) → Prop
  | tapTaken (hTap : isTap entry = true) :
    Filing named s id entry (.filed .sent) (dropSentPress s id)
  | taken (sequence : ℕ) (serverId : Option υ) (hId : named serverId) :
    Filing named s id entry (.filed .sent)
      (markSynced s id entry.clientUuid entry.matchId sequence serverId)
  | held (reason : String) (code : Option String) :
    Filing named s id entry (.filed .held) (quarantine s id reason code)
  | waits (outcome : Filed) (error : String) (hOutcome : outcome = .failed ∨ outcome = .offline) :
    Filing named s id entry (.filed outcome) (markFailed s id error)
  | stopped : Filing named s id entry (.filed .stopped) s
  | refused (first : Response υ) : Filing named s id entry (.refused first) s

section Inversion

variable [DecidableEq υ] {s : Store β υ (Option υ)} {id : ℕ} {entry : OutboxEntry β υ}
  {named : Option υ → Prop} {res : Response υ}

theorem filing_answerRefusal :
    Filing named s id entry (.filed (answerRefusal s id res).1) (answerRefusal s id res).2 := by
  unfold answerRefusal
  dsimp only
  split
  · exact Filing.stopped
  · split
    · exact Filing.stopped
    · split
      · exact Filing.waits _ _ (Or.inl rfl)
      · split
        · exact Filing.waits _ _ (Or.inl rfl)
        · exact Filing.held _ _

theorem filing_fileUnanswered :
    Filing named s id entry (.filed (fileUnanswered s id res).1) (fileUnanswered s id res).2 := by
  unfold fileUnanswered
  dsimp only
  split
  · exact Filing.stopped
  · refine Filing.waits _ _ ?_
    split
    · exact Or.inr rfl
    · exact Or.inl rfl

theorem filing_sendEntryAnswer :
    Filing (fun serverId => res.ok = true ∧ isTap entry = false ∧
        ∃ data, res.body = some data ∧ serverId = data.id)
      s id entry (sendEntryAnswer s id entry res).1 (sendEntryAnswer s id entry res).2 := by
  unfold sendEntryAnswer
  split
  · next h => exact Filing.tapTaken h.2
  · next hNoTap =>
    split
    · next hOk =>
      split
      · next data hBody =>
        have hTap : isTap entry = false := by simpa [hOk] using hNoTap
        exact Filing.taken _ _ ⟨hOk, hTap, data, hBody, rfl⟩
      · exact Filing.waits _ _ (Or.inr rfl)
    · split
      · exact Filing.refused _
      · dsimp only
        split
        · exact Filing.held _ _
        · split
          · exact filing_answerRefusal
          · exact filing_fileUnanswered

theorem filing_secondTryAnswer {first : Response υ} {sequence : ℕ} :
    Filing (fun serverId => res.ok = true ∧
        serverId = some (res.readBody.id.getD entry.clientUuid))
      s id entry (secondTryAnswer s id entry first sequence res).1
      (secondTryAnswer s id entry first sequence res).2 := by
  unfold secondTryAnswer
  dsimp only
  split
  · exact filing_answerRefusal
  · split
    · exact Filing.held _ _
    · split
      · exact filing_fileUnanswered
      · next hOk => exact Filing.taken _ _ ⟨by simpa using hOk, rfl⟩

variable [DecidableEq β]

def Stage.isFiled : Stage υ → Bool
  | .filed _ => true
  | _ => false

/-- The ids a send may file its row under, by the answer it met and the try it is. -/
def namedBy (entry : OutboxEntry β υ) (stage : Stage υ) (event : EngineEvent β υ)
    (serverId : Option υ) : Prop :=
  ∃ res, event = .answer res ∧ res.ok = true ∧
    ((stage = .out ∧ isTap entry = false ∧ ∃ data, res.body = some data ∧ serverId = data.id) ∨
      ∃ first sequence, stage = .outAgain first sequence ∧
        serverId = some (res.readBody.id.getD entry.clientUuid))

inductive EngineMove (e : Engine β υ) : EngineEvent β υ → Engine β υ → Prop
  | referee (act : RefereeAct β υ) (tablet : Tablet β υ (Option υ))
      (hAct : act.apply e.tablet = some tablet) :
    EngineMove e (.referee act) { e with tablet := tablet }
  | takeBack (clientUuid : υ) : EngineMove e (.takeBack clientUuid) { e with
      tablet.store := (takeOffTablet e.store clientUuid fun id => e.sendingId = some id).2 }
  | empty (hPass : e.pass = .idle) : EngineMove e .getAllPending { e with pass := .idle }
  | list (hPass : e.pass = .idle) :
    EngineMove e .getAllPending { e with pass := .listed e.store.outbox.rows }
  | readHeld (pending : List (ℕ × OutboxEntry β υ)) (hPass : e.pass = .listed pending) :
    EngineMove e .boutsBehindHeldRow
      { e with pass := .walking ⟨Offline.boutsBehindHeldRow e.store, fun _ => none⟩ pending 0 }
  | next (order : BoutOrder β) (left : List (ℕ × OutboxEntry β υ)) (failures : ℕ)
      (hPass : e.pass = .walking order left failures) :
    EngineMove e .nextRow { e with pass := Offline.nextRow e.store order left failures }
  | within (event : EngineEvent β υ) (order : BoutOrder β) (id : ℕ) (entry : OutboxEntry β υ)
      (left : List (ℕ × OutboxEntry β υ)) (failures : ℕ) (stage stage' : Stage υ)
      (hEvent : ∀ act, event ≠ .referee act)
      (hPass : e.pass = .sending order id entry left failures stage)
      (hStage : stage.isFiled = false) (hStage' : stage'.isFiled = false) :
    EngineMove e event { e with pass := .sending order id entry left failures stage' }
  | filing (event : EngineEvent β υ) (order : BoutOrder β) (id : ℕ) (entry : OutboxEntry β υ)
      (left : List (ℕ × OutboxEntry β υ)) (failures : ℕ) (stage stage' : Stage υ)
      (store : Store β υ (Option υ)) (hEvent : ∀ act, event ≠ .referee act)
      (hPass : e.pass = .sending order id entry left failures stage)
      (hStage : stage.isFiled = false)
      (hFiling : Filing (namedBy entry stage event) e.store id entry stage' store) :
    EngineMove e event
      ⟨⟨store, e.tablet.calls⟩, .sending order id entry left failures stage'⟩
  | noted (order : BoutOrder β) (id : ℕ) (entry : OutboxEntry β υ)
      (left : List (ℕ × OutboxEntry β υ)) (failures : ℕ) (outcome : Filed)
      (hPass : e.pass = .sending order id entry left failures (.filed outcome)) :
    EngineMove e .noted { e with pass := afterFiled order entry left failures outcome }
  | abort : EngineMove e .abort { e with pass := .idle }

omit [DecidableEq β] in
theorem Filing.mono {named' : Option υ → Prop} {stage : Stage υ} {s' : Store β υ (Option υ)}
    (h : Filing named s id entry stage s') (hNamed : ∀ serverId, named serverId → named' serverId) :
    Filing named' s id entry stage s' := by
  cases h with
  | tapTaken hTap => exact Filing.tapTaken hTap
  | taken sequence serverId hId => exact Filing.taken sequence serverId (hNamed serverId hId)
  | held reason code => exact Filing.held reason code
  | waits outcome error hOutcome => exact Filing.waits outcome error hOutcome
  | stopped => exact Filing.stopped
  | refused first => exact Filing.refused first

omit [DecidableEq β] in
theorem Filing.filed_or_refused {stage : Stage υ} {s' : Store β υ (Option υ)}
    (h : Filing named s id entry stage s') :
    (∃ outcome, stage = .filed outcome) ∨ ∃ first, stage = .refused first ∧ s' = s := by
  cases h with
  | refused first => exact Or.inr ⟨first, rfl, rfl⟩
  | _ => exact Or.inl ⟨_, rfl⟩

/-- Every step of the engine is one of the moves above. -/
theorem engineMove_of_step {e e' : Engine β υ} {event : EngineEvent β υ}
    (h : engineStep e event e') : EngineMove e event e' := by
  unfold engineStep at h
  cases event with
  | referee act =>
    obtain ⟨tablet, hAct, rfl⟩ := Option.map_eq_some_iff.mp h
    exact EngineMove.referee act tablet hAct
  | takeBack clientUuid =>
    obtain rfl := Option.some.inj h
    exact EngineMove.takeBack clientUuid
  | getAllPending =>
    simp only [EngineEvent.apply] at h
    split at h
    · next hPass =>
      obtain rfl := Option.some.inj h
      split
      · exact EngineMove.empty hPass
      · exact EngineMove.list hPass
    · exact absurd h nofun
  | boutsBehindHeldRow =>
    simp only [EngineEvent.apply] at h
    split at h
    · next pending hPass =>
      obtain rfl := Option.some.inj h
      exact EngineMove.readHeld pending hPass
    · exact absurd h nofun
  | nextRow =>
    simp only [EngineEvent.apply] at h
    split at h
    · next order left failures hPass =>
      obtain rfl := Option.some.inj h
      exact EngineMove.next order left failures hPass
    · exact absurd h nofun
  | post =>
    simp only [EngineEvent.apply] at h
    split at h
    · next order id entry left failures hPass =>
      obtain rfl := Option.some.inj h
      exact EngineMove.within _ order id entry left failures _ _ nofun hPass rfl rfl
    · next order id entry left failures first sequence hPass =>
      obtain rfl := Option.some.inj h
      exact EngineMove.within _ order id entry left failures _ _ nofun hPass rfl rfl
    · exact absurd h nofun
  | answer res =>
    simp only [EngineEvent.apply] at h
    split at h
    · next order id entry left failures hPass =>
      obtain rfl := Option.some.inj h
      refine EngineMove.filing _ order id entry left failures _ _ _ nofun hPass rfl
        (filing_sendEntryAnswer.mono ?_)
      rintro serverId ⟨hOk, hId⟩
      exact ⟨res, rfl, hOk, Or.inl ⟨rfl, hId⟩⟩
    · next order id entry left failures first sequence hPass =>
      obtain rfl := Option.some.inj h
      refine EngineMove.filing _ order id entry left failures _ _ _ nofun hPass rfl
        (filing_secondTryAnswer.mono ?_)
      rintro serverId ⟨hOk, hId⟩
      exact ⟨res, rfl, hOk, Or.inr ⟨first, sequence, rfl, hId⟩⟩
    · exact absurd h nofun
  | lost error =>
    simp only [EngineEvent.apply] at h
    split at h
    · next order id entry left failures stage hPass =>
      split at h
      · next hAsks =>
        obtain rfl := Option.some.inj h
        refine EngineMove.filing _ order id entry left failures _ _ _ nofun hPass ?_
          (Filing.waits _ _ (Or.inr rfl))
        cases stage <;> first | rfl | exact absurd hAsks nofun
      · exact absurd h nofun
    · exact absurd h nofun
  | freshSequence serverMax =>
    simp only [EngineEvent.apply] at h
    split at h
    · next order id entry left failures first hPass =>
      obtain rfl := Option.some.inj h
      exact EngineMove.within _ order id entry left failures _ _ nofun hPass rfl rfl
    · exact absurd h nofun
  | freshUnanswered res =>
    simp only [EngineEvent.apply] at h
    split at h
    · next order id entry left failures first hPass =>
      obtain rfl := Option.some.inj h
      exact EngineMove.filing _ order id entry left failures _ _ _ nofun hPass rfl
        filing_fileUnanswered
    · exact absurd h nofun
  | noted =>
    simp only [EngineEvent.apply] at h
    split at h
    · next order id entry left failures outcome hPass =>
      obtain rfl := Option.some.inj h
      exact EngineMove.noted order id entry left failures outcome hPass
    · exact absurd h nofun
  | abort =>
    simp only [EngineEvent.apply] at h
    split at h
    · obtain rfl := Option.some.inj h
      exact EngineMove.abort
    · exact absurd h nofun

end Inversion

end MyClash.Offline
