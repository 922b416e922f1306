import MyClash.Offline.Holdings

/-!
# One tablet and the server

The server saves each `clientUuid` at most once and answers a repeat with the saved row.
Every hit and card is in one place of the tablet, and the undo is told the truth about it,
but for a second try whose answer could not be read.
-/

namespace MyClash.Offline

open KeyTable Runs

universe u v

variable {β : Type u} {υ : Type v} {s s' : Store β υ (Option υ)}

/-! ## The tablet and the server -/

structure Delivery (β : Type u) (υ : Type v) where
  engine : Engine β υ
  /-- The hits and cards the server holds, by `clientUuid`, with the id of the row. -/
  saved : List (υ × υ)
  /-- The uuids a POST has carried. -/
  posted : List υ
  /-- The uuids given so far; of them the hits and cards; of these the discarded. -/
  used : List υ
  made : List υ
  discarded : List υ

def Delivery.empty : Delivery β υ := ⟨Engine.empty, [], [], [], [], []⟩

def Delivery.store (d : Delivery β υ) : Store β υ (Option υ) := d.engine.store

inductive DeliveryEvent (β : Type u) (υ : Type v) where
  | tablet (event : EngineEvent β υ)
  | save (clientUuid serverId : υ)

/-- The uuid an act gives. -/
def RefereeAct.newUuid : RefereeAct β υ → Option υ
  | .enqueue entry _ => some entry.clientUuid
  | .press clientUuid _ _ => some clientUuid
  | .roundPress clientUuid _ _ _ _ => some clientUuid
  | .levelPress clientUuid _ _ _ => some clientUuid
  | _ => none

/-- Only a hit or a card is enqueued. -/
def RefereeAct.putsEntry : RefereeAct β υ → Bool
  | .enqueue entry _ => !isTap entry
  | _ => true

/-- The row whose POST an event sends. -/
def Engine.posts (e : Engine β υ) : EngineEvent β υ → List υ
  | .post =>
    match e.pass with
    | .sending _ _ entry _ _ _ => [entry.clientUuid]
    | _ => []
  | _ => []

/-- The hit or card an act puts on the sheet. -/
def EngineEvent.makes : EngineEvent β υ → List υ
  | .referee (.enqueue entry _) => [entry.clientUuid]
  | _ => []

def EngineEvent.gives : EngineEvent β υ → List υ
  | .referee act => act.newUuid.toList
  | _ => []

section Step

variable [DecidableEq β]

def EngineEvent.discards (s : Store β υ (Option υ)) : EngineEvent β υ → List υ
  | .referee (.discard id) => ((s.rejected.get? id).map (·.clientUuid)).toList
  | .referee (.discardBout heldId) =>
    match s.rejected.get? heldId with
    | none => []
    | some held =>
      (s.outbox.rows.filter (·.2.matchId = held.matchId)).map (·.2.clientUuid) ++
        (s.rejected.rows.filter (·.2.matchId = held.matchId)).map (·.2.clientUuid)
  | _ => []

variable [DecidableEq υ]

/-- A 2xx answer to a hit or a card comes from a server that saved it, and names its row. -/
def Delivery.honest (d : Delivery β υ) (res : Response υ) : Bool :=
  match d.engine.pass with
  | .sending _ _ entry _ _ stage => !res.ok || (isTap entry && stage = .out) ||
      d.saved.any fun row => row.1 = entry.clientUuid ∧ ∀ body ∈ res.body, body.id = some row.2
  | _ => true

/-- A new row has a uuid of its own, only a hit or a card is enqueued, and the undo is asked for
an entry of the sheet. -/
def Delivery.allows (d : Delivery β υ) : EngineEvent β υ → Bool
  | .referee act =>
    (act.newUuid.all fun clientUuid => decide (clientUuid ∉ d.used)) && act.putsEntry
  | .takeBack clientUuid => clientUuid ∈ d.made
  | .answer res => d.honest res
  | _ => true

def DeliveryEvent.apply (d : Delivery β υ) : DeliveryEvent β υ → Option (Delivery β υ)
  | .tablet event =>
    if d.allows event then
      (event.apply d.engine).map fun engine =>
        { engine := engine
          saved := d.saved
          posted := d.engine.posts event ++ d.posted
          used := event.gives ++ d.used
          made := event.makes ++ d.made
          discarded := event.discards d.store ++ d.discarded }
    else none
  | .save clientUuid serverId =>
    if clientUuid ∈ d.posted ∧ clientUuid ∉ d.saved.map Prod.fst then
      some { d with saved := (clientUuid, serverId) :: d.saved }
    else none

def deliveryStep (d : Delivery β υ) (event : DeliveryEvent β υ) (d' : Delivery β υ) : Prop :=
  event.apply d = some d'

end Step

section Law

variable [DecidableEq β] [DecidableEq υ] {d d' : Delivery β υ}

/-! ## The law of the delivery -/

/-- Every row filed as taken names the server's own row. -/
def TakenNamed (s : Store β υ (Option υ)) (saved : List (υ × υ)) : Prop :=
  ∀ row ∈ s.synced, ∃ serverId, row.serverId = some serverId ∧ (row.clientUuid, serverId) ∈ saved

structure DeliveryLaw (d : Delivery β υ) : Prop where
  engine : EngineRows d.engine
  books : Books (holdings d.store) d.store.undone d.used d.made d.discarded
  taken : TakenNamed d.store d.saved

/-- The answer to a second try, when it is a 2xx, can be read. -/
def SecondTryRead (m : Move (Delivery β υ) (DeliveryEvent β υ)) : Prop :=
  match m.event, m.before.engine.pass with
  | .tablet (.answer res), .sending _ _ _ _ _ (.outAgain _ _) => res.ok = true → res.body.isSome
  | _, _ => True

omit [DecidableEq υ] in
theorem books_act {t t' : Tablet β υ (Option υ)} {act : RefereeAct β υ}
    {used made discarded : List υ} (hKnown : CallsKnown t)
    (books : Books (holdings t.store) t.store.undone used made discarded)
    (hNew : ∀ clientUuid ∈ act.newUuid, clientUuid ∉ used)
    (hHit : ∀ entry now, act = .enqueue entry now → isTap entry = false)
    (h : act.apply t = some t') :
    Books (holdings t'.store) t'.store.undone (EngineEvent.gives (.referee act) ++ used)
      (EngineEvent.makes (.referee act) ++ made)
      (EngineEvent.discards t.store (.referee act) ++ discarded) := by
  rw [(sameFiled_act h).undone]
  cases act with
  | enqueue entry now =>
    obtain rfl := Option.some.inj h
    have hTap := hHit entry now rfl
    have hPush : (holdings (Offline.enqueue t.store entry now)).Perm
        ((entry.clientUuid, isTap entry) :: holdings t.store) := holdings_push t.store _
    rw [hTap] at hPush
    exact books.new hPush (hNew _ rfl)
  | press clientUuid matchId at' =>
    obtain rfl := Option.some.inj h
    exact books.new (holdings_push t.store _) (hNew _ rfl)
  | roundPress clientUuid matchId action round at' =>
    obtain rfl := Option.some.inj h
    exact books.new (holdings_push t.store _) (hNew _ rfl)
  | levelPress clientUuid matchId round at' =>
    obtain rfl := Option.some.inj h
    exact books.new (holdings_push t.store _) (hNew _ rfl)
  | listHeld | findHeld =>
    simp only [RefereeAct.apply] at h
    split at h <;> obtain rfl := Option.some.inj h <;> exact books
  | readNext call =>
    obtain ⟨asked, -, h⟩ := Option.bind_eq_some_iff.mp h
    obtain ⟨read, -, rfl⟩ := Option.map_eq_some_iff.mp h
    exact books
  | requeue call =>
    obtain ⟨asked, hAsked, h⟩ := Option.bind_eq_some_iff.mp h
    obtain ⟨store, hStore, rfl⟩ := Option.map_eq_some_iff.mp h
    exact books.of_perm (holdings_transaction (hKnown asked (List.mem_of_getElem? hAsked)) hStore)
  | discard id =>
    obtain rfl := Option.some.inj h
    have hHeld : ∀ row ∈ t.store.rejected.rows, decide (row.1 = id) = true →
        row.2.clientUuid ∈ EngineEvent.discards t.store (.referee (.discard id)) := by
      rintro ⟨key, held⟩ hHeld hKey
      obtain rfl : key = id := of_decide_eq_true hKey
      simp [EngineEvent.discards, (Table.get?_eq_some_iff _).mpr hHeld]
    have hRemoved := holdings_remove t.store (fun _ => false) (fun row => row.1 = id)
      t.store.undone (· ∈ EngineEvent.discards t.store (.referee (.discard id))) (by simp) hHeld
    rw [Table.deleteWhere_eq_self] at hRemoved
    exact books.discard hRemoved.1 hRemoved.2
  | discardBout heldId =>
    obtain rfl := Option.some.inj h
    cases hHeld : t.store.rejected.get? heldId with
    | none =>
      simp only [discardBoutOf, EngineEvent.discards, hHeld]
      exact books
    | some held =>
      simp only [discardBoutOf, EngineEvent.discards, hHeld]
      have hRemoved := holdings_remove t.store (fun row => row.2.matchId = held.matchId)
        (fun row => row.2.matchId = held.matchId) t.store.undone
        (· ∈ (t.store.outbox.rows.filter (·.2.matchId = held.matchId)).map (·.2.clientUuid) ++
          (t.store.rejected.rows.filter (·.2.matchId = held.matchId)).map (·.2.clientUuid))
        (fun row hRow hBout => List.mem_append_left _
          (List.mem_map_of_mem (List.mem_filter.mpr ⟨hRow, hBout⟩)))
        (fun row hRow hBout => List.mem_append_right _
          (List.mem_map_of_mem (List.mem_filter.mpr ⟨hRow, hBout⟩)))
      exact books.discard hRemoved.1 hRemoved.2

omit [DecidableEq β] in
/-- The undo takes an entry off the tablet, or leaves the tablet as it is. -/
theorem books_takeOffTablet {used made discarded : List υ} {clientUuid : υ}
    {isOnItsWay : ℕ → Bool} {s : Store β υ (Option υ)}
    (books : Books (holdings s) s.undone used made discarded) (hMade : clientUuid ∈ made) :
    Books (holdings (takeOffTablet s clientUuid isOnItsWay).2)
      (takeOffTablet s clientUuid isOnItsWay).2.undone used made discarded := by
  have hUsed := books.madeGiven clientUuid hMade
  unfold takeOffTablet
  split
  · exact books
  · next hLanded =>
    split
    · next id entry hWaiting =>
      split
      · exact books
      · -- a uuid is in one place, so the row found is the only one
        have hRow : (id, entry) ∈ s.outbox.rows := List.mem_of_find?_eq_some hWaiting
        have hUuid : entry.clientUuid = clientUuid := by simpa using List.find?_some hWaiting
        have hPerm := holdings_delete hRow
        have hApart := (books.of_perm hPerm.symm).apart
        rw [tagOf, hUuid] at hPerm hApart
        have hSub : (holdings (dropSentPress s id)).Sublist (holdings s) :=
          ((List.filter_sublist (l := s.outbox.rows)).map _).append_right _
        refine books.undo hSub (fun row hIn => ?_) (List.nodup_cons.mp hApart).1 hUsed
        rcases List.mem_cons.mp (hPerm.mem_iff.mp hIn) with rfl | hIn
        · exact Or.inr rfl
        · exact Or.inl hIn
    · next hWaiting =>
      have hRemoved := holdings_remove s (fun _ => false) (fun row => row.2.clientUuid = clientUuid)
        (clientUuid :: s.undone.filter (· ≠ clientUuid)) (· = clientUuid) nofun
        fun row _ hUuid => of_decide_eq_true hUuid
      rw [Table.deleteWhere_eq_self] at hRemoved
      refine books.undo hRemoved.1 hRemoved.2 (fun hIn => ?_) hUsed
      obtain ⟨tag, hTag, rfl⟩ := List.mem_map.mp hIn
      simp only [holdings, List.mem_append, List.mem_map] at hTag
      rcases hTag with ⟨row, hRow, rfl⟩ | ⟨row, hRow, rfl⟩ | ⟨row, hRow, rfl⟩
      · simpa [tagOf] using List.find?_eq_none.mp hWaiting row hRow
      · simpa [tagOf] using (Table.mem_deleteWhere.mp hRow).2
      · simpa using List.find?_eq_none.mp hLanded row hRow

omit [DecidableEq β] in
theorem taken_takeOffTablet {clientUuid : υ} {isOnItsWay : ℕ → Bool}
    {s : Store β υ (Option υ)} :
    (takeOffTablet s clientUuid isOnItsWay).2.synced = s.synced := by
  unfold takeOffTablet
  split
  · rfl
  · split
    · split <;> rfl
    · rfl

omit [DecidableEq β] in
/-- The row a send files is the one the tablet holds at its place. -/
theorem books_filing {named : Option υ → Prop} {s s' : Store β υ (Option υ)} {id : ℕ}
    {entry : OutboxEntry β υ} {stage' : Stage υ} {used made discarded : List υ}
    (books : Books (holdings s) s.undone used made discarded)
    (hEntry : Remembered s (id, entry)) (hQueued : ∃ row, (id, row) ∈ s.outbox.rows)
    (hFiling : Filing named s id entry stage' s') :
    Books (holdings s') s'.undone used made discarded := by
  obtain ⟨row, hRow⟩ := hQueued
  have hSame := hEntry.queued row hRow
  have hPerm := holdings_delete hRow
  rw [hSame.tagOf] at hPerm
  cases hFiling with
  | tapTaken hTap =>
    rw [tagOf, hTap] at hPerm
    exact books.dropTap hPerm
  | taken sequence serverId hId =>
    have hApart := (books.of_perm hPerm.symm).apart
    have hNotTaken : ∀ filed ∈ s.synced, filed.clientUuid ≠ entry.clientUuid := by
      intro filed hFiled hUuid
      refine (List.nodup_cons.mp hApart).1 ?_
      refine List.mem_map.mpr ⟨(filed.clientUuid, false), ?_, hUuid⟩
      refine List.mem_append_right _ (List.mem_append_right _ ?_)
      exact List.mem_map.mpr ⟨filed, hFiled, rfl⟩
    have hKeep : s.synced.filter (fun filed => decide (filed.clientUuid ≠ entry.clientUuid)) =
        s.synced :=
      List.filter_eq_self.mpr fun filed hFiled => decide_eq_true (hNotTaken filed hFiled)
    refine books.file hPerm ?_
    simp only [holdings, markSynced, dropSentPress, hKeep, List.map_append, List.map_singleton]
    simp only [← List.append_assoc]
    exact List.perm_append_singleton _ _
  | held reason code =>
    have hUndone : (quarantine s id reason code).undone = s.undone := by
      unfold quarantine
      split <;> rfl
    rw [hUndone]
    exact books.of_perm (holdings_quarantine s id reason code)
  | waits outcome error hOutcome =>
    rw [holdings_markFailed]
    exact books
  | stopped => exact books
  | refused first => exact books

omit [DecidableEq β] in
/-- A row is filed as taken under the id of the row the server holds. -/
theorem takenNamed_filing {named : Option υ → Prop} {s s' : Store β υ (Option υ)} {id : ℕ}
    {entry : OutboxEntry β υ} {stage' : Stage υ} {saved : List (υ × υ)}
    (hTaken : TakenNamed s saved) (hFiling : Filing named s id entry stage' s')
    (hNamed : ∀ serverId, named serverId → ∃ row, serverId = some row ∧
      (entry.clientUuid, row) ∈ saved) : TakenNamed s' saved := by
  cases hFiling with
  | taken sequence serverId hId =>
    intro filed hFiled
    rcases List.mem_append.mp hFiled with hOld | hNew
    · exact hTaken filed (List.mem_filter.mp hOld).1
    · obtain rfl := List.mem_singleton.mp hNew
      exact hNamed serverId hId
  | held reason code =>
    have hSynced : (quarantine s id reason code).synced = s.synced := by
      unfold quarantine
      split <;> rfl
    intro filed hFiled
    rw [hSynced] at hFiled
    exact hTaken filed hFiled
  | _ => exact hTaken

omit [DecidableEq β] in
/-- What the answer of an honest server names, where a second try's answer was read. -/
theorem named_of_honest {order : BoutOrder β} {id : ℕ} {entry : OutboxEntry β υ}
    {left : List (ℕ × OutboxEntry β υ)} {failures : ℕ} {stage : Stage υ}
    {event : EngineEvent β υ} (hPass : d.engine.pass = .sending order id entry left failures stage)
    (hAllows : d.allows event = true) (hRead : SecondTryRead ⟨d, .tablet event, d'⟩)
    {serverId : Option υ} (hNamed : namedBy entry stage event serverId) :
    ∃ row, serverId = some row ∧ (entry.clientUuid, row) ∈ d.saved := by
  obtain ⟨res, rfl, hOk, hNames⟩ := hNamed
  have hSaved : (isTap entry && decide (stage = .out)) = false →
      ∃ row ∈ d.saved, row.1 = entry.clientUuid ∧ ∀ body ∈ res.body, body.id = some row.2 := by
    intro hHit
    have hHonest : d.honest res = true := hAllows
    simpa [Delivery.honest, hPass, hOk, hHit] using hHonest
  rcases hNames with ⟨rfl, hTap, data, hBody, rfl⟩ | ⟨first, sequence, rfl, rfl⟩
  · obtain ⟨⟨uuid, row⟩, hIn, rfl, hId⟩ := hSaved (by simp [hTap])
    exact ⟨row, hId data hBody, hIn⟩
  · obtain ⟨⟨uuid, row⟩, hIn, rfl, hId⟩ := hSaved (by simp)
    simp only [SecondTryRead, hPass] at hRead
    obtain ⟨body, hBody⟩ := Option.isSome_iff_exists.mp (hRead hOk)
    refine ⟨row, ?_, hIn⟩
    simp [Response.readBody, hBody, hId body hBody]

theorem DeliveryLaw.tablet (law : DeliveryLaw d) {event : EngineEvent β υ} {engine : Engine β υ}
    (hAllows : d.allows event = true) (hRead : SecondTryRead ⟨d, .tablet event, d'⟩)
    (hMove : EngineMove d.engine event engine) :
    Books (holdings engine.store) engine.store.undone (event.gives ++ d.used)
        (event.makes ++ d.made) (event.discards d.store ++ d.discarded) ∧
      TakenNamed engine.store d.saved := by
  obtain ⟨hEngine, books, hTaken⟩ := law
  -- outside the referee's acts no uuid is given and nothing is discarded
  have hPlain : (∀ act, event ≠ .referee act) → event.gives = [] ∧ event.makes = [] ∧
      event.discards d.store = [] := by
    intro hAct
    cases event with
    | referee act => exact absurd rfl (hAct act)
    | _ => exact ⟨rfl, rfl, rfl⟩
  cases hMove with
  | referee act tablet hAct =>
    obtain ⟨hNew, hPuts⟩ := Bool.and_eq_true_iff.mp hAllows
    refine ⟨books_act hEngine.calls books ?_ ?_ hAct, fun filed hFiled => ?_⟩
    · intro clientUuid hIn
      simpa [Option.mem_def.mp hIn] using hNew
    · rintro entry now rfl
      simpa [RefereeAct.putsEntry] using hPuts
    · have hSynced : tablet.store.synced = d.store.synced := (sameFiled_act hAct).synced
      exact hTaken filed (hSynced ▸ hFiled)
  | takeBack clientUuid =>
    have hMade : clientUuid ∈ d.made := of_decide_eq_true hAllows
    have hSynced : (takeOffTablet d.store clientUuid
        fun id => d.engine.sendingId = some id).2.synced = d.store.synced := taken_takeOffTablet
    exact ⟨books_takeOffTablet books hMade, fun filed hFiled => hTaken filed (hSynced ▸ hFiled)⟩
  | filing _ order id entry left failures stage stage' store hEvent hSending hStage hFiling =>
    obtain ⟨hGives, hMakes, hDiscards⟩ := hPlain hEvent
    have hPass := hEngine.pass
    rw [hSending] at hPass
    obtain ⟨hAll, -, -, hQueued⟩ := (passRows_sending hStage).mp hPass
    rw [hGives, hMakes, hDiscards]
    exact ⟨books_filing books (hAll _ List.mem_cons_self) hQueued hFiling,
      takenNamed_filing hTaken hFiling fun serverId => named_of_honest hSending hAllows hRead⟩
  | within _ order id entry left failures stage stage' hEvent hSending hStage hStage' =>
    obtain ⟨hGives, hMakes, hDiscards⟩ := hPlain hEvent
    rw [hGives, hMakes, hDiscards]
    exact ⟨books, hTaken⟩
  | empty | list | readHeld | next | noted | abort => exact ⟨books, hTaken⟩

theorem DeliveryLaw.step (law : DeliveryLaw d) {event : DeliveryEvent β υ}
    (hRead : SecondTryRead ⟨d, event, d'⟩) (hStep : deliveryStep d event d') : DeliveryLaw d' := by
  unfold deliveryStep at hStep
  cases event with
  | tablet event =>
    simp only [DeliveryEvent.apply] at hStep
    split at hStep
    · next hAllows =>
      obtain ⟨engine, hEngine, rfl⟩ := Option.map_eq_some_iff.mp hStep
      have hMove := engineMove_of_step hEngine
      obtain ⟨hBooks, hTaken⟩ := law.tablet hAllows hRead hMove
      exact ⟨law.engine.step hMove, hBooks, hTaken⟩
    · exact absurd hStep nofun
  | save clientUuid serverId =>
    simp only [DeliveryEvent.apply] at hStep
    split at hStep
    · obtain rfl := Option.some.inj hStep
      refine ⟨law.engine, law.books, fun filed hFiled => ?_⟩
      obtain ⟨row, hRow, hSaved⟩ := law.taken filed hFiled
      exact ⟨row, hRow, List.mem_cons_of_mem _ hSaved⟩
    · exact absurd hStep nofun

/-! ## Runs -/

/-- The undo took the entry off the tablet. -/
def Removes (m : Move (Delivery β υ) (DeliveryEvent β υ)) (clientUuid : υ) : Prop :=
  m.event = .tablet (.takeBack clientUuid) ∧
    (takeOffTablet m.before.store clientUuid
      fun id => m.before.engine.sendingId = some id).1 = .removed

/-- The undo was told the entry is on the server, under this id. -/
def Lands (m : Move (Delivery β υ) (DeliveryEvent β υ)) (clientUuid : υ) (serverId : Option υ) :
    Prop :=
  m.event = .tablet (.takeBack clientUuid) ∧
    (takeOffTablet m.before.store clientUuid
      fun id => m.before.engine.sendingId = some id).1 = .landed serverId

/-- A POST carried the entry. -/
def Posts (m : Move (Delivery β υ) (DeliveryEvent β υ)) (clientUuid : υ) : Prop :=
  ∃ event, m.event = .tablet event ∧ clientUuid ∈ m.before.engine.posts event

/-- What holds of a run and of the state it ends in. -/
structure Delivered (moves : List (Move (Delivery β υ) (DeliveryEvent β υ)))
    (d : Delivery β υ) : Prop where
  /-- A hit or card neither undone nor discarded is in one place of the tablet. -/
  once : ∀ clientUuid ∈ d.made, clientUuid ∉ d.store.undone → clientUuid ∉ d.discarded →
    ((holdings d.store).map Prod.fst).count clientUuid = 1
  taken : ∀ row ∈ d.store.synced, ∃ serverId, (row.clientUuid, serverId) ∈ d.saved
  removed : moves.Pairwise fun m m' => ∀ clientUuid, Removes m clientUuid → ¬ Posts m' clientUuid
  landed : ∀ m ∈ moves, ∀ clientUuid serverId, Lands m clientUuid serverId →
    ∃ row, serverId = some row ∧ (clientUuid, row) ∈ m.before.saved

omit [DecidableEq υ] in
theorem deliveryLaw_empty : DeliveryLaw (Delivery.empty : Delivery β υ) where
  engine := engineRows_empty
  books := ⟨List.nodup_nil, nofun, nofun, nofun, nofun, nofun, nofun⟩
  taken := nofun

omit [DecidableEq β] in
theorem undone_takeOffTablet {s : Store β υ (Option υ)} {clientUuid : υ} {isOnItsWay : ℕ → Bool} :
    (∀ u ∈ s.undone, u ∈ (takeOffTablet s clientUuid isOnItsWay).2.undone) ∧
      ((takeOffTablet s clientUuid isOnItsWay).1 = .removed →
        clientUuid ∈ (takeOffTablet s clientUuid isOnItsWay).2.undone) := by
  have hPut : ∀ u ∈ s.undone, u ∈ clientUuid :: s.undone.filter (· ≠ clientUuid) := by
    intro u hu
    by_cases hSame : u = clientUuid
    · exact List.mem_cons.mpr (Or.inl hSame)
    · exact List.mem_cons_of_mem _ (List.mem_filter.mpr ⟨hu, decide_eq_true hSame⟩)
  unfold takeOffTablet
  split
  · exact ⟨fun _ h => h, nofun⟩
  · split
    · split
      · exact ⟨fun _ h => h, nofun⟩
      · exact ⟨hPut, fun _ => List.mem_cons_self⟩
    · exact ⟨hPut, fun _ => List.mem_cons_self⟩

omit [DecidableEq β] in
theorem undone_filing {named : Option υ → Prop} {s s' : Store β υ (Option υ)} {id : ℕ}
    {entry : OutboxEntry β υ} {stage' : Stage υ} (hFiling : Filing named s id entry stage' s') :
    s'.undone = s.undone := by
  cases hFiling with
  | held reason code =>
    unfold quarantine
    split <;> rfl
  | _ => rfl

/-- What the undo took off the tablet stays written down. -/
theorem undone_step {event : DeliveryEvent β υ} (hStep : deliveryStep d event d') :
    ∀ u ∈ d.store.undone, u ∈ d'.store.undone := by
  unfold deliveryStep at hStep
  cases event with
  | save clientUuid serverId =>
    simp only [DeliveryEvent.apply] at hStep
    split at hStep
    · obtain rfl := Option.some.inj hStep
      exact fun _ h => h
    · exact absurd hStep nofun
  | tablet event =>
    simp only [DeliveryEvent.apply] at hStep
    split at hStep
    · obtain ⟨engine, hEngine, rfl⟩ := Option.map_eq_some_iff.mp hStep
      cases engineMove_of_step hEngine with
      | takeBack clientUuid => exact undone_takeOffTablet.1
      | referee act tablet hAct =>
        have hUndone : tablet.store.undone = d.store.undone := (sameFiled_act hAct).undone
        exact fun u hu => hUndone.symm ▸ hu
      | filing _ order id entry left failures stage stage' store hEvent hSending hStage hFiling =>
        have hUndone : store.undone = d.store.undone := undone_filing hFiling
        exact fun u hu => hUndone.symm ▸ hu
      | empty | list | readHeld | next | within | noted | abort => exact fun _ h => h
    · exact absurd hStep nofun

theorem undone_of_removes {event : DeliveryEvent β υ} {u : υ} (hStep : deliveryStep d event d')
    (hRemoves : Removes ⟨d, event, d'⟩ u) : u ∈ d'.store.undone := by
  obtain ⟨hEvent, hRemoved⟩ := hRemoves
  obtain rfl : event = .tablet (.takeBack u) := hEvent
  unfold deliveryStep at hStep
  simp only [DeliveryEvent.apply] at hStep
  split at hStep
  · obtain ⟨engine, hEngine, rfl⟩ := Option.map_eq_some_iff.mp hStep
    obtain rfl := Option.some.inj hEngine
    exact undone_takeOffTablet.2 hRemoved
  · exact absurd hStep nofun

/-- A POST carries a row the tablet holds. -/
theorem DeliveryLaw.posts_held (law : DeliveryLaw d) {event : DeliveryEvent β υ} {u : υ}
    (hStep : deliveryStep d event d') (hPosts : Posts ⟨d, event, d'⟩ u) :
    u ∈ (holdings d.store).map Prod.fst := by
  obtain ⟨event, rfl, hIn⟩ := hPosts
  have hPass := law.engine.pass
  unfold Engine.posts at hIn
  split at hIn
  · split at hIn
    · next order id entry left failures stage hSending =>
      have hSending : d.engine.pass = .sending order id entry left failures stage := hSending
      obtain rfl := List.mem_singleton.mp hIn
      have hStage : stage.isFiled = false := by
        cases stage with
        | filed outcome =>
          simp [deliveryStep, DeliveryEvent.apply, EngineEvent.apply, hSending] at hStep
        | _ => rfl
      rw [hSending] at hPass
      obtain ⟨hAll, -, -, row, hRow⟩ := (passRows_sending hStage).mp hPass
      have hSame := (hAll _ List.mem_cons_self).queued row hRow
      rw [← hSame.clientUuid]
      exact List.mem_map_of_mem (List.mem_append_left _ (List.mem_map_of_mem hRow))
    · exact absurd hIn List.not_mem_nil
  · exact absurd hIn List.not_mem_nil

theorem removed_of_run {moves : List (Move (Delivery β υ) (DeliveryEvent β υ))}
    (hRun : Run deliveryStep Delivery.empty moves d) (hRead : ∀ m ∈ moves, SecondTryRead m) :
    (∀ m ∈ moves, ∀ u, Removes m u → u ∈ d.store.undone) ∧
      moves.Pairwise fun m m' => ∀ u, Removes m u → ¬ Posts m' u := by
  induction hRun with
  | start => exact ⟨fun m hm => absurd hm List.not_mem_nil, List.Pairwise.nil⟩
  | @move moves d d' event hRun hStep ih =>
    have hBefore : ∀ m ∈ moves, SecondTryRead m := fun m hm => hRead m (List.mem_append_left _ hm)
    obtain ⟨hUndone, hApart⟩ := ih hBefore
    have law := (hRun.invariant_of_allowed (I := DeliveryLaw) SecondTryRead hBefore
      deliveryLaw_empty fun _ _ _ law hStep hAllowed => law.step hAllowed hStep).1
    refine ⟨fun m hm u hRemoves => ?_, List.pairwise_append.mpr
      ⟨hApart, List.pairwise_singleton _ _, fun m hm m' hm' u hRemoves hPosts => ?_⟩⟩
    · rcases List.mem_append.mp hm with hm | hm
      · exact undone_step hStep u (hUndone m hm u hRemoves)
      · obtain rfl := List.mem_singleton.mp hm
        exact undone_of_removes hStep hRemoves
    · obtain rfl := List.mem_singleton.mp hm'
      exact law.books.gone u (hUndone m hm u hRemoves) (law.posts_held hStep hPosts)

theorem DeliveryLaw.landed (law : DeliveryLaw d) {event : DeliveryEvent β υ} {clientUuid : υ}
    {serverId : Option υ} (hLands : Lands ⟨d, event, d'⟩ clientUuid serverId) :
    ∃ row, serverId = some row ∧ (clientUuid, row) ∈ d.saved := by
  obtain ⟨-, hLanded⟩ := hLands
  unfold takeOffTablet at hLanded
  split at hLanded
  · next filed hFiled =>
    obtain rfl : filed.serverId = serverId := by simpa using hLanded
    obtain rfl : filed.clientUuid = clientUuid := by simpa using List.find?_some hFiled
    exact law.taken filed (List.mem_of_find?_eq_some hFiled)
  · split at hLanded
    · split at hLanded <;> exact absurd hLanded nofun
    · exact absurd hLanded nofun

/-- Along a run in which every 2xx answer to a second try can be read, no entry is lost or
doubled, what is filed as taken is on the server, and the undo is told the truth. -/
theorem delivered {moves : List (Move (Delivery β υ) (DeliveryEvent β υ))}
    (hRun : Run deliveryStep Delivery.empty moves d) (hRead : ∀ m ∈ moves, SecondTryRead m) :
    Delivered moves d := by
  obtain ⟨law, hMoves⟩ := hRun.invariant_of_allowed (I := DeliveryLaw) SecondTryRead hRead
    deliveryLaw_empty fun _ _ _ law hStep hAllowed => law.step hAllowed hStep
  refine ⟨fun clientUuid hMade hUndone hDiscarded => ?_, fun row hRow => ?_,
    (removed_of_run hRun hRead).2, fun m hm clientUuid serverId hLands => ?_⟩
  · exact List.count_eq_one_of_mem law.books.apart
      (law.books.kept clientUuid hMade hUndone hDiscarded)
  · obtain ⟨serverId, -, hSaved⟩ := law.taken row hRow
    exact ⟨serverId, hSaved⟩
  · exact (hMoves m hm).landed hLands

instance (m : Move (Delivery β υ) (DeliveryEvent β υ)) : Decidable (SecondTryRead m) := by
  unfold SecondTryRead
  split <;> infer_instance

end Law

/-- A hit refused once and taken on its second try, whose answer has the body `data`. -/
def secondTry (data : Option (Body ℕ)) : List (DeliveryEvent ℕ ℕ) :=
  [.tablet (.referee (.enqueue ⟨none, 1, 0, 1, none, none, 0, 0, none⟩ 0)),
    .tablet .getAllPending, .tablet .boutsBehindHeldRow, .tablet .nextRow, .tablet .post,
    .tablet (.answer ⟨400, some ⟨none, some "Sequence in use", none, none⟩⟩),
    .tablet (.freshSequence 3), .tablet .post, .save 1 9, .tablet (.answer ⟨201, data⟩),
    .tablet .noted, .tablet (.takeBack 1)]

theorem delivered_secondTry : ∃ (d : Delivery ℕ ℕ)
    (moves : List (Move (Delivery ℕ ℕ) (DeliveryEvent ℕ ℕ))),
    moves.map (·.event) = secondTry (some ⟨some 9, none, none, none⟩) ∧ Delivered moves d := by
  have hReplay : ∃ r, replay (fun d event => event.apply d) Delivery.empty
      (secondTry (some ⟨some 9, none, none, none⟩)) = some r ∧
      (∀ m ∈ r.1, SecondTryRead m) ∧
      r.1.map (·.event) = secondTry (some ⟨some 9, none, none, none⟩) :=
    ⟨_, rfl, by decide, rfl⟩
  obtain ⟨⟨moves, d⟩, hRun, hRead, hEvents⟩ := hReplay
  exact ⟨d, moves, hEvents, delivered (run_of_replay hRun) hRead⟩

/-- The body of the answer cannot be read: the undo is told the hit's own uuid. -/
theorem secondTry_unread : ¬ ∀ (d : Delivery ℕ ℕ)
    (moves : List (Move (Delivery ℕ ℕ) (DeliveryEvent ℕ ℕ))),
    Run deliveryStep Delivery.empty moves d → Delivered moves d := by
  have hReplay : ∃ r, replay (fun d event => event.apply d) Delivery.empty (secondTry none) =
      some r ∧ ∃ m ∈ r.1, Lands m 1 (some 1) ∧ m.before.saved = [(1, 9)] :=
    ⟨_, rfl, _, List.mem_of_getElem? (i := 11) rfl, ⟨rfl, rfl⟩, rfl⟩
  obtain ⟨⟨moves, d⟩, hRun, m, hm, hLands, hSaved⟩ := hReplay
  intro hAll
  obtain ⟨row, hRow, hIn⟩ := (hAll d moves (run_of_replay hRun)).landed m hm 1 (some 1) hLands
  obtain rfl : 1 = row := Option.some.inj hRow
  rw [hSaved] at hIn
  exact absurd hIn (by decide)

end MyClash.Offline
