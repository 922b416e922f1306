import MyClash.Offline.PassRows

/-!
# The order of the sends

A pass keeps the rows of each bout in the order they were made, on what it read at its
start: the listed queue, and after it the held bouts. A Retry between these two reads puts
a row in front of what is listed, of a bout that is no longer held.
-/

namespace MyClash.Offline

open KeyTable Runs

universe u v

variable {β : Type u} {υ : Type v} {s s' : Store β υ (Option υ)} {order order' : BoutOrder β}
  {left : List (ℕ × OutboxEntry β υ)} {id : ℕ} {entry : OutboxEntry β υ}

/-! ## What is left before a tap -/

/-- The rows left are in their order, and every queued row before a tap that the pass may
still send is left to send before it. -/
structure Covered (s : Store β υ (Option υ)) (order : BoutOrder β)
    (left : List (ℕ × OutboxEntry β υ)) : Prop where
  ascending : left.Pairwise (·.1 < ·.1)
  covered : ∀ press ∈ left, isTap press.2 = true → press.2.matchId ∉ order.held →
    order.unsent press.2.matchId = none → ∀ row ∈ s.outbox.rows,
      row.2.matchId = press.2.matchId → row.1 < press.1 →
      ∃ q ∈ left, q.1 = row.1 ∧ q.2.matchId = row.2.matchId

/-- What the referee does leaves a pass that knows the held bouts its order. -/
theorem Covered.keepsPlaces (h : Covered s order left)
    (hLeft : ∀ listed ∈ left, Remembered s listed) (hNoted : HeldNoted s order)
    (hPlaces : KeepsPlaces s s') : Covered s' order left where
  ascending := h.ascending
  covered press hPress hTap hHeld hUnsent row hRow hBout hBefore := by
    rcases hPlaces.queued row hRow with hOld | hNew | ⟨held, hHeldRow, -, hSame⟩
    · exact h.covered press hPress hTap hHeld hUnsent row hOld hBout hBefore
    · have hBelow := (hLeft press hPress).below
      omega
    · have hNotedBout := hNoted held hHeldRow
      rw [← hSame.matchId, hBout] at hNotedBout
      exact absurd hNotedBout hHeld

/-- The pass goes on past its next row: the row left the queue, or its bout waits. -/
theorem Covered.advance (h : Covered s order ((id, entry) :: left))
    (hRows : ∀ row ∈ s'.outbox.rows, ∃ old ∈ s.outbox.rows, old.1 = row.1 ∧ SameRow row.2 old.2)
    (hHeld : ∀ matchId ∈ order.held, matchId ∈ order'.held)
    (hUnsent : ∀ matchId, order'.unsent matchId = none → order.unsent matchId = none)
    (hGone : entry.matchId ∉ order'.held → order'.unsent entry.matchId = none →
      ∀ row ∈ s'.outbox.rows, row.1 ≠ id) : Covered s' order' left where
  ascending := (List.pairwise_cons.mp h.ascending).2
  covered press hPress hTap hPressHeld hPressUnsent row hRow hBout hBefore := by
    obtain ⟨old, hOld, hKey, hSame⟩ := hRows row hRow
    obtain ⟨q, hq, hqKey, hqBout⟩ := h.covered press (List.mem_cons_of_mem _ hPress) hTap
      (fun hIn => hPressHeld (hHeld _ hIn)) (hUnsent _ hPressUnsent) old hOld
      (hSame.matchId.symm.trans hBout) (hKey ▸ hBefore)
    rw [hKey] at hqKey
    rw [← hSame.matchId] at hqBout
    rcases List.mem_cons.mp hq with rfl | hq
    · -- the row just passed is before the tap, so its bout is neither held nor waiting
      have hSameBout : entry.matchId = press.2.matchId := hqBout.trans hBout
      rw [← hSameBout] at hPressHeld hPressUnsent
      exact absurd hqKey.symm (hGone hPressHeld hPressUnsent row hRow)
    · exact ⟨q, hq, hqKey, hqBout⟩

theorem Covered.tail (h : Covered s order ((id, entry) :: left))
    (hHeld : ∀ matchId ∈ order.held, matchId ∈ order'.held)
    (hUnsent : ∀ matchId, order'.unsent matchId = none → order.unsent matchId = none)
    (hGone : entry.matchId ∉ order'.held → order'.unsent entry.matchId = none →
      ∀ row ∈ s.outbox.rows, row.1 ≠ id) : Covered s order' left :=
  h.advance (fun row hRow => ⟨row, hRow, rfl, SameRow.refl _⟩) hHeld hUnsent hGone

section Order

variable [DecidableEq β]

theorem waits_eq_behindHeld (h : order.waits entry = some .behindHeld) :
    entry.matchId ∈ order.held := by
  unfold BoutOrder.waits at h
  split at h
  · assumption
  · split at h
    · exact absurd h nofun
    · split at h <;> exact absurd h nofun

theorem noteUnsent_unsent (entry : OutboxEntry β υ) (outcome : NotSent) :
    (order.noteUnsent entry outcome).unsent entry.matchId ≠ none := by
  simp [BoutOrder.noteUnsent]

theorem unsent_of_noteUnsent (entry : OutboxEntry β υ) (outcome : NotSent) (matchId : β)
    (h : (order.noteUnsent entry outcome).unsent matchId = none) :
    order.unsent matchId = none := by
  by_cases hSame : matchId = entry.matchId
  · subst hSame
    exact absurd h (noteUnsent_unsent entry outcome)
  · simpa [BoutOrder.noteUnsent, Function.update_of_ne hSame] using h

/-- A bout with a row not sent lets no tap go. -/
theorem Covered.noteUnsent (h : Covered s order ((id, entry) :: left))
    (hRows : ∀ row ∈ s'.outbox.rows, ∃ old ∈ s.outbox.rows, old.1 = row.1 ∧ SameRow row.2 old.2)
    (outcome : NotSent) : Covered s' (order.noteUnsent entry outcome) left :=
  h.advance hRows (fun _ h => h) (unsent_of_noteUnsent entry outcome) fun _ hUnsent =>
    absurd hUnsent (noteUnsent_unsent entry outcome)

/-! ## The order of a pass -/

/-- The rows a pass has left are covered, once the row it sends is noted. -/
def PassOrder (s : Store β υ (Option υ)) : Pass β υ → Prop
  | .idle => True
  | .listed pending => Covered s ⟨[], fun _ => none⟩ pending
  | .walking order left _ => Covered s order left
  | .sending order _ entry left _ (.filed outcome) => outcome ≠ .stopped →
    Covered s (order.note entry outcome) left
  | .sending order id entry left _ _ => Covered s order ((id, entry) :: left)

theorem passOrder_sending {failures : ℕ} {stage : Stage υ} (hStage : stage.isFiled = false) :
    PassOrder s (.sending order id entry left failures stage) ↔
      Covered s order ((id, entry) :: left) := by
  cases stage with
  | filed => exact absurd hStage nofun
  | _ => rfl

theorem passOrder_afterRow (h : Covered s order left) (failures : ℕ) (failed : Bool) :
    PassOrder s (afterRow order left failures failed) := by
  unfold afterRow
  dsimp only
  generalize (if failed then failures + 1 else 0) = failures'
  split
  · trivial
  · exact h

theorem passOrder_nextRow (h : Covered s order left) (failures : ℕ) :
    PassOrder s (nextRow s order left failures) := by
  have hSame : ∀ row ∈ s.outbox.rows, ∃ old ∈ s.outbox.rows,
      old.1 = row.1 ∧ SameRow row.2 old.2 := fun row hRow => ⟨row, hRow, rfl, SameRow.refl _⟩
  unfold nextRow
  split
  · trivial
  · next id entry left =>
    split
    · next hWaits =>
      have hHeld := waits_eq_behindHeld hWaits
      exact h.tail (fun _ h => h) (fun _ h => h) fun hNot => absurd hHeld hNot
    · exact h.noteUnsent hSame .failed
    · exact passOrder_afterRow (h.noteUnsent hSame .offline) ..
    · split
      · exact h
      · next hClaim =>
        have hNone : s.outbox.get? id = none := by simpa [claimForSend] using hClaim
        have hGone := (Table.get?_eq_none_iff _).mp hNone
        exact h.tail (fun _ h => h) (fun _ h => h) fun _ _ => hGone

theorem passOrder_afterFiled {outcome : Filed}
    (h : outcome ≠ .stopped → Covered s (order.note entry outcome) left) (failures : ℕ) :
    PassOrder s (afterFiled order entry left failures outcome) := by
  unfold afterFiled
  split
  · trivial
  · next hGoesOn => exact passOrder_afterRow (h hGoesOn) ..

omit [DecidableEq β] in
/-- A mark changes no row's place or bout. -/
theorem rows_of_markFailed (s : Store β υ (Option υ)) (id : ℕ) (error : String) :
    ∀ row ∈ (markFailed s id error).outbox.rows,
      ∃ old ∈ s.outbox.rows, old.1 = row.1 ∧ SameRow row.2 old.2 := by
  intro row hRow
  obtain ⟨old, hOld, hEq⟩ := Table.mem_modify.mp hRow
  refine ⟨(row.1, old), hOld, rfl, ?_⟩
  rw [hEq]
  split
  · exact ⟨rfl, rfl, rfl⟩
  · exact SameRow.refl _

theorem passOrder_filing [DecidableEq υ] {named : Option υ → Prop} {stage' : Stage υ}
    (h : Covered s order ((id, entry) :: left))
    (hFiling : Filing named s id entry stage' s') (failures : ℕ) :
    PassOrder s' (.sending order id entry left failures stage') := by
  have hDeleted : ∀ row ∈ (s.outbox.delete id).rows,
      ∃ old ∈ s.outbox.rows, old.1 = row.1 ∧ SameRow row.2 old.2 := fun row hRow =>
    ⟨row, (Table.mem_delete.mp hRow).1, rfl, SameRow.refl _⟩
  have hGone : ∀ row ∈ (s.outbox.delete id).rows, row.1 ≠ id := fun row hRow =>
    (Table.mem_delete.mp hRow).2
  cases hFiling with
  | tapTaken | taken =>
    exact fun _ => h.advance hDeleted (fun _ h => h) (fun _ h => h) fun _ _ => hGone
  | held reason code =>
    intro _
    unfold quarantine
    split
    · next hNone =>
      exact h.tail (held_note .held) (fun _ h => h) fun _ _ => (Table.get?_eq_none_iff _).mp hNone
    · exact h.advance hDeleted (held_note .held) (fun _ h => h) fun _ _ => hGone
  | waits outcome error hOutcome =>
    intro _
    have hMarked := rows_of_markFailed s id error
    rcases hOutcome with rfl | rfl
    · exact h.noteUnsent hMarked .failed
    · exact h.noteUnsent hMarked .offline
  | stopped => exact fun hGoesOn => absurd rfl hGoesOn
  | refused first => exact h

end Order

/-! ## The engine -/

section Engine

variable [DecidableEq β] [DecidableEq υ] {e e' : Engine β υ} {event : EngineEvent β υ}

structure EngineOrder (e : Engine β υ) : Prop where
  rows : EngineRows e
  order : PassOrder e.store e.pass

/-- A Retry that commits between a pass's two reads puts no row in front of a tap of its bout
that the pass has listed. -/
def RetryBehindPresses (m : Move (Engine β υ) (EngineEvent β υ)) : Prop :=
  match m.event, m.before.pass with
  | .referee (.requeue _), .listed pending =>
    ∀ row ∈ m.after.store.outbox.rows, row ∉ m.before.store.outbox.rows →
      ∀ press ∈ pending, isTap press.2 = true → press.2.matchId = row.2.matchId → press.1 < row.1
  | _, _ => True

/-- What a POST must meet: no row of its bout is held, and a tap has no row before it. -/
def SendsInOrder (m : Move (Engine β υ) (EngineEvent β υ)) : Prop :=
  match m.event, m.before.pass with
  | .post, .sending _ id entry _ _ _ =>
    (∀ held ∈ m.before.store.rejected.rows, held.2.matchId ≠ entry.matchId) ∧
    (isTap entry = true → ∀ row ∈ m.before.store.outbox.rows,
      row.2.matchId = entry.matchId → id ≤ row.1)
  | _, _ => True

/-- The referee at work under a pass: rows come at the end or go back to a bout the pass
holds, except before the pass has read which bouts are held. -/
theorem PassOrder.keepsPlaces {pass : Pass β υ} (h : PassOrder s pass) (hRows : PassRows s pass)
    (hPlaces : KeepsPlaces s s')
    (hListed : ∀ pending, pass = .listed pending → ∀ row ∈ s'.outbox.rows,
      row ∉ s.outbox.rows → ∀ press ∈ pending, isTap press.2 = true →
      press.2.matchId = row.2.matchId → press.1 < row.1) : PassOrder s' pass := by
  cases pass with
  | idle => trivial
  | listed pending =>
    refine ⟨h.ascending, ?_⟩
    intro press hPress hTap hHeld hUnsent row hRow hBout hBefore
    by_cases hOld : row ∈ s.outbox.rows
    · exact h.covered press hPress hTap hHeld hUnsent row hOld hBout hBefore
    · have hAfter := hListed pending rfl row hRow hOld press hPress hTap hBout.symm
      omega
  | walking order left failures =>
    have hOrder : Covered s order left := h
    exact hOrder.keepsPlaces hRows.1 hRows.2 hPlaces
  | sending order id entry left failures stage =>
    cases hStage : stage.isFiled with
    | false =>
      obtain ⟨hAll, hNoted, -⟩ := (passRows_sending hStage).mp hRows
      have hOrder := (passOrder_sending hStage).mp h
      exact (passOrder_sending hStage).mpr (hOrder.keepsPlaces hAll hNoted hPlaces)
    | true =>
      cases stage with
      | filed outcome => exact fun hGoesOn => (h hGoesOn).keepsPlaces hRows.1 hRows.2 hPlaces
      | _ => exact absurd hStage nofun

theorem EngineOrder.step (law : EngineOrder e) (hBehind : RetryBehindPresses ⟨e, event, e'⟩)
    (hStep : engineStep e event e') : EngineOrder e' := by
  have hMove := engineMove_of_step hStep
  refine ⟨law.rows.step hMove, ?_⟩
  obtain ⟨hRows, hOrder⟩ := law
  cases hMove with
  | referee act tablet hAct =>
    refine hOrder.keepsPlaces hRows.pass (keepsPlaces_act hRows.calls hAct) ?_
    intro pending hListed row hRow hNew press hPress hTap hBout
    by_cases hRetry : ∃ call, act = .requeue call
    · obtain ⟨call, rfl⟩ := hRetry
      simp only [RetryBehindPresses, hListed] at hBehind
      exact hBehind row hRow hNew press hPress hTap hBout
    · have hPass := hRows.pass
      rw [hListed] at hPass
      have hEnd := atEnd_act hAct (fun call hCall => hRetry ⟨call, hCall⟩) row hRow
      exact (hPass press hPress).below.trans_le (hEnd.resolve_left hNew)
  | takeBack clientUuid =>
    refine hOrder.keepsPlaces hRows.pass (keepsPlaces_takeOffTablet ..) ?_
    intro pending _ row hRow hNew
    exact absurd (rows_of_takeOffTablet hRow) hNew
  | empty hIdle => trivial
  | list hIdle =>
    refine ⟨e.store.outbox.ascending, ?_⟩
    intro press _ _ _ _ row hRow hBout _
    exact ⟨row, hRow, rfl, rfl⟩
  | readHeld pending hListed =>
    rw [hListed] at hOrder
    refine ⟨hOrder.ascending, ?_⟩
    intro press hPress hTap _ _
    exact hOrder.covered press hPress hTap List.not_mem_nil rfl
  | next order left failures hWalking =>
    rw [hWalking] at hOrder
    exact passOrder_nextRow hOrder failures
  | within _ order id entry left failures stage stage' _ hSending hStage hStage' =>
    rw [hSending] at hOrder
    exact (passOrder_sending hStage').mpr ((passOrder_sending hStage).mp hOrder)
  | filing _ order id entry left failures stage stage' store _ hSending hStage hFiling =>
    rw [hSending] at hOrder
    exact passOrder_filing ((passOrder_sending hStage).mp hOrder) hFiling failures
  | noted order id entry left failures outcome hSending =>
    rw [hSending] at hOrder
    exact passOrder_afterFiled hOrder failures
  | abort => trivial

theorem EngineOrder.sendsInOrder (law : EngineOrder e) (hStep : engineStep e event e') :
    SendsInOrder ⟨e, event, e'⟩ := by
  unfold SendsInOrder
  split
  · next order id entry left failures stage hEvent hSending =>
    obtain rfl : event = .post := hEvent
    have hPass : e.pass = .sending order id entry left failures stage := hSending
    have hStage : stage.isFiled = false := by
      cases stage with
      | filed outcome => simp [engineStep, EngineEvent.apply, hPass] at hStep
      | _ => rfl
    have hRows := law.rows.pass
    have hOrder := law.order
    rw [hPass] at hRows hOrder
    obtain ⟨-, hNoted, hWaits, -⟩ := (passRows_sending hStage).mp hRows
    have hCovered := (passOrder_sending hStage).mp hOrder
    obtain ⟨hHeld, hUnsent⟩ := waits_eq_none hWaits
    refine ⟨fun held hIn hBout => hHeld (hBout ▸ hNoted held hIn), ?_⟩
    intro hTap row hRow hBout
    by_contra hBefore
    obtain ⟨q, hq, hKey, -⟩ := hCovered.covered _ List.mem_cons_self hTap hHeld (hUnsent hTap) row
      hRow hBout (Nat.lt_of_not_le hBefore)
    rcases List.mem_cons.mp hq with rfl | hq
    · exact hBefore hKey.le
    · have hAfter := (List.pairwise_cons.mp hCovered.ascending).1 q hq
      omega
  · trivial

/-- Along a run whose Retries put no row in front of a listed tap between a pass's two reads,
no tap is sent past a row of its bout, and no row past a refused row of its bout. -/
theorem sends_in_order {moves : List (Move (Engine β υ) (EngineEvent β υ))}
    (hRun : Run engineStep Engine.empty moves e) (hBehind : ∀ m ∈ moves, RetryBehindPresses m) :
    ∀ m ∈ moves, SendsInOrder m := by
  have hLaw := hRun.invariant_of_allowed (I := EngineOrder) RetryBehindPresses hBehind
    ⟨engineRows_empty, trivial⟩ fun _ _ _ law hStep hAllowed => law.step hAllowed hStep
  exact fun m hm => (hLaw.2 m hm).sendsInOrder (hRun.step_of_mem m hm)

instance (m : Move (Engine β υ) (EngineEvent β υ)) : Decidable (RetryBehindPresses m) := by
  unfold RetryBehindPresses
  split <;> infer_instance

instance (m : Move (Engine β υ) (EngineEvent β υ)) : Decidable (SendsInOrder m) := by
  unfold SendsInOrder
  split <;> infer_instance

end Engine

/-- A hit of bout 0, an End behind it, and the hit refused: the End waits behind the held hit. -/
def refusedHit : List (EngineEvent ℕ ℕ) :=
  [.referee (.enqueue ⟨none, 1, 0, 1, none, none, 0, 0, none⟩ 0), .referee (.press 2 0 0),
    .getAllPending, .boutsBehindHeldRow, .nextRow, .post,
    .answer ⟨409, some ⟨none, some "Bout locked", none, some "bout_locked"⟩⟩, .noted, .nextRow,
    .nextRow]

/-- The Retry before the pass: the hit goes first, then the End. -/
def retryBeforePass : List (EngineEvent ℕ ℕ) :=
  refusedHit ++ [.referee (.findHeld 1), .referee (.readNext 0), .referee (.requeue 0),
    .getAllPending, .boutsBehindHeldRow, .nextRow, .post,
    .answer ⟨201, some ⟨some 7, none, none, none⟩⟩, .noted, .nextRow, .post]

theorem sends_in_order_retryBeforePass : ∃ moves : List (Move (Engine ℕ ℕ) (EngineEvent ℕ ℕ)),
    moves.map (·.event) = retryBeforePass ∧ ∀ m ∈ moves, SendsInOrder m := by
  have hReplay : ∃ r, replay (fun e event => event.apply e) Engine.empty retryBeforePass = some r ∧
      (∀ m ∈ r.1, RetryBehindPresses m) ∧ r.1.map (·.event) = retryBeforePass :=
    ⟨_, rfl, by decide, rfl⟩
  obtain ⟨⟨moves, e⟩, hRun, hBehind, hEvents⟩ := hReplay
  exact ⟨moves, hEvents, sends_in_order (run_of_replay hRun) hBehind⟩

/-- The Retry after the pass listed the End alone, before it reads the held bouts: the End goes
past the queued hit. -/
def retryBetweenReads : List (EngineEvent ℕ ℕ) :=
  refusedHit ++ [.getAllPending, .referee (.findHeld 1), .referee (.readNext 0),
    .referee (.requeue 0), .boutsBehindHeldRow, .nextRow, .post]

theorem end_sentPastHit : ¬ ∀ (e : Engine ℕ ℕ) (moves : List (Move (Engine ℕ ℕ) (EngineEvent ℕ ℕ))),
    Run engineStep Engine.empty moves e → ∀ m ∈ moves, SendsInOrder m := by
  have hReplay : ∃ r, replay (fun e event => event.apply e) Engine.empty retryBetweenReads =
      some r ∧ ∃ m ∈ r.1, ¬ SendsInOrder m :=
    ⟨_, rfl, by decide⟩
  obtain ⟨⟨moves, e⟩, hRun, m, hm, hPast⟩ := hReplay
  exact fun hAll => hPast (hAll e moves (run_of_replay hRun) m hm)

end MyClash.Offline
