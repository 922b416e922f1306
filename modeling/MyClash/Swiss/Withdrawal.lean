import MyClash.Swiss.PhaseRun

/-!
# What a withdrawal keeps an entrant out of

A withdrawal is stored as the number of the next round. `Watched` remembers beside the
rows how many rounds stood when each withdrawn entrant withdrew: a round they saw
standing, once deleted and drawn again, deals them in.
-/

namespace MyClash.Swiss

open Runs

universe u

variable {ι : Type u} [DecidableEq ι]

/-- The rows, and for each withdrawn entrant the number of rounds that stood at the time. -/
structure Watched (ι : Type u) where
  rows : PhaseRows ι
  standingAt : ι → Option ℕ

def watchStandingAt (w : Watched ι) : PhaseEvent ι → ι → Option ℕ
  | .withdraw registration kind =>
    match swissWithdraw w.rows registration kind with
    | .ok (⟨_, true⟩, _) =>
      Function.update w.standingAt registration (some w.rows.rounds.length)
    | _ => w.standingAt
  | .putBack registration kind =>
    match swissPutBack w.rows registration kind with
    | .ok (⟨.putBack, _⟩, _) => Function.update w.standingAt registration none
    | _ => w.standingAt
  | _ => w.standingAt

def Watched.after (w : Watched ι) (event : PhaseEvent ι) : Watched ι :=
  ⟨event.apply w.rows, watchStandingAt w event⟩

def watchedStep (w : Watched ι) (event : PhaseEvent ι) (w' : Watched ι) : Prop :=
  w' = w.after event

def Commits (rows : PhaseRows ι) (event : PhaseEvent ι) (call : CommitCall ι) : Prop :=
  event = .commit call ∧ (swissCommitRound rows call).1 = .committed

/-- A round committed by the move has no withdrawn entrant in its field. -/
def WithoutWithdrawn (m : Move (Watched ι) (PhaseEvent ι)) : Prop :=
  ∀ call, Commits m.before.rows m.event call → ∀ id ∈ call.field, m.before.standingAt id = none

/-- A round committed by the move did not stand when a still withdrawn entrant withdrew. -/
def DrawsNoRoundAgain (m : Move (Watched ι) (PhaseEvent ι)) : Prop :=
  ∀ call, Commits m.before.rows m.event call →
    ∀ id standing, m.before.standingAt id = some standing → standing < call.round

structure WatchedInv (w : Watched ι) : Prop where
  rows : PhaseInv w.rows
  standingAt : ∀ id standing, w.standingAt id = some standing ↔
    ∃ e ∈ w.rows.entrants, e.registrationId = id ∧ e.withdrawnAtRound = some (standing + 1)

omit [DecidableEq ι] in
/-- Rows whose withdrawals did not change keep the record of them. -/
theorem standingAt_map {entrants : List (EntrantRow ι)} {f : EntrantRow ι → EntrantRow ι}
    (hId : ∀ e ∈ entrants, (f e).registrationId = e.registrationId)
    (hWithdrawn : ∀ e ∈ entrants, (f e).withdrawnAtRound = e.withdrawnAtRound) (id : ι) (n : ℕ) :
    (∃ e ∈ entrants.map f, e.registrationId = id ∧ e.withdrawnAtRound = some n) ↔
      ∃ e ∈ entrants, e.registrationId = id ∧ e.withdrawnAtRound = some n := by
  constructor
  · rintro ⟨_, hMem, hEq, hAt⟩
    obtain ⟨e, he, rfl⟩ := List.mem_map.mp hMem
    exact ⟨e, he, (hId e he).symm.trans hEq, (hWithdrawn e he).symm.trans hAt⟩
  · rintro ⟨e, he, hEq, hAt⟩
    exact ⟨f e, List.mem_map_of_mem he, (hId e he).trans hEq, (hWithdrawn e he).trans hAt⟩

/-- Rewriting one entrant's withdrawal moves the record of that entrant alone. -/
theorem standingAt_setEntrant {p : PhaseRows ι} (h : PhaseInv p) {registration : ι}
    {entrant : EntrantRow ι} (hFound : p.entrant? registration = some entrant)
    {change : EntrantRow ι → EntrantRow ι}
    (hId : (change entrant).registrationId = entrant.registrationId) (id : ι) (n : ℕ) :
    (∃ e ∈ (p.setEntrant registration change).entrants,
        e.registrationId = id ∧ e.withdrawnAtRound = some n) ↔
      if id = registration then (change entrant).withdrawnAtRound = some n
      else ∃ e ∈ p.entrants, e.registrationId = id ∧ e.withdrawnAtRound = some n := by
  have hMem := List.mem_of_find?_eq_some hFound
  have hEntrant : entrant.registrationId = registration := by simpa using List.find?_some hFound
  constructor
  · rintro ⟨_, hChanged, rfl, hAt⟩
    obtain ⟨e, he, rfl⟩ := List.mem_map.mp hChanged
    by_cases hEq : e.registrationId = registration
    · have hSame := h.eq_of_entrant? hFound he hEq
      subst hSame
      rw [if_pos hEq] at hAt ⊢
      rwa [if_pos (hId.trans hEq)]
    · rw [if_neg hEq] at hAt ⊢
      rw [if_neg hEq]
      exact ⟨e, he, rfl, hAt⟩
  · split
    · rename_i hEq
      intro hAt
      refine ⟨change entrant, List.mem_map.mpr ⟨entrant, hMem, if_pos hEntrant⟩, ?_, hAt⟩
      exact (hId.trans hEntrant).trans hEq.symm
    · rename_i hNe
      rintro ⟨e, he, rfl, hAt⟩
      exact ⟨e, List.mem_map.mpr ⟨e, he, if_neg hNe⟩, rfl, hAt⟩

theorem WatchedInv.step {w w' : Watched ι} {event : PhaseEvent ι} (h : WatchedInv w)
    (hStep : watchedStep w event w') : WatchedInv w' := by
  subst hStep
  refine ⟨h.rows.apply event, fun id standing => ?_⟩
  change watchStandingAt w event id = some standing ↔
    ∃ e ∈ (event.apply w.rows).entrants, e.registrationId = id ∧
      e.withdrawnAtRound = some (standing + 1)
  cases event with
  | commit call =>
    refine (h.standingAt id standing).trans ?_
    rcases swissCommitRound_cases w.rows call with ⟨_, hSame⟩ | ⟨_, _, _, hRows⟩
    · rw [PhaseEvent.apply, hSame]
    · rw [PhaseEvent.apply, hRows]
  | withdraw registration kind =>
    simp only [watchStandingAt, PhaseEvent.apply]
    cases hAnswer : swissWithdraw w.rows registration kind with
    | error refusal => exact h.standingAt id standing
    | ok result =>
      obtain ⟨⟨at?, changed⟩, p'⟩ := result
      rcases swissWithdraw_cases hAnswer with
        ⟨rfl, rfl⟩ | ⟨kind, entrant, hFound, hPaired, rfl, rfl⟩
      · exact h.standingAt id standing
      · refine Iff.trans ?_ (standingAt_setEntrant h.rows hFound (by rfl) id (standing + 1)).symm
        change Function.update w.standingAt registration (some w.rows.rounds.length) id =
          some standing ↔ _
        rw [Function.update_apply, h.rows.lastRound_eq]
        split
        · simp [EntrantRow.withdraw]
        · exact h.standingAt id standing
  | putBack registration kind =>
    simp only [watchStandingAt, PhaseEvent.apply]
    cases hAnswer : swissPutBack w.rows registration kind with
    | error refusal => exact h.standingAt id standing
    | ok result =>
      obtain ⟨⟨status, missed⟩, p'⟩ := result
      rcases swissPutBack_cases hAnswer with
        ⟨hNot, rfl⟩ | ⟨entrant, withdrawn, hFound, hOut, rfl, rfl⟩
      · cases status with
        | putBack => exact absurd rfl hNot
        | alreadyIn => exact h.standingAt id standing
        | kept => exact h.standingAt id standing
      · refine Iff.trans ?_ (standingAt_setEntrant h.rows hFound (by rfl) id (standing + 1)).symm
        change Function.update w.standingAt registration none id = some standing ↔ _
        rw [Function.update_apply]
        split
        · simp [EntrantRow.putBack]
        · exact h.standingAt id standing
  | deleteLast round fought =>
    refine (h.standingAt id standing).trans ?_
    rw [PhaseEvent.apply]
    split
    · rename_i deleted p' hOk
      rw [swissDeleteLastRound_ok hOk]
      exact (standingAt_map (f := fun e => e.forgetRound w.rows.lastRound) (fun _ _ => rfl)
        (fun _ _ => rfl) id (standing + 1)).symm
    · rfl
  | configure config => exact h.standingAt id standing
  | settle registration isOut => exact h.standingAt id standing
  | play round board result => exact h.standingAt id standing

omit [DecidableEq ι] in
theorem FreshPhase.watchedInv {p : PhaseRows ι} (h : FreshPhase p) :
    WatchedInv ⟨p, fun _ => none⟩ := by
  refine ⟨h.inv, fun id standing => iff_of_false nofun ?_⟩
  rintro ⟨e, he, _, hAt⟩
  rw [h.unwithdrawn e he] at hAt
  cases hAt

/-- A withdrawn entrant is in the field of a committed round iff the round is drawn again. -/
theorem WatchedInv.withoutWithdrawn_iff {w w' : Watched ι} {event : PhaseEvent ι}
    (h : WatchedInv w) :
    WithoutWithdrawn ⟨w, event, w'⟩ ↔ DrawsNoRoundAgain ⟨w, event, w'⟩ := by
  refine forall₂_congr fun call hCommits => ?_
  obtain ⟨rfl, hCommitted⟩ := hCommits
  obtain ⟨_, hField, _⟩ := ((swissCommitRound_cases w.rows call).resolve_left
    fun hNot => hNot.1 hCommitted).2
  constructor
  · intro hOut id standing hStanding
    by_contra hLe
    obtain ⟨e, he, rfl, hAt⟩ := (h.standingAt id standing).mp hStanding
    have hMem : e.registrationId ∈ call.field := by
      refine (hField _).mpr (PhaseRows.mem_unwithdrawn.mpr ⟨e, he, fun n hn => ?_, rfl⟩)
      rw [hAt] at hn
      cases hn
      omega
    have hNone := hOut _ hMem
    simp only at hStanding hNone
    rw [hStanding] at hNone
    cases hNone
  · intro hLater id hMem
    by_contra hSome
    obtain ⟨standing, hStanding⟩ := Option.ne_none_iff_exists'.mp hSome
    obtain ⟨e, he, hId, hAt⟩ := (h.standingAt id standing).mp hStanding
    obtain ⟨e', he', hActive, hId'⟩ := PhaseRows.mem_unwithdrawn.mp ((hField id).mp hMem)
    have hSame := List.inj_on_of_nodup_map h.rows.ids he' he (hId'.trans hId.symm)
    subst hSame
    have hBefore := hActive _ hAt
    have hAfter := hLater id standing hStanding
    omega

/-- Along a run no committed round deals a withdrawn entrant in, exactly when none of its
commits draws again a round that stood when a still withdrawn entrant withdrew. -/
theorem withdrawn_left_out_iff {start : PhaseRows ι} {w : Watched ι}
    {moves : List (Move (Watched ι) (PhaseEvent ι))} (hFresh : FreshPhase start)
    (hRun : Run watchedStep ⟨start, fun _ => none⟩ moves w) :
    (∀ m ∈ moves, WithoutWithdrawn m) ↔ ∀ m ∈ moves, DrawsNoRoundAgain m :=
  hRun.forall_iff hFresh.watchedInv (fun _ _ _ h hStep => h.step hStep)
    fun _ _ _ h _ => h.withoutWithdrawn_iff

/-! ## A round drawn again -/

def threeEntrants : PhaseRows ℕ :=
  ⟨⟨false, some 3⟩, [⟨⟨1, none, []⟩, none⟩, ⟨⟨2, none, []⟩, none⟩, ⟨⟨3, none, []⟩, none⟩], [], []⟩

theorem threeEntrants_fresh : FreshPhase threeEntrants := ⟨rfl, by decide, by decide, by decide⟩

def wholeField : PhaseEvent ℕ :=
  .commit ⟨1, [1, 2, 3], some 3, none, [⟨some 1, some 2, .scheduled⟩]⟩

/-- The third entrant withdraws from round 2 on; round 1 is deleted and drawn with them again. -/
theorem redrawn_round_deals_withdrawn :
    ¬∀ (start : PhaseRows ℕ) (w : Watched ℕ) (moves : List (Move (Watched ℕ) (PhaseEvent ℕ))),
      FreshPhase start → Run watchedStep ⟨start, fun _ => none⟩ moves w →
        ∀ m ∈ moves, WithoutWithdrawn m := by
  intro h
  let drawn := Watched.after ⟨threeEntrants, fun _ => none⟩ wholeField
  let withdrawn := drawn.after (.withdraw 3 (some .hand))
  let deleted := withdrawn.after (.deleteLast (some 1) FOUGHT_STATUSES)
  have hRun : Run watchedStep ⟨threeEntrants, fun _ => none⟩
      ([⟨⟨threeEntrants, fun _ => none⟩, wholeField, drawn⟩,
        ⟨drawn, .withdraw 3 (some .hand), withdrawn⟩,
        ⟨withdrawn, .deleteLast (some 1) FOUGHT_STATUSES, deleted⟩] ++
        [⟨deleted, wholeField, deleted.after wholeField⟩]) (deleted.after wholeField) :=
    .move (.move (.move (.move .start rfl) rfl) rfl) rfl
  have hNone := h _ _ _ threeEntrants_fresh hRun _ (List.mem_append_right _ List.mem_cons_self) _
    ⟨rfl, by decide⟩ 3 (by decide)
  have hSome : deleted.standingAt 3 = some 1 := by decide
  exact absurd (hNone.symm.trans hSome) nofun

/-- Round 2 is drawn after the third entrant's withdrawal, and without them. -/
theorem withdrawn_left_out_second_round :
    let drawn := Watched.after ⟨threeEntrants, fun _ => none⟩ wholeField
    let withdrawn := drawn.after (.withdraw 3 (some .hand))
    let second : PhaseEvent ℕ := .commit ⟨2, [1, 2], none, none, [⟨some 1, some 2, .scheduled⟩]⟩
    WithoutWithdrawn ⟨withdrawn, second, withdrawn.after second⟩ := by
  intro drawn withdrawn second
  have hRun : Run watchedStep ⟨threeEntrants, fun _ => none⟩
      [⟨⟨threeEntrants, fun _ => none⟩, wholeField, drawn⟩,
        ⟨drawn, .withdraw 3 (some .hand), withdrawn⟩,
        ⟨withdrawn, second, withdrawn.after second⟩] (withdrawn.after second) :=
    .move (.move (.move .start rfl) rfl) rfl
  refine (withdrawn_left_out_iff threeEntrants_fresh hRun).mpr (fun m hm => ?_) _
    (List.mem_of_getElem? (i := 2) rfl)
  simp only [List.mem_cons, List.not_mem_nil, or_false] at hm
  rcases hm with rfl | rfl | rfl
  · intro _ _ _ _ hStanding
    cases hStanding
  · intro _ hCommits
    cases hCommits.1
  · intro call hCommits id standing hStanding
    cases hCommits.1
    by_cases hId : id = 3
    · subst hId
      cases hStanding
      exact Nat.lt_succ_self 1
    · cases (Function.update_of_ne hId _ _).symm.trans hStanding

end MyClash.Swiss
