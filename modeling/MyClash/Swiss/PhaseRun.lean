import MyClash.Library.Run
import MyClash.Swiss.Phase
import MyClash.Swiss.Round

/-!
# Past rounds keep the field they were committed with

A round's field is not stored: it is read back from one withdrawal number and the
missed rounds of each entrant. Every locked step leaves that reading of the standing
rounds alone, whatever the organiser, the clock and the settles write in between.
-/

namespace MyClash.Swiss

open Runs

universe u

variable {ι : Type u} [DecidableEq ι]

/-! ## The steps -/

/-- What the bout pages write on a bout; its sides stand. -/
structure BoutResult (ι : Type u) where
  winnerRegistrationId : Option ι
  status : MatchStatus
  endReason : Option EndReason
  liveBlackCard : Bool
  liveForfeit : Bool

def BoutRow.record (result : BoutResult ι) (b : BoutRow ι) : BoutRow ι :=
  { b with
    winnerRegistrationId := result.winnerRegistrationId
    status := result.status
    endReason := result.endReason
    liveBlackCard := result.liveBlackCard
    liveForfeit := result.liveForfeit }

def RoundRow.play (board : ℕ) (result : BoutResult ι) (r : RoundRow ι) : RoundRow ι :=
  { r with bouts := r.bouts.modify board (·.record result) }

inductive PhaseEvent (ι : Type u) where
  | commit (call : CommitCall ι)
  | withdraw (registration : ι) (kind : Option WithdrawnBy)
  | putBack (registration : ι) (kind : Option WithdrawnBy)
  | deleteLast (round : Option ℕ) (fought : List MatchStatus)
  | configure (config : PhaseConfig)
  | settle (registration : ι) (isOut : Bool)
  | play (round board : ℕ) (result : BoutResult ι)

/-- The rows after an event; a refused step writes nothing. -/
def PhaseEvent.apply (p : PhaseRows ι) : PhaseEvent ι → PhaseRows ι
  | .commit call => (swissCommitRound p call).2
  | .withdraw registration kind =>
    match swissWithdraw p registration kind with
    | .ok (_, p') => p'
    | .error _ => p
  | .putBack registration kind =>
    match swissPutBack p registration kind with
    | .ok (_, p') => p'
    | .error _ => p
  | .deleteLast round fought =>
    match swissDeleteLastRound p round fought with
    | .ok (_, p') => p'
    | .error _ => p
  | .configure config => { p with config }
  | .settle registration isOut =>
    { p with out := if isOut then registration :: p.out else p.out.filter (· ≠ registration) }
  | .play round board result =>
    { p with rounds := p.rounds.map fun r => if r.roundNumber = round then r.play board result else r }

def phaseStep (p : PhaseRows ι) (event : PhaseEvent ι) (p' : PhaseRows ι) : Prop :=
  p' = event.apply p

/-- As `generateSwiss` leaves the rows before it pairs round 1. -/
structure FreshPhase (p : PhaseRows ι) : Prop where
  noRounds : p.rounds = []
  ids : (p.entrants.map (·.registrationId)).Nodup
  unwithdrawn : ∀ e ∈ p.entrants, e.withdrawnAtRound = none
  nothingMissed : ∀ e ∈ p.entrants, e.missedRounds = []

/-! ## What each step can do -/

theorem swissCommitRound_cases (p : PhaseRows ι) (call : CommitCall ι) :
    ((swissCommitRound p call).1 ≠ .committed ∧ (swissCommitRound p call).2 = p) ∨
      (swissCommitRound p call).1 = .committed ∧ call.round = p.lastRound + 1 ∧
        (∀ id, id ∈ call.field ↔ id ∈ p.unwithdrawn call.round) ∧
        (swissCommitRound p call).2 = { p with rounds := p.rounds ++
          [⟨call.round, call.bye, call.ranked, call.bouts.map NewBout.insert, call⟩] } := by
  rw [swissCommitRound]
  split
  · exact .inl ⟨nofun, rfl⟩
  · split
    · exact .inl ⟨nofun, rfl⟩
    · rename_i hNext
      split
      · exact .inl ⟨nofun, rfl⟩
      · rename_i hField
        obtain ⟨hLeft, hRight⟩ := not_not.mp hField
        exact .inr ⟨rfl, (not_not.mp hNext).symm, fun id => ⟨@hLeft id, @hRight id⟩, rfl⟩

theorem swissWithdraw_cases {p p' : PhaseRows ι} {registration : ι} {kind : Option WithdrawnBy}
    {answer : WithdrawAnswer} (h : swissWithdraw p registration kind = .ok (answer, p')) :
    (answer.changed = false ∧ p' = p) ∨
      ∃ kind entrant, p.entrant? registration = some entrant ∧ entrant.withdrawnAtRound = none ∧
        answer.changed = true ∧
        p' = p.setEntrant registration (·.withdraw (p.lastRound + 1) kind) := by
  unfold swissWithdraw at h
  split at h
  · cases h
  · split at h
    · cases h
    · rename_i entrant hFound
      split at h
      · cases h
        exact .inl ⟨rfl, rfl⟩
      · rename_i hPaired
        split at h
        · cases h
          exact .inl ⟨rfl, rfl⟩
        · cases h
          exact .inr ⟨_, entrant, hFound, hPaired, rfl, rfl⟩

/-- A status put-back misses no round, so it too records the rounds from the withdrawal on. -/
theorem swissPutBack_cases {p p' : PhaseRows ι} {registration : ι} {kind : Option WithdrawnBy}
    {answer : PutBackAnswer} (h : swissPutBack p registration kind = .ok (answer, p')) :
    (answer.status ≠ .putBack ∧ p' = p) ∨
      ∃ entrant withdrawn, p.entrant? registration = some entrant ∧
        entrant.withdrawnAtRound = some withdrawn ∧ answer.status = .putBack ∧
        p' = p.setEntrant registration (·.putBack
          (entrant.missedRounds ++ List.range' withdrawn (p.lastRound + 1 - withdrawn))) := by
  unfold swissPutBack at h
  split at h
  · cases h
  · split at h
    · cases h
    · rename_i entrant hFound
      split at h
      · cases h
        exact .inl ⟨nofun, rfl⟩
      · rename_i withdrawn hOut
        split at h
        · split at h
          · cases h
          · cases h
            exact .inl ⟨nofun, rfl⟩
        · split at h
          · split at h
            · cases h
              exact .inl ⟨nofun, rfl⟩
            · rename_i hKept
              cases h
              refine .inr ⟨entrant, withdrawn, hFound, hOut, rfl, ?_⟩
              have hNone : p.lastRound + 1 - withdrawn = 0 := by
                have hLast : ¬withdrawn ≤ p.lastRound := fun hLe => hKept (.inr (.inr hLe))
                omega
              rw [hNone, List.range'_zero, List.append_nil]
          · cases h
            exact .inr ⟨entrant, withdrawn, hFound, hOut, rfl, rfl⟩

omit [DecidableEq ι] in
theorem swissDeleteLastRound_ok {p p' : PhaseRows ι} {round : Option ℕ}
    {fought : List MatchStatus} {deleted : ℕ}
    (h : swissDeleteLastRound p round fought = .ok (deleted, p')) :
    p' = { p with
      rounds := p.rounds.filter (·.roundNumber ≠ p.lastRound)
      entrants := p.entrants.map (·.forgetRound p.lastRound) } := by
  unfold swissDeleteLastRound at h
  split at h
  · cases h
  · split at h
    · cases h
    · split at h
      · cases h
      · split at h
        · cases h
        · cases h
          rfl

/-! ## Reading a field back -/

/-- The ids `activeEntrants` reads for a round from the rows as they stand. -/
def PhaseRows.activeIds (p : PhaseRows ι) (number : ℕ) : List ι :=
  (activeEntrants (p.entrants.map (·.toSwissEntrantRecord)) number).map (·.registrationId)

omit [DecidableEq ι] in
theorem PhaseRows.mem_activeIds {p : PhaseRows ι} {number : ℕ} {id : ι} :
    id ∈ p.activeIds number ↔
      ∃ e ∈ p.entrants, e.activeAt number = true ∧ e.registrationId = id := by
  simp [PhaseRows.activeIds, activeEntrants, and_assoc]

omit [DecidableEq ι] in
theorem PhaseRows.mem_unwithdrawn {p : PhaseRows ι} {number : ℕ} {id : ι} :
    id ∈ p.unwithdrawn number ↔
      ∃ e ∈ p.entrants, (∀ w, e.withdrawnAtRound = some w → number < w) ∧
        e.registrationId = id := by
  rw [PhaseRows.unwithdrawn, List.mem_map]
  refine exists_congr fun e => ?_
  rw [List.mem_filter, and_assoc]
  refine and_congr_right fun _ => and_congr_left fun _ => ?_
  cases e.withdrawnAtRound with
  | none => simp
  | some w => simp

theorem SwissEntrantRecord.activeAt_iff {ι : Type u} {e : SwissEntrantRecord ι} {number : ℕ} :
    e.activeAt number = true ↔
      (∀ w, e.withdrawnAtRound = some w → number < w) ∧ number ∉ e.missedRounds := by
  rw [SwissEntrantRecord.activeAt, Bool.and_eq_true]
  refine and_congr ?_ (by simp)
  cases e.withdrawnAtRound with
  | none => simp
  | some w => simp

omit [DecidableEq ι] in
/-- A rewrite of the entrants that keeps who is active in a round keeps its field. -/
theorem PhaseRows.mem_activeIds_map {p p' : PhaseRows ι} {f : EntrantRow ι → EntrantRow ι}
    {number : ℕ} (hMap : p'.entrants = p.entrants.map f)
    (hId : ∀ e ∈ p.entrants, (f e).registrationId = e.registrationId)
    (hActive : ∀ e ∈ p.entrants, (f e).activeAt number = e.activeAt number) (id : ι) :
    id ∈ p'.activeIds number ↔ id ∈ p.activeIds number := by
  rw [mem_activeIds, mem_activeIds, hMap]
  constructor
  · rintro ⟨_, hMem, hTakes, rfl⟩
    obtain ⟨e, he, rfl⟩ := List.mem_map.mp hMem
    exact ⟨e, he, hActive e he ▸ hTakes, (hId e he).symm⟩
  · rintro ⟨e, he, hTakes, rfl⟩
    exact ⟨f e, List.mem_map_of_mem he, (hActive e he).symm ▸ hTakes, hId e he⟩

/-! ## The invariant -/

/-- The sides of a bout and its round's bye are still those of the call. -/
structure RoundRow.AsWritten (r : RoundRow ι) : Prop where
  bye : r.byeRegistrationId = r.writtenBy.bye
  sides : r.bouts.map (fun b => (b.redRegistrationId, b.blueRegistrationId)) =
    r.writtenBy.bouts.map fun b => (b.redRegistrationId, b.blueRegistrationId)

structure PhaseInv (p : PhaseRows ι) : Prop where
  ids : (p.entrants.map (·.registrationId)).Nodup
  numbered : p.rounds.map (·.roundNumber) = List.range' 1 p.rounds.length
  withdrawn : ∀ e ∈ p.entrants, ∀ w, e.withdrawnAtRound = some w → 1 ≤ w
  missed : ∀ e ∈ p.entrants, ∀ n ∈ e.missedRounds, 1 ≤ n ∧ n ≤ p.rounds.length
  fields : ∀ r ∈ p.rounds, ∀ id, id ∈ p.activeIds r.roundNumber ↔ id ∈ r.writtenBy.field
  asWritten : ∀ r ∈ p.rounds, r.AsWritten

omit [DecidableEq ι] in
theorem foldl_max_range' (n : ℕ) : (List.range' 1 n).foldl max 0 = n := by
  induction n with
  | zero => rfl
  | succ n ih => simp [List.range'_1_concat, ih, Nat.add_comm]

section Inv

variable {p : PhaseRows ι}

omit [DecidableEq ι] in
theorem PhaseInv.lastRound_eq (h : PhaseInv p) : p.lastRound = p.rounds.length := by
  rw [PhaseRows.lastRound, h.numbered, foldl_max_range']

omit [DecidableEq ι] in
theorem PhaseInv.roundNumber_le (h : PhaseInv p) {r : RoundRow ι} (hr : r ∈ p.rounds) :
    1 ≤ r.roundNumber ∧ r.roundNumber ≤ p.rounds.length := by
  have hMem : r.roundNumber ∈ p.rounds.map (·.roundNumber) := List.mem_map_of_mem hr
  rw [h.numbered, List.mem_range'_1] at hMem
  omega

theorem PhaseInv.eq_of_entrant? (h : PhaseInv p) {registration : ι} {entrant e : EntrantRow ι}
    (hFound : p.entrant? registration = some entrant) (he : e ∈ p.entrants)
    (hId : e.registrationId = registration) : e = entrant := by
  have hEntrant : entrant.registrationId = registration := by simpa using List.find?_some hFound
  exact List.inj_on_of_nodup_map h.ids he (List.mem_of_find?_eq_some hFound) (hId.trans hEntrant.symm)

/-- Rewriting one entrant keeps the invariant when it keeps who stood in the past rounds. -/
theorem PhaseInv.setEntrant (h : PhaseInv p) {registration : ι} {entrant : EntrantRow ι}
    (hFound : p.entrant? registration = some entrant) {change : EntrantRow ι → EntrantRow ι}
    (hId : (change entrant).registrationId = entrant.registrationId)
    (hWithdrawn : ∀ w, (change entrant).withdrawnAtRound = some w → 1 ≤ w)
    (hMissed : ∀ n ∈ (change entrant).missedRounds, 1 ≤ n ∧ n ≤ p.rounds.length)
    (hActive : ∀ n, 1 ≤ n → n ≤ p.rounds.length →
      (change entrant).activeAt n = entrant.activeAt n) :
    PhaseInv (p.setEntrant registration change) := by
  have hEach : ∀ {motive : EntrantRow ι → EntrantRow ι → Prop}, (∀ e ∈ p.entrants, motive e e) →
      motive entrant (change entrant) → ∀ e ∈ p.entrants,
        motive e (if e.registrationId = registration then change e else e) := by
    intro motive hSame hChanged e he
    split
    · rename_i hEq
      rw [h.eq_of_entrant? hFound he hEq]
      exact hChanged
    · exact hSame e he
  have hIds : ∀ e ∈ p.entrants,
      (if e.registrationId = registration then change e else e).registrationId =
        e.registrationId :=
    hEach (motive := fun e e' => e'.registrationId = e.registrationId) (fun _ _ => rfl) hId
  refine ⟨?_, h.numbered, ?_, ?_, fun r hr id => ?_, h.asWritten⟩
  · have hMap : (p.setEntrant registration change).entrants.map (·.registrationId) =
        p.entrants.map (·.registrationId) := by
      rw [PhaseRows.setEntrant, List.map_map]
      exact List.map_congr_left hIds
    rw [hMap]
    exact h.ids
  · intro e' he'
    obtain ⟨e, he, rfl⟩ := List.mem_map.mp he'
    exact hEach (motive := fun _ e' => ∀ w, e'.withdrawnAtRound = some w → 1 ≤ w) h.withdrawn
      hWithdrawn e he
  · intro e' he'
    obtain ⟨e, he, rfl⟩ := List.mem_map.mp he'
    exact hEach (motive := fun _ e' => ∀ n ∈ e'.missedRounds, 1 ≤ n ∧ n ≤ p.rounds.length)
      h.missed hMissed e he
  · obtain ⟨hLow, hHigh⟩ := h.roundNumber_le hr
    refine (PhaseRows.mem_activeIds_map rfl hIds ?_ id).trans (h.fields r hr id)
    exact hEach (motive := fun e e' => e'.activeAt r.roundNumber = e.activeAt r.roundNumber)
      (fun _ _ => rfl) (hActive r.roundNumber hLow hHigh)

theorem PhaseInv.withdraw (h : PhaseInv p) {registration : ι} {entrant : EntrantRow ι}
    (hFound : p.entrant? registration = some entrant) (hPaired : entrant.withdrawnAtRound = none)
    (kind : WithdrawnBy) :
    PhaseInv (p.setEntrant registration (·.withdraw (p.lastRound + 1) kind)) := by
  have hMem := List.mem_of_find?_eq_some hFound
  refine h.setEntrant hFound rfl ?_ (h.missed entrant hMem) fun n _ hn => ?_
  · intro w hw
    cases hw
    exact Nat.le_add_left _ _
  · rw [Bool.eq_iff_iff, SwissEntrantRecord.activeAt_iff, SwissEntrantRecord.activeAt_iff]
    refine and_congr_left fun _ => iff_of_true ?_ (by simp [hPaired])
    intro w hw
    cases hw
    rw [h.lastRound_eq]
    exact Nat.lt_succ_of_le hn

/-- The rounds from the withdrawal to the last become missed rounds, so no past field moves. -/
theorem PhaseInv.putBack (h : PhaseInv p) {registration : ι} {entrant : EntrantRow ι}
    {withdrawn : ℕ} (hFound : p.entrant? registration = some entrant)
    (hOut : entrant.withdrawnAtRound = some withdrawn) :
    PhaseInv (p.setEntrant registration (·.putBack
      (entrant.missedRounds ++ List.range' withdrawn (p.lastRound + 1 - withdrawn)))) := by
  have hMem := List.mem_of_find?_eq_some hFound
  have hFirst := h.withdrawn entrant hMem withdrawn hOut
  rw [h.lastRound_eq]
  refine h.setEntrant hFound rfl nofun ?_ fun n _ hn => ?_
  · intro n hn
    rcases List.mem_append.mp hn with hn | hn
    · exact h.missed entrant hMem n hn
    · have hRange := List.mem_range'_1.mp hn
      omega
  · rw [Bool.eq_iff_iff, SwissEntrantRecord.activeAt_iff, SwissEntrantRecord.activeAt_iff]
    simp only [EntrantRow.putBack, hOut, List.mem_append, List.mem_range'_1, not_or, not_and,
      reduceCtorEq, false_implies, implies_true, true_and, Option.some.injEq, forall_eq']
    refine and_comm.trans (and_congr_left fun _ => ⟨fun hAfter => ?_, fun hBefore hLe => ?_⟩)
    · by_contra hLe
      exact hAfter (by omega) (by omega)
    · omega

omit [DecidableEq ι] in
theorem PhaseInv.commit (h : PhaseInv p) {call : CommitCall ι}
    (hRound : call.round = p.lastRound + 1)
    (hField : ∀ id, id ∈ call.field ↔ id ∈ p.unwithdrawn call.round) :
    PhaseInv { p with rounds := p.rounds ++
      [⟨call.round, call.bye, call.ranked, call.bouts.map NewBout.insert, call⟩] } := by
  rw [h.lastRound_eq] at hRound
  refine ⟨h.ids, ?_, h.withdrawn, ?_, fun r hr id => ?_, fun r hr => ?_⟩
  · rw [List.map_append, h.numbered, List.length_append, List.length_singleton,
      List.range'_1_concat, Nat.add_comm 1]
    simp [hRound]
  · intro e he n hn
    have hBound := h.missed e he n hn
    simp only [List.length_append, List.length_cons, List.length_nil]
    omega
  · rcases List.mem_append.mp hr with hr | hr
    · exact h.fields r hr id
    · -- nobody has missed a round that does not exist yet
      rw [List.mem_singleton.mp hr, hField, PhaseRows.mem_unwithdrawn, PhaseRows.mem_activeIds]
      refine exists_congr fun e => and_congr_right fun he => and_congr_left fun _ => ?_
      rw [SwissEntrantRecord.activeAt_iff]
      refine and_iff_left fun hMissed => ?_
      have hBound : call.round ≤ p.rounds.length := (h.missed e he _ hMissed).2
      omega
  · rcases List.mem_append.mp hr with hr | hr
    · exact h.asWritten r hr
    · rw [List.mem_singleton.mp hr]
      exact ⟨rfl, by simp [NewBout.insert]⟩

omit [DecidableEq ι] in
theorem PhaseInv.rounds_eq_concat (h : PhaseInv p) (hNonempty : p.rounds ≠ []) :
    ∃ earlier last, p.rounds = earlier ++ [last] ∧
      earlier.map (·.roundNumber) = List.range' 1 earlier.length ∧
      last.roundNumber = earlier.length + 1 := by
  obtain ⟨earlier, last, hSplit⟩ := (List.eq_nil_or_concat' p.rounds).resolve_left hNonempty
  have hNumbered := h.numbered
  rw [hSplit, List.length_append, List.length_singleton, List.range'_1_concat, List.map_append] at hNumbered
  obtain ⟨hEarlier, hLast⟩ := List.append_inj' hNumbered rfl
  refine ⟨earlier, last, hSplit, hEarlier, ?_⟩
  simpa [Nat.add_comm] using hLast

omit [DecidableEq ι] in
theorem PhaseInv.deleteLast (h : PhaseInv p) :
    PhaseInv { p with
      rounds := p.rounds.filter (·.roundNumber ≠ p.lastRound)
      entrants := p.entrants.map (·.forgetRound p.lastRound) } := by
  rw [h.lastRound_eq]
  have hIds : (p.entrants.map (·.forgetRound p.rounds.length)).map (·.registrationId) =
      p.entrants.map (·.registrationId) := by
    rw [List.map_map]
    rfl
  have hKept : (p.rounds.filter (·.roundNumber ≠ p.rounds.length)).map (·.roundNumber) =
        List.range' 1 (p.rounds.filter (·.roundNumber ≠ p.rounds.length)).length ∧
      (p.rounds.filter (·.roundNumber ≠ p.rounds.length)).length = p.rounds.length - 1 := by
    by_cases hEmpty : p.rounds = []
    · simp [hEmpty]
    · obtain ⟨earlier, last, hSplit, hEarlier, hLast⟩ := h.rounds_eq_concat hEmpty
      have hFilter : p.rounds.filter (·.roundNumber ≠ p.rounds.length) = earlier := by
        have hLength : p.rounds.length = earlier.length + 1 := by simp [hSplit]
        rw [hLength, hSplit, List.filter_append, List.filter_cons_of_neg (by simp [hLast]),
          List.filter_nil, List.append_nil, List.filter_eq_self]
        intro r hr
        have hMem : r.roundNumber ∈ earlier.map (·.roundNumber) := List.mem_map_of_mem hr
        rw [hEarlier, List.mem_range'_1] at hMem
        simp only [ne_eq, decide_eq_true_eq]
        omega
      rw [hFilter, hSplit]
      exact ⟨hEarlier, by simp⟩
  refine ⟨hIds ▸ h.ids, hKept.1, ?_, ?_, fun r hr id => ?_,
    fun r hr => h.asWritten r (List.mem_filter.mp hr).1⟩
  · intro e' he' w hw
    obtain ⟨e, he, rfl⟩ := List.mem_map.mp he'
    exact h.withdrawn e he w hw
  · intro e' he' n hn
    obtain ⟨e, he, rfl⟩ := List.mem_map.mp he'
    obtain ⟨hMissed, hNe⟩ := List.mem_filter.mp hn
    have hBound := h.missed e he n hMissed
    have hNe : n ≠ p.rounds.length := by simpa using hNe
    rw [hKept.2]
    omega
  · obtain ⟨hr, hNe⟩ := List.mem_filter.mp hr
    have hNe : r.roundNumber ≠ p.rounds.length := by simpa using hNe
    refine (PhaseRows.mem_activeIds_map (f := fun e => e.forgetRound p.rounds.length) rfl
      (fun _ _ => rfl) (fun e _ => ?_) id).trans (h.fields r hr id)
    rw [Bool.eq_iff_iff, SwissEntrantRecord.activeAt_iff, SwissEntrantRecord.activeAt_iff]
    simp [EntrantRow.forgetRound, hNe]

omit [DecidableEq ι] in
theorem RoundRow.AsWritten.play {r : RoundRow ι} (h : r.AsWritten) (board : ℕ)
    (result : BoutResult ι) : (r.play board result).AsWritten := by
  refine ⟨h.bye, Eq.trans ?_ h.sides⟩
  refine List.ext_getElem (by simp [RoundRow.play]) fun i _ _ => ?_
  simp only [RoundRow.play, List.getElem_map, List.getElem_modify]
  split
  · rfl
  · rfl

theorem PhaseInv.play (h : PhaseInv p) (round board : ℕ) (result : BoutResult ι) :
    PhaseInv ((PhaseEvent.play round board result).apply p) := by
  have hSame : ∀ r : RoundRow ι,
      (if r.roundNumber = round then r.play board result else r).roundNumber = r.roundNumber ∧
      (if r.roundNumber = round then r.play board result else r).writtenBy = r.writtenBy ∧
      (r.AsWritten → (if r.roundNumber = round then r.play board result else r).AsWritten) := by
    intro r
    split
    · exact ⟨rfl, rfl, fun h => h.play board result⟩
    · exact ⟨rfl, rfl, id⟩
  refine ⟨h.ids, ?_, h.withdrawn, ?_, fun r hr id => ?_, fun r hr => ?_⟩
  · simp only [PhaseEvent.apply, List.map_map, List.length_map]
    rw [← h.numbered]
    exact List.map_congr_left fun r _ => (hSame r).1
  · simpa [PhaseEvent.apply] using h.missed
  · obtain ⟨before, hBefore, rfl⟩ := List.mem_map.mp hr
    rw [(hSame before).1, (hSame before).2.1]
    exact h.fields before hBefore id
  · obtain ⟨before, hBefore, rfl⟩ := List.mem_map.mp hr
    exact (hSame before).2.2 (h.asWritten before hBefore)

end Inv

omit [DecidableEq ι] in
theorem FreshPhase.inv {p : PhaseRows ι} (h : FreshPhase p) : PhaseInv p := by
  refine ⟨h.ids, by simp [h.noRounds], ?_, ?_, ?_, ?_⟩
  · intro e he w hw
    rw [h.unwithdrawn e he] at hw
    cases hw
  · intro e he n hn
    rw [h.nothingMissed e he] at hn
    cases hn
  · intro r hr
    rw [h.noRounds] at hr
    cases hr
  · intro r hr
    rw [h.noRounds] at hr
    cases hr

/-- Every event keeps the invariant. -/
theorem PhaseInv.apply {p : PhaseRows ι} (h : PhaseInv p) (event : PhaseEvent ι) :
    PhaseInv (event.apply p) := by
  cases event with
  | commit call =>
    rcases swissCommitRound_cases p call with ⟨_, hSame⟩ | ⟨_, hRound, hField, hRows⟩
    · rwa [PhaseEvent.apply, hSame]
    · rw [PhaseEvent.apply, hRows]
      exact h.commit hRound hField
  | withdraw registration kind =>
    rw [PhaseEvent.apply]
    split
    · rename_i answer p' hOk
      rcases swissWithdraw_cases hOk with ⟨_, rfl⟩ | ⟨kind, entrant, hFound, hPaired, _, rfl⟩
      · exact h
      · exact h.withdraw hFound hPaired kind
    · exact h
  | putBack registration kind =>
    rw [PhaseEvent.apply]
    split
    · rename_i answer p' hOk
      rcases swissPutBack_cases hOk with ⟨_, rfl⟩ | ⟨entrant, withdrawn, hFound, hOut, _, rfl⟩
      · exact h
      · exact h.putBack hFound hOut
    · exact h
  | deleteLast round fought =>
    rw [PhaseEvent.apply]
    split
    · rename_i deleted p' hOk
      rw [swissDeleteLastRound_ok hOk]
      exact h.deleteLast
    · exact h
  | configure config => exact ⟨h.ids, h.numbered, h.withdrawn, h.missed, h.fields, h.asWritten⟩
  | settle registration isOut => exact ⟨h.ids, h.numbered, h.withdrawn, h.missed, h.fields, h.asWritten⟩
  | play round board result => exact h.play round board result

theorem phaseRun_inv {start p : PhaseRows ι} {moves : List (Move (PhaseRows ι) (PhaseEvent ι))}
    (hFresh : FreshPhase start) (hRun : Run phaseStep start moves p) : PhaseInv p :=
  (hRun.invariant hFresh.inv fun _ event _ hInv hStep => hStep ▸ hInv.apply event).1

/-! ## Rounds the planner wrote -/

section Planner

variable {κ : Type u} [LinearOrder κ]

def RoundRow.records (r : RoundRow κ) : List (SwissMatchRecord κ) :=
  r.bouts.map (·.toSwissMatchRecord)

/-- The call carried a plan of `planSwissRound` for the field it was committed with. -/
def CommitCall.FromPlanner (call : CommitCall κ) : Prop :=
  ∃ players opts, (players.map (·.registrationId)).Nodup ∧
    call = PlannedRound.call
      ⟨call.round, planSwissRound players opts, players.map (·.registrationId)⟩

omit [LinearOrder κ] in
theorem noted_records (records : List (SwissMatchRecord κ)) (bye : Option κ) :
    noted records bye = ((records.map fun m => (m.redRegistrationId, m.blueRegistrationId)).flatMap
      fun sides => sides.1.toList ++ sides.2.toList) ++ bye.toList := by
  rw [noted, List.flatMap_map]

omit [LinearOrder κ] in
theorem noted_swissMatchRows (plan : SwissRoundPlan κ) :
    (((swissMatchRows plan).map fun b => (b.redRegistrationId, b.blueRegistrationId)).flatMap
      fun sides => sides.1.toList ++ sides.2.toList) = boardPlaces plan.pairings := by
  rw [swissMatchRows, List.map_map, List.flatMap_map]
  rfl

/-- The ids a planned round names are the field, each once. -/
theorem RoundRow.AsWritten.deals_field {r : RoundRow κ} (hWritten : r.AsWritten)
    (hPlanner : r.writtenBy.FromPlanner) :
    (noted r.records r.byeRegistrationId).Nodup ∧
      ∀ id, id ∈ noted r.records r.byeRegistrationId ↔ id ∈ r.writtenBy.field := by
  obtain ⟨players, opts, hNodup, hCall⟩ := hPlanner
  have hLaw := planSwissRound_roundLaw opts hNodup
  have hNoted : noted r.records r.byeRegistrationId = planPlaces (planSwissRound players opts) := by
    have hSides := hWritten.sides
    rw [hCall] at hSides
    rw [noted_records, RoundRow.records, List.map_map, hWritten.bye, hCall]
    refine congrArg (· ++ (planSwissRound players opts).byeRegistrationId.toList) ?_
    exact (congrArg _ hSides).trans (noted_swissMatchRows _)
  have hField : r.writtenBy.field = players.map (·.registrationId) := by
    rw [hCall]
    rfl
  rw [hNoted, hField]
  exact ⟨hLaw.nodup_planPlaces, fun _ => hLaw.mem_planPlaces⟩

/-- Past fields stay readable through every run, and the planner's rounds stay valid. -/
theorem phaseRun_fields {start p : PhaseRows κ} {moves : List (Move (PhaseRows κ) (PhaseEvent κ))}
    (hFresh : FreshPhase start) (hRun : Run phaseStep start moves p) :
    p.rounds.map (·.roundNumber) = List.range' 1 p.rounds.length ∧
      (∀ e ∈ p.entrants, ∀ n ∈ e.missedRounds, ∃ r ∈ p.rounds, r.roundNumber = n) ∧
      (∀ r ∈ p.rounds, ∀ id, id ∈ p.activeIds r.roundNumber ↔ id ∈ r.writtenBy.field) ∧
      ∀ r ∈ p.rounds, r.writtenBy.FromPlanner →
        (validateSwissRound (p.activeIds r.roundNumber) r.records r.byeRegistrationId).valid =
          true := by
  have hInv := phaseRun_inv hFresh hRun
  refine ⟨hInv.numbered, fun e he n hn => ?_, hInv.fields, fun r hr hPlanner => ?_⟩
  · have hMem : n ∈ p.rounds.map (·.roundNumber) := by
      rw [hInv.numbered, List.mem_range'_1]
      have hBound := hInv.missed e he n hn
      omega
    exact List.mem_map.mp hMem
  · obtain ⟨hNodup, hSame⟩ := (hInv.asWritten r hr).deals_field hPlanner
    exact validateSwissRound_valid_iff.mpr
      ⟨hNodup, fun id => (hSame id).trans (hInv.fields r hr id).symm⟩

/-- Three entrants: a round, a withdrawal, a round without the third, and a put-back. -/
theorem phaseRun_fields_three :
    let start : PhaseRows ℕ :=
      ⟨⟨false, some 3⟩, [⟨⟨1, none, []⟩, none⟩, ⟨⟨2, none, []⟩, none⟩, ⟨⟨3, none, []⟩, none⟩], [], []⟩
    let first : PhaseEvent ℕ := .commit ⟨1, [1, 2, 3], some 3, none, [⟨some 1, some 2, .scheduled⟩]⟩
    let second : PhaseEvent ℕ := .commit ⟨2, [2, 1], none, none, [⟨some 1, some 2, .scheduled⟩]⟩
    let p := (PhaseEvent.putBack 3 (some .hand)).apply
      (second.apply ((PhaseEvent.withdraw 3 (some .hand)).apply (first.apply start)))
    p.rounds.map (·.roundNumber) = [1, 2] ∧ p.activeIds 1 = [1, 2, 3] ∧ p.activeIds 2 = [1, 2] ∧
      p.activeIds 3 = [1, 2, 3] ∧ ∀ r ∈ p.rounds, ∀ id,
        id ∈ p.activeIds r.roundNumber ↔ id ∈ r.writtenBy.field := by
  refine ⟨by decide, by decide, by decide, by decide, ?_⟩
  exact (phaseRun_fields ⟨rfl, by decide, by decide, by decide⟩
    (.move (.move (.move (.move .start rfl) rfl) rfl) rfl)).2.2.1

end Planner

end MyClash.Swiss
