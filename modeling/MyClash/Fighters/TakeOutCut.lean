import MyClash.Fighters.TakeOut

/-!
# A Fighter taken out, cut short and taken out again

The bouts that still look unfought are found again, and a record written before the cut finishes
its own. A bout completed before the cut is not among them: its record is never stamped.
-/

namespace MyClash.Fighters

open StableSort CutShort

universe u v

variable {υ : Type u} {τ : Type v}

/-! ## Two runs at two times -/

def MatchSnapshot.timeless (bout : MatchSnapshot υ τ) : MatchSnapshot υ Unit where
  status := bout.status
  red_score := bout.red_score
  blue_score := bout.blue_score
  winner_registration_id := bout.winner_registration_id
  ended_at := bout.ended_at.map fun _ => ()
  end_reason := bout.end_reason

def Bout.timeless (bout : Bout υ τ) : Bout υ Unit where
  toMatchSnapshot := bout.toMatchSnapshot.timeless
  phase_id := bout.phase_id
  swiss_round_id := bout.swiss_round_id
  red_registration_id := bout.red_registration_id
  blue_registration_id := bout.blue_registration_id

def sameStamp (a b : Option (MatchSnapshot υ τ)) : Prop :=
  a.map MatchSnapshot.timeless = b.map MatchSnapshot.timeless

/-- One record, but for its id and the times. -/
structure ForfeitRecord.Alike (a b : ForfeitRecord υ τ) : Prop where
  record : b = { a with
    id := b.id, created_at := b.created_at, resulting_match_state := b.resulting_match_state }
  stamp : sameStamp a.resulting_match_state b.resulting_match_state

/-- The bout with that id and its live record, in two states. -/
structure BoutRows.Alike (a b : BoutRows υ τ) (k : υ) : Prop where
  bout : (a.bout k).map Bout.timeless = (b.bout k).map Bout.timeless
  live : Option.Rel ForfeitRecord.Alike (a.live k) (b.live k)

/-! ## What one bout's writes come to -/

def TakeOutWrite.on : TakeOutWrite υ τ → υ
  | .insertForfeit matchId _ => matchId
  | .completeMatch matchId _ => matchId
  | .endClock matchId => matchId
  | .stampResultingState _ matchId => matchId

/-- The bout and the record the writes on one id see. -/
def BoutRows.at (k : υ) (s : BoutRows υ τ) : Option (Bout υ τ) × Option (ForfeitRecord υ τ) :=
  (s.bout k, s.live k)

variable [DecidableEq υ]

theorem framed : Framed (TakeOutWrite.run (τ := τ)) (TakeOutWrite.on (υ := υ)) BoutRows.at where
  other write s k hOn := by
    cases write with
    | insertForfeit matchId record =>
      exact congrArg (Prod.mk (s.bout k)) (Function.update_of_ne (Ne.symm hOn) _ _)
    | completeMatch matchId result =>
      exact congrArg (·, s.live k) (Function.update_of_ne (Ne.symm hOn) _ _)
    | endClock matchId => rfl
    | stampResultingState forfeitId matchId =>
      rw [TakeOutWrite.run]
      split
      · rfl
      · exact congrArg (Prod.mk (s.bout k)) (Function.update_of_ne (Ne.symm hOn) _ _)
  own write s t hSame := by
    obtain ⟨hBout, hLive⟩ := Prod.mk.inj hSame
    cases write with
    | insertForfeit matchId record => simpa [TakeOutWrite.run, BoutRows.at, TakeOutWrite.on]
    | completeMatch matchId result =>
      simp only [TakeOutWrite.on] at hBout hLive
      simp [TakeOutWrite.run, BoutRows.at, TakeOutWrite.on, hBout, hLive]
    | endClock matchId => exact hSame
    | stampResultingState forfeitId matchId =>
      simp only [TakeOutWrite.on] at hBout hLive
      cases hThere : s.bout matchId with
      | none => simp [TakeOutWrite.run, TakeOutWrite.on, BoutRows.at, ← hBout, hLive, hThere]
      | some bout => simp [TakeOutWrite.run, TakeOutWrite.on, BoutRows.at, ← hBout, hLive, hThere]

/-! ## One bout taken out -/

section Bout

variable {rules : ForfeitRules} {given later : Given υ τ} {fighter : Fighter υ τ}
variable {s : BoutRows υ τ} {cause : Cause υ} {k : υ} {bout : Bout υ τ} {scores : Scores}
variable {held record : ForfeitRecord υ τ}

/-- Its own record, one a reconcile wrote. -/
def ForfeitRecord.Finishes (held : ForfeitRecord υ τ) (fighter : Fighter υ τ) : Prop :=
  held.forfeiting_registration_id = fighter.id ∧ held.auto_created = true

/-- The record the bout has at the end, its result not stamped yet. -/
def recordOf (given : Given υ τ) (fighter : Fighter υ τ) (live : Option (ForfeitRecord υ τ))
    (cause : Cause υ) (policy : ForfeitOutcome) (scores : Scores) (k : υ) (bout : Bout υ τ) :
    ForfeitRecord υ τ :=
  live.getD (takeOutRecord given fighter cause policy scores k bout)

/-- A record gives a bout back the scores it was written with. -/
theorem heldResult_takeOutRecord {policy : ForfeitOutcome}
    (hScores : resolveScores bout fighter.id policy = some scores) :
    heldResult later fighter (takeOutRecord given fighter cause policy scores k bout) k bout =
      takeOutResult later fighter cause policy scores k bout := by
  have hRed : (if bout.red_registration_id = some fighter.id then scores.forfeitingScore
        else scores.opponentScore) = scores.redScore ∧
      (if bout.red_registration_id = some fighter.id then scores.opponentScore
        else scores.forfeitingScore) = scores.blueScore := by
    by_cases hSide : some fighter.id = bout.red_registration_id
    · rw [if_pos hSide.symm, if_pos hSide.symm]
      cases hPolicy : policy.scorePolicy <;> simp [resolveScores, hPolicy, hSide] at hScores <;>
        simp [← hScores]
    · rw [if_neg (Ne.symm hSide), if_neg (Ne.symm hSide)]
      cases hPolicy : policy.scorePolicy <;> simp [resolveScores, hPolicy, hSide] at hScores <;>
        simp [← hScores]
  simp only [heldResult, takeOutResult, takeOutRecord, hRed]

theorem boutWrites_taken
    (hScores : resolveScores bout fighter.id (forfeitOutcomeOf rules cause.reason true) =
      some scores)
    (hFinishes : ∀ held, s.live k = some held → held.Finishes fighter)
    (hRecord : recordOf given fighter (s.live k) cause (forfeitOutcomeOf rules cause.reason true)
      scores k bout = record) :
    boutWrites rules given fighter s cause (k, bout) =
      (if s.live k = none then [.insertForfeit k record] else []) ++
        completeWrites record.id k (heldResult given fighter record k bout) := by
  subst hRecord
  rw [boutWrites]
  simp only [hScores, forfeitBout]
  cases hLive : s.live k with
  | none =>
    rw [recordOf, Option.getD_none, heldResult_takeOutRecord hScores]
    rfl
  | some held =>
    obtain ⟨hOwn, hAuto⟩ := hFinishes held hLive
    simp [recordOf, finishHeldBout, hOwn, hAuto]

theorem boutWrites_left (hHeld : s.live k = some held) (h : ¬held.Finishes fighter) :
    boutWrites rules given fighter s cause (k, bout) = [] := by
  have hOther : held.forfeiting_registration_id ≠ fighter.id ∨ held.auto_created = false := by
    rw [ForfeitRecord.Finishes, not_and_or] at h
    exact h.imp_right (Bool.not_eq_true _).mp
  rw [boutWrites]
  split
  · rfl
  · rw [forfeitBout, hHeld]
    exact if_pos hOther

theorem on_of_mem_boutWrites {row : υ × Bout υ τ} {write : TakeOutWrite υ τ}
    (h : write ∈ boutWrites rules given fighter s cause row) : write.on = row.1 := by
  obtain ⟨k, bout⟩ := row
  have hComplete : ∀ id result, write ∈ completeWrites id k result → write.on = k := by
    intro id result hWrite
    simp only [completeWrites, List.mem_cons, List.not_mem_nil, or_false] at hWrite
    rcases hWrite with rfl | rfl | rfl <;> rfl
  simp only [boutWrites, forfeitBout, finishHeldBout] at h
  split at h
  · cases h
  · split at h
    · split_ifs at h
      · cases h
      · exact hComplete _ _ h
    · rcases List.mem_cons.mp h with rfl | h
      · rfl
      · exact hComplete _ _ h

theorem at_completeWrites {result : CompletedBy υ τ} (hBout : s.bout k = some bout)
    (hLive : s.live k = some record) :
    (runAll TakeOutWrite.run (completeWrites record.id k result) s).at k =
      (some (bout.completed result), some (record.stamped (bout.completed result))) := by
  simp [completeWrites, TakeOutWrite.run, BoutRows.at, hBout, hLive]

end Bout

/-! ## The bouts a call finds -/

section Rows

variable {t : Tournament υ τ} {rules : ForfeitRules} {given : Given υ τ} {fighter : Fighter υ τ}
variable {s : BoutRows υ τ} {k : υ} {bout : Bout υ τ}

omit [DecidableEq υ] in
theorem mem_matchRows : (k, bout) ∈ matchRows t s ↔ k ∈ t.match_ids ∧ s.bout k = some bout := by
  rw [matchRows, List.mem_filterMap]
  constructor
  · rintro ⟨id, hId, hRow⟩
    obtain ⟨other, hOther, hRow⟩ := Option.map_eq_some_iff.mp hRow
    obtain ⟨rfl, rfl⟩ := Prod.mk.inj hRow
    exact ⟨hId, hOther⟩
  · rintro ⟨hId, hBout⟩
    exact ⟨k, hId, by rw [hBout, Option.map_some]⟩

omit [DecidableEq υ] in
theorem nodup_matchRows : ((matchRows t s).map Prod.fst).Nodup := by
  have hId : ∀ id key, key ∈ ((s.bout id).map (id, ·)).map Prod.fst → id = key := by
    intro id key hKey
    cases hBout : s.bout id with
    | none => simp [hBout] at hKey
    | some bout => simpa [hBout] using hKey
  rw [matchRows, List.map_filterMap]
  exact t.match_key.filterMap fun id id' key hKey hKey' =>
    (hId id key hKey).trans (hId id' key hKey').symm

theorem mem_unfoughtBoutsOf {registration : Registration υ} :
    (k, bout) ∈ unfoughtBoutsOf t s registration ↔
      k ∈ t.match_ids ∧ s.bout k = some bout ∧
        bout.phase_id ∈ phasesToTakeOutOf t s registration.tournament_id ∧
          bout.status ∈ UNFOUGHT_STATUSES ∧ bout.has registration.id := by
  simp only [unfoughtBoutsOf, List.mem_filter, mem_matchRows, Bool.and_eq_true, decide_eq_true_eq,
    and_assoc]

variable [LinearOrder τ]

theorem mem_boutsToTakeOut : (k, bout) ∈ boutsToTakeOut t s fighter ↔
    (k, bout) ∈ unfoughtBoutsOf t s fighter.toRegistration ∧ k ∉ putBackByHand t fighter := by
  simp only [boutsToTakeOut, List.mem_filter, decide_eq_true_eq]

theorem nodup_boutsToTakeOut : ((boutsToTakeOut t s fighter).map Prod.fst).Nodup :=
  nodup_matchRows.sublist ((List.filter_sublist.trans List.filter_sublist).map Prod.fst)

/-- The writes on a bout the call found. -/
theorem filter_writes_of_mem (hRow : (k, bout) ∈ boutsToTakeOut t s fighter) :
    (takeOut t rules given fighter s).writes.filter (·.on = k) =
      boutWrites rules given fighter s (causeOfNow t rules fighter s) (k, bout) :=
  filter_flatMap_on_self Prod.fst (fun _ _ h => on_of_mem_boutWrites h)
    nodup_boutsToTakeOut hRow

theorem filter_writes_of_not_mem (hNone : ∀ bout, (k, bout) ∉ boutsToTakeOut t s fighter) :
    (takeOut t rules given fighter s).writes.filter (·.on = k) = [] := by
  refine filter_flatMap_on_other Prod.fst (fun _ _ h => on_of_mem_boutWrites h) ?_
  rintro ⟨_, bout⟩ hRow rfl
  exact hNone bout hRow

theorem takenOut_at_of_mem (hRow : (k, bout) ∈ boutsToTakeOut t s fighter) :
    (takenOut t rules given fighter s).at k =
      (runAll TakeOutWrite.run
        (boutWrites rules given fighter s (causeOfNow t rules fighter s) (k, bout)) s).at k := by
  rw [← filter_writes_of_mem hRow]
  exact framed.runAll_view k _ s

theorem takenOut_at_of_not_mem (hNone : ∀ bout, (k, bout) ∉ boutsToTakeOut t s fighter) :
    (takenOut t rules given fighter s).at k = s.at k := by
  have hView := framed.runAll_view k (takeOut t rules given fighter s).writes s
  rwa [filter_writes_of_not_mem hNone] at hView

end Rows

/-! ## Where a cut leaves a bout -/

section Cut

variable [LinearOrder τ]
variable (t : Tournament υ τ) (rules : ForfeitRules) (given : Given υ τ) (fighter : Fighter υ τ)
variable (s : BoutRows υ τ) (before : List (TakeOutWrite υ τ)) (k : υ)

/-- The call completes the bout, and this is its record. -/
structure TakesOut (bout : Bout υ τ) (scores : Scores) (record : ForfeitRecord υ τ) : Prop where
  row : (k, bout) ∈ boutsToTakeOut t s fighter
  scored : resolveScores bout fighter.id
    (forfeitOutcomeOf rules (causeOfNow t rules fighter s).reason true) = some scores
  finishes : ∀ held, s.live k = some held → held.Finishes fighter
  written : recordOf given fighter (s.live k) (causeOfNow t rules fighter s)
    (forfeitOutcomeOf rules (causeOfNow t rules fighter s).reason true) scores k bout = record

inductive Halted : Prop
  | untouched (left : ∀ bout, (k, bout) ∈ boutsToTakeOut t s fighter →
        boutWrites rules given fighter s (causeOfNow t rules fighter s) (k, bout) = [])
      (same : (runAll TakeOutWrite.run before s).at k = s.at k)
      (unfinished : ∀ result, .completeMatch k result ∉ before)
  | begun (bout : Bout υ τ) (scores : Scores) (record : ForfeitRecord υ τ)
      (taken : TakesOut t rules given fighter s k bout scores record)
      (same : (runAll TakeOutWrite.run before s).bout k = some bout)
      (live : (runAll TakeOutWrite.run before s).live k = s.live k ∨
        s.live k = none ∧ (runAll TakeOutWrite.run before s).live k = some record)
      (unfinished : ∀ result, .completeMatch k result ∉ before)
  | completed (bout : Bout υ τ) (scores : Scores) (record : ForfeitRecord υ τ)
      (taken : TakesOut t rules given fighter s k bout scores record)
      (unstamped : (runAll TakeOutWrite.run before s).at k =
        (some (bout.completed (heldResult given fighter record k bout)), some record))
      (result : ∀ result, .completeMatch k result ∈ before ↔
        result = heldResult given fighter record k bout)
      (stampless : ∀ id, .stampResultingState id k ∉ before)
  | stamped (bout : Bout υ τ) (scores : Scores) (record : ForfeitRecord υ τ)
      (taken : TakesOut t rules given fighter s k bout scores record)
      (done : (runAll TakeOutWrite.run before s).at k =
        (some (bout.completed (heldResult given fighter record k bout)),
          some (record.stamped (bout.completed (heldResult given fighter record k bout)))))
      (result : ∀ result, .completeMatch k result ∈ before ↔
        result = heldResult given fighter record k bout)
      (stamp : .stampResultingState record.id k ∈ before)

variable {t rules given fighter s before k}

omit [LinearOrder τ] in
theorem mem_filter_on {write : TakeOutWrite υ τ} (hOn : write.on = k) :
    write ∈ before.filter (·.on = k) ↔ write ∈ before := by
  rw [List.mem_filter]
  exact and_iff_left (decide_eq_true hOn)

theorem TakesOut.bout_eq {bout : Bout υ τ} {scores : Scores} {record : ForfeitRecord υ τ}
    (h : TakesOut t rules given fighter s k bout scores record) : s.bout k = some bout :=
  (mem_unfoughtBoutsOf.mp (mem_boutsToTakeOut.mp h.row).1).2.1

/-- The record stands, and the bout's own writes are cut short. -/
theorem halted_of_completeWrites {bout : Bout υ τ} {scores : Scores} {record : ForfeitRecord υ τ}
    {inserts cut : List (TakeOutWrite υ τ)} {r : BoutRows υ τ}
    (hTaken : TakesOut t rules given fighter s k bout scores record)
    (hInserts : ∀ write ∈ inserts, write = .insertForfeit k record)
    (hBefore : before.filter (·.on = k) = inserts ++ cut)
    (hCut : cut <+: completeWrites record.id k (heldResult given fighter record k bout))
    (hRun : runAll TakeOutWrite.run inserts s = r) (hBout : r.bout k = some bout)
    (hRecord : r.live k = some record)
    (hLive : r.live k = s.live k ∨ s.live k = none ∧ r.live k = some record) :
    Halted t rules given fighter s before k := by
  have hAt : (runAll TakeOutWrite.run before s).at k = (runAll TakeOutWrite.run cut r).at k := by
    rw [framed.runAll_view, hBefore, runAll_append, hRun]
  have hMem : ∀ write, write.on = k → write ≠ .insertForfeit k record →
      (write ∈ before ↔ write ∈ cut) := by
    intro write hOn hOther
    rw [← mem_filter_on hOn, hBefore, List.mem_append]
    exact or_iff_right fun hInsert => hOther (hInserts write hInsert)
  have hResult : ∀ result, .completeMatch k result ∈ before ↔ .completeMatch k result ∈ cut :=
    fun result => hMem _ rfl nofun
  have hStamp : ∀ id, .stampResultingState id k ∈ before ↔ .stampResultingState id k ∈ cut :=
    fun id => hMem _ rfl nofun
  simp only [completeWrites, List.prefix_cons_iff, List.prefix_nil] at hCut
  rcases hCut with rfl | ⟨cut, rfl, rfl | ⟨cut, rfl, rfl | ⟨cut, rfl, rfl⟩⟩⟩
  · obtain ⟨hSame, hLive'⟩ := Prod.mk.inj hAt
    refine .begun bout scores record hTaken (hSame.trans hBout) ?_ fun result => ?_
    · rw [hLive']
      exact hLive
    · rw [hResult]
      exact List.not_mem_nil
  · refine .completed bout scores record hTaken ?_ (fun result => ?_) fun id => ?_
    · rw [hAt]
      simp [TakeOutWrite.run, BoutRows.at, hBout, hRecord]
    · simp [hResult]
    · simp [hStamp]
  · refine .completed bout scores record hTaken ?_ (fun result => ?_) fun id => ?_
    · rw [hAt]
      simp [TakeOutWrite.run, BoutRows.at, hBout, hRecord]
    · simp [hResult]
    · simp [hStamp]
  · refine .stamped bout scores record hTaken ?_ (fun result => ?_) ?_
    · rw [hAt]
      exact at_completeWrites hBout hRecord
    · simp [hResult]
    · simp [hStamp]

theorem halted (hPrefix : before <+: (takeOut t rules given fighter s).writes) (k : υ) :
    Halted t rules given fighter s before k := by
  have hCut := hPrefix.filter (·.on = k)
  have hUntouched : (∀ bout, (k, bout) ∈ boutsToTakeOut t s fighter →
      boutWrites rules given fighter s (causeOfNow t rules fighter s) (k, bout) = []) →
      Halted t rules given fighter s before k := by
    intro hLeft
    have hNone : before.filter (·.on = k) = [] := by
      by_cases hRow : ∃ bout, (k, bout) ∈ boutsToTakeOut t s fighter
      · obtain ⟨bout, hRow⟩ := hRow
        rw [filter_writes_of_mem hRow, hLeft bout hRow] at hCut
        exact List.prefix_nil.mp hCut
      · rw [filter_writes_of_not_mem fun bout hBout => hRow ⟨bout, hBout⟩] at hCut
        exact List.prefix_nil.mp hCut
    refine .untouched hLeft ?_ fun result => ?_
    · rw [framed.runAll_view, hNone, runAll_nil]
    · rw [← mem_filter_on rfl]
      change _ ∉ before.filter (·.on = k)
      rw [hNone]
      exact List.not_mem_nil
  by_cases hRow : ∃ bout, (k, bout) ∈ boutsToTakeOut t s fighter
  swap
  · exact hUntouched fun bout hBout => absurd ⟨bout, hBout⟩ hRow
  obtain ⟨bout, hRow⟩ := hRow
  have hOnly : ∀ other, (k, other) ∈ boutsToTakeOut t s fighter → other = bout := by
    intro other hOther
    have hBout := (mem_unfoughtBoutsOf.mp (mem_boutsToTakeOut.mp hRow).1).2.1
    have hOther := (mem_unfoughtBoutsOf.mp (mem_boutsToTakeOut.mp hOther).1).2.1
    exact Option.some.inj (hOther.symm.trans hBout)
  rw [filter_writes_of_mem hRow] at hCut
  cases hScores : resolveScores bout fighter.id
      (forfeitOutcomeOf rules (causeOfNow t rules fighter s).reason true) with
  | none =>
    refine hUntouched fun other hOther => ?_
    rw [hOnly other hOther, boutWrites]
    simp only [hScores]
  | some scores =>
    by_cases hFinishes : ∀ held, s.live k = some held → held.Finishes fighter
    swap
    · obtain ⟨held, hHeld, hOther⟩ := not_forall₂.mp hFinishes
      exact hUntouched fun bout _ => boutWrites_left hHeld hOther
    have hTaken : TakesOut t rules given fighter s k bout scores _ :=
      ⟨hRow, hScores, hFinishes, rfl⟩
    rw [boutWrites_taken hScores hFinishes rfl] at hCut
    cases hLive : s.live k with
    | some held =>
      rw [if_neg (by rw [hLive]; exact nofun)] at hCut
      refine halted_of_completeWrites hTaken (List.forall_mem_nil _) rfl hCut rfl hTaken.bout_eq ?_
        (.inl rfl)
      rw [runAll_nil, hLive]
      rfl
    | none =>
      rw [if_pos hLive, List.singleton_append, List.prefix_cons_iff] at hCut
      rcases hCut with hNone | ⟨cut, hBefore, hCut⟩
      · have hAt := framed.runAll_view k before s
        rw [hNone, runAll_nil] at hAt
        obtain ⟨hSame, hLive'⟩ := Prod.mk.inj hAt
        refine .begun bout scores _ hTaken (hSame.trans hTaken.bout_eq) (.inl hLive')
          fun result => ?_
        rw [← mem_filter_on rfl]
        change _ ∉ before.filter (·.on = k)
        rw [hNone]
        exact List.not_mem_nil
      · refine halted_of_completeWrites hTaken (fun write => List.mem_singleton.mp) hBefore hCut rfl
          hTaken.bout_eq ?_ ?_
        all_goals simp [TakeOutWrite.run, hLive]

end Cut

/-! ## What a cut leaves a second call to read -/

/-- A record a reconcile wrote is no cause. -/
def MatchForfeit.counts (f : MatchForfeit υ τ) : Bool := !(f.auto_created && f.fighter_outcome.isNone)

omit [DecidableEq υ] in
theorem ownOutcome_filter_counts (forfeits : List (MatchForfeit υ τ)) (outcome : FighterOutcome) :
    ownOutcome (forfeits.filter MatchForfeit.counts) outcome = ownOutcome forfeits outcome := by
  rw [ownOutcome, ownOutcome, List.find?_filter]
  congr 1
  funext f
  cases hOutcome : f.fighter_outcome <;> simp [MatchForfeit.counts, hOutcome]

omit [DecidableEq υ] in
theorem countedForfeits_filter_counts (forfeits : List (MatchForfeit υ τ)) :
    countedForfeits (forfeits.filter MatchForfeit.counts) = countedForfeits forfeits := by
  rw [countedForfeits, countedForfeits, List.filter_filter]
  refine List.filter_congr fun f _ => ?_
  cases hAuto : f.auto_created <;> simp [MatchForfeit.counts, hAuto]

theorem causeOf_filter_counts (db : Tables υ τ) (fighter : Registration υ)
    (rules : ForfeitRulesInForce) (status : Status) (forfeits : List (MatchForfeit υ τ)) :
    causeOf db fighter rules status (forfeits.filter MatchForfeit.counts) =
      causeOf db fighter rules status forfeits := by
  simp only [causeOf, disqualifiedCause, ownOutcome_filter_counts, countedForfeits_filter_counts]

/-- What a cut leaves of one state, for what a call reads next. -/
structure Leaves (s s' : BoutRows υ τ) : Prop where
  bout : ∀ k, s'.bout k = s.bout k ∨
    ∃ bout result, s.bout k = some bout ∧ s'.bout k = some (bout.completed result)
  live : ∀ k, ((s'.live k).map (·.toMatchForfeit)).filter MatchForfeit.counts =
    ((s.live k).map (·.toMatchForfeit)).filter MatchForfeit.counts

section Read

variable {t : Tournament υ τ} {rules : ForfeitRules} {given : Given υ τ} {fighter : Fighter υ τ}
variable {s s' : BoutRows υ τ} {before : List (TakeOutWrite υ τ)}

/-- A Swiss phase that is over stays over. -/
theorem Leaves.swiss_phase_over (h : Leaves s s') {phase : PhaseRow υ}
    (hOver : swiss_phase_over t s phase = true) : swiss_phase_over t s' phase = true := by
  rw [Fighters.swiss_phase_over, Bool.or_eq_true] at hOver ⊢
  refine hOver.imp_right fun hOver => ?_
  cases hCount : phase.roundCount with
  | none => simp [hCount] at hOver
  | some roundCount =>
    cases hLast : lastRoundOf t phase.id with
    | none => simp [hCount, hLast] at hOver
    | some last =>
      simp only [hCount, hLast, Bool.and_eq_true, decide_eq_true_eq, Bool.not_eq_true',
        List.isEmpty_eq_false_iff_exists_mem, List.all_eq_true, List.mem_filter] at hOver ⊢
      obtain ⟨⟨hReached, ⟨k, bout⟩, hRow, hRound⟩, hFought⟩ := hOver
      refine ⟨⟨hReached, ?_⟩, ?_⟩
      · obtain ⟨hId, hBout⟩ := mem_matchRows.mp hRow
        rcases h.bout k with hSame | ⟨other, result, hOther, hDone⟩
        · exact ⟨(k, bout), mem_matchRows.mpr ⟨hId, hSame.trans hBout⟩, hRound⟩
        · obtain rfl := Option.some.inj (hBout.symm.trans hOther)
          exact ⟨(k, bout.completed result), mem_matchRows.mpr ⟨hId, hDone⟩, hRound⟩
      · rintro ⟨k, bout⟩ ⟨hRow, hRound⟩
        obtain ⟨hId, hBout⟩ := mem_matchRows.mp hRow
        rcases h.bout k with hSame | ⟨other, result, hOther, hDone⟩
        · exact hFought (k, bout) ⟨mem_matchRows.mpr ⟨hId, hSame.symm.trans hBout⟩, hRound⟩
        · obtain rfl := Option.some.inj (hBout.symm.trans hDone)
          rfl

theorem Leaves.mem_phasesToTakeOutOf (h : Leaves s s') {tournament phase : υ}
    (hOpen : phase ∈ phasesToTakeOutOf t s' tournament) :
    phase ∈ phasesToTakeOutOf t s tournament := by
  simp only [phasesToTakeOutOf, List.mem_map, List.mem_filter, Bool.and_eq_true] at hOpen ⊢
  obtain ⟨row, ⟨hRow, hTournament, hOpen⟩, rfl⟩ := hOpen
  refine ⟨row, ⟨hRow, hTournament, ?_⟩, rfl⟩
  cases hType : row.type with
  | pool => rfl
  | bracket => simp [hType] at hOpen
  | swiss =>
    simp only [hType, Bool.not_eq_true'] at hOpen ⊢
    cases hOver : Fighters.swiss_phase_over t s row with
    | false => rfl
    | true => exact absurd (h.swiss_phase_over hOver) (by rw [hOpen]; nofun)

variable [LinearOrder τ]

theorem Leaves.causeOfNow (h : Leaves s s') :
    causeOfNow t rules fighter s' = causeOfNow t rules fighter s := by
  have hCounted : (liveForfeitsOf t s' fighter.toRegistration).filter MatchForfeit.counts =
      (liveForfeitsOf t s fighter.toRegistration).filter MatchForfeit.counts := by
    have hRows : ((t.match_ids.filterMap s'.live).map (·.toMatchForfeit)).filter
          MatchForfeit.counts =
        ((t.match_ids.filterMap s.live).map (·.toMatchForfeit)).filter MatchForfeit.counts := by
      rw [List.map_filterMap, List.map_filterMap, List.filter_filterMap, List.filter_filterMap]
      exact List.filterMap_congr fun k _ => h.live k
    have hTrans : Std.TransCmp fun f g : MatchForfeit υ τ => compare f.created_at g.created_at :=
      inferInstanceAs (Std.TransCmp (compareOn fun f : MatchForfeit υ τ => f.created_at))
    rw [liveForfeitsOf, liveForfeitsOf, filter_sortWith, filter_sortWith, List.filter_comm, hRows,
      List.filter_comm]
  rw [Fighters.causeOfNow, ← causeOf_filter_counts, hCounted, causeOf_filter_counts]
  rfl

/-- The record is the one there was, or one that is no cause. -/
theorem TakesOut.counts {k : υ} {bout : Bout υ τ} {scores : Scores} {record : ForfeitRecord υ τ}
    (h : TakesOut t rules given fighter s k bout scores record) :
    (some record.toMatchForfeit).filter MatchForfeit.counts =
      ((s.live k).map (·.toMatchForfeit)).filter MatchForfeit.counts := by
  rw [← h.written]
  cases hLive : s.live k with
  | none => rfl
  | some held => rfl

theorem Halted.leaves (h : ∀ k, Halted t rules given fighter s before k) :
    Leaves s (runAll TakeOutWrite.run before s) := by
  refine ⟨fun k => ?_, fun k => ?_⟩
  · cases h k with
    | untouched _ hSame _ => exact .inl (Prod.mk.inj hSame).1
    | begun bout _ record hTaken hSame _ _ => exact .inl (hSame.trans hTaken.bout_eq.symm)
    | completed bout _ record hTaken hAt _ _ =>
      exact .inr ⟨bout, _, hTaken.bout_eq, (Prod.mk.inj hAt).1⟩
    | stamped bout _ record hTaken hAt _ _ =>
      exact .inr ⟨bout, _, hTaken.bout_eq, (Prod.mk.inj hAt).1⟩
  · cases h k with
    | untouched _ hSame _ =>
      obtain ⟨-, hLive⟩ := Prod.mk.inj hSame
      rw [hLive]
    | begun bout _ record hTaken _ hLive _ =>
      rcases hLive with hLive | ⟨-, hLive⟩
      · rw [hLive]
      · rw [hLive]
        exact hTaken.counts
    | completed bout _ record hTaken hAt _ _ =>
      obtain ⟨-, hLive⟩ := Prod.mk.inj hAt
      rw [hLive]
      exact hTaken.counts
    | stamped bout _ record hTaken hAt _ _ =>
      obtain ⟨-, hLive⟩ := Prod.mk.inj hAt
      rw [hLive]
      exact hTaken.counts

end Read

/-! ## The second call -/

section Alike

variable {a b : BoutRows υ τ} {k : υ} {bout : Bout υ τ} {record record' : ForfeitRecord υ τ}
variable {given later : Given υ τ} {fighter : Fighter υ τ} {result result' : CompletedBy υ τ}

omit [DecidableEq υ] in
theorem ForfeitRecord.Alike.refl (record : ForfeitRecord υ τ) : record.Alike record := ⟨rfl, rfl⟩

omit [DecidableEq υ] in
theorem BoutRows.Alike.of_at (h : a.at k = b.at k) : a.Alike b k := by
  obtain ⟨hBout, hLive⟩ := Prod.mk.inj h
  refine ⟨congrArg _ hBout, ?_⟩
  rw [hLive]
  cases b.live k with
  | none => exact .none
  | some record => exact .some (.refl record)

omit [DecidableEq υ] in
theorem ForfeitRecord.Alike.stamped {bout' : Bout υ τ} (h : record.Alike record')
    (hBout : bout.timeless = bout'.timeless) : (record.stamped bout).Alike (record'.stamped bout')
    where
  record := by
    have hRecord := h.record
    rw [ForfeitRecord.stamped, hRecord]
    rfl
  stamp := congrArg (fun bout : Bout υ Unit => some bout.toMatchSnapshot) hBout

theorem ForfeitRecord.Alike.completed (h : record.Alike record') (k : υ) (bout : Bout υ τ) :
    (bout.completed (heldResult given fighter record k bout)).timeless =
      (bout.completed (heldResult later fighter record' k bout)).timeless := by
  have hRecord := h.record
  rw [hRecord]
  rfl

end Alike

section Again

variable [LinearOrder τ]
variable {t : Tournament υ τ} {rules : ForfeitRules} {given later : Given υ τ}
variable {fighter : Fighter υ τ} {s s' : BoutRows υ τ} {before : List (TakeOutWrite υ τ)}
variable {k : υ} {bout : Bout υ τ} {scores : Scores} {record : ForfeitRecord υ τ}

theorem TakesOut.done (h : TakesOut t rules given fighter s k bout scores record) :
    (takenOut t rules given fighter s).at k =
      (some (bout.completed (heldResult given fighter record k bout)),
        some (record.stamped (bout.completed (heldResult given fighter record k bout)))) := by
  rw [takenOut_at_of_mem h.row, boutWrites_taken h.scored h.finishes h.written, runAll_append]
  cases hLive : s.live k with
  | none =>
    rw [if_pos rfl]
    exact at_completeWrites h.bout_eq (by simp [TakeOutWrite.run])
  | some held =>
    have hRecord := h.written
    rw [hLive] at hRecord
    rw [if_neg nofun, runAll_nil]
    exact at_completeWrites h.bout_eq (hLive.trans (congrArg some hRecord))

/-- Where the call can find the bout again, it finishes the record the cut left, or writes its
own. -/
theorem TakesOut.again (h : TakesOut t rules given fighter s k bout scores record)
    (hLeaves : Leaves s s') (hBout : s'.bout k = some bout)
    (hLive : s'.live k = s.live k ∨ s.live k = none ∧ s'.live k = some record)
    (hOpen : bout.phase_id ∈ phasesToTakeOutOf t s' fighter.tournament_id) :
    ∃ record', record.Alike record' ∧
      TakesOut t rules later fighter s' k bout scores record' := by
  obtain ⟨hRow, hHand⟩ := mem_boutsToTakeOut.mp h.row
  obtain ⟨hId, -, -, hStatus, hHas⟩ := mem_unfoughtBoutsOf.mp hRow
  refine ⟨_, ?_, mem_boutsToTakeOut.mpr
    ⟨mem_unfoughtBoutsOf.mpr ⟨hId, hBout, hOpen, hStatus, hHas⟩, hHand⟩, ?_, ?_, rfl⟩
  · rw [hLeaves.causeOfNow, ← h.written]
    rcases hLive with hSame | ⟨hNone, hWritten⟩
    · rw [hSame]
      cases s.live k with
      | none => exact ⟨rfl, rfl⟩
      | some held => exact .refl held
    · rw [hWritten, hNone, ← h.written, hNone]
      exact .refl _
  · rw [hLeaves.causeOfNow]
    exact h.scored
  · intro held hHeld
    rcases hLive with hSame | ⟨hNone, hWritten⟩
    · exact h.finishes held (hSame.symm.trans hHeld)
    · obtain rfl := Option.some.inj (hHeld.symm.trans hWritten)
      rw [← h.written, hNone]
      exact ⟨rfl, rfl⟩

theorem not_mem_of_completed (hBout : s.bout k = some bout) (hStatus : bout.status = .completed)
    (other : Bout υ τ) : (k, other) ∉ boutsToTakeOut t s fighter := by
  intro hRow
  obtain ⟨-, hOther, -, hUnfought, -⟩ := mem_unfoughtBoutsOf.mp (mem_boutsToTakeOut.mp hRow).1
  obtain rfl := Option.some.inj (hBout.symm.trans hOther)
  rw [hStatus] at hUnfought
  exact absurd hUnfought (by decide)

omit [LinearOrder τ] in
/-- A bout left alone is left alone again. -/
theorem boutWrites_again (hLive : s'.live k = s.live k) (cause : Cause υ)
    (hLeft : boutWrites rules given fighter s cause (k, bout) = []) :
    boutWrites rules later fighter s' cause (k, bout) = [] := by
  cases hScores : resolveScores bout fighter.id (forfeitOutcomeOf rules cause.reason true) with
  | none =>
    rw [boutWrites]
    simp only [hScores]
  | some scores =>
    by_cases hFinishes : ∀ held, s.live k = some held → held.Finishes fighter
    · rw [boutWrites_taken hScores hFinishes rfl] at hLeft
      simp [completeWrites] at hLeft
    · obtain ⟨held, hHeld, hOther⟩ := not_forall₂.mp hFinishes
      exact boutWrites_left (hLive.trans hHeld) hOther

end Again

/-! ## When nothing is missed -/

section Law

variable [LinearOrder τ]

/-- No bout is completed with its result unsaved, and each bout that is not completed yet is in a
phase that is still open. -/
structure MissesNothing (t : Tournament υ τ) (fighter : Fighter υ τ) (s : BoutRows υ τ)
    (before : List (TakeOutWrite υ τ)) (k : υ) : Prop where
  stamped : ∀ result, .completeMatch k result ∈ before →
    (∀ id, .stampResultingState id k ∉ before) →
      sameStamp (some result.snapshot) ((s.live k).bind (·.resulting_match_state))
  still_open : ∀ bout, (k, bout) ∈ boutsToTakeOut t s fighter →
    (∀ held, s.live k = some held → held.Finishes fighter) →
      (∀ result, .completeMatch k result ∉ before) →
        bout.phase_id ∈ phasesToTakeOutOf t (runAll TakeOutWrite.run before s)
          fighter.tournament_id

variable {t : Tournament υ τ} {rules : ForfeitRules} {given later : Given υ τ}
variable {fighter : Fighter υ τ} {s : BoutRows υ τ} {before : List (TakeOutWrite υ τ)}
variable {k : υ} {bout : Bout υ τ} {scores : Scores} {record : ForfeitRecord υ τ}

omit [LinearOrder τ] in
/-- An override states no scores, and no bout is written. -/
theorem boutWrites_override {cause : Cause υ} (row : υ × Bout υ τ)
    (h : resolveScores bout fighter.id (forfeitOutcomeOf rules cause.reason true) = none) :
    boutWrites rules given fighter s cause row = [] := by
  cases hPolicy : (forfeitOutcomeOf rules cause.reason true).scorePolicy with
  | explicit => simp [boutWrites, resolveScores, hPolicy]
  | keep_current => simp [resolveScores, hPolicy] at h
  | fixed_loss => simp [resolveScores, hPolicy] at h
  | draw => simp [resolveScores, hPolicy] at h

/-- With no record in its way a bout is left because nothing is written at all. -/
theorem writes_eq_nil_of_left
    (hLeft : boutWrites rules given fighter s (causeOfNow t rules fighter s) (k, bout) = [])
    (hFinishes : ∀ held, s.live k = some held → held.Finishes fighter) :
    (takeOut t rules given fighter s).writes = [] := by
  cases hScores : resolveScores bout fighter.id
      (forfeitOutcomeOf rules (causeOfNow t rules fighter s).reason true) with
  | none => exact List.flatMap_eq_nil_iff.mpr fun row _ => boutWrites_override row hScores
  | some scores =>
    rw [boutWrites_taken hScores hFinishes rfl] at hLeft
    simp [completeWrites] at hLeft

/-- A bout left alone is left alone by the second call. -/
theorem takenOutAgain_at_of_left (hLeaves : Leaves s (runAll TakeOutWrite.run before s))
    (hLeft : ∀ bout, (k, bout) ∈ boutsToTakeOut t s fighter →
      boutWrites rules given fighter s (causeOfNow t rules fighter s) (k, bout) = [])
    (hSame : (runAll TakeOutWrite.run before s).at k = s.at k) :
    (takenOutAgain t rules later fighter s before).at k = s.at k := by
  obtain ⟨hBout, hLive⟩ := Prod.mk.inj hSame
  by_cases hRow : ∃ bout, (k, bout) ∈ boutsToTakeOut t (runAll TakeOutWrite.run before s) fighter
  · obtain ⟨bout, hRow⟩ := hRow
    obtain ⟨hUnfought, hHand⟩ := mem_boutsToTakeOut.mp hRow
    obtain ⟨hId, hThere, hOpen, hRest⟩ := mem_unfoughtBoutsOf.mp hUnfought
    have hFound : (k, bout) ∈ boutsToTakeOut t s fighter :=
      mem_boutsToTakeOut.mpr ⟨mem_unfoughtBoutsOf.mpr
        ⟨hId, hBout.symm.trans hThere, hLeaves.mem_phasesToTakeOutOf hOpen, hRest⟩, hHand⟩
    rw [takenOutAgain, takenOut_at_of_mem hRow, hLeaves.causeOfNow,
      boutWrites_again hLive _ (hLeft bout hFound), runAll_nil]
    exact hSame
  · exact (takenOut_at_of_not_mem fun bout hBout => hRow ⟨bout, hBout⟩).trans hSame

theorem missesNothing_iff_open (hTaken : TakesOut t rules given fighter s k bout scores record)
    (hUnfinished : ∀ result, .completeMatch k result ∉ before) :
    MissesNothing t fighter s before k ↔ bout.phase_id ∈
      phasesToTakeOutOf t (runAll TakeOutWrite.run before s) fighter.tournament_id := by
  constructor
  · exact fun h => h.still_open bout hTaken.row hTaken.finishes hUnfinished
  · refine fun hOpen => ⟨fun result hResult => absurd hResult (hUnfinished result), ?_⟩
    intro other hRow _ _
    obtain ⟨-, hOther, -⟩ := mem_unfoughtBoutsOf.mp (mem_boutsToTakeOut.mp hRow).1
    obtain rfl := Option.some.inj (hTaken.bout_eq.symm.trans hOther)
    exact hOpen

/-- A bout still to complete is completed if the second call finds it. -/
theorem TakesOut.alike_iff_open (hTaken : TakesOut t rules given fighter s k bout scores record)
    (hLeaves : Leaves s (runAll TakeOutWrite.run before s))
    (hSame : (runAll TakeOutWrite.run before s).bout k = some bout)
    (hLive : (runAll TakeOutWrite.run before s).live k = s.live k ∨
      s.live k = none ∧ (runAll TakeOutWrite.run before s).live k = some record) :
    (takenOut t rules given fighter s).Alike (takenOutAgain t rules later fighter s before) k ↔
      bout.phase_id ∈
        phasesToTakeOutOf t (runAll TakeOutWrite.run before s) fighter.tournament_id := by
  obtain ⟨hDone, hStamped⟩ := Prod.mk.inj hTaken.done
  constructor
  · intro hAlike
    by_contra hOver
    have hNone : ∀ other, (k, other) ∉
        boutsToTakeOut t (runAll TakeOutWrite.run before s) fighter := by
      intro other hRow
      obtain ⟨-, hOther, hOpen, -⟩ := mem_unfoughtBoutsOf.mp (mem_boutsToTakeOut.mp hRow).1
      obtain rfl := Option.some.inj (hSame.symm.trans hOther)
      exact hOver hOpen
    have hAgain : (takenOutAgain t rules later fighter s before).at k = _ :=
      takenOut_at_of_not_mem hNone
    obtain ⟨hBout, -⟩ := Prod.mk.inj hAgain
    have hEnd := hAlike.bout
    rw [hBout, hSame, hDone] at hEnd
    have hStatus : MatchStatus.completed = bout.status :=
      congrArg (fun bout : Bout υ Unit => bout.status) (Option.some.inj hEnd)
    exact not_mem_of_completed hTaken.bout_eq hStatus.symm bout hTaken.row
  · intro hOpen
    obtain ⟨record', hRecord, hAgain⟩ : ∃ record', record.Alike record' ∧
        TakesOut t rules later fighter (runAll TakeOutWrite.run before s) k bout scores record' :=
      hTaken.again hLeaves hSame hLive hOpen
    obtain ⟨hDone', hStamped'⟩ := Prod.mk.inj hAgain.done
    refine ⟨?_, ?_⟩
    · rw [hDone, takenOutAgain, hDone']
      exact congrArg some (hRecord.completed k bout)
    · rw [hStamped, takenOutAgain, hStamped']
      exact .some (hRecord.stamped (hRecord.completed k bout))

theorem alike_iff_missesNothing (hPrefix : before <+: (takeOut t rules given fighter s).writes)
    (later : Given υ τ) (k : υ) :
    (takenOut t rules given fighter s).Alike (takenOutAgain t rules later fighter s before) k ↔
      MissesNothing t fighter s before k := by
  have hLeaves : Leaves s (runAll TakeOutWrite.run before s) := Halted.leaves (halted hPrefix)
  cases halted hPrefix k with
  | untouched hLeft hSame hUnfinished =>
    have hFirst : (takenOut t rules given fighter s).at k = s.at k := by
      by_cases hRow : ∃ bout, (k, bout) ∈ boutsToTakeOut t s fighter
      · obtain ⟨bout, hRow⟩ := hRow
        rw [takenOut_at_of_mem hRow, hLeft bout hRow, runAll_nil]
      · exact takenOut_at_of_not_mem fun bout hBout => hRow ⟨bout, hBout⟩
    have hAgain : (takenOutAgain t rules later fighter s before).at k = s.at k :=
      takenOutAgain_at_of_left hLeaves hLeft hSame
    refine iff_of_true (.of_at (hFirst.trans hAgain.symm)) ⟨?_, ?_⟩
    · exact fun result hResult => absurd hResult (hUnfinished result)
    · intro bout hRow hFinishes _
      rw [writes_eq_nil_of_left (hLeft bout hRow) hFinishes] at hPrefix
      rw [List.prefix_nil.mp hPrefix, runAll_nil]
      exact (mem_unfoughtBoutsOf.mp (mem_boutsToTakeOut.mp hRow).1).2.2.1
  | begun bout scores record hTaken hSame hLive hUnfinished =>
    rw [missesNothing_iff_open hTaken hUnfinished]
    exact hTaken.alike_iff_open hLeaves hSame hLive
  | completed bout scores record hTaken hAt hResult hStampless =>
    obtain ⟨hDone, hStamped⟩ := Prod.mk.inj hTaken.done
    have hAgain : (takenOutAgain t rules later fighter s before).at k = _ :=
      takenOut_at_of_not_mem (not_mem_of_completed (Prod.mk.inj hAt).1 rfl)
    obtain ⟨hDone', hLive'⟩ := Prod.mk.inj (hAgain.trans hAt)
    have hKept : record.resulting_match_state = (s.live k).bind (·.resulting_match_state) := by
      rw [← hTaken.written]
      cases s.live k <;> rfl
    have hFinished := (hResult _).mpr rfl
    constructor
    · intro hAlike
      have hLive := hAlike.live
      rw [hStamped, hLive'] at hLive
      refine ⟨fun result hMem _ => ?_, fun _ _ _ hUnfinished => absurd hFinished (hUnfinished _)⟩
      rw [(hResult result).mp hMem, ← hKept]
      exact (Option.rel_some_some.mp hLive).stamp
    · intro h
      refine ⟨by rw [hDone, hDone'], ?_⟩
      rw [hStamped, hLive']
      refine .some ⟨rfl, ?_⟩
      rw [hKept]
      exact h.stamped _ hFinished hStampless
  | stamped bout scores record hTaken hAt hResult hStamp =>
    have hAgain : (takenOutAgain t rules later fighter s before).at k = _ :=
      takenOut_at_of_not_mem (not_mem_of_completed (Prod.mk.inj hAt).1 rfl)
    refine iff_of_true (.of_at (hTaken.done.trans (hAgain.trans hAt).symm)) ⟨?_, ?_⟩
    · exact fun result _ hStampless => absurd hStamp (hStampless record.id)
    · intro other _ _ hUnfinished
      exact absurd ((hResult _).mpr rfl) (hUnfinished _)

/-! ## A bout fought again after it -/

theorem takesOut_of_mem {result : CompletedBy υ τ}
    (h : .completeMatch k result ∈ (takeOut t rules given fighter s).writes) :
    ∃ bout scores record, TakesOut t rules given fighter s k bout scores record ∧
      result = heldResult given fighter record k bout := by
  cases halted (List.prefix_refl (takeOut t rules given fighter s).writes) k with
  | untouched _ _ hUnfinished => exact absurd h (hUnfinished result)
  | begun _ _ _ _ _ _ hUnfinished => exact absurd h (hUnfinished result)
  | completed bout scores record hTaken _ hResult _ =>
    exact ⟨bout, scores, record, hTaken, (hResult result).mp h⟩
  | stamped bout scores record hTaken _ hResult _ =>
    exact ⟨bout, scores, record, hTaken, (hResult result).mp h⟩

omit [LinearOrder τ] in
/-- A record that holds its result leaves another result be. -/
theorem putBack_of_stamp {result : CompletedBy υ τ}
    (hStamp : sameStamp (some result.snapshot) record.resulting_match_state)
    (hOther : bout.toMatchSnapshot.sameResult result.snapshot = false) :
    putBack record (some bout) = some bout := by
  cases hRecorded : record.resulting_match_state with
  | none =>
    rw [hRecorded] at hStamp
    cases hStamp
  | some recorded =>
    rw [hRecorded] at hStamp
    have hSame : result.snapshot.timeless = recorded.timeless := Option.some.inj hStamp
    have hResult : bout.toMatchSnapshot.sameResult recorded =
        bout.toMatchSnapshot.sameResult result.snapshot := by
      have hAll := congrArg (fun m : MatchSnapshot υ Unit =>
        (m.status, m.winner_registration_id, m.red_score, m.blue_score, m.end_reason)) hSame
      simp only [MatchSnapshot.timeless, Prod.mk.injEq] at hAll
      simp only [MatchSnapshot.sameResult, hAll]
    have hKept : record.restored (some bout) = false := by
      simp [ForfeitRecord.restored, recordedResultDiverged, hRecorded, hResult, hOther]
    rw [putBack, hKept]
    rfl

/-- Cut short after any of its writes and called again, at any later time, a call leaves the bouts
and records of one call, and no result fought since is put back over, exactly when the cut missed
nothing. -/
theorem takenOutAgain_iff_missesNothing (t : Tournament υ τ) (rules : ForfeitRules)
    (given later : Given υ τ) (fighter : Fighter υ τ) (s : BoutRows υ τ)
    (before : List (TakeOutWrite υ τ))
    (hPrefix : before <+: (takeOut t rules given fighter s).writes) :
    ((∀ k, (takenOut t rules given fighter s).Alike
        (takenOutAgain t rules later fighter s before) k) ∧
      ∀ k result, .completeMatch k result ∈ (takeOut t rules given fighter s).writes →
        ∀ record, (takenOutAgain t rules later fighter s before).live k = some record →
          ∀ bout : Bout υ τ, bout.toMatchSnapshot.sameResult result.snapshot = false →
            putBack record (some bout) = some bout) ↔
      ∀ k, MissesNothing t fighter s before k := by
  have hAlike := alike_iff_missesNothing hPrefix later
  constructor
  · exact fun h k => (hAlike k).mp (h.1 k)
  · intro h
    refine ⟨fun k => (hAlike k).mpr (h k), ?_⟩
    intro k result hWrite record hRecord bout hOther
    obtain ⟨_, _, written, hTaken, rfl⟩ := takesOut_of_mem hWrite
    have hLive := ((hAlike k).mpr (h k)).live
    rw [(Prod.mk.inj hTaken.done).2, hRecord] at hLive
    exact putBack_of_stamp (Option.rel_some_some.mp hLive).stamp hOther

end Law

theorem onePool_key : [1, 2].Nodup := by decide

theorem noReviews_key : ([] : List (ℕ × ℕ × ReviewType)).Nodup := List.nodup_nil

/-- A Pool bout of Fighter 7, who withdrew, and one that is fought. -/
def onePool : Tournament ℕ ℕ where
  tables := ⟨[], [], [], List.nodup_nil, noReviews_key⟩
  match_ids := [1, 2]
  match_key := onePool_key
  voided := []
  phases := [⟨5, 3, .pool, false, none⟩]
  swiss_rounds := []

def oneScheduled : BoutRows ℕ ℕ where
  bout k :=
    if k = 1 then some ⟨⟨.scheduled, 0, 0, none, none, none⟩, 5, none, some 7, some 8⟩
    else if k = 2 then some ⟨⟨.completed, 3, 5, some 7, some 4, none⟩, 5, none, some 9, some 7⟩
    else none
  live _ := none

def fixedLoss : ForfeitRules where
  disqualifyAfter := none
  firstBlackCard := .bout
  secondBlackCard := .tournament
  injury := ⟨⟨.fixed_loss, by decide⟩, 5⟩
  voluntary := ⟨⟨.fixed_loss, by decide⟩, 5⟩
  conduct_violation := ⟨⟨.fixed_loss, by decide⟩, 5⟩
  blackCardOpponentScore := 5

def outFighter : Fighter ℕ ℕ := ⟨⟨7, 3⟩, .withdrawn, 10⟩

def givenAt (time : ℕ) : Given ℕ ℕ := ⟨fun k => time + k, fun _ => time, fun _ => time⟩

/-- Cut short after the record, the second call finishes it. -/
theorem takenOutAgain_iff_missesNothing_one :
    ((takeOut onePool fixedLoss (givenAt 20) outFighter oneScheduled).writes.take 1 <+:
      (takeOut onePool fixedLoss (givenAt 20) outFighter oneScheduled).writes) ∧
    ((∀ k, (takenOut onePool fixedLoss (givenAt 20) outFighter oneScheduled).Alike
        (takenOutAgain onePool fixedLoss (givenAt 30) outFighter oneScheduled
          ((takeOut onePool fixedLoss (givenAt 20) outFighter oneScheduled).writes.take 1)) k) ↔
      ∀ k, MissesNothing onePool outFighter oneScheduled
        ((takeOut onePool fixedLoss (givenAt 20) outFighter oneScheduled).writes.take 1) k) := by
  have hPrefix := List.take_prefix 1
    (takeOut onePool fixedLoss (givenAt 20) outFighter oneScheduled).writes
  have h := takenOutAgain_iff_missesNothing onePool fixedLoss (givenAt 20) (givenAt 30) outFighter
    oneScheduled _ hPrefix
  refine ⟨hPrefix, fun hAlike k => ?_, fun hMisses => (h.mpr hMisses).1⟩
  exact (alike_iff_missesNothing hPrefix (givenAt 30) k).mp (hAlike k)

/-- Cut short between the bout and the stamp, the result is never saved, and the bout fought again
to another one is put back over it. -/
theorem takenOutAgain_unstamped :
    ((takeOut onePool fixedLoss (givenAt 20) outFighter oneScheduled).writes.take 2 <+:
      (takeOut onePool fixedLoss (givenAt 20) outFighter oneScheduled).writes) ∧
    ¬(takenOut onePool fixedLoss (givenAt 20) outFighter oneScheduled).Alike
      (takenOutAgain onePool fixedLoss (givenAt 30) outFighter oneScheduled
        ((takeOut onePool fixedLoss (givenAt 20) outFighter oneScheduled).writes.take 2)) 1 ∧
    ∃ result record, .completeMatch 1 result ∈
        (takeOut onePool fixedLoss (givenAt 20) outFighter oneScheduled).writes ∧
      (takenOutAgain onePool fixedLoss (givenAt 30) outFighter oneScheduled
        ((takeOut onePool fixedLoss (givenAt 20) outFighter oneScheduled).writes.take 2)).live 1 =
          some record ∧
      ∃ bout : Bout ℕ ℕ, bout.toMatchSnapshot.sameResult result.snapshot = false ∧
        putBack record (some bout) ≠ some bout := by
  refine ⟨List.take_prefix _ _, fun hAlike => ?_, ⟨some 8, 0, 5, .forfeit, 20⟩,
    ⟨⟨21, 3, 7, .voluntary, none, none, true, false, none, 20⟩, some 8, .fixed_loss, 0, 5, false,
      ⟨.scheduled, 0, 0, none, none, none⟩, none⟩, by decide, by decide,
    ⟨⟨.completed, 5, 2, some 7, some 40, some (.fought "points")⟩, 5, none, some 7, some 8⟩,
    by decide, by decide⟩
  have hStamp : ((takenOut onePool fixedLoss (givenAt 20) outFighter oneScheduled).live 1).bind
      (·.resulting_match_state) ≠ none := by decide
  have hNone : (takenOutAgain onePool fixedLoss (givenAt 30) outFighter oneScheduled
      ((takeOut onePool fixedLoss (givenAt 20) outFighter oneScheduled).writes.take 2)).live 1 =
      some ⟨⟨21, 3, 7, .voluntary, none, none, true, false, none, 20⟩, some 8, .fixed_loss, 0, 5,
        false, ⟨.scheduled, 0, 0, none, none, none⟩, none⟩ := by decide
  have hLive := hAlike.live
  rw [hNone] at hLive
  revert hStamp
  cases hFirst : (takenOut onePool fixedLoss (givenAt 20) outFighter oneScheduled).live 1 with
  | none =>
    exact fun hStamp => hStamp rfl
  | some record =>
    rw [hFirst] at hLive
    intro hStamp
    have hSame := (Option.rel_some_some.mp hLive).stamp
    exact hStamp (Option.map_eq_none_iff.mp hSame)

end MyClash.Fighters
