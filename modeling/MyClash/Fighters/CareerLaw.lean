import MyClash.Fighters.Career
import Mathlib.Order.Bounds.Basic

/-!
# A career counts each bout once

Whatever the bouts and exchanges, the counts over the weapons, over the years and over the events
add up to those in all. Each completed bout of the fighter is counted once, on the side taken, with
the outcome that the recent form shows.
-/

namespace MyClash.Fighters.Career

open MatchFormat (BoutOutcome Color boutOutcomes)

variable {ρ : Type}

/-- No registration and no bout comes twice. -/
structure CareerInput (ρ : Type) extends BuildFighterCareerInput ρ where
  registrations_nodup : (registrations.map (·.id)).Nodup
  bouts_nodup : (bouts.map (·.id)).Nodup

/-- The five counts of a bucket. -/
def careerCounts : List (CareerCounts → ℕ) :=
  [(·.bouts), (·.wins), (·.losses), (·.doubleHits), (·.exchanges)]

variable [DecidableEq ρ]

/-- The fighter's side in a bout, red where both are the fighter's own. -/
def sideTaken (registrations : List (CareerRegistrationInput ρ)) (bout : CareerMatchInput ρ) :
    Option Color :=
  if isMine registrations bout.redRegistrationId then some .red
  else if isMine registrations bout.blueRegistrationId then some .blue
  else none

def outcomeAt (bout : CareerMatchInput ρ) (side : Color) : BoutOutcome :=
  let outcomes := boutOutcomes ⟨bout.winnerRegistrationId, bout.redRegistrationId,
    bout.blueRegistrationId, some bout.redScore, some bout.blueScore, bout.endReason⟩
  match side with
  | .red => outcomes.1
  | .blue => outcomes.2

omit [DecidableEq ρ] in
def registrationAt (bout : CareerMatchInput ρ) : Color → Option ρ
  | .red => bout.redRegistrationId
  | .blue => bout.blueRegistrationId

/-- A completed bout of the fighter, with the side taken. -/
def foughtOf (registrations : List (CareerRegistrationInput ρ)) (bout : CareerMatchInput ρ) :
    Option (CareerMatchInput ρ × Color) :=
  if bout.status = "completed" then (sideTaken registrations bout).map (bout, ·) else none

def fought (input : BuildFighterCareerInput ρ) : List (CareerMatchInput ρ × Color) :=
  input.bouts.filterMap (foughtOf input.registrations)

/-- What the recent form shows of a bout. -/
def shownOf (entry : CareerMatchInput ρ × Color) : FormMatch :=
  let (bout, side) := entry
  match side with
  | .red => ⟨bout.id, bout.scheduledAt, outcomeAt bout side, bout.redScore, bout.blueScore⟩
  | .blue => ⟨bout.id, bout.scheduledAt, outcomeAt bout side, bout.blueScore, bout.redScore⟩

/-- The longest prefix of one outcome, none where the first is a draw. -/
def IsStreak (outcomes : List BoutOutcome) (streak : CurrentStreak) : Prop :=
  match outcomes with
  | [] | .draw :: _ => streak = ⟨.none, 0⟩
  | first :: _ =>
    streak.kind = (if first = .win then .win else .loss) ∧
      IsGreatest {n | n ≤ outcomes.length ∧ ∀ outcome ∈ outcomes.take n, outcome = first}
        streak.count

structure CareerLaw (input : BuildFighterCareerInput ρ) (career : FighterCareer ρ) : Prop where
  weapons : ∀ count ∈ careerCounts, count career.overall.counts =
    (career.byWeapon.map fun entry => count entry.2.counts).sum
  years : ∀ count ∈ careerCounts, count career.overall.counts =
    (career.byYear.map fun entry => count entry.2.counts).sum
  events : ∀ count ∈ careerCounts, count career.overall.counts =
    (career.byEvent.map fun stat => count stat.counts).sum
  bouts : career.overall.counts.bouts = (fought input).length
  wins : career.overall.counts.wins =
    (fought input).countP fun entry => outcomeAt entry.1 entry.2 = .win
  losses : career.overall.counts.losses =
    (fought input).countP fun entry => outcomeAt entry.1 entry.2 = .loss
  form : ∃ ordered : List (CareerMatchInput ρ × Color), ordered.Perm (fought input) ∧
    career.recentForm = (ordered.map shownOf).take 10 ∧
      IsStreak (ordered.map fun entry => outcomeAt entry.1 entry.2) career.currentStreak

/-! ## The side taken -/

variable {registrations : List (CareerRegistrationInput ρ)} {bout : CareerMatchInput ρ}
  {side : Color}

theorem registrationIdOf_eq : registrationIdOf registrations bout =
    (sideTaken registrations bout).bind (registrationAt bout) := by
  rw [registrationIdOf, sideTaken]
  split_ifs <;> rfl

theorem isMine_of_sideTaken (h : sideTaken registrations bout = some side) :
    isMine registrations (registrationAt bout side) = true := by
  rw [sideTaken] at h
  split_ifs at h with hRed hBlue
  · cases h
    exact hRed
  · cases h
    exact hBlue

/-- Every pass reads the bout on the side taken. -/
theorem outcomeOf_eq {id : ρ} (h : sideTaken registrations bout = some side)
    (hId : registrationAt bout side = some id) : outcomeOf bout id = outcomeAt bout side := by
  rw [sideTaken] at h
  split_ifs at h with hRed hBlue
  · cases h
    rw [outcomeOf]
    exact if_pos hId
  · cases h
    have hNot : bout.redRegistrationId ≠ some id := by
      intro hSame
      have hOwn : isMine registrations bout.redRegistrationId = true := by
        rw [hSame, ← hId]
        exact hBlue
      exact hRed hOwn
    rw [outcomeOf]
    exact if_neg hNot

theorem exists_registration (hOnce : (registrations.map (·.id)).Nodup)
    (h : sideTaken registrations bout = some side) :
    ∃ id registration, registrationAt bout side = some id ∧
      (registrationById registrations).get? id = some registration := by
  have hMine := isMine_of_sideTaken h
  rw [isMine, Option.any_eq_true] at hMine
  obtain ⟨id, hId, hAny⟩ := hMine
  obtain ⟨registration, hMem, hSame⟩ := List.any_eq_true.mp hAny
  refine ⟨id, registration, hId, OrderedMap.get?_eq_some_iff.mpr ?_⟩
  rw [registrationById, OrderedMap.entries_ofList]
  · exact List.mem_map.mpr ⟨registration, hMem, by rw [of_decide_eq_true hSame]⟩
  · rw [List.map_map]
    exact hOnce

/-! ## One step of each pass -/

/-- The registration in whose buckets a bout is counted. -/
def countedFor (registrations : List (CareerRegistrationInput ρ)) (bout : CareerMatchInput ρ) :
    Option (CareerRegistrationInput ρ) :=
  (registrationIdOf registrations bout).bind (registrationById registrations).get?

/-- A bout is counted in the buckets of one registration, or it is none of the fighter's. -/
theorem tallyMatch_cases (hOnce : (registrations.map (·.id)).Nodup) (t : Tallies)
    (bout : CareerMatchInput ρ) :
    (foughtOf registrations bout = none ∧ tallyMatch registrations t bout = t) ∨
      ∃ side registration, foughtOf registrations bout = some (bout, side) ∧
        countedFor registrations bout = some registration ∧
        tallyMatch registrations t bout =
          fileBout registration (countOutcome (outcomeAt bout side)) t := by
  rw [foughtOf, tallyMatch]
  by_cases hStatus : bout.status = "completed"
  · rw [if_pos hStatus, if_neg (not_not.mpr hStatus), registrationIdOf_eq]
    cases hSide : sideTaken registrations bout with
    | none => exact Or.inl ⟨rfl, rfl⟩
    | some side =>
      obtain ⟨id, registration, hId, hGet⟩ := exists_registration hOnce hSide
      refine Or.inr ⟨side, registration, rfl, ?_, ?_⟩
      · rw [countedFor, registrationIdOf_eq, hSide, Option.bind_some, hId, Option.bind_some, hGet]
      · rw [Option.bind_some, hId]
        simp only [hGet, outcomeOf_eq hSide hId]
  · rw [if_neg hStatus, if_pos hStatus]
    exact Or.inl ⟨rfl, rfl⟩

/-- An exchange is counted in the buckets of its bout's registration, or nowhere. -/
theorem tallyExchange_cases {bouts : List (CareerMatchInput ρ)}
    (hBouts : (bouts.map (·.id)).Nodup) (t : Tallies) (exchange : CareerExchangeInput) :
    tallyExchange registrations bouts t exchange = t ∨
      ∃ bout ∈ bouts, ∃ registration, bout.status = "completed" ∧
        countedFor registrations bout = some registration ∧
        tallyExchange registrations bouts t exchange =
          fileExchange registration (countExchange exchange) t := by
  rw [tallyExchange]
  split_ifs with hVoided
  · exact Or.inl rfl
  cases hBout : (matchById bouts).get? exchange.matchId with
  | none => exact Or.inl rfl
  | some bout =>
    have hMem : bout ∈ bouts := by
      rw [OrderedMap.get?_eq_some_iff, matchById, OrderedMap.entries_ofList] at hBout
      · obtain ⟨bout', hMem, hSame⟩ := List.mem_map.mp hBout
        exact (Prod.mk.inj hSame).2 ▸ hMem
      · rw [List.map_map]
        exact hBouts
    dsimp only
    split_ifs with hStatus
    · exact Or.inl rfl
    cases hId : registrationIdOf registrations bout with
    | none => exact Or.inl rfl
    | some id =>
      dsimp only
      cases hGet : (registrationById registrations).get? id with
      | none => exact Or.inl rfl
      | some registration =>
        refine Or.inr ⟨bout, hMem, registration, not_not.mp hStatus, ?_, rfl⟩
        rw [countedFor, hId]
        exact hGet

/-! ## The sums -/

/-- A step adds the same to a count whatever it was. -/
def Adds (f : CareerCounts → CareerCounts) : Prop :=
  ∀ count ∈ careerCounts, ∀ stats, count (f stats) = count stats + count (f emptyStats)

theorem count_emptyStats : ∀ count ∈ careerCounts, count emptyStats = 0 := by
  simp [careerCounts, emptyStats]

theorem adds_countOutcome (outcome : BoutOutcome) : Adds (countOutcome outcome) := by
  cases outcome <;> simp [Adds, careerCounts, countOutcome, emptyStats]

theorem adds_countExchange (exchange : CareerExchangeInput) : Adds (countExchange exchange) := by
  by_cases hDouble : exchange.type = "double" <;>
    simp [Adds, careerCounts, countExchange, emptyStats, hDouble]

/-- The counts in all are the sums over the buckets. -/
structure Conserved (t : Tallies) : Prop where
  weapons : ∀ count ∈ careerCounts, count t.overall = (t.byWeapon.values.map count).sum
  years : ∀ count ∈ careerCounts, count t.overall = (t.byYear.values.map count).sum
  events : ∀ count ∈ careerCounts, count t.overall =
    (t.byEvent.values.map fun stat => count stat.counts).sum

/-- The registration has its buckets. -/
structure Filed (t : Tallies) (registration : CareerRegistrationInput ρ) : Prop where
  weapon : weaponOf registration ∈ t.byWeapon.keys
  year : yearOf registration ∈ t.byYear.keys
  event : eventBucketKey registration ∈ t.byEvent.keys

variable {t : Tallies} {f : CareerCounts → CareerCounts}
  {registration other : CareerRegistrationInput ρ}

omit [DecidableEq ρ]

theorem conserved_emptyTallies : Conserved emptyTallies where
  weapons := count_emptyStats
  years := count_emptyStats
  events := count_emptyStats

theorem Conserved.fileBout (h : Conserved t) (hAdds : Adds f)
    (registration : CareerRegistrationInput ρ) : Conserved (fileBout registration f t) where
  weapons := by
    intro count hCount
    have hSum := OrderedMap.sum_set_getD t.byWeapon (weaponOf registration) (hAdds count hCount)
      (count_emptyStats count hCount)
    rw [← h.weapons count hCount, ← hAdds count hCount] at hSum
    exact hSum.symm
  years := by
    intro count hCount
    have hSum := OrderedMap.sum_set_getD t.byYear (yearOf registration) (hAdds count hCount)
      (count_emptyStats count hCount)
    rw [← h.years count hCount, ← hAdds count hCount] at hSum
    exact hSum.symm
  events := by
    intro count hCount
    have hShift (stat : FighterEventStat) : count (stat.update f).counts =
        count stat.counts + count (f emptyStats) := hAdds count hCount stat.counts
    have hFresh : count (emptyEventStat registration).counts = 0 := count_emptyStats count hCount
    have hSum := OrderedMap.sum_set_getD (g := fun stat : FighterEventStat => count stat.counts)
      (f := (·.update f)) t.byEvent (eventBucketKey registration) hShift hFresh
    rw [← h.events count hCount, ← hAdds count hCount] at hSum
    exact hSum.symm

/-- Without its buckets, an exchange would be counted in all and nowhere else. -/
theorem Conserved.fileExchange (h : Conserved t) (hAdds : Adds f)
    (hFiled : Filed t registration) : Conserved (fileExchange registration f t) where
  weapons := by
    intro count hCount
    have hSum := OrderedMap.sum_revise t.byWeapon _ (hAdds count hCount) hFiled.weapon
    rw [← h.weapons count hCount, ← hAdds count hCount] at hSum
    exact hSum.symm
  years := by
    intro count hCount
    have hSum := OrderedMap.sum_revise t.byYear _ (hAdds count hCount) hFiled.year
    rw [← h.years count hCount, ← hAdds count hCount] at hSum
    exact hSum.symm
  events := by
    intro count hCount
    have hShift (stat : FighterEventStat) : count (stat.update f).counts =
        count stat.counts + count (f emptyStats) := hAdds count hCount stat.counts
    have hSum := OrderedMap.sum_revise (g := fun stat : FighterEventStat => count stat.counts)
      t.byEvent _ hShift hFiled.event
    rw [← h.events count hCount, ← hAdds count hCount] at hSum
    exact hSum.symm

theorem filed_fileBout : Filed (fileBout registration f t) registration where
  weapon := OrderedMap.mem_keys_set.mpr (Or.inl rfl)
  year := OrderedMap.mem_keys_set.mpr (Or.inl rfl)
  event := OrderedMap.mem_keys_set.mpr (Or.inl rfl)

theorem Filed.fileBout (h : Filed t other) : Filed (fileBout registration f t) other where
  weapon := OrderedMap.mem_keys_set.mpr (Or.inr h.weapon)
  year := OrderedMap.mem_keys_set.mpr (Or.inr h.year)
  event := OrderedMap.mem_keys_set.mpr (Or.inr h.event)

theorem Filed.fileExchange (h : Filed t other) : Filed (fileExchange registration f t) other where
  weapon := (OrderedMap.keys_revise t.byWeapon _ _).symm ▸ h.weapon
  year := (OrderedMap.keys_revise t.byYear _ _).symm ▸ h.year
  event := (OrderedMap.keys_revise t.byEvent _ _).symm ▸ h.event

/-! ## The two passes -/

variable [DecidableEq ρ] {bouts : List (CareerMatchInput ρ)}

/-- Where the first pass stands after these bouts, and the second all along. -/
structure Tallied (registrations : List (CareerRegistrationInput ρ))
    (bouts : List (CareerMatchInput ρ)) (t : Tallies) : Prop where
  conserved : Conserved t
  filed : ∀ bout ∈ bouts, bout.status = "completed" →
    ∀ registration, countedFor registrations bout = some registration → Filed t registration
  counted : t.overall.bouts = (bouts.filterMap (foughtOf registrations)).length
  wins : t.overall.wins = (bouts.filterMap (foughtOf registrations)).countP fun entry =>
    outcomeAt entry.1 entry.2 = .win
  losses : t.overall.losses = (bouts.filterMap (foughtOf registrations)).countP fun entry =>
    outcomeAt entry.1 entry.2 = .loss

theorem tallied_emptyTallies : Tallied registrations [] emptyTallies where
  conserved := conserved_emptyTallies
  filed := by
    intro bout hMem
    exact absurd hMem List.not_mem_nil
  counted := rfl
  wins := rfl
  losses := rfl

theorem Tallied.tallyMatch (hOnce : (registrations.map (·.id)).Nodup)
    (h : Tallied registrations bouts t) (bout : CareerMatchInput ρ) :
    Tallied registrations (bouts ++ [bout]) (tallyMatch registrations t bout) := by
  rcases tallyMatch_cases hOnce t bout with
    ⟨hNone, hSame⟩ | ⟨side, registration, hFought, hCounted, hFile⟩
  · rw [hSame]
    refine ⟨h.conserved, ?_, ?_, ?_, ?_⟩
    · intro bout' hMem hStatus registration hCounted
      rcases List.mem_append.mp hMem with hMem | hMem
      · exact h.filed bout' hMem hStatus registration hCounted
      · cases List.mem_singleton.mp hMem
        rw [foughtOf, if_pos hStatus, Option.map_eq_none_iff] at hNone
        rw [countedFor, registrationIdOf_eq, hNone] at hCounted
        cases hCounted
    all_goals rw [List.filterMap_append, List.filterMap_cons_none hNone, List.filterMap_nil,
      List.append_nil]
    · exact h.counted
    · exact h.wins
    · exact h.losses
  · rw [hFile]
    refine ⟨h.conserved.fileBout (adds_countOutcome _) registration, ?_, ?_, ?_, ?_⟩
    · intro bout' hMem hStatus registration' hCounted'
      rcases List.mem_append.mp hMem with hMem | hMem
      · exact (h.filed bout' hMem hStatus registration' hCounted').fileBout
      · cases List.mem_singleton.mp hMem
        rw [hCounted] at hCounted'
        cases hCounted'
        exact filed_fileBout
    all_goals rw [List.filterMap_append, List.filterMap_cons_some hFought, List.filterMap_nil]
    · rw [List.length_append, ← h.counted]
      rfl
    · rw [List.countP_append, ← h.wins, List.countP_singleton]
      cases hOutcome : outcomeAt bout side <;> rfl
    · rw [List.countP_append, ← h.losses, List.countP_singleton]
      cases hOutcome : outcomeAt bout side <;> rfl

theorem Tallied.tallyExchange (hBouts : (bouts.map (·.id)).Nodup)
    (h : Tallied registrations bouts t) (exchange : CareerExchangeInput) :
    Tallied registrations bouts (tallyExchange registrations bouts t exchange) := by
  rcases tallyExchange_cases hBouts t exchange with
    hSame | ⟨bout, hMem, registration, hStatus, hCounted, hFile⟩
  · rw [hSame]
    exact h
  · rw [hFile]
    have hFiled := h.filed bout hMem hStatus registration hCounted
    refine ⟨h.conserved.fileExchange (adds_countExchange exchange) hFiled, ?_, h.counted, h.wins,
      h.losses⟩
    intro bout' hMem' hStatus' registration' hCounted'
    exact (h.filed bout' hMem' hStatus' registration' hCounted').fileExchange

theorem tallied_tallies {input : BuildFighterCareerInput ρ}
    (hOnce : (input.registrations.map (·.id)).Nodup) (hBouts : (input.bouts.map (·.id)).Nodup) :
    Tallied input.registrations input.bouts (tallies input) := by
  have hFirst (bouts : List (CareerMatchInput ρ)) : Tallied input.registrations bouts
      (bouts.foldl (tallyMatch input.registrations) emptyTallies) := by
    induction bouts using List.reverseRecOn with
    | nil => exact tallied_emptyTallies
    | append_singleton bouts bout ih =>
      rw [List.foldl_append]
      exact ih.tallyMatch hOnce bout
  rw [tallies]
  refine List.foldlRecOn input.exchanges _ (hFirst input.bouts) ?_
  intro t h exchange _
  exact h.tallyExchange hBouts exchange

/-! ## The recent form -/

theorem formMatchOf_eq (hStatus : bout.status = "completed") :
    formMatchOf registrations bout = (foughtOf registrations bout).map shownOf := by
  rw [foughtOf, if_pos hStatus, formMatchOf, registrationIdOf_eq]
  cases hSide : sideTaken registrations bout with
  | none => rfl
  | some side =>
    have hMine := isMine_of_sideTaken hSide
    rw [isMine, Option.any_eq_true] at hMine
    obtain ⟨id, hId, -⟩ := hMine
    rw [Option.bind_some, hId, Option.map_some, Option.map_some, Option.map_some,
      outcomeOf_eq hSide hId]
    rw [sideTaken] at hSide
    split_ifs at hSide with hRed hBlue
    · cases hSide
      simp only [hRed, shownOf, if_true]
    · cases hSide
      simp only [hRed, shownOf]
      rfl

theorem formMatches_eq (localeCompare : String → String → Ordering)
    (input : BuildFighterCareerInput ρ) :
    ∃ ordered : List (CareerMatchInput ρ × Color), ordered.Perm (fought input) ∧
      formMatches localeCompare input = ordered.map shownOf := by
  have hFought : (input.bouts.filter (·.status = "completed")).filterMap
      (formMatchOf input.registrations) = (fought input).map shownOf := by
    rw [fought, List.map_filterMap, List.filterMap_filter]
    refine List.filterMap_congr ?_
    intro bout _
    by_cases hStatus : bout.status = "completed"
    · rw [if_pos (decide_eq_true hStatus), formMatchOf_eq hStatus]
    · rw [if_neg (by simpa using hStatus), foughtOf, if_neg hStatus]
      rfl
  refine ⟨StableSort.sortWith (fun a b => localeCompare ((shownOf b).date.getD "")
    ((shownOf a).date.getD "")) (fought input), StableSort.sortWith_perm _, ?_⟩
  rw [formMatches, hFought]
  exact (StableSort.map_sortWith shownOf
    (fun a b => localeCompare (b.date.getD "") (a.date.getD "")) (fought input)).symm

/-! ## The streak -/

theorem runLength_le (outcome : BoutOutcome) (form : List FormMatch) :
    runLength outcome form ≤ form.length := by
  induction form with
  | nil => exact le_rfl
  | cons formMatch later ih =>
    rw [runLength, List.length_cons]
    split_ifs <;> omega

theorem mem_take_runLength {outcome : BoutOutcome} {form : List FormMatch} :
    ∀ formMatch ∈ form.take (runLength outcome form), formMatch.outcome = outcome := by
  induction form with
  | nil => simp
  | cons first later ih =>
    rw [runLength]
    split_ifs with hFirst
    · rw [List.take_succ_cons, List.forall_mem_cons]
      exact ⟨hFirst, ih⟩
    · simp

theorem le_runLength {outcome : BoutOutcome} {form : List FormMatch} {n : ℕ}
    (hLength : n ≤ form.length) (h : ∀ formMatch ∈ form.take n, formMatch.outcome = outcome) :
    n ≤ runLength outcome form := by
  induction form generalizing n with
  | nil => exact hLength
  | cons first later ih =>
    cases n with
    | zero => exact Nat.zero_le _
    | succ n =>
      rw [List.take_succ_cons, List.forall_mem_cons] at h
      rw [runLength, if_pos h.1]
      exact Nat.succ_le_succ (ih (Nat.le_of_succ_le_succ hLength) h.2)

theorem isGreatest_runLength (outcome : BoutOutcome) (form : List FormMatch) :
    IsGreatest {n | n ≤ (form.map (·.outcome)).length ∧
      ∀ outcome' ∈ (form.map (·.outcome)).take n, outcome' = outcome} (runLength outcome form) := by
  simp only [List.length_map, ← List.map_take, List.forall_mem_map]
  refine ⟨⟨runLength_le outcome form, mem_take_runLength⟩, ?_⟩
  rintro n ⟨hLength, hSame⟩
  exact le_runLength hLength hSame

theorem isStreak_currentStreakOf (form : List FormMatch) :
    IsStreak (form.map (·.outcome)) (currentStreakOf form) := by
  cases form with
  | nil => rfl
  | cons first later =>
    obtain ⟨matchId, date, outcome, ourScore, opponentScore⟩ := first
    cases outcome with
    | draw => rfl
    | win => exact ⟨rfl, isGreatest_runLength .win _⟩
    | loss => exact ⟨rfl, isGreatest_runLength .loss _⟩

/-! ## The career -/

theorem outcome_shownOf (entry : CareerMatchInput ρ × Color) :
    (shownOf entry).outcome = outcomeAt entry.1 entry.2 := by
  obtain ⟨bout, side⟩ := entry
  cases side <;> rfl

end MyClash.Fighters.Career
