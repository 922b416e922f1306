import MyClash.Swiss.DrawOrder
import MyClash.Swiss.Tiebreaks

/-!
# Points for the pairing, points for the standings

The pairing reads the bouts nested in their rounds, the standings a flat list of bouts that name
their round. Each adds up points with a fold of its own.
-/

namespace MyClash.Swiss

universe u v

/-- A row of the rounds' table. -/
structure SwissRoundRow (ι : Type u) (κ : Type v) where
  id : κ
  roundNumber : ℕ
  byeRegistrationId : Option ι
  ranked : Option (List ι)

/-- A row of the bouts' table. -/
structure SwissMatchRow (ι : Type u) (κ : Type v) where
  swissRoundId : Option κ
  status : MatchStatus
  endReason : Option EndReason
  redRegistrationId : Option ι
  blueRegistrationId : Option ι
  winnerRegistrationId : Option ι

variable {ι : Type u} {κ : Type v}

def SwissMatchRow.record (m : SwissMatchRow ι κ) : SwissMatchRecord ι where
  redRegistrationId := m.redRegistrationId
  blueRegistrationId := m.blueRegistrationId
  winnerRegistrationId := m.winnerRegistrationId
  status := m.status
  endReason := m.endReason

variable [DecidableEq κ]

/-- The rounds of the phase, each with the bouts that name it. -/
def loadRounds (rounds : List (SwissRoundRow ι κ)) (matches_ : List (SwissMatchRow ι κ)) :
    List (SwissRoundRecord ι) :=
  rounds.map fun row =>
    { roundNumber := row.roundNumber
      byeRegistrationId := row.byeRegistrationId
      ranked := row.ranked
      bouts := (matches_.filter (·.swissRoundId = some row.id)).map SwissMatchRow.record }

section Records

variable [DecidableEq ι]

/-- Outcomes for (red, blue) from one completed bout. -/
def outcomes (m : SwissMatchRow ι κ) : SwissOutcome × SwissOutcome :=
  if m.endReason = some .maxDoubles then (.loss, .loss)
  else if m.winnerRegistrationId = none then (.draw, .draw)
  else if m.winnerRegistrationId = m.redRegistrationId then (.win, .loss)
  else (.loss, .win)

def SwissPoints.of (points : SwissPoints) : SwissOutcome → ℚ
  | .win => points.win
  | .draw => points.draw
  | .loss => points.loss

/-- `byId`: one record a fighter, in the order of the entrants. -/
abbrev RecordsById (ι : Type u) := OrderedMap ι (SwissResultRecord ι)

/-- A fighter with no record gets none. -/
def RecordsById.revise (byId : RecordsById ι) (id : ι)
    (f : SwissResultRecord ι → SwissResultRecord ι) : RecordsById ι :=
  match byId.get? id with
  | none => byId
  | some record => byId.set id (f record)

def recordBye (points : SwissPoints) (byId : RecordsById ι) (round : SwissRoundRow ι κ) :
    RecordsById ι :=
  match round.byeRegistrationId with
  | none => byId
  | some id => byId.revise id fun record => { record with swissPts := record.swissPts + points.bye }

def recordSide (points : SwissPoints) (byId : RecordsById ι) (id opponentId : ι)
    (outcome : SwissOutcome) : RecordsById ι :=
  byId.revise id fun record =>
    { record with
      bouts := record.bouts ++ [⟨opponentId, outcome⟩]
      swissPts := record.swissPts + points.of outcome }

def recordMatch (rounds : List (SwissRoundRow ι κ)) (points : SwissPoints) (byId : RecordsById ι)
    (m : SwissMatchRow ι κ) : RecordsById ι :=
  if m.status = .completed ∧ m.swissRoundId ∈ rounds.map (some ·.id) then
    match m.redRegistrationId, m.blueRegistrationId with
    | some red, some blue =>
      recordSide points (recordSide points byId red blue (outcomes m).1) blue red (outcomes m).2
    | _, _ => byId
  else byId

def blankRecords (entrants : List (SwissEntrantRecord ι)) : RecordsById ι :=
  OrderedMap.ofList (entrants.map fun e =>
    (e.registrationId, { registrationId := e.registrationId, swissPts := 0, bouts := [] }))

def recordsById (entrants : List (SwissEntrantRecord ι)) (rounds : List (SwissRoundRow ι κ))
    (matches_ : List (SwissMatchRow ι κ)) (points : SwissPoints) : RecordsById ι :=
  matches_.foldl (recordMatch rounds points)
    (rounds.foldl (recordBye points) (blankRecords entrants))

def swissRecords (entrants : List (SwissEntrantRecord ι)) (rounds : List (SwissRoundRow ι κ))
    (matches_ : List (SwissMatchRow ι κ)) (points : SwissPoints) : List (SwissResultRecord ι) :=
  (recordsById entrants rounds matches_ points).values

end Records

/-! ## What a bout and a bye earn -/

variable [LinearOrder ι]

/-- What a bout earns a fighter, on whichever of its sides they stand. -/
def earned (points : SwissPoints) (id : ι) (m : SwissMatchRecord ι) : ℚ :=
  if m.status = .completed then
    match m.redRegistrationId, m.blueRegistrationId with
    | some red, some blue =>
      (if red = id then (outcomePoints m points).1 else 0) +
        if blue = id then (outcomePoints m points).2 else 0
    | _, _ => 0
  else 0

def byeEarned (points : SwissPoints) (id : ι) (bye : Option ι) : ℚ :=
  if bye = some id then points.bye else 0

omit [DecidableEq κ] in
theorem outcomePoints_record (points : SwissPoints) (m : SwissMatchRow ι κ) :
    outcomePoints m.record points = (points.of (outcomes m).1, points.of (outcomes m).2) := by
  by_cases hReason : m.endReason = some .maxDoubles
  · simp [outcomePoints, outcomes, SwissMatchRow.record, SwissPoints.of, hReason]
  · by_cases hDraw : m.winnerRegistrationId = none
    · simp [outcomePoints, outcomes, SwissMatchRow.record, SwissPoints.of, hReason, hDraw]
    · by_cases hRed : m.winnerRegistrationId = m.redRegistrationId
      · simp [outcomePoints, outcomes, SwissMatchRow.record, SwissPoints.of, hReason, hRed ▸ hDraw,
          hRed]
      · simp [outcomePoints, outcomes, SwissMatchRow.record, SwissPoints.of, hReason, hDraw, hRed]

section Pairing

variable {ids : List ι} {id : ι}

theorem addMatch_total (hId : id ∈ ids) (points : SwissPoints) (t : Tally ι)
    (m : SwissMatchRecord ι) :
    (t.addMatch ids points m).total id = t.total id + earned points id m := by
  obtain ⟨red, blue, winner, status, reason⟩ := m
  cases red with
  | none => simp [Tally.addMatch, earned]
  | some red =>
    cases blue with
    | none => simp [Tally.addMatch, earned]
    | some blue =>
      by_cases hStatus : status = .completed
      · simp only [Tally.addMatch, earned, if_pos hStatus]
        rw [credit_total hId, credit_total hId, meet_total, meet_total, add_assoc]
      · simp only [Tally.addMatch, earned, if_neg hStatus]
        rw [meet_total, meet_total, add_zero]

theorem foldl_addMatch_total (hId : id ∈ ids) (points : SwissPoints)
    (bouts : List (SwissMatchRecord ι)) (t : Tally ι) :
    (bouts.foldl (Tally.addMatch ids points) t).total id =
      t.total id + (bouts.map (earned points id)).sum := by
  induction bouts generalizing t with
  | nil => simp
  | cons m bouts ih =>
    rw [List.foldl_cons, ih, addMatch_total hId, List.map_cons, List.sum_cons, add_assoc]

theorem addBye_total_eq (hId : id ∈ ids) (points : SwissPoints) (t : Tally ι) (bye : Option ι) :
    (t.addBye ids points bye).total id = t.total id + byeEarned points id bye := by
  cases bye with
  | none => simp [Tally.addBye, byeEarned]
  | some other =>
    rw [Tally.addBye, byeEarned]
    by_cases hOther : other ∈ ids
    · rw [if_pos hOther, credit_total hId]
      simp
    · have hNe : other ≠ id := fun hEq => hOther (hEq ▸ hId)
      rw [if_neg hOther]
      simp [hNe]

/-- The pairing's points: the byes and the bouts of every round. -/
theorem accumulate_total (hId : id ∈ ids) (rounds : List (SwissRoundRecord ι))
    (points : SwissPoints) :
    (accumulate ids rounds points).total id =
      (rounds.map fun round => byeEarned points id round.byeRegistrationId +
        (round.bouts.map (earned points id)).sum).sum := by
  have hFold : ∀ t : Tally ι, (rounds.foldl (Tally.addRound ids points) t).total id =
      t.total id + (rounds.map fun round => byeEarned points id round.byeRegistrationId +
        (round.bouts.map (earned points id)).sum).sum := by
    induction rounds with
    | nil => simp
    | cons round rounds ih =>
      intro t
      rw [List.foldl_cons, ih, Tally.addRound, foldl_addMatch_total hId, addBye_total_eq hId,
        List.map_cons, List.sum_cons]
      ring
  rw [accumulate, hFold]
  exact zero_add _

end Pairing

/-! ## The records -/

def RecordsById.points? (byId : RecordsById ι) (id : ι) : Option ℚ :=
  (byId.get? id).map (·.swissPts)

section Records

variable {points : SwissPoints} {byId : RecordsById ι} {id : ι}

theorem points?_revise {f : SwissResultRecord ι → SwissResultRecord ι} {gain : ℚ}
    (hf : ∀ record, (f record).swissPts = record.swissPts + gain) (other : ι) :
    (byId.revise other f).points? id =
      (byId.points? id).map (· + if other = id then gain else 0) := by
  by_cases hEq : other = id
  · subst hEq
    rw [RecordsById.revise, RecordsById.points?, RecordsById.points?]
    cases hGet : byId.get? other with
    | none => simp [hGet]
    | some record => simp [OrderedMap.get?_set, hf]
  · have hKept : (byId.revise other f).get? id = byId.get? id := by
      rw [RecordsById.revise]
      cases byId.get? other with
      | none => rfl
      | some record => simp [OrderedMap.get?_set, hEq]
    simp only [RecordsById.points?, hKept, if_neg hEq, add_zero, Option.map_id']

omit [DecidableEq κ] in
theorem points?_recordBye (round : SwissRoundRow ι κ) :
    (recordBye points byId round).points? id =
      (byId.points? id).map (· + byeEarned points id round.byeRegistrationId) := by
  rw [recordBye, byeEarned]
  split
  · simp [*]
  · rw [points?_revise fun _ => rfl]
    simp [*]

theorem points?_recordMatch (rounds : List (SwissRoundRow ι κ)) (m : SwissMatchRow ι κ) :
    (recordMatch rounds points byId m).points? id =
      (byId.points? id).map (· + if m.swissRoundId ∈ rounds.map (some ·.id)
        then earned points id m.record else 0) := by
  rw [recordMatch, earned, outcomePoints_record]
  by_cases hRound : m.swissRoundId ∈ rounds.map (some ·.id)
  · rw [if_pos hRound]
    by_cases hStatus : m.status = .completed
    · rw [if_pos ⟨hStatus, hRound⟩]
      cases hRed : m.redRegistrationId with
      | none => simp [SwissMatchRow.record, hRed]
      | some red =>
        cases hBlue : m.blueRegistrationId with
        | none => simp [SwissMatchRow.record, hBlue]
        | some blue =>
          simp only [SwissMatchRow.record, hStatus, hRed, hBlue, if_true]
          rw [recordSide, recordSide, points?_revise fun _ => rfl, points?_revise fun _ => rfl,
            Option.map_map]
          congr 1
          funext total
          exact add_assoc _ _ _
    · rw [if_neg (fun h => hStatus h.1)]
      simp [SwissMatchRow.record, hStatus]
  · rw [if_neg (fun h => hRound h.2), if_neg hRound]
    simp

theorem get?_blankRecords (entrants : List (SwissEntrantRecord ι)) (id : ι) :
    (blankRecords entrants).get? id =
      if id ∈ entrants.map (·.registrationId) then
        some { registrationId := id, swissPts := 0, bouts := [] }
      else none := by
  have hMap := OrderedMap.get?_ofList_map
    (fun id => ({ registrationId := id, swissPts := 0, bouts := [] } : SwissResultRecord ι))
    (entrants.map (·.registrationId)) id
  rw [List.map_map] at hMap
  exact hMap

theorem points?_foldl {ρ : Type*} {step : RecordsById ι → ρ → RecordsById ι} {gain : ρ → ℚ}
    (hStep : ∀ byId r, (step byId r).points? id = (byId.points? id).map (· + gain r))
    (rows : List ρ) (byId : RecordsById ι) :
    (rows.foldl step byId).points? id = (byId.points? id).map (· + (rows.map gain).sum) := by
  induction rows generalizing byId with
  | nil => simp
  | cons r rows ih =>
    rw [List.foldl_cons, ih, hStep, Option.map_map, List.map_cons, List.sum_cons]
    congr 1
    funext total
    exact add_assoc _ _ _

/-- The standings' points: all byes, then every bout of a round of the phase. -/
theorem points?_recordsById {entrants : List (SwissEntrantRecord ι)}
    (hId : id ∈ entrants.map (·.registrationId)) (rounds : List (SwissRoundRow ι κ))
    (matches_ : List (SwissMatchRow ι κ)) (points : SwissPoints) :
    (recordsById entrants rounds matches_ points).points? id =
      some ((rounds.map fun round => byeEarned points id round.byeRegistrationId).sum +
        (matches_.map fun m => if m.swissRoundId ∈ rounds.map (some ·.id)
          then earned points id m.record else 0).sum) := by
  have hMatches : ∀ (byId : RecordsById ι) (m : SwissMatchRow ι κ),
      (recordMatch rounds points byId m).points? id =
        (byId.points? id).map (· + if m.swissRoundId ∈ rounds.map (some ·.id)
          then earned points id m.record else 0) := fun _ => points?_recordMatch rounds
  have hByes : ∀ (byId : RecordsById ι) (round : SwissRoundRow ι κ),
      (recordBye points byId round).points? id =
        (byId.points? id).map (· + byeEarned points id round.byeRegistrationId) :=
    fun _ => points?_recordBye
  rw [recordsById, points?_foldl hMatches, points?_foldl hByes, RecordsById.points?, get?_blankRecords,
    if_pos hId]
  simp

/-- Every record stands under its own fighter. -/
def Keyed (byId : RecordsById ι) : Prop :=
  ∀ id record, byId.get? id = some record → record.registrationId = id

theorem Keyed.revise (h : Keyed byId) (other : ι)
    {f : SwissResultRecord ι → SwissResultRecord ι}
    (hf : ∀ record, (f record).registrationId = record.registrationId) :
    Keyed (byId.revise other f) := by
  intro id record hGet
  rw [RecordsById.revise] at hGet
  cases hOther : byId.get? other with
  | none =>
    rw [hOther] at hGet
    exact h id record hGet
  | some before =>
    simp only [hOther, OrderedMap.get?_set] at hGet
    split_ifs at hGet with hEq
    · obtain rfl := Option.some.inj hGet
      rw [hf, h other before hOther, hEq]
    · exact h id record hGet

theorem Keyed.side (h : Keyed byId) (id opponentId : ι) (outcome : SwissOutcome) :
    Keyed (recordSide points byId id opponentId outcome) := by
  rw [recordSide]
  refine h.revise id ?_
  intro record
  rfl

theorem Keyed.ids (h : Keyed byId) : byId.values.map (·.registrationId) = byId.keys := by
  rw [OrderedMap.values, OrderedMap.keys, List.map_map]
  refine List.map_congr_left ?_
  rintro ⟨id, record⟩ hEntry
  exact h id record (OrderedMap.get?_eq_some_iff.mpr hEntry)

theorem keyed_foldl {ρ : Type*} {step : RecordsById ι → ρ → RecordsById ι}
    (hStep : ∀ byId r, Keyed byId → Keyed (step byId r)) (rows : List ρ) (h : Keyed byId) :
    Keyed (rows.foldl step byId) := by
  induction rows generalizing byId with
  | nil => exact h
  | cons r rows ih => exact ih (hStep byId r h)

theorem keyed_recordsById (entrants : List (SwissEntrantRecord ι))
    (rounds : List (SwissRoundRow ι κ)) (matches_ : List (SwissMatchRow ι κ))
    (points : SwissPoints) : Keyed (recordsById entrants rounds matches_ points) := by
  rw [recordsById]
  refine keyed_foldl ?_ matches_ (keyed_foldl ?_ rounds ?_)
  · intro byId m h
    rw [recordMatch]
    split_ifs
    · split
      · exact (h.side _ _ _).side _ _ _
      · exact h
    · exact h
  · intro byId round h
    rw [recordBye]
    split
    · exact h
    · refine h.revise _ ?_
      intro record
      rfl
  · intro id record hGet
    rw [get?_blankRecords] at hGet
    split_ifs at hGet
    exact (Option.some.inj hGet) ▸ rfl

end Records

/-! ## The two readings agree -/

omit [LinearOrder ι] in
/-- A bout counts once: rounds have keys of their own. -/
theorem sum_rounds {rounds : List (SwissRoundRow ι κ)} (h : (rounds.map (·.id)).Nodup)
    (matches_ : List (SwissMatchRow ι κ)) (f : SwissMatchRow ι κ → ℚ) :
    (rounds.map fun row => ((matches_.filter (·.swissRoundId = some row.id)).map f).sum).sum =
      (matches_.map fun m => if m.swissRoundId ∈ rounds.map (some ·.id) then f m else 0).sum := by
  induction rounds with
  | nil => simp
  | cons row rounds ih =>
    obtain ⟨hFresh, hRest⟩ := List.nodup_cons.mp h
    rw [List.map_cons, List.sum_cons, ih hRest, sum_filter_map, ← List.sum_map_add]
    refine congrArg List.sum (List.map_congr_left fun m _ => ?_)
    rw [List.map_cons]
    by_cases hRow : m.swissRoundId = some row.id
    · have hOther : m.swissRoundId ∉ rounds.map (some ·.id) := by
        rw [hRow]
        simpa using hFresh
      rw [if_pos hRow, if_neg hOther, if_pos (hRow ▸ List.mem_cons_self), add_zero]
    · by_cases hOther : m.swissRoundId ∈ rounds.map (some ·.id)
      · rw [if_neg hRow, if_pos hOther, if_pos (List.mem_cons_of_mem _ hOther), zero_add]
      · rw [if_neg hRow, if_neg hOther, if_neg (List.not_mem_cons_of_ne_of_not_mem hRow hOther),
          add_zero]

theorem accumulate_loadRounds {rounds : List (SwissRoundRow ι κ)}
    (hRounds : (rounds.map (·.id)).Nodup) {ids : List ι} {id : ι} (hId : id ∈ ids)
    (matches_ : List (SwissMatchRow ι κ)) (points : SwissPoints) :
    (accumulate ids (loadRounds rounds matches_) points).total id =
      (rounds.map fun round => byeEarned points id round.byeRegistrationId).sum +
        (matches_.map fun m => if m.swissRoundId ∈ rounds.map (some ·.id)
          then earned points id m.record else 0).sum := by
  rw [accumulate_total hId, ← sum_rounds hRounds, ← List.sum_map_add, loadRounds, List.map_map]
  refine congrArg List.sum (List.map_congr_left fun row _ => ?_)
  rw [Function.comp_apply, List.map_map]
  rfl

theorem mem_meet {t : Tally ι} {ids : List ι} {id : ι} (hId : id ∈ ids) (a b x : ι) :
    x ∈ (t.meet ids a b).opponents id ↔ x ∈ t.opponents id ∨ a = id ∧ b = x := by
  rw [Tally.meet]
  by_cases hEq : a = id
  · subst hEq
    simp [hId, eq_comm]
  · split_ifs
    · simp [Function.update_of_ne (Ne.symm hEq), hEq]
    · simp [hEq]

theorem credit_opponents (t : Tally ι) (ids : List ι) (id : ι) (gain : ℚ) :
    (t.credit ids id gain).opponents = t.opponents := by
  rw [Tally.credit]
  split_ifs <;> rfl

/-- The two sides of the bout, whichever way round. -/
def SwissMatchRecord.Between (m : SwissMatchRecord ι) (a b : ι) : Prop :=
  m.redRegistrationId = some a ∧ m.blueRegistrationId = some b ∨
    m.redRegistrationId = some b ∧ m.blueRegistrationId = some a

theorem mem_addMatch {ids : List ι} {id : ι} (hId : id ∈ ids) (points : SwissPoints) (t : Tally ι)
    (m : SwissMatchRecord ι) (x : ι) :
    x ∈ (t.addMatch ids points m).opponents id ↔ x ∈ t.opponents id ∨ m.Between id x := by
  obtain ⟨red, blue, winner, status, reason⟩ := m
  cases red with
  | none => simp [Tally.addMatch, SwissMatchRecord.Between]
  | some red =>
    cases blue with
    | none => simp [Tally.addMatch, SwissMatchRecord.Between]
    | some blue =>
      have hMet : x ∈ ((t.meet ids red blue).meet ids blue red).opponents id ↔
          x ∈ t.opponents id ∨ SwissMatchRecord.Between
            ⟨some red, some blue, winner, status, reason⟩ id x := by
        rw [mem_meet hId, mem_meet hId, or_assoc]
        simp [SwissMatchRecord.Between, and_comm]
      by_cases hStatus : status = .completed
      · simp only [Tally.addMatch, if_pos hStatus, credit_opponents]
        exact hMet
      · simp only [Tally.addMatch, if_neg hStatus]
        exact hMet

theorem mem_opponents_iff {ids : List ι} {id : ι} (hId : id ∈ ids)
    (rounds : List (SwissRoundRecord ι)) (points : SwissPoints) (x : ι) :
    x ∈ (accumulate ids rounds points).opponents id ↔
      ∃ round ∈ rounds, ∃ m ∈ round.bouts, m.Between id x := by
  have hBouts : ∀ (bouts : List (SwissMatchRecord ι)) (t : Tally ι),
      x ∈ (bouts.foldl (Tally.addMatch ids points) t).opponents id ↔
        x ∈ t.opponents id ∨ ∃ m ∈ bouts, m.Between id x := by
    intro bouts
    induction bouts with
    | nil => simp
    | cons m bouts ih =>
      intro t
      rw [List.foldl_cons, ih, mem_addMatch hId, or_assoc]
      simp
  have hRounds : ∀ t : Tally ι, x ∈ (rounds.foldl (Tally.addRound ids points) t).opponents id ↔
      x ∈ t.opponents id ∨ ∃ round ∈ rounds, ∃ m ∈ round.bouts, m.Between id x := by
    induction rounds with
    | nil => simp
    | cons round rounds ih =>
      intro t
      have hBye : (t.addBye ids points round.byeRegistrationId).opponents = t.opponents := by
        cases round.byeRegistrationId with
        | none => rfl
        | some other =>
          rw [Tally.addBye]
          split_ifs
          · rw [credit_opponents]
          · rfl
      rw [List.foldl_cons, ih, Tally.addRound, hBouts, hBye, or_assoc]
      simp
  rw [accumulate, hRounds]
  simp

/-- Fighter 4 withdrew after the first round; the last bout ended at the ceiling. -/
def twoRounds : List (SwissRoundRow ℕ ℕ) :=
  [⟨10, 1, some 3, some [1, 2, 3, 4]⟩, ⟨11, 2, none, none⟩]

def twoRoundsMatches : List (SwissMatchRow ℕ ℕ) :=
  [⟨some 10, .completed, none, some 1, some 4, some 1⟩,
    ⟨some 11, .completed, some .maxDoubles, some 3, some 2, none⟩,
    ⟨some 10, .running, none, some 2, some 5, none⟩]

end MyClash.Swiss
