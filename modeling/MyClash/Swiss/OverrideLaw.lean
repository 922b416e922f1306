import Mathlib.Data.List.Pairwise
import Mathlib.Logic.Equiv.Basic
import MyClash.Swiss.Override

/-!
# A swap renames the round

In a valid round every fighter has one place. Two writes to the places of two fighters are then
the exchange of the two names all through the round, and every other claim about a swap is read
off that. Two fighters of one bout are the exception: their write takes the first to be on red.
-/

namespace MyClash.Swiss.Override

universe u

variable {ι : Type u} [DecidableEq ι]

/-! ## The exchange of two names -/

def MatchRow.rename (σ : Equiv.Perm ι) (m : MatchRow ι) : MatchRow ι :=
  { m with
    red_registration_id := m.red_registration_id.map σ
    blue_registration_id := m.blue_registration_id.map σ }

def SwissRoundRow.rename (σ : Equiv.Perm ι) (r : SwissRoundRow ι) : SwissRoundRow ι :=
  { r with
    bye_registration_id := r.bye_registration_id.map σ
    bouts := r.bouts.map (MatchRow.rename σ) }

/-- The two names exchanged in one round. -/
def exchange (roundId a b : ι) : RoundChange ι where
  change r := if r.id = roundId then r.rename (Equiv.swap a b) else r
  id_eq r := by split_ifs <;> rfl
  bout_ids r := by
    split_ifs
    · simp [SwissRoundRow.rename, MatchRow.rename]
    · rfl

theorem exchange_comm (roundId a b : ι) : exchange roundId a b = exchange roundId b a := by
  have hSwap := Equiv.swap_comm a b
  simp only [exchange, hSwap]

/-- The adjustments the round card shows, with some more. -/
abbrev logged (roundId : ι) (entries : List (Adjustment ι)) : RoundChange ι :=
  changeRound roundId id entries

omit [DecidableEq ι] in
theorem seat_rename (σ : Equiv.Perm ι) (m : MatchRow ι) (s : Side) :
    (m.rename σ).seat s = (m.seat s).map σ := by cases s <;> rfl

omit [DecidableEq ι] in
theorem seat_put (m : MatchRow ι) (s s' : Side) (x : Option ι) :
    (m.put s x).seat s' = if s' = s then x else m.seat s' := by
  cases s <;> cases s' <;> rfl

omit [DecidableEq ι] in
theorem MatchRow.ext_seat {m m' : MatchRow ι} (hId : m.id = m'.id) (hStatus : m.status = m'.status)
    (hSeat : ∀ s, m.seat s = m'.seat s) : m = m' := by
  cases m
  cases m'
  obtain rfl := hId
  obtain rfl := hStatus
  obtain rfl := hSeat .red
  obtain rfl := hSeat .blue
  rfl

theorem map_swap_of_ne {a b : ι} {x : Option ι} (ha : x ≠ some a) (hb : x ≠ some b) :
    x.map (Equiv.swap a b) = x := by
  cases x with
  | none => rfl
  | some y =>
    exact congrArg some (Equiv.swap_apply_of_ne_of_ne (fun h => ha (congrArg some h))
      fun h => hb (congrArg some h))

omit [DecidableEq ι] in
theorem noted_rename (σ : Equiv.Perm ι) (r : SwissRoundRow ι) :
    (r.rename σ).noted = r.noted.map σ := by
  simp only [SwissRoundRow.noted, noted, SwissRoundRow.rename, List.map_append, List.flatMap_map,
    List.map_flatMap, Option.toList_map, MatchRow.rename, MatchRow.pick]

omit [DecidableEq ι] in
theorem mem_noted {r : SwissRoundRow ι} {x : ι} :
    x ∈ r.noted ↔ (∃ m ∈ r.bouts, ∃ s, m.seat s = some x) ∨ r.bye_registration_id = some x := by
  simp only [SwissRoundRow.noted, noted, List.mem_append, List.mem_flatMap, List.mem_map,
    Option.mem_toList]
  constructor
  · rintro (⟨_, ⟨m, hm, rfl⟩, hRed | hBlue⟩ | hBye)
    · exact Or.inl ⟨m, hm, .red, hRed⟩
    · exact Or.inl ⟨m, hm, .blue, hBlue⟩
    · exact Or.inr hBye
  · rintro (⟨m, hm, s, hSeat⟩ | hBye)
    · refine Or.inl ⟨m.pick, ⟨m, hm, rfl⟩, ?_⟩
      cases s with
      | red => exact Or.inl hSeat
      | blue => exact Or.inr hSeat
    · exact Or.inr hBye

/-! ## One place each -/

omit [DecidableEq ι] in
theorem seat_unique {r : SwissRoundRow ι} (h : r.noted.Nodup) {m m' : MatchRow ι} {s s' : Side}
    {x : ι} (hm : m ∈ r.bouts) (hm' : m' ∈ r.bouts) (hs : m.seat s = some x)
    (hs' : m'.seat s' = some x) : m = m' ∧ s = s' := by
  obtain ⟨hBouts, _, _⟩ := List.nodup_append.mp h
  rw [List.flatMap_map] at hBouts
  obtain ⟨hOnce, hApart⟩ := List.nodup_flatMap.mp hBouts
  have hMem : ∀ (m : MatchRow ι) (s : Side), m.seat s = some x →
      x ∈ m.pick.redRegistrationId.toList ++ m.pick.blueRegistrationId.toList := by
    intro m s hs
    cases s with
    | red => exact List.mem_append_left _ (Option.mem_toList.mpr hs)
    | blue => exact List.mem_append_right _ (Option.mem_toList.mpr hs)
  have hSame : m = m' := by
    by_contra hNe
    have hSymm : Std.Symm (Function.onFun List.Disjoint fun m : MatchRow ι =>
        m.pick.redRegistrationId.toList ++ m.pick.blueRegistrationId.toList) :=
      ⟨fun _ _ h => h.symm⟩
    have hDisjoint := hApart.forall hm hm' hNe
    exact hDisjoint (hMem m s hs) (hMem m' s' hs')
  subst hSame
  refine ⟨rfl, ?_⟩
  by_contra hNe
  have hBoth : m.seat .red = some x ∧ m.seat .blue = some x := by
    cases s <;> cases s'
    · exact absurd rfl hNe
    · exact ⟨hs, hs'⟩
    · exact ⟨hs', hs⟩
    · exact absurd rfl hNe
  have hTwice := hOnce m hm
  change (m.seat .red).toList ++ (m.seat .blue).toList |>.Nodup at hTwice
  rw [hBoth.1, hBoth.2] at hTwice
  simp at hTwice

omit [DecidableEq ι] in
theorem seat_ne_bye {r : SwissRoundRow ι} (h : r.noted.Nodup) {m : MatchRow ι} {s : Side} {x : ι}
    (hm : m ∈ r.bouts) (hs : m.seat s = some x) : r.bye_registration_id ≠ some x := by
  intro hBye
  obtain ⟨_, _, hApart⟩ := List.nodup_append.mp h
  refine hApart x ?_ x (Option.mem_toList.mpr hBye) rfl
  refine List.mem_flatMap.mpr ⟨m.pick, List.mem_map_of_mem hm, ?_⟩
  cases s with
  | red => exact List.mem_append_left _ (Option.mem_toList.mpr hs)
  | blue => exact List.mem_append_right _ (Option.mem_toList.mpr hs)

/-- The fighter sits at the position. -/
inductive Sits (r : SwissRoundRow ι) (x : ι) : Position ι → Prop where
  | bye : r.bye_registration_id = some x → Sits r x .bye
  | bout {m : MatchRow ι} {s : Side} : m ∈ r.bouts → m.seat s = some x → Sits r x (.bout m s)

theorem locateIn_sits {x : ι} {bouts : List (MatchRow ι)} {p : Position ι}
    (h : locateIn x bouts = some p) : ∃ m ∈ bouts, ∃ s, p = .bout m s ∧ m.seat s = some x := by
  induction bouts with
  | nil => cases h
  | cons m bouts ih =>
    rw [locateIn] at h
    split_ifs at h with hRed hBlue
    · exact ⟨m, List.mem_cons_self, .red, (Option.some.inj h).symm, hRed⟩
    · exact ⟨m, List.mem_cons_self, .blue, (Option.some.inj h).symm, hBlue⟩
    · obtain ⟨m', hm', hSeat⟩ := ih h
      exact ⟨m', List.mem_cons_of_mem _ hm', hSeat⟩

theorem locateIn_isSome {x : ι} {bouts : List (MatchRow ι)} {m : MatchRow ι} {s : Side}
    (hm : m ∈ bouts) (hs : m.seat s = some x) : ∃ p, locateIn x bouts = some p := by
  induction bouts with
  | nil => cases hm
  | cons m' bouts ih =>
    rw [locateIn]
    split_ifs with hRed hBlue
    · exact ⟨_, rfl⟩
    · exact ⟨_, rfl⟩
    · rcases List.mem_cons.mp hm with rfl | hm
      · cases s with
        | red => exact absurd hs hRed
        | blue => exact absurd hs hBlue
      · exact ih hm

theorem locate_sits {round : EditableRound ι} {x : ι} {p : Position ι}
    (h : locate round x = some p) : Sits round.toSwissRoundRow x p := by
  rw [locate] at h
  split_ifs at h with hBye
  · obtain rfl := Option.some.inj h
    exact .bye hBye
  · obtain ⟨m, hm, s, rfl, hs⟩ := locateIn_sits h
    exact .bout hm hs

theorem locate_isSome (round : EditableRound ι) {x : ι} (h : x ∈ round.noted) :
    ∃ p, locate round x = some p := by
  rw [locate]
  split_ifs with hBye
  · exact ⟨_, rfl⟩
  · obtain ⟨m, hm, s, hs⟩ := (mem_noted.mp h).resolve_right hBye
    exact locateIn_isSome hm hs

omit [DecidableEq ι] in
theorem occupant_eq (round : EditableRound ι) {x : ι} {p : Position ι}
    (h : Sits round.toSwissRoundRow x p) : occupant round p = some x := by
  cases h with
  | bye h => exact h
  | bout _ h => exact h

/-! ## The writes of a swap -/

omit [DecidableEq ι] in
theorem mapRounds_twice {db : PhaseStore ι} {c d e : RoundChange ι}
    (h : ∀ r ∈ db.rounds, d.change (c.change r) = e.change r) :
    (db.mapRounds c).mapRounds d = db.mapRounds e :=
  PhaseStore.ext rfl rfl ((List.map_map ..).trans (List.map_congr_left h))

/-- A bout belongs to one round, so a write to it leaves the others alone. -/
theorem changeBout_other {db : PhaseStore ι} {row r : SwissRoundRow ι} (hRow : row ∈ db.rounds)
    (hr : r ∈ db.rounds) (hNe : r ≠ row) {m : MatchRow ι} (hm : m ∈ row.bouts)
    (update : MatchRow ι → MatchRow ι) (hId : ∀ m, (update m).id = m.id) :
    (changeBout m.id update hId).change r = r := by
  have hSymm : Std.Symm (Function.onFun List.Disjoint fun r : SwissRoundRow ι =>
      r.bouts.map (·.id)) := ⟨fun _ _ h => h.symm⟩
  have hDisjoint := (List.nodup_flatMap.mp db.bout_key).2.forall hr hRow hNe
  have hBouts : (r.bouts.map fun m' => if m'.id = m.id then update m' else m') = r.bouts := by
    refine (List.map_congr_left fun m' hm' => if_neg ?_).trans (List.map_id _)
    intro hSame
    exact hDisjoint (List.mem_map_of_mem hm') (List.mem_map.mpr ⟨m, hm, hSame.symm⟩)
  change { r with bouts := _ } = r
  rw [hBouts]

omit [DecidableEq ι] in
theorem id_put (m : MatchRow ι) (s : Side) (x : Option ι) : (m.put s x).id = m.id := by
  cases s <;> rfl

omit [DecidableEq ι] in
theorem status_put (m : MatchRow ι) (s : Side) (x : Option ι) : (m.put s x).status = m.status := by
  cases s <;> rfl

section Changed

variable (m : MatchRow ι) (k : ι) (s : Side) (x : Option ι)

theorem id_changed : (if m.id = k then m.put s x else m).id = m.id := by
  split_ifs
  · exact id_put m s x
  · rfl

theorem status_changed : (if m.id = k then m.put s x else m).status = m.status := by
  split_ifs
  · exact status_put m s x
  · rfl

theorem seat_changed (s' : Side) : (if m.id = k then m.put s x else m).seat s' =
    if m.id = k ∧ s' = s then x else m.seat s' := by
  split_ifs with h h' h'
  · rw [seat_put, if_pos h'.2]
  · rw [seat_put, if_neg fun hs => h' ⟨h, hs⟩]
  · exact absurd h'.1 h
  · rfl

end Changed

section Places

variable {row : SwissRoundRow ι} {a b : ι}

theorem bouts_renamed (hNodup : row.noted.Nodup) (hIds : (row.bouts.map (·.id)).Nodup)
    {m m' : MatchRow ι} {s s' : Side} (hm : m ∈ row.bouts) (hm' : m' ∈ row.bouts)
    (hs : m.seat s = some a) (hs' : m'.seat s' = some b) (hApart : m.id ≠ m'.id) :
    ((row.bouts.map fun m₀ => if m₀.id = m.id then m₀.put s (some b) else m₀).map
      fun m₀ => if m₀.id = m'.id then m₀.put s' (some a) else m₀) =
      row.bouts.map (MatchRow.rename (Equiv.swap a b)) := by
  rw [List.map_map]
  refine List.map_congr_left fun m₀ hm₀ => ?_
  rw [Function.comp_apply]
  refine MatchRow.ext_seat ?_ ?_ fun s₀ => ?_
  · exact (id_changed ..).trans (id_changed ..)
  · exact (status_changed ..).trans (status_changed ..)
  rw [seat_changed, seat_changed, id_changed, seat_rename]
  split_ifs with hSecond hFirst
  · obtain rfl := List.inj_on_of_nodup_map hIds hm₀ hm' hSecond.1
    rw [hSecond.2, hs', Option.map_some, Equiv.swap_apply_right]
  · obtain rfl := List.inj_on_of_nodup_map hIds hm₀ hm hFirst.1
    rw [hFirst.2, hs, Option.map_some, Equiv.swap_apply_left]
  · refine (map_swap_of_ne ?_ ?_).symm
    · intro hSeat
      obtain ⟨rfl, rfl⟩ := seat_unique hNodup hm₀ hm hSeat hs
      exact hFirst ⟨rfl, rfl⟩
    · intro hSeat
      obtain ⟨rfl, rfl⟩ := seat_unique hNodup hm₀ hm' hSeat hs'
      exact hSecond ⟨rfl, rfl⟩

theorem bouts_renamed_bye (hNodup : row.noted.Nodup) (hIds : (row.bouts.map (·.id)).Nodup)
    {m : MatchRow ι} {s : Side} (hm : m ∈ row.bouts) (hs : m.seat s = some a)
    (hBye : row.bye_registration_id = some b) :
    (row.bouts.map fun m₀ => if m₀.id = m.id then m₀.put s (some b) else m₀) =
      row.bouts.map (MatchRow.rename (Equiv.swap a b)) := by
  refine List.map_congr_left fun m₀ hm₀ => MatchRow.ext_seat ?_ ?_ fun s₀ => ?_
  · exact id_changed ..
  · exact status_changed ..
  rw [seat_changed, seat_rename]
  split_ifs with hFirst
  · obtain rfl := List.inj_on_of_nodup_map hIds hm₀ hm hFirst.1
    rw [hFirst.2, hs, Option.map_some, Equiv.swap_apply_left]
  · refine (map_swap_of_ne ?_ ?_).symm
    · intro hSeat
      obtain ⟨rfl, rfl⟩ := seat_unique hNodup hm₀ hm hSeat hs
      exact hFirst ⟨rfl, rfl⟩
    · intro hSeat
      exact seat_ne_bye hNodup hm₀ hSeat hBye

end Places

section Exchange

variable {db : PhaseStore ι} {row : SwissRoundRow ι} {a b : ι}

omit [DecidableEq ι] in
theorem ids_nodup (hRow : row ∈ db.rounds) : (row.bouts.map (·.id)).Nodup :=
  (List.nodup_flatMap.mp db.bout_key).1 row hRow

omit [DecidableEq ι] in
theorem id_ne_of_other {r : SwissRoundRow ι} (hRow : row ∈ db.rounds) (hr : r ∈ db.rounds)
    (hNe : r ≠ row) : r.id ≠ row.id := fun hId =>
  hNe (List.inj_on_of_nodup_map db.round_key hr hRow hId)

theorem exchange_two_bouts (hRow : row ∈ db.rounds) (hNodup : row.noted.Nodup) {m m' : MatchRow ι}
    {s s' : Side} (hm : m ∈ row.bouts) (hm' : m' ∈ row.bouts) (hs : m.seat s = some a)
    (hs' : m'.seat s' = some b) (hApart : m.id ≠ m'.id) :
    applyWrites [.side m.id s (some b), .side m'.id s' (some a)] db =
      db.mapRounds (exchange row.id a b) := by
  refine mapRounds_twice fun r hr => ?_
  by_cases hSame : r = row
  · subst hSame
    have hBye : r.bye_registration_id.map (Equiv.swap a b) = r.bye_registration_id :=
      map_swap_of_ne (seat_ne_bye hNodup hm hs) (seat_ne_bye hNodup hm' hs')
    have hBouts := bouts_renamed hNodup (ids_nodup hRow) hm hm' hs hs' hApart
    change { r with bouts := _ } = if r.id = r.id then r.rename (Equiv.swap a b) else r
    rw [if_pos rfl, SwissRoundRow.rename, hBye, ← hBouts]
    rfl
  · have hFirst : (Write.side m.id s (some b)).change.change r = r :=
      changeBout_other hRow hr hSame hm _ fun m => id_put m s (some b)
    have hSecond : (Write.side m'.id s' (some a)).change.change r = r :=
      changeBout_other hRow hr hSame hm' _ fun m => id_put m s' (some a)
    rw [hFirst, hSecond]
    exact (if_neg (id_ne_of_other hRow hr hSame)).symm

theorem exchange_with_bye (hRow : row ∈ db.rounds) (hNodup : row.noted.Nodup) {m : MatchRow ι}
    {s : Side} (hm : m ∈ row.bouts) (hs : m.seat s = some a)
    (hBye : row.bye_registration_id = some b) :
    applyWrites [.side m.id s (some b), .bye row.id (some a)] db =
      db.mapRounds (exchange row.id a b) := by
  refine mapRounds_twice fun r hr => ?_
  by_cases hSame : r = row
  · subst hSame
    have hBouts := bouts_renamed_bye hNodup (ids_nodup hRow) hm hs hBye
    change (if r.id = r.id then { r with
        bye_registration_id := some a
        manualAdjustments := r.manualAdjustments ++ []
        bouts := _ } else _) = if r.id = r.id then r.rename (Equiv.swap a b) else r
    rw [if_pos rfl, if_pos rfl, SwissRoundRow.rename, hBye, List.append_nil, ← hBouts,
      Option.map_some, Equiv.swap_apply_right]
    rfl
  · have hFirst : (Write.side m.id s (some b)).change.change r = r :=
      changeBout_other hRow hr hSame hm _ fun m => id_put m s (some b)
    have hId := id_ne_of_other hRow hr hSame
    rw [hFirst]
    exact (if_neg hId).trans (if_neg hId).symm

end Exchange

/-- Two places that are not the sides of one bout: the writes exchange the two names. -/
theorem applySwap_exchange {db : PhaseStore ι} (round : EditableRound ι) {a b : ι}
    {p q : Position ι} (hRow : round.toSwissRoundRow ∈ db.rounds) (hNodup : round.noted.Nodup)
    (hNe : a ≠ b) (hp : Sits round.toSwissRoundRow a p) (hq : Sits round.toSwissRoundRow b q)
    (hApart : sameBout p q = false) :
    applyWrites (applySwap round p q) db = db.mapRounds (exchange round.id a b) := by
  cases hp with
  | bye hBye =>
    cases hq with
    | bye hBye' => exact absurd (Option.some.inj (hBye.symm.trans hBye')) hNe
    | bout hm' hs' =>
      rw [applySwap, occupant, occupant, hBye, hs', exchange_comm]
      exact exchange_with_bye hRow hNodup hm' hs' hBye
  | bout hm hs =>
    cases hq with
    | bye hBye =>
      rw [applySwap, occupant, occupant, hBye, hs]
      exact exchange_with_bye hRow hNodup hm hs hBye
    | bout hm' hs' =>
      have hIds := of_decide_eq_false hApart
      rw [applySwap, occupant, occupant, hs, hs', if_neg hIds]
      exact exchange_two_bouts hRow hNodup hm hm' hs hs' hIds

/-! ## The round as it is loaded -/

section Load

variable {db : PhaseStore ι} {roundId : ι} {round : EditableRound ι} {row : SwissRoundRow ι}

theorem find_round (hRow : row ∈ db.rounds) : db.rounds.find? (·.id = row.id) = some row := by
  cases hFind : db.rounds.find? (·.id = row.id) with
  | none => exact absurd (List.find?_eq_none.mp hFind row hRow) (by simp)
  | some other =>
    have hId : other.id = row.id := by simpa using List.find?_some hFind
    exact congrArg some
      (List.inj_on_of_nodup_map db.round_key (List.mem_of_find?_eq_some hFind) hRow hId)

/-- The picture of a stored round. -/
def picture (db : PhaseStore ι) (row : SwissRoundRow ι) : EditableRound ι :=
  { row with
    priorOpponents := (priorMeetings db.rounds row.id).priorOpponents
    priorByes := (priorMeetings db.rounds row.id).priorByes
    clubByRegistration := clubsFor db.entrants }

theorem loadRound_eq (hRow : row ∈ db.rounds) :
    loadRound db row.id = .ok (picture db row) := by
  rw [loadRound, find_round hRow]
  rfl

/-- What lets a round be edited. -/
structure Editable (db : PhaseStore ι) (row : SwissRoundRow ι) : Prop where
  pending : row.status = .pending
  scheduled : ∀ m ∈ row.bouts, m.status = .scheduled
  running : db.finalized = false

theorem loadEditableRound_eq (hRow : row ∈ db.rounds) (h : Editable db row) :
    loadEditableRound db row.id = .ok (picture db row) := by
  have hScheduled : (picture db row).bouts.any (·.status ≠ .scheduled) = false := by
    refine List.any_eq_false.mpr fun m hm => ?_
    simp [h.scheduled m hm]
  rw [loadEditableRound, loadRound_eq hRow]
  change (if row.status ≠ .pending then _ else _) = _
  rw [if_neg (not_not.mpr h.pending), hScheduled, if_neg Bool.false_ne_true, h.running,
    if_neg Bool.false_ne_true]

theorem loadEditableRound_ok (h : loadEditableRound db roundId = .ok round) :
    ∃ row ∈ db.rounds, row.id = roundId ∧ Editable db row ∧ round = picture db row := by
  rw [loadEditableRound, loadRound] at h
  cases hFind : db.rounds.find? (·.id = roundId) with
  | none => rw [hFind] at h; cases h
  | some row =>
    have hId : row.id = roundId := by simpa using List.find?_some hFind
    have hRow := List.mem_of_find?_eq_some hFind
    subst hId
    rw [hFind] at h
    change (if row.status ≠ .pending then _ else if row.bouts.any (·.status ≠ .scheduled) then _
      else if db.finalized then _ else _) = _ at h
    split_ifs at h with hPending hScheduled hFinalized
    refine ⟨row, hRow, rfl, ⟨not_not.mp hPending, ?_, by simpa using hFinalized⟩,
      (Except.ok.inj h).symm⟩
    intro m hm
    by_contra hStatus
    exact hScheduled (List.any_eq_true.mpr ⟨m, hm, decide_eq_true hStatus⟩)

end Load

/-! ## Earlier rounds -/

/-- The bout sets the two against each other. -/
def Pairs (m : MatchRow ι) (x y : ι) : Prop := ∃ s, m.seat s = some x ∧ m.seat s.other = some y

/-- The two met in another round of the phase. -/
def Met (db : PhaseStore ι) (roundId x y : ι) : Prop :=
  ∃ r ∈ db.rounds, r.id ≠ roundId ∧ ∃ m ∈ r.bouts, Pairs m x y

def SatOut (db : PhaseStore ι) (roundId x : ι) : Prop :=
  ∃ r ∈ db.rounds, r.id ≠ roundId ∧ r.bye_registration_id = some x

def SameClub (db : PhaseStore ι) (x y : ι) : Prop :=
  ∃ club, clubsFor db.entrants x = some club ∧ clubsFor db.entrants y = some club

section Meetings

theorem mem_addMatch {t : Meetings ι} {m : MatchRow ι} {x y : ι} :
    y ∈ (t.addMatch m).priorOpponents x ↔ y ∈ t.priorOpponents x ∨ Pairs m x y := by
  have hPairs : Pairs m x y ↔
      m.red_registration_id = some x ∧ m.blue_registration_id = some y ∨
        m.blue_registration_id = some x ∧ m.red_registration_id = some y := by
    constructor
    · rintro ⟨s, hs⟩
      cases s with
      | red => exact Or.inl hs
      | blue => exact Or.inr hs
    · rintro (h | h)
      · exact ⟨.red, h⟩
      · exact ⟨.blue, h⟩
  rw [hPairs, Meetings.addMatch]
  split
  · rename_i red blue hRed hBlue
    simp only [hRed, hBlue, Option.some.injEq, Function.update_apply]
    split_ifs <;> simp_all [List.mem_insert_iff] <;> tauto
  · rename_i hNone
    refine ⟨Or.inl, fun h => h.resolve_right ?_⟩
    rintro (⟨hRed, hBlue⟩ | ⟨hBlue, hRed⟩)
    · exact hNone _ _ hRed hBlue
    · exact hNone _ _ hRed hBlue

theorem byes_addMatch (t : Meetings ι) (m : MatchRow ι) :
    (t.addMatch m).priorByes = t.priorByes := by
  rw [Meetings.addMatch]
  split <;> rfl

theorem mem_addMatches {bouts : List (MatchRow ι)} {t : Meetings ι} {x y : ι} :
    (y ∈ (bouts.foldl Meetings.addMatch t).priorOpponents x ↔
      y ∈ t.priorOpponents x ∨ ∃ m ∈ bouts, Pairs m x y) ∧
    (bouts.foldl Meetings.addMatch t).priorByes = t.priorByes := by
  induction bouts generalizing t with
  | nil => simp
  | cons m bouts ih =>
    rw [List.foldl_cons, ih.1, ih.2, mem_addMatch, byes_addMatch, List.exists_mem_cons_iff,
      or_assoc]
    exact ⟨Iff.rfl, rfl⟩

theorem mem_addRound {t : Meetings ι} {r : SwissRoundRow ι} {x y : ι} :
    (y ∈ (t.addRound r).priorOpponents x ↔
      y ∈ t.priorOpponents x ∨ ∃ m ∈ r.bouts, Pairs m x y) ∧
    (x ∈ (t.addRound r).priorByes ↔ x ∈ t.priorByes ∨ r.bye_registration_id = some x) := by
  rw [Meetings.addRound, mem_addMatches.1, (mem_addMatches (x := x) (y := y)).2]
  refine ⟨Iff.rfl, ?_⟩
  cases r.bye_registration_id with
  | none => simp
  | some bye =>
    rw [List.mem_insert_iff, Option.some.injEq, eq_comm, or_comm]

theorem mem_priorMeetings {rounds : List (SwissRoundRow ι)} {roundId x y : ι} :
    (y ∈ (priorMeetings rounds roundId).priorOpponents x ↔
      ∃ r ∈ rounds, r.id ≠ roundId ∧ ∃ m ∈ r.bouts, Pairs m x y) ∧
    (x ∈ (priorMeetings rounds roundId).priorByes ↔
      ∃ r ∈ rounds, r.id ≠ roundId ∧ r.bye_registration_id = some x) := by
  have hFold : ∀ (rounds : List (SwissRoundRow ι)) (t : Meetings ι),
      (y ∈ (rounds.foldl (fun t prior =>
          if prior.id = roundId then t else t.addRound prior) t).priorOpponents x ↔
        y ∈ t.priorOpponents x ∨ ∃ r ∈ rounds, r.id ≠ roundId ∧ ∃ m ∈ r.bouts, Pairs m x y) ∧
      (x ∈ (rounds.foldl (fun t prior =>
          if prior.id = roundId then t else t.addRound prior) t).priorByes ↔
        x ∈ t.priorByes ∨ ∃ r ∈ rounds, r.id ≠ roundId ∧ r.bye_registration_id = some x) := by
    intro rounds
    induction rounds with
    | nil => simp
    | cons r rounds ih =>
      intro t
      rw [List.foldl_cons, (ih _).1, (ih _).2, List.exists_mem_cons_iff,
        List.exists_mem_cons_iff]
      split_ifs with hSame
      · simp only [hSame, ne_eq, not_true_eq_false, false_and, false_or, and_self]
      · rw [mem_addRound.1, (mem_addRound (x := x) (y := y)).2]
        simp only [ne_eq, hSame, not_false_eq_true, true_and, or_assoc, and_self]
  have h := hFold rounds ⟨fun _ => [], []⟩
  simpa only [priorMeetings, List.not_mem_nil, false_or] using h

end Meetings

/-! ## The round after the swap -/

/-- The round once the two names are exchanged and the adjustments are on its card. -/
def SwissRoundRow.swapped (r : SwissRoundRow ι) (a b : ι) (entries : List (Adjustment ι)) :
    SwissRoundRow ι :=
  { r.rename (Equiv.swap a b) with manualAdjustments := r.manualAdjustments ++ entries }

/-- The rows once the two names are exchanged in one round. -/
def PhaseStore.swapped (db : PhaseStore ι) (roundId a b : ι) (entries : List (Adjustment ι)) :
    PhaseStore ι :=
  (db.mapRounds (exchange roundId a b)).mapRounds (logged roundId entries)

section Swapped

variable {db : PhaseStore ι} {row : SwissRoundRow ι} {a b : ι} {entries : List (Adjustment ι)}

theorem swapped_change (r : SwissRoundRow ι) (roundId : ι) :
    (logged roundId entries).change ((exchange roundId a b).change r) =
      if r.id = roundId then r.swapped a b entries else r := by
  by_cases hId : r.id = roundId
  · have hFirst : (exchange roundId a b).change r = r.rename (Equiv.swap a b) := if_pos hId
    rw [if_pos hId, hFirst]
    exact if_pos hId
  · have hFirst : (exchange roundId a b).change r = r := if_neg hId
    rw [if_neg hId, hFirst]
    exact if_neg hId

theorem mapRounds_logged (db : PhaseStore ι) (roundId : ι) (es es' : List (Adjustment ι)) :
    (db.mapRounds (logged roundId es)).mapRounds (logged roundId es') =
      db.mapRounds (logged roundId (es ++ es')) := by
  refine mapRounds_twice fun r _ => ?_
  by_cases hId : r.id = roundId
  · have hFirst : (logged roundId es).change r =
        { r with manualAdjustments := r.manualAdjustments ++ es } := if_pos hId
    rw [hFirst]
    refine (if_pos hId).trans ((if_pos hId).trans ?_).symm
    rw [List.append_assoc]
  · have hFirst : (logged roundId es).change r = r := if_neg hId
    rw [hFirst]
    exact (if_neg hId).trans (if_neg hId).symm

theorem rounds_swapped (db : PhaseStore ι) (roundId a b : ι) (entries : List (Adjustment ι)) :
    (db.swapped roundId a b entries).rounds =
      db.rounds.map fun r => if r.id = roundId then r.swapped a b entries else r := by
  change (db.rounds.map _).map _ = _
  rw [List.map_map]
  exact List.map_congr_left fun r _ => swapped_change r roundId

theorem mem_swapped (hRow : row ∈ db.rounds) (a b : ι) (entries : List (Adjustment ι)) :
    row.swapped a b entries ∈ (db.swapped row.id a b entries).rounds := by
  rw [rounds_swapped]
  exact List.mem_map.mpr ⟨row, hRow, if_pos rfl⟩

theorem noted_swapped (r : SwissRoundRow ι) :
    (r.swapped a b entries).noted = r.noted.map (Equiv.swap a b) := noted_rename _ r

theorem Editable.swapped (h : Editable db row) :
    Editable (db.swapped row.id a b entries) (row.swapped a b entries) where
  pending := h.pending
  scheduled m hm := by
    obtain ⟨m', hm', rfl⟩ := List.mem_map.mp hm
    exact h.scheduled m' hm'
  running := h.running

/-- The exchange undone by itself; only the card tells. -/
theorem swapped_swapped (db : PhaseStore ι) (roundId a b : ι) (es es' : List (Adjustment ι)) :
    (db.swapped roundId a b es).swapped roundId a b es' =
      db.mapRounds (logged roundId (es ++ es')) := by
  refine PhaseStore.ext rfl rfl ?_
  rw [rounds_swapped, rounds_swapped, List.map_map]
  refine List.map_congr_left fun r _ => ?_
  rw [Function.comp_apply]
  by_cases hId : r.id = roundId
  · have hBack : ∀ x : Option ι,
        (x.map (Equiv.swap a b)).map (Equiv.swap a b) = x := by
      intro x
      cases x with
      | none => rfl
      | some y =>
        have h := (Equiv.swap a b).symm_apply_apply y
        rw [Equiv.symm_swap] at h
        exact congrArg some h
    have hBouts : (r.bouts.map (MatchRow.rename (Equiv.swap a b))).map
        (MatchRow.rename (Equiv.swap a b)) = r.bouts := by
      rw [List.map_map]
      refine (List.map_congr_left fun m _ => ?_).trans (List.map_id _)
      refine MatchRow.ext_seat rfl rfl fun s => ?_
      rw [Function.comp_apply, seat_rename, seat_rename, hBack]
      rfl
    have hTwice : (r.swapped a b es).swapped a b es' =
        { r with manualAdjustments := r.manualAdjustments ++ (es ++ es') } := by
      rw [← List.append_assoc]
      change SwissRoundRow.mk _ _ _ _ _ _ = SwissRoundRow.mk _ _ _ _ _ _
      exact congr (congrArg (fun bye => SwissRoundRow.mk r.id r.round_number r.status bye
        (r.manualAdjustments ++ es ++ es')) (hBack r.bye_registration_id)) hBouts
    rw [if_pos hId, if_pos (show (r.swapped a b es).id = roundId from hId), hTwice]
    exact (if_pos hId).symm
  · rw [if_neg hId, if_neg hId]
    exact (if_neg hId).symm

theorem exists_other_swapped {roundId : ι} {P : SwissRoundRow ι → Prop} :
    (∃ r ∈ (db.swapped roundId a b entries).rounds, r.id ≠ roundId ∧ P r) ↔
      ∃ r ∈ db.rounds, r.id ≠ roundId ∧ P r := by
  rw [rounds_swapped]
  constructor
  · rintro ⟨r, hr, hNe, hHolds⟩
    obtain ⟨r', hr', rfl⟩ := List.mem_map.mp hr
    have hNe' : r'.id ≠ roundId := by
      intro hId
      rw [if_pos hId] at hNe
      exact hNe hId
    rw [if_neg hNe'] at hHolds
    exact ⟨r', hr', hNe', hHolds⟩
  · rintro ⟨r, hr, hNe, hHolds⟩
    exact ⟨r, List.mem_map.mpr ⟨r, hr, if_neg hNe⟩, hNe, hHolds⟩

theorem met_swapped {roundId x y : ι} :
    Met (db.swapped roundId a b entries) roundId x y ↔ Met db roundId x y := exists_other_swapped

theorem satOut_swapped {roundId x : ι} :
    SatOut (db.swapped roundId a b entries) roundId x ↔ SatOut db roundId x := exists_other_swapped

end Swapped

/-! ## What the places hold -/

/-- What the place the fighter sits at holds: a rematch, a pair of one club, a repeated bye. -/
inductive Holds (db : PhaseStore ι) (r : SwissRoundRow ι) (x : ι) : OverrideWarning ι → Prop where
  | rematch {m : MatchRow ι} {s : Side} {y : ι} : m ∈ r.bouts → m.seat s = some x →
      m.seat s.other = some y → Met db r.id x y → Holds db r x ⟨.createsRematch, [x, y]⟩
  | sameClub {m : MatchRow ι} {s : Side} {y : ι} : m ∈ r.bouts → m.seat s = some x →
      m.seat s.other = some y → SameClub db x y → Holds db r x ⟨.sameClub, [x, y]⟩
  | repeatBye : r.bye_registration_id = some x → SatOut db r.id x → Holds db r x ⟨.repeatBye, [x]⟩

def opponentAt : Position ι → Option ι
  | .bye => none
  | .bout m s => m.seat s.other

def Position.rename (σ : Equiv.Perm ι) : Position ι → Position ι
  | .bye => .bye
  | .bout m s => .bout (m.rename σ) s

section Holds

variable {db : PhaseStore ι} {row : SwissRoundRow ι} {a b x : ι} {p q : Position ι}
  {w : OverrideWarning ι}

omit [DecidableEq ι] in
theorem sits_unique (hNodup : row.noted.Nodup) (hp : Sits row x p) (hq : Sits row x q) : p = q := by
  cases hp with
  | bye hBye =>
    cases hq with
    | bye => rfl
    | bout hm hs => exact absurd hBye (seat_ne_bye hNodup hm hs)
  | bout hm hs =>
    cases hq with
    | bye hBye => exact absurd hBye (seat_ne_bye hNodup hm hs)
    | bout hm' hs' =>
      obtain ⟨rfl, rfl⟩ := seat_unique hNodup hm hm' hs hs'
      rfl

theorem holds_iff (hNodup : row.noted.Nodup) (hq : Sits row x q) :
    Holds db row x w ↔
      (∃ y, opponentAt q = some y ∧ (Met db row.id x y ∧ w = ⟨.createsRematch, [x, y]⟩ ∨
        SameClub db x y ∧ w = ⟨.sameClub, [x, y]⟩)) ∨
      q = .bye ∧ SatOut db row.id x ∧ w = ⟨.repeatBye, [x]⟩ := by
  constructor
  · intro h
    cases h with
    | rematch hm hs hOther hMet =>
      obtain rfl := sits_unique hNodup hq (.bout hm hs)
      exact Or.inl ⟨_, hOther, Or.inl ⟨hMet, rfl⟩⟩
    | sameClub hm hs hOther hClub =>
      obtain rfl := sits_unique hNodup hq (.bout hm hs)
      exact Or.inl ⟨_, hOther, Or.inr ⟨hClub, rfl⟩⟩
    | repeatBye hBye hOut => exact Or.inr ⟨sits_unique hNodup hq (.bye hBye), hOut, rfl⟩
  · rintro (⟨y, hOther, hPair⟩ | ⟨rfl, hOut, rfl⟩)
    · cases hq with
      | bye => cases hOther
      | bout hm hs =>
        rcases hPair with ⟨hMet, rfl⟩ | ⟨hClub, rfl⟩
        · exact .rematch hm hs hOther hMet
        · exact .sameClub hm hs hOther hClub
    · cases hq with
      | bye hBye => exact .repeatBye hBye hOut

theorem sameClub_picture {y : ι} : sameClub (picture db row) x y = true ↔ SameClub db x y := by
  have hClub : ∀ z, (picture db row).clubByRegistration z = clubsFor db.entrants z := fun _ => rfl
  rw [sameClub, SameClub, hClub, hClub]
  cases clubsFor db.entrants x <;> cases clubsFor db.entrants y <;> simp [eq_comm]

omit [DecidableEq ι] in
theorem mem_ite_singleton {P : Prop} [Decidable P] {v : OverrideWarning ι} :
    w ∈ (if P then [v] else []) ↔ P ∧ w = v := by
  split_ifs with h <;> simp [h]

/-- The warnings for a fighter who moves to a position. -/
theorem mem_warnings_picture :
    w ∈ pairWarnings (picture db row) (some x) (opponentAt q) ∨
        w ∈ byeWarnings (picture db row) (some x) q ↔
      (∃ y, opponentAt q = some y ∧ (Met db row.id x y ∧ w = ⟨.createsRematch, [x, y]⟩ ∨
        SameClub db x y ∧ w = ⟨.sameClub, [x, y]⟩)) ∨
      q = .bye ∧ SatOut db row.id x ∧ w = ⟨.repeatBye, [x]⟩ := by
  refine or_congr ?_ ?_
  · cases opponentAt q with
    | none => simp [pairWarnings]
    | some y =>
      have hMet : y ∈ (picture db row).priorOpponents x ↔ Met db row.id x y :=
        (mem_priorMeetings (x := x) (y := y)).1
      rw [pairWarnings, List.mem_append, mem_ite_singleton, mem_ite_singleton, hMet,
        sameClub_picture]
      simp only [Option.some.injEq, exists_eq_left']
  · cases q with
    | bout => simp [byeWarnings]
    | bye =>
      have hOut : x ∈ (picture db row).priorByes ↔ SatOut db row.id x :=
        (mem_priorMeetings (x := x) (y := x)).2
      rw [byeWarnings, mem_ite_singleton, hOut]
      simp only [true_and]

omit [DecidableEq ι] in
theorem opponentAt_ne_self (hNodup : row.noted.Nodup) (hq : Sits row x q) :
    opponentAt q ≠ some x := by
  cases hq with
  | bye => nofun
  | @bout m s hm hs =>
    intro hOther
    have hSide := (seat_unique hNodup hm hm hs hOther).2
    cases s <;> cases hSide

theorem opponentAt_ne_other (hNodup : row.noted.Nodup) (hp : Sits row a p) (hq : Sits row b q)
    (hApart : sameBout p q = false) : opponentAt q ≠ some a := by
  cases hq with
  | bye => nofun
  | bout hm hs =>
    intro hOther
    obtain rfl := sits_unique hNodup hp (.bout hm hOther)
    exact absurd rfl (of_decide_eq_false hApart)

theorem opponentAfter_eq {y : Option ι} (h : opponentAt q ≠ y) :
    opponentAfter q y = opponentAt q := by
  cases q with
  | bye => rfl
  | bout m s => exact if_neg h

theorem sits_swapped {entries : List (Adjustment ι)} (hq : Sits row b q) :
    Sits (row.swapped a b entries) a (q.rename (Equiv.swap a b)) := by
  cases hq with
  | bye hBye =>
    refine .bye ?_
    change row.bye_registration_id.map _ = _
    rw [hBye, Option.map_some, Equiv.swap_apply_right]
  | bout hm hs =>
    refine .bout (List.mem_map_of_mem hm) ?_
    rw [seat_rename, hs, Option.map_some, Equiv.swap_apply_right]

omit [DecidableEq ι] in
theorem opponentAt_rename (σ : Equiv.Perm ι) (q : Position ι) :
    opponentAt (q.rename σ) = (opponentAt q).map σ := by
  cases q with
  | bye => rfl
  | bout m s => exact seat_rename σ m s.other

theorem sameBout_comm (p q : Position ι) : sameBout p q = sameBout q p := by
  cases p <;> cases q <;> simp [sameBout, eq_comm]

/-- What the places hold once one fighter sits where the other sat. -/
theorem holds_swapped {entries : List (Adjustment ι)} (hNodup : row.noted.Nodup)
    (hp : Sits row a p) (hq : Sits row b q) (hApart : sameBout p q = false) :
    Holds (db.swapped row.id a b entries) (row.swapped a b entries) a w ↔
      w ∈ pairWarnings (picture db row) (some a) (opponentAfter q (some b)) ∨
        w ∈ byeWarnings (picture db row) (some a) q := by
  have hSelf := opponentAt_ne_self hNodup hq
  have hOther := opponentAt_ne_other hNodup hp hq hApart
  have hNodup' : (row.swapped a b entries).noted.Nodup := by
    rw [noted_swapped]
    exact hNodup.map (Equiv.injective _)
  have hPlace : q.rename (Equiv.swap a b) = .bye ↔ q = .bye := by
    cases q <;> simp [Position.rename]
  rw [holds_iff hNodup' (sits_swapped hq), opponentAt_rename, map_swap_of_ne hOther hSelf,
    opponentAfter_eq hSelf, mem_warnings_picture, hPlace]
  change (∃ y, opponentAt q = some y ∧
    (Met (db.swapped row.id a b entries) row.id a y ∧ _ ∨ _)) ∨
      q = .bye ∧ SatOut (db.swapped row.id a b entries) row.id a ∧ _ ↔ _
  simp only [met_swapped, satOut_swapped]
  rfl

end Holds

/-! ## A swap of the two sides of one bout, and a swap cut short -/

section Outcome

variable {db : PhaseStore ι} {row : SwissRoundRow ι} {a b : ι} {p q : Position ι}

theorem swapPairing_eq (hRow : row ∈ db.rounds) (hEdit : Editable db row) (hNe : a ≠ b)
    (hp : locate (picture db row) a = some p) (hq : locate (picture db row) b = some q)
    (confirm : Bool) :
    swapPairing db row.id a b confirm =
      if 0 < (swapWarnings (picture db row) p q).length ∧ confirm = false then
        .error (.needsConfirmation (swapWarnings (picture db row) p q))
      else .ok (applySwap (picture db row) p q ++
        [.adjustment row.id ⟨a, b, swapWarnings (picture db row) p q⟩]) := by
  rw [swapPairing, if_neg hNe, loadEditableRound_eq hRow hEdit]
  simp only [bind, Except.bind, hp, hq]
  rfl

/-- The two sides of one bout are written red first, so a fighter on blue stays there. -/
theorem sides_written_back (hRow : row ∈ db.rounds) {m : MatchRow ι} (hm : m ∈ row.bouts)
    (ha : m.seat .blue = some a) (hb : m.seat .red = some b) (c : RoundChange ι) :
    (db.mapRounds (Write.sides m.id (some b) (some a)).change).mapRounds c = db.mapRounds c := by
  refine mapRounds_twice fun r hr => congrArg c.change ?_
  by_cases hSame : r = row
  · subst hSame
    have hBouts : (r.bouts.map fun m' =>
        if m'.id = m.id then (m'.put .red (some b)).put .blue (some a) else m') = r.bouts := by
      refine (List.map_congr_left fun m' hm' => ?_).trans (List.map_id _)
      split_ifs with hId
      · obtain rfl := List.inj_on_of_nodup_map (ids_nodup hRow) hm' hm hId
        refine MatchRow.ext_seat rfl rfl fun s => ?_
        cases s with
        | red => exact hb.symm
        | blue => exact ha.symm
      · rfl
    change { r with bouts := _ } = r
    rw [hBouts]
  · exact changeBout_other hRow hr hSame hm
      (fun m' => (m'.put .red (some b)).put .blue (some a)) fun _ => rfl

/-- The second fighter of the swap is on red: nothing moves. -/
theorem swapPairing_blue (hRow : row ∈ db.rounds) (hEdit : Editable db row)
    (hNodup : row.noted.Nodup) (hNe : a ≠ b) {m : MatchRow ι} (hm : m ∈ row.bouts)
    (ha : m.seat .blue = some a) (hb : m.seat .red = some b) :
    ∃ writes entries, swapPairing db row.id a b true = .ok writes ∧
      applyWrites writes db = db.mapRounds (logged row.id entries) := by
  obtain ⟨p, hp⟩ := locate_isSome (picture db row)
    (mem_noted.mpr (Or.inl ⟨m, hm, .blue, ha⟩))
  obtain ⟨q, hq⟩ := locate_isSome (picture db row)
    (mem_noted.mpr (Or.inl ⟨m, hm, .red, hb⟩))
  obtain rfl := sits_unique hNodup (locate_sits hp) (.bout hm ha)
  obtain rfl := sits_unique hNodup (locate_sits hq) (.bout hm hb)
  have hOk := (swapPairing_eq hRow hEdit hNe hp hq true).trans (if_neg fun h => nomatch h.2)
  refine ⟨_, [⟨a, b, swapWarnings (picture db row) (.bout m .blue) (.bout m .red)⟩], hOk, ?_⟩
  rw [applySwap, occupant, occupant, ha, hb, if_pos rfl]
  exact sides_written_back hRow hm ha hb _

/-- An exchange of two fighters of the round shows. -/
theorem swapped_ne (hRow : row ∈ db.rounds) (hNe : a ≠ b) {m : MatchRow ι} {s : Side}
    (hm : m ∈ row.bouts) (ha : m.seat s = some a) (es es' : List (Adjustment ι)) :
    db.swapped row.id a b es ≠ db.mapRounds (logged row.id es') := by
  intro hEq
  have hRounds := congrArg PhaseStore.rounds hEq
  rw [rounds_swapped] at hRounds
  have hSame := List.map_inj_left.mp hRounds row hRow
  rw [if_pos rfl] at hSame
  have hBouts : (row.swapped a b es).bouts = row.bouts := by
    rw [hSame]
    change (if row.id = row.id then _ else row).bouts = _
    rw [if_pos rfl]
  have hBout := List.map_inj_left.mp (hBouts.trans (List.map_id row.bouts).symm) m hm
  have hSeat := congrArg (fun m : MatchRow ι => m.seat s) hBout
  dsimp only [id] at hSeat
  rw [seat_rename, ha, Option.map_some, Equiv.swap_apply_left] at hSeat
  exact hNe (Option.some.inj hSeat).symm

/-- After the first write alone, the fighter whose place it took is nowhere. -/
theorem lost_after_first (hNodup : row.noted.Nodup) (hNe : a ≠ b)
    {m : MatchRow ι} {s : Side} (hm : m ∈ row.bouts) (ha : m.seat s = some a) :
    a ∉ ((Write.side m.id s (some b)).change.change row).noted := by
  intro hMem
  rcases mem_noted.mp hMem with ⟨m', hm', s', hs'⟩ | hBye
  · obtain ⟨m₀, hm₀, rfl⟩ := List.mem_map.mp hm'
    rw [seat_changed] at hs'
    split_ifs at hs' with hPlace
    · exact hNe (Option.some.inj hs').symm
    · obtain ⟨rfl, rfl⟩ := seat_unique hNodup hm₀ hm hs' ha
      exact hPlace ⟨rfl, rfl⟩
  · exact seat_ne_bye hNodup hm ha hBye

end Outcome

end MyClash.Swiss.Override
