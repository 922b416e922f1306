import MyClash.Swiss.OverrideLaw

/-!
# What a swap of two fighters of a valid round does

Two fighters who do not face each other trade places and nothing else moves. The two sides of one
bout are written red first, whichever fighter is named first, so the swap of a blue fighter with
the red one leaves the bout as it was.
-/

namespace MyClash.Swiss.Override

universe u

variable {ι : Type u} [LinearOrder ι] {db : PhaseStore ι} {row : SwissRoundRow ι} {a b : ι}

/-! ## The validation of a stored round -/

def activeField (db : PhaseStore ι) (roundNumber : ℕ) : List ι :=
  (activeEntrants (db.entrants.map (·.toSwissEntrantRecord)) roundNumber).map (·.registrationId)

/-- `validate` answers, and this is whether the round is a legal one. -/
def Reported (db : PhaseStore ι) (roundId : ι) (valid : Bool) : Prop :=
  ∃ validation, validate db roundId = .ok validation ∧ validation.valid = valid

/-- Everyone of the field once, and nobody else. -/
def Dealt (field : List ι) (r : SwissRoundRow ι) : Prop :=
  r.noted.Nodup ∧ ∀ x, x ∈ r.noted ↔ x ∈ field

theorem validate_eq (hRow : row ∈ db.rounds) : validate db row.id =
    .ok (validateSwissRound (activeField db row.round_number) (row.bouts.map MatchRow.pick)
      row.bye_registration_id) := by
  rw [validate, loadRound_eq hRow]
  rfl

theorem reported_true (hRow : row ∈ db.rounds) :
    Reported db row.id true ↔ Dealt (activeField db row.round_number) row := by
  rw [Reported, validate_eq hRow]
  refine Iff.trans ?_ validateSwissRound_valid_iff
  constructor
  · rintro ⟨_, hOk, hValid⟩
    rwa [← Except.ok.inj hOk] at hValid
  · exact fun hValid => ⟨_, rfl, hValid⟩

theorem reported_false (hRow : row ∈ db.rounds)
    (h : ¬ Dealt (activeField db row.round_number) row) : Reported db row.id false := by
  refine ⟨_, validate_eq hRow, ?_⟩
  rw [Bool.eq_false_iff]
  exact fun hValid => h (validateSwissRound_valid_iff.mp hValid)

/-- A permutation of the field deals it again. -/
theorem Dealt.swapped {field : List ι} (h : Dealt field row) (ha : a ∈ row.noted)
    (hb : b ∈ row.noted) (entries : List (Adjustment ι)) :
    Dealt field (row.swapped a b entries) := by
  obtain ⟨hNodup, hField⟩ := h
  refine ⟨?_, fun x => ?_⟩
  · rw [noted_swapped]
    exact hNodup.map (Equiv.injective _)
  · rw [noted_swapped, ← hField x]
    have hBack : ∀ y ∈ row.noted, Equiv.swap a b y ∈ row.noted := by
      intro y hy
      rw [Equiv.swap_apply_def]
      split_ifs
      · exact hb
      · exact ha
      · exact hy
    constructor
    · intro hx
      obtain ⟨y, hy, rfl⟩ := List.mem_map.mp hx
      exact hBack y hy
    · exact fun hx => List.mem_map.mpr ⟨_, hBack x hx, Equiv.swap_apply_self ..⟩

/-! ## The law of a swap -/

/-- The writes of a swap, with the warnings computed before them. -/
structure SwapLaw (db : PhaseStore ι) (roundId a b : ι) (warnings : List (OverrideWarning ι))
    (writes : List (Write ι)) : Prop where
  exchanged : ∃ entries, applyWrites writes db =
    (db.mapRounds (exchange roundId a b)).mapRounds (logged roundId entries)
  valid : Reported (applyWrites writes db) roundId true
  restored : ∃ again entries,
    swapPairing (applyWrites writes db) roundId a b true = .ok again ∧
    applyWrites again (applyWrites writes db) = db.mapRounds (logged roundId entries)
  warned : ∀ r ∈ (applyWrites writes db).rounds, r.id = roundId → ∀ w, w ∈ warnings ↔
    Holds (applyWrites writes db) r a w ∨ Holds (applyWrites writes db) r b w
  cut : ∀ first second adjustment, writes = [first, second, adjustment] →
    Reported (applyWrites [first] db) roundId false

/-- The two fighters are the two sides of one bout. -/
def FaceEachOther (r : SwissRoundRow ι) (a b : ι) : Prop := ∃ m ∈ r.bouts, Pairs m a b

section Law

variable {p q : Position ι}

theorem sameBout_iff (hRow : row ∈ db.rounds) (hNodup : row.noted.Nodup) (hNe : a ≠ b)
    (hp : Sits row a p) (hq : Sits row b q) : sameBout p q = true ↔ FaceEachOther row a b := by
  constructor
  · intro hSame
    cases hp with
    | bye => cases hSame
    | @bout m s hm hs =>
      cases hq with
      | bye => cases hSame
      | @bout m' s' hm' hs' =>
        obtain rfl := List.inj_on_of_nodup_map (ids_nodup hRow) hm hm' (of_decide_eq_true hSame)
        refine ⟨m, hm, s, hs, ?_⟩
        cases s <;> cases s'
        · exact absurd (Option.some.inj (hs.symm.trans hs')) hNe
        · exact hs'
        · exact hs'
        · exact absurd (Option.some.inj (hs.symm.trans hs')) hNe
  · rintro ⟨m, hm, s, hs, hs'⟩
    obtain rfl := sits_unique hNodup hp (.bout hm hs)
    obtain rfl := sits_unique hNodup hq (.bout hm hs')
    exact decide_eq_true rfl

theorem applyWrites_append (writes : List (Write ι)) (w : Write ι) (db : PhaseStore ι) :
    applyWrites (writes ++ [w]) db = (applyWrites writes db).mapRounds w.change := by
  rw [applyWrites, List.foldl_append]
  rfl

theorem applyWrites_swapped (hRow : row ∈ db.rounds) (hNodup : row.noted.Nodup) (hNe : a ≠ b)
    (hp : Sits row a p) (hq : Sits row b q) (hPlaces : sameBout p q = false)
    (entry : Adjustment ι) :
    applyWrites (applySwap (picture db row) p q ++ [.adjustment row.id entry]) db =
      db.swapped row.id a b [entry] := by
  rw [applyWrites_append]
  exact congrArg (PhaseStore.mapRounds _)
    (applySwap_exchange (picture db row) hRow hNodup hNe hp hq hPlaces)

theorem swapPairing_swapped (hRow : row ∈ db.rounds) (hEdit : Editable db row)
    (hNodup : row.noted.Nodup) (hNe : a ≠ b) (ha : a ∈ row.noted) (hb : b ∈ row.noted)
    (hApart : ¬ FaceEachOther row a b) :
    ∃ writes entries, swapPairing db row.id a b true = .ok writes ∧
      applyWrites writes db = db.swapped row.id a b entries := by
  obtain ⟨p, hp⟩ := locate_isSome (picture db row) ha
  obtain ⟨q, hq⟩ := locate_isSome (picture db row) hb
  have hPlaces : sameBout p q = false := Bool.eq_false_iff.mpr fun hSame =>
    hApart ((sameBout_iff hRow hNodup hNe (locate_sits hp) (locate_sits hq)).mp hSame)
  have hOk := (swapPairing_eq hRow hEdit hNe hp hq true).trans (if_neg fun h => nomatch h.2)
  exact ⟨_, _, hOk, applyWrites_swapped hRow hNodup hNe (locate_sits hp) (locate_sits hq) hPlaces _⟩

theorem swapped_comm (entries : List (Adjustment ι)) :
    db.swapped row.id a b entries = db.swapped row.id b a entries := by
  rw [PhaseStore.swapped, exchange_comm]
  rfl

theorem row_swapped_comm (entries : List (Adjustment ι)) :
    row.swapped a b entries = row.swapped b a entries := by
  rw [SwissRoundRow.swapped, Equiv.swap_comm]
  rfl

theorem faceEachOther_of_swapped {entries : List (Adjustment ι)}
    (h : FaceEachOther (row.swapped a b entries) a b) : FaceEachOther row a b := by
  obtain ⟨m', hm', s, hs, hs'⟩ := h
  obtain ⟨m, hm, rfl⟩ := List.mem_map.mp hm'
  rw [seat_rename] at hs hs'
  obtain ⟨x, hx, hax⟩ := Option.map_eq_some_iff.mp hs
  obtain ⟨y, hy, hby⟩ := Option.map_eq_some_iff.mp hs'
  obtain rfl : x = b := (Equiv.swap a b).injective (hax.trans (Equiv.swap_apply_right a b).symm)
  obtain rfl : y = a := (Equiv.swap a x).injective (hby.trans (Equiv.swap_apply_left a x).symm)
  refine ⟨m, hm, s.other, hy, ?_⟩
  cases s <;> exact hx

/-- Cut after its first write, the swap leaves a fighter of the field without a place. -/
theorem reported_after_first (hRow : row ∈ db.rounds)
    (hDealt : Dealt (activeField db row.round_number) row) {x y : ι} (hNe : x ≠ y)
    {m : MatchRow ι} {s : Side} (hm : m ∈ row.bouts) (hx : m.seat s = some x) :
    Reported (applyWrites [.side m.id s (some y)] db) row.id false := by
  have hMem : (Write.side m.id s (some y)).change.change row ∈
      (applyWrites [.side m.id s (some y)] db).rounds := List.mem_map_of_mem hRow
  have hField : x ∈ activeField db row.round_number :=
    (hDealt.2 x).mp (mem_noted.mpr (Or.inl ⟨m, hm, s, hx⟩))
  have hReported := reported_false hMem fun hDealt' =>
    lost_after_first hDealt.1 hNe hm hx ((hDealt'.2 x).mpr hField)
  exact hReported

theorem mem_swapWarnings (round : EditableRound ι) {w : OverrideWarning ι}
    (hp : Sits round.toSwissRoundRow a p) (hq : Sits round.toSwissRoundRow b q)
    (hPlaces : sameBout p q = false) :
    w ∈ swapWarnings round p q ↔
      (w ∈ pairWarnings round (some a) (opponentAfter q (some b)) ∨
        w ∈ byeWarnings round (some a) q) ∨
      w ∈ pairWarnings round (some b) (opponentAfter p (some a)) ∨
        w ∈ byeWarnings round (some b) p := by
  rw [swapWarnings, hPlaces, if_neg Bool.false_ne_true, occupant_eq round hp,
    occupant_eq round hq]
  simp only [List.mem_append]
  tauto

theorem swapLaw_of_apart (hRow : row ∈ db.rounds) (hEdit : Editable db row)
    (hDealt : Dealt (activeField db row.round_number) row) (hNe : a ≠ b) (ha : a ∈ row.noted)
    (hb : b ∈ row.noted) (hp : Sits row a p) (hq : Sits row b q)
    (hApart : ¬ FaceEachOther row a b) :
    SwapLaw db row.id a b (swapWarnings (picture db row) p q)
      (applySwap (picture db row) p q ++
        [.adjustment row.id ⟨a, b, swapWarnings (picture db row) p q⟩]) := by
  have hPlaces : sameBout p q = false := Bool.eq_false_iff.mpr fun hSame =>
    hApart ((sameBout_iff hRow hDealt.1 hNe hp hq).mp hSame)
  have hAfter := applyWrites_swapped hRow hDealt.1 hNe hp hq hPlaces
    ⟨a, b, swapWarnings (picture db row) p q⟩
  have hDealt' := hDealt.swapped ha hb [⟨a, b, swapWarnings (picture db row) p q⟩]
  have hMem := mem_swapped hRow a b [⟨a, b, swapWarnings (picture db row) p q⟩]
  constructor
  case exchanged => exact ⟨_, hAfter⟩
  case valid =>
    rw [hAfter]
    exact (reported_true hMem).mpr hDealt'
  case restored =>
    have ha' : a ∈ (row.swapped a b [⟨a, b, swapWarnings (picture db row) p q⟩]).noted := by
      rw [noted_swapped]
      exact List.mem_map.mpr ⟨b, hb, Equiv.swap_apply_right a b⟩
    have hb' : b ∈ (row.swapped a b [⟨a, b, swapWarnings (picture db row) p q⟩]).noted := by
      rw [noted_swapped]
      exact List.mem_map.mpr ⟨a, ha, Equiv.swap_apply_left a b⟩
    obtain ⟨again, entries, hOk, hAgain⟩ := swapPairing_swapped hMem hEdit.swapped hDealt'.1 hNe
      ha' hb' fun h => hApart (faceEachOther_of_swapped h)
    rw [hAfter]
    exact ⟨again, _, hOk, hAgain.trans (swapped_swapped db row.id a b _ _)⟩
  case warned =>
    intro r hr hId w
    rw [hAfter] at hr ⊢
    obtain rfl := List.inj_on_of_nodup_map (db.swapped row.id a b _).round_key hr hMem hId
    rw [mem_swapWarnings (picture db row) hp hq hPlaces,
      holds_swapped hDealt.1 hp hq hPlaces, swapped_comm, row_swapped_comm,
      holds_swapped hDealt.1 hq hp (sameBout_comm p q ▸ hPlaces)]
  case cut =>
    intro first second adjustment hWrites
    cases hp with
    | bye hBye =>
      cases hq with
      | bye hBye' => exact absurd (Option.some.inj (hBye.symm.trans hBye')) hNe
      | @bout m s hm hs =>
        have hFirst : Write.side m.id s row.bye_registration_id = first := (List.cons.inj hWrites).1
        rw [← hFirst, hBye]
        exact reported_after_first hRow hDealt hNe.symm hm hs
    | @bout m s hm hs =>
      cases hq with
      | bye hBye =>
        have hFirst : Write.side m.id s row.bye_registration_id = first := (List.cons.inj hWrites).1
        rw [← hFirst, hBye]
        exact reported_after_first hRow hDealt hNe hm hs
      | @bout m' s' hm' hs' =>
        rw [applySwap, if_neg (of_decide_eq_false hPlaces)] at hWrites
        have hFirst : Write.side m.id s (m'.seat s') = first := (List.cons.inj hWrites).1
        rw [← hFirst, hs']
        exact reported_after_first hRow hDealt hNe hm hs

end Law

/-- A swap keeps its law exactly when the two fighters do not face each other. -/
theorem swapPairing_law (db : PhaseStore ι) (roundId a b : ι) (round : EditableRound ι)
    (hLoad : loadEditableRound db roundId = .ok round) (hValid : Reported db roundId true)
    (hNe : a ≠ b) (ha : a ∈ round.noted) (hb : b ∈ round.noted) :
    ∃ warnings writes,
      (∀ confirm, swapPairing db roundId a b confirm =
        if 0 < warnings.length ∧ confirm = false then .error (.needsConfirmation warnings)
        else .ok writes) ∧
      (SwapLaw db roundId a b warnings writes ↔ ¬ FaceEachOther round.toSwissRoundRow a b) := by
  obtain ⟨row, hRow, rfl, hEdit, rfl⟩ := loadEditableRound_ok hLoad
  have hDealt := (reported_true hRow).mp hValid
  obtain ⟨p, hp⟩ := locate_isSome (picture db row) ha
  obtain ⟨q, hq⟩ := locate_isSome (picture db row) hb
  have hSwap := swapPairing_eq hRow hEdit hNe hp hq
  refine ⟨_, _, hSwap, ?_, ?_⟩
  · rintro ⟨⟨entries, hAfter⟩, _, ⟨again, entries', hAgain, hBack⟩, _, _⟩ ⟨m, hm, s, hs, hs'⟩
    rw [hAfter] at hAgain hBack
    cases s with
    | blue =>
      -- the first fighter is on blue: the writes leave both where they are
      obtain ⟨writes, es, hOk, hKept⟩ := swapPairing_blue hRow hEdit hDealt.1 hNe hm hs hs'
      have hSent := (hSwap true).trans (if_neg fun h => nomatch h.2)
      have hSame := Except.ok.inj (hOk.symm.trans hSent)
      rw [hSame] at hKept
      exact swapped_ne hRow hNe hm hs entries es (hAfter.symm.trans hKept)
    | red =>
      -- the first fighter is on blue afterwards: the second swap leaves both where they are
      have hMem := mem_swapped hRow a b entries
      have hDealt' := hDealt.swapped ha hb entries
      have hBlue : (m.rename (Equiv.swap a b)).seat .blue = some a := by
        rw [seat_rename, show m.seat .blue = some b from hs', Option.map_some,
          Equiv.swap_apply_right]
      have hRed : (m.rename (Equiv.swap a b)).seat .red = some b := by
        rw [seat_rename, hs, Option.map_some, Equiv.swap_apply_left]
      obtain ⟨writes, es, hOk, hKept⟩ := swapPairing_blue hMem hEdit.swapped hDealt'.1 hNe
        (List.mem_map_of_mem hm) hBlue hRed
      obtain rfl := Except.ok.inj (hOk.symm.trans hAgain)
      have hLogged : (db.swapped row.id a b entries).mapRounds (logged row.id es) =
          db.swapped row.id a b (entries ++ es) := mapRounds_logged ..
      exact swapped_ne hRow hNe hm hs _ entries' (hLogged.symm.trans (hKept.symm.trans hBack))
  · exact swapLaw_of_apart hRow hEdit hDealt hNe ha hb (locate_sits hp) (locate_sits hq)

def twoBoutsRound : SwissRoundRow ℕ :=
  ⟨1, 1, .pending, none, [], [⟨10, .scheduled, some 5, some 6⟩, ⟨11, .scheduled, some 7, some 8⟩]⟩

/-- A phase of one round of two bouts. -/
def twoBouts : PhaseStore ℕ where
  finalized := false
  entrants := [⟨⟨5, none, []⟩, none⟩, ⟨⟨6, none, []⟩, none⟩, ⟨⟨7, none, []⟩, some 90⟩,
    ⟨⟨8, none, []⟩, some 90⟩]
  rounds := [twoBoutsRound]
  round_key := by decide
  bout_key := by decide

theorem swapPairing_law_acrossBouts :
    ∃ warnings writes,
      (∀ confirm, swapPairing twoBouts 1 6 7 confirm =
        if 0 < warnings.length ∧ confirm = false then .error (.needsConfirmation warnings)
        else .ok writes) ∧
      (SwapLaw twoBouts 1 6 7 warnings writes ↔
        ¬ FaceEachOther (picture twoBouts twoBoutsRound).toSwissRoundRow 6 7) :=
  swapPairing_law twoBouts 1 6 7 (picture twoBouts twoBoutsRound) rfl
    ⟨_, rfl, by decide⟩ (by decide) (by decide) (by decide)

/-- Named blue first, the two sides of a bout stay where they are. -/
theorem swapPairing_keeps_sides :
    (loadEditableRound twoBouts 1).isOk = true ∧ Reported twoBouts 1 true ∧
    swapPairing twoBouts 1 6 5 false =
      .ok [.sides 10 (some 5) (some 6), .adjustment 1 ⟨6, 5, []⟩] ∧
    (applyWrites [.sides 10 (some 5) (some 6), .adjustment 1 ⟨6, 5, []⟩] twoBouts).rounds.map
      (·.bouts) = twoBouts.rounds.map (·.bouts) ∧
    ¬ SwapLaw twoBouts 1 6 5 []
      [.sides 10 (some 5) (some 6), .adjustment 1 ⟨6, 5, []⟩] := by
  refine ⟨rfl, ⟨_, rfl, by decide⟩, rfl, rfl, ?_⟩
  rintro ⟨⟨entries, hAfter⟩, _⟩
  have hBouts := congrArg (fun db : PhaseStore ℕ => db.rounds.map (·.bouts)) hAfter
  have hMoved : ((twoBouts.mapRounds (exchange 1 6 5)).mapRounds (logged 1 entries)).rounds.map
      (·.bouts) = [[⟨10, .scheduled, some 6, some 5⟩, ⟨11, .scheduled, some 7, some 8⟩]] := rfl
  rw [hMoved] at hBouts
  revert hBouts
  decide

end MyClash.Swiss.Override
