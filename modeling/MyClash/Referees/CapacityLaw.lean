import MyClash.Referees.Capacity
import MyClash.Referees.VerdictOrder

/-!
# The capacity warning against the checker

The warning counts the referees free over a stretch between two edges, the checker judges a
person over the whole of a unit. Where crews the checker allows are found among people who fight
in none of the units running then, the warning stays silent.
-/

namespace MyClash.Referees

open Schedule (IsoClock isHull_of_hullMs)

variable {τ : Type*} {iso : IsoClock τ}

/-- The units of an Event and the referees who may staff them. -/
structure Slate (iso : IsoClock τ) where
  units : List (AssignmentBoardPool iso)
  personIdByRegistration : String → Option String
  roleSlotCountOf : AssignmentBoardPool iso → ℕ
  clock : BoardClock
  referees : List RefereeForCapacity

namespace Slate

variable (s : Slate iso)

def warnings [DecidableEq τ] : List (CapacityWarning τ) :=
  detectConcurrencyShortage iso.getTime
    (slatePools s.units s.personIdByRegistration s.roleSlotCountOf) s.referees (s.clock.dayOf iso)

/-- The fights of the units' fighters, and what else people do. -/
def commitments (others : List RefereeCommitment) : List RefereeCommitment :=
  fightCommitments s.personIdByRegistration s.units ++
    groupCommitments s.personIdByRegistration s.units ++ others

def runningAt (t : ℤ) : List (AssignmentBoardPool iso) :=
  s.units.filter fun unit =>
    (unitWindowMs iso unit.bouts).any fun w => w.startMs ≤ t && t < w.endMs

/-- The checker does not find it impossible for the referee to take the unit, in some role. -/
def MayTake (others : List RefereeCommitment) (switches : RefereeSwitches)
    (unit : AssignmentBoardPool iso) (ref : RefereeForCapacity) : Prop :=
  ∃ role, (checkReferee ref.personId (unitTarget unit role s.clock) (s.commitments others)
    ref.availability switches).level ≠ .refused .impossible

/-- The referee fights in no unit that runs at the instant. -/
def Resting (t : ℤ) (ref : RefereeForCapacity) : Prop :=
  ∀ unit ∈ s.runningAt t, ref.personId ∉ fightersOf unit s.personIdByRegistration

/-- Every unit running at the instant has a crew for its role slots, of distinct people. -/
structure Crewed (Eligible : AssignmentBoardPool iso → RefereeForCapacity → Prop) (t : ℤ)
    (crews : List (List RefereeForCapacity)) : Prop where
  filled : List.Forall₂ (fun unit crew => crew.length = s.roleSlotCountOf unit ∧
    ∀ ref ∈ crew, ref ∈ s.referees ∧ Eligible unit ref) (s.runningAt t) crews
  distinct : (crews.flatten.map (·.personId)).Nodup

/-- A ticked day's window lies on its own date. -/
def DaysOnDate : Prop :=
  ∀ ref ∈ s.referees, ∀ days, ref.availability.days = some days → ∀ d ∈ days, ∀ t,
    d.window.startMs ≤ t → t < d.window.endMs → s.clock.dateAt t = d.date

end Slate

/-! ## Available for the unit, so for the stretch -/

theorem isAvailableFor_iff {availability : RefereeAvailability} {tournamentId date : String}
    {window : TimeWindowMs} :
    isAvailableFor availability tournamentId (some date) (some window) = true ↔
      availability.tournamentIds.any (!·.contains tournamentId) = false ∧
        ∀ days, availability.days = some days → ∃ day, days.find? (·.date = date) = some day ∧
          day.window.startMs ≤ window.startMs ∧ window.endMs ≤ day.window.endMs := by
  obtain ⟨tournamentIds, days⟩ := availability
  cases days with
  | none => simp [isAvailableFor]
  | some days =>
    cases hFind : days.find? (·.date = date) with
    | none => simp [isAvailableFor, hFind]
    | some day => simp [isAvailableFor, hFind]

/-- Who is available for the whole of a window is available for what lies within it. -/
theorem isAvailableFor_within {availability : RefereeAvailability} {tournamentId : String}
    {clock : BoardClock} {whole part : TimeWindowMs}
    (hDays : ∀ days, availability.days = some days → ∀ d ∈ days, ∀ t,
      d.window.startMs ≤ t → t < d.window.endMs → clock.dateAt t = d.date)
    (hStart : whole.startMs ≤ part.startMs) (hInside : part.startMs < whole.endMs)
    (hEnd : part.endMs ≤ whole.endMs)
    (h : isAvailableFor availability tournamentId (some (clock.dateAt whole.startMs))
      (some whole) = true) :
    isAvailableFor availability tournamentId (some (clock.dateAt part.startMs))
      (some part) = true := by
  obtain ⟨hTournament, hTicked⟩ := isAvailableFor_iff.mp h
  refine isAvailableFor_iff.mpr ⟨hTournament, fun days hSome => ?_⟩
  obtain ⟨day, hFind, hFrom, hTo⟩ := hTicked days hSome
  -- The part lies in the day's window, so on the day's date.
  have hDate : clock.dateAt part.startMs = clock.dateAt whole.startMs := by
    rw [hDays days hSome day (List.mem_of_find?_eq_some hFind) part.startMs (hFrom.trans hStart)
      (hInside.trans_le hTo)]
    have hFound := List.find?_some hFind
    exact of_decide_eq_true hFound
  rw [hDate]
  exact ⟨day, hFind, hFrom.trans hStart, hEnd.trans hTo⟩

/-! ## A stretch that can be staffed -/

variable {s : Slate iso}

/-- The units the sweep finds active are those whose bouts run. -/
theorem activeAt_slatePools (t : ℤ) :
    activeAt iso.getTime (slatePools s.units s.personIdByRegistration s.roleSlotCountOf) t =
      slatePools (s.runningAt t) s.personIdByRegistration s.roleSlotCountOf := by
  rw [activeAt, slatePools, List.filter_map, slatePools, Slate.runningAt]
  congr 1
  refine List.filter_congr fun unit _ => ?_
  simp only [Function.comp_apply, RefereeCommitmentPool.ends, unit.start_eq, unit.end_eq]
  cases unitWindowMs iso unit.bouts with
  | none => rfl
  | some w => simp

theorem free_of_mayTake {others : List RefereeCommitment} {switches : RefereeSwitches}
    {unit : AssignmentBoardPool iso} {ref : RefereeForCapacity} {w : TimeWindowMs} {t stop : ℤ}
    (hDays : s.DaysOnDate) (hRef : ref ∈ s.referees)
    (hWindow : unitWindowMs iso unit.bouts = some w) (hStart : w.startMs ≤ t) (hInside : t < w.endMs)
    (hStop : stop ≤ w.endMs) (h : s.MayTake others switches unit ref) :
    isAvailableFor ref.availability unit.tournamentId (some (s.clock.dateAt t))
      (some ⟨t, stop⟩) = true := by
  obtain ⟨role, hLevel⟩ := h
  have hUnblocked := mt level_impossible_iff.mpr hLevel
  have hAvailable : isAvailableFor ref.availability unit.tournamentId
      (unitTarget unit role s.clock).day (unitTarget unit role s.clock).window ≠ false :=
    fun hAway => hUnblocked (Or.inr hAway)
  have hDay : (unitTarget unit role s.clock).day = some (s.clock.dateAt w.startMs) := by
    simp [unitTarget, unit.start_eq, hWindow, BoardClock.dayOf]
  have hWhole : (unitTarget unit role s.clock).window = some w := hWindow
  rw [hDay, hWhole] at hAvailable
  have hPart : (⟨t, stop⟩ : TimeWindowMs).endMs ≤ w.endMs := hStop
  exact isAvailableFor_within (hDays ref hRef) hStart hInside hPart
    (Bool.eq_true_of_not_eq_false hAvailable)

theorem slots_eq_length {units : List (AssignmentBoardPool iso)}
    {crews : List (List RefereeForCapacity)}
    {Eligible : AssignmentBoardPool iso → RefereeForCapacity → Prop}
    {slotCountOf : AssignmentBoardPool iso → ℕ}
    (h : List.Forall₂ (fun unit crew => crew.length = slotCountOf unit ∧
      ∀ ref ∈ crew, Eligible unit ref) units crews) :
    (units.map slotCountOf).sum = crews.flatten.length ∧
      ∀ ref ∈ crews.flatten, ∃ unit ∈ units, Eligible unit ref := by
  induction h with
  | nil => exact ⟨rfl, nofun⟩
  | @cons unit crew units crews hCrew _ ih =>
    refine ⟨?_, fun ref hRef => ?_⟩
    · rw [List.map_cons, List.sum_cons, List.flatten_cons, List.length_append, ih.1, hCrew.1]
    · rw [List.flatten_cons, List.mem_append] at hRef
      rcases hRef with hRef | hRef
      · exact ⟨unit, List.mem_cons_self, hCrew.2 ref hRef⟩
      · obtain ⟨later, hLater, hEligible⟩ := ih.2 ref hRef
        exact ⟨later, List.mem_cons_of_mem unit hLater, hEligible⟩

theorem mem_runningAt {unit : AssignmentBoardPool iso} {t : ℤ} :
    unit ∈ s.runningAt t ↔ unit ∈ s.units ∧
      ∃ w, unitWindowMs iso unit.bouts = some w ∧ w.startMs ≤ t ∧ t < w.endMs := by
  simp [Slate.runningAt, Option.any_eq_true]

/-- Crews the checker allows, of people at rest, are among the referees the sweep counts. -/
theorem Slate.Crewed.enough {others : List RefereeCommitment} {switches : RefereeSwitches}
    {start stop : τ} {crews : List (List RefereeForCapacity)} (hDays : s.DaysOnDate)
    (hEnds : ∀ unit ∈ s.runningAt (iso.getTime start), ∀ w,
      unitWindowMs iso unit.bouts = some w → iso.getTime stop ≤ w.endMs)
    (h : s.Crewed (fun unit ref => s.MayTake others switches unit ref ∧
      s.Resting (iso.getTime start) ref) (iso.getTime start) crews) :
    ((s.runningAt (iso.getTime start)).map s.roleSlotCountOf).sum ≤
      (freeFor iso.getTime s.referees (s.clock.dayOf iso) (slatePools
        (s.runningAt (iso.getTime start)) s.personIdByRegistration s.roleSlotCountOf) start
        stop).length := by
  obtain ⟨hSlots, hEligible⟩ := slots_eq_length h.filled
  rw [hSlots]
  refine (List.Nodup.subperm (List.Nodup.of_map _ h.distinct) fun ref hRef => ?_).length_le
  obtain ⟨unit, hRunning, hMem, hMayTake, hResting⟩ := hEligible ref hRef
  obtain ⟨-, w, hWindow, hStart, hInside⟩ := mem_runningAt.mp hRunning
  refine List.mem_filter.mpr ⟨hMem, Bool.and_eq_true_iff.mpr ⟨?_, ?_⟩⟩
  · simpa [slatePools, Slate.Resting] using hResting
  · refine List.any_eq_true.mpr ⟨_, List.mem_map.mpr ⟨unit, hRunning, rfl⟩, ?_⟩
    exact free_of_mayTake hDays hMem hWindow hStart hInside (hEnds unit hRunning w hWindow) hMayTake

/-- While every running unit can be given distinct referees who fight in none of the units running
and whom the checker does not find impossible, whatever its switches, no shortage is told. A
ticked day's window lies on its own date. -/
theorem Slate.warnings_eq_nil [DecidableEq τ] (s : Slate iso) (others : List RefereeCommitment)
    (switches : RefereeSwitches) (hDays : s.DaysOnDate)
    (hCrewed : ∀ t, ∃ crews, s.Crewed
      (fun unit ref => s.MayTake others switches unit ref ∧ s.Resting t ref) t crews) :
    s.warnings = [] := by
  refine List.eq_nil_iff_forall_not_mem.mpr fun warning hWarning => ?_
  obtain ⟨start, stop, hNext, hSome⟩ := stretch_of_mem hWarning
  obtain ⟨crews, hCrews⟩ := hCrewed (iso.getTime start)
  have hEnds : ∀ unit ∈ s.runningAt (iso.getTime start), ∀ w,
      unitWindowMs iso unit.bouts = some w → iso.getTime stop ≤ w.endMs := by
    intro unit hRunning w hWindow
    obtain ⟨hMem, w', hWindow', -, hInside⟩ := mem_runningAt.mp hRunning
    obtain rfl := Option.some.inj (hWindow'.symm.trans hWindow)
    have hEdge : iso.toISOString w'.endMs ∈ edges iso.getTime
        (slatePools s.units s.personIdByRegistration s.roleSlotCountOf) := by
      refine mem_edges.mpr ⟨_, List.mem_map.mpr ⟨unit, hMem, rfl⟩,
        (iso.toISOString w'.startMs, iso.toISOString w'.endMs), ?_, Or.inr rfl⟩
      simp [RefereeCommitmentPool.ends, unit.start_eq, unit.end_eq, hWindow]
    have hLater : iso.getTime start < iso.getTime (iso.toISOString w'.endMs) := by simpa using hInside
    simpa using neighbour_le pairwise_edges hNext hEdge hLater
  have hEnough := hCrews.enough hDays hEnds
  rw [stretchWarning_eq_none] at hSome
  · cases hSome
  · rw [activeAt_slatePools]
    simpa [slatePools, Function.comp_def] using hEnough

private def plainClock : IsoClock ℤ := ⟨id, id, Eq.refl⟩

/-- One Pool with one bout, of two people of its roster. -/
private def lonePool : AssignmentBoardPool plainClock where
  id := "a"
  name := "Pool A"
  tournamentId := "longsword"
  tournamentName := "Longsword"
  kind := some .pool
  swissRoundId := none
  members := ["lea", "marc"]
  bouts := [⟨"a1", some 0, 10, some "lea", some "marc"⟩]
  scheduledStart := some 0
  scheduledEnd := some 600000
  start_eq := rfl
  end_eq := rfl

private def slateWith (referee : String) : Slate plainClock where
  units := [lonePool]
  personIdByRegistration := some
  roleSlotCountOf _ := 1
  clock := ⟨fun _ => "2026-10-03", fun _ => none⟩
  referees := [⟨referee, [], ANY_AVAILABILITY⟩]

private theorem mayTake_lonePool (referee : String) (switches : RefereeSwitches) :
    (slateWith referee).MayTake [] switches lonePool ⟨referee, [], ANY_AVAILABILITY⟩ := by
  refine ⟨"table", fun hLevel => ?_⟩
  have hList : (slateWith referee).commitments [] =
      [.fight ⟨"lea", some ⟨0, 600000⟩, "Longsword · Pool A", "a1", some "a"⟩,
        .fight ⟨"marc", some ⟨0, 600000⟩, "Longsword · Pool A", "a1", some "a"⟩,
        .fightPool ⟨"lea", some ⟨0, 600000⟩, "Longsword · Pool A", "a"⟩,
        .fightPool ⟨"marc", some ⟨0, 600000⟩, "Longsword · Pool A", "a"⟩] := by
    change fightCommitments some [lonePool] ++ groupCommitments some [lonePool] ++ [] = _
    decide
  rcases level_impossible_iff.mp hLevel with ⟨c, hMem, -, hBlocks⟩ | hAway
  · rw [hList] at hMem
    simp only [List.mem_cons, List.not_mem_nil, or_false] at hMem
    rcases hMem with rfl | rfl | rfl | rfl <;> simp [Blocks, unitTarget, lonePool] at hBlocks
  · simp [isAvailableFor, ANY_AVAILABILITY] at hAway

/-- At every instant the one referee makes a crew for the one Pool. -/
private theorem crewed_lonePool {referee : String}
    {Eligible : AssignmentBoardPool plainClock → RefereeForCapacity → Prop} (t : ℤ)
    (h : Eligible lonePool ⟨referee, [], ANY_AVAILABILITY⟩) :
    ∃ crews, (slateWith referee).Crewed Eligible t crews := by
  have hRunning : (slateWith referee).runningAt t = [lonePool] ∨
      (slateWith referee).runningAt t = [] := by
    rw [Slate.runningAt, slateWith]
    cases hRuns : (unitWindowMs plainClock lonePool.bouts).any fun w =>
      w.startMs ≤ t && t < w.endMs <;> simp [hRuns]
  rcases hRunning with hRunning | hRunning
  · refine ⟨[[⟨referee, [], ANY_AVAILABILITY⟩]], ?_, by simp⟩
    rw [hRunning]
    exact .cons ⟨rfl, by simpa [slateWith] using h⟩ .nil
  · refine ⟨[], ?_, by simp⟩
    rw [hRunning]
    exact .nil

/-- A referee from outside staffs the lone Pool, and nothing is told. -/
theorem Slate.warnings_eq_nil_lonePool : (slateWith "zoe").warnings = [] := by
  refine Slate.warnings_eq_nil (slateWith "zoe") [] ⟨true, true, true, true, 1, 8⟩ ?_ fun t => ?_
  · intro ref hRef days hSome
    obtain rfl := List.mem_singleton.mp hRef
    cases hSome
  · refine crewed_lonePool t ⟨mayTake_lonePool "zoe" _, fun unit hUnit => ?_⟩
    obtain rfl := List.mem_singleton.mp (mem_runningAt.mp hUnit).1
    decide

/-- One who fights in the Pool may referee it for the checker, but not for the sweep. -/
theorem Slate.warnings_ownPool :
    (∀ switches t, ∃ crews,
      (slateWith "lea").Crewed ((slateWith "lea").MayTake [] switches) t crews) ∧
      (slateWith "lea").warnings = [⟨0, 600000, 1, 1, 0⟩] := by
  refine ⟨fun switches t => crewed_lonePool t (mayTake_lonePool "lea" switches), ?_⟩
  have hEdges : edges plainClock.getTime (slatePools (slateWith "lea").units
      (slateWith "lea").personIdByRegistration (slateWith "lea").roleSlotCountOf) = [0, 600000] :=
    List.mergeSort_of_pairwise (by decide)
  rw [Slate.warnings, detectConcurrencyShortage, hEdges]
  decide

end MyClash.Referees
