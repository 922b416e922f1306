import MyClash.Programme.BlockMovePlan

/-!
# A day shifted whole or not at all

A plan either writes nothing or carries every bar and every waiting bout after the cut along, and
it is refused when one of them would leave the day. Two things go unseen: a bar that ends before
it starts, tested at one edge of the day for each end, and a clock that changes between a bout's
two times.
-/

namespace MyClash.Programme

open StableSort (sortWith sortWith_perm mem_sortWith)

variable {τ : Type*} (clock : EventClock τ) (input : TimeShift τ)

/-! ## What is to move -/

/-- The bars at or after the cut. A shift of nothing moves none. -/
def barsToMove : List MoveDayBlock :=
  if input.deltaMin = 0 then [] else input.dayBlocks.filter (¬·.startMin < input.fromMin)

/-- The bouts that wait to be fought on the day, at or after the cut, with their instants. -/
def boutsToMove : List (MoveCandidateMatch τ × ℤ) :=
  (input.candidates.filterMap fun candidate => candidate.scheduledAt.map (candidate, ·)).filterMap
    fun timed => (movesAt clock input timed.1 timed.2).map (timed.1, ·)

def InDay (min : ℤ) : Prop := DAY_FIRST_MIN ≤ min ∧ min ≤ DAY_LAST_MIN

def BarLeaves (bar : MoveDayBlock) : Prop :=
  ¬(InDay (bar.startMin + input.deltaMin) ∧ InDay (bar.endMin + input.deltaMin))

def BoutLeaves (atMs : ℤ) : Prop :=
  clock.dayAt (shiftedMs input atMs) ≠ input.blockDateIso

/-- The plan moves what is to move by the shift, and nothing else. -/
structure Whole (plan : BlockMovePlan τ) : Prop where
  bars : plan.blockShifts = (barsToMove input).map fun bar =>
    ⟨bar.id, bar.startMin + input.deltaMin, bar.endMin + input.deltaMin⟩
  inDay : ∀ bar ∈ barsToMove input, InDay (bar.startMin + input.deltaMin) ∧
    InDay (bar.endMin + input.deltaMin)
  bouts : plan.matchShifts.Perm ((boutsToMove clock input).map fun bout =>
    ⟨bout.1.id, clock.toISOString (shiftedMs input bout.2)⟩)
  onClock : ∀ bout ∈ boutsToMove clock input,
    clock.wallMs (shiftedMs input bout.2) = clock.wallMs bout.2 + input.deltaMin * 60000
  onDay : ∀ bout ∈ boutsToMove clock input,
    clock.dayAt (shiftedMs input bout.2) = input.blockDateIso

structure ShiftLaw : Prop where
  nothing : (planTimeShift clock input).refusal.isSome →
    (planTimeShift clock input).matchShifts = [] ∧ (planTimeShift clock input).blockShifts = []
  whole : (planTimeShift clock input).refusal = none → Whole clock input (planTimeShift clock input)
  refused_iff : (planTimeShift clock input).refusal.isSome ↔
    (∃ bar ∈ barsToMove input, BarLeaves input bar) ∨
      ∃ bout ∈ boutsToMove clock input, BoutLeaves clock input bout.2

/-- A bar to move would start before 00:00 or end past 23:59, or a bout would change its day. -/
def SeenLeaving : Prop :=
  (∃ bar ∈ barsToMove input, bar.startMin + input.deltaMin < DAY_FIRST_MIN ∨
      DAY_LAST_MIN < bar.endMin + input.deltaMin) ∨
    ∃ bout ∈ boutsToMove clock input, BoutLeaves clock input bout.2

/-- No bar to move leaves the day by its other end, and the Event's clock does not change between
a bout's two times. -/
structure Steady : Prop where
  bars : ∀ bar ∈ barsToMove input, bar.startMin + input.deltaMin ≤ DAY_LAST_MIN ∧
    DAY_FIRST_MIN ≤ bar.endMin + input.deltaMin
  offset : ∀ bout ∈ boutsToMove clock input,
    clock.offsetMs (shiftedMs input bout.2) = clock.offsetMs bout.2

variable {clock input}

/-! ## The bars -/

theorem isSome_barCrossing_iff {bar : MoveDayBlock} :
    (barCrossing input bar).isSome ↔ bar.startMin + input.deltaMin < DAY_FIRST_MIN ∨
      DAY_LAST_MIN < bar.endMin + input.deltaMin := by
  have hEnd : bar.startMin + input.deltaMin + (bar.endMin - bar.startMin) =
      bar.endMin + input.deltaMin := by omega
  simp only [barCrossing, hEnd]
  split_ifs <;> simp_all

theorem isSome_firstBarPastMidnight_iff :
    (firstBarPastMidnight input).isSome ↔
      ∃ bar ∈ barsToMove input, (barCrossing input bar).isSome := by
  rw [firstBarPastMidnight, barsToMove]
  split_ifs with hZero
  · simp
  · rw [List.isSome_findSome?, List.any_eq_true]
    simp [List.mem_filter, mem_sortWith]

/-- Past the refusal no bar reaches the clamp. -/
theorem shiftBlocksFrom_eq
    (h : ∀ bar ∈ barsToMove input, DAY_FIRST_MIN ≤ bar.startMin + input.deltaMin) :
    shiftBlocksFrom (input.dayBlocks.map (·.toCascadeBlock)) input.fromMin input.deltaMin 0 =
      (barsToMove input).map fun bar =>
        ⟨bar.id, bar.startMin + input.deltaMin, bar.endMin + input.deltaMin⟩ := by
  rw [shiftBlocksFrom, barsToMove]
  rw [barsToMove] at h
  split_ifs with hZero
  · rfl
  · rw [if_neg hZero] at h
    rw [List.filter_map, List.map_map]
    refine List.map_congr_left fun bar hBar => ?_
    have hFirst : (0 : ℤ) ≤ bar.startMin + input.deltaMin := h bar hBar
    simp only [Function.comp_apply, max_eq_right hFirst, CascadeBlock.mk.injEq, true_and]
    omega

/-! ## The bouts -/

/-- The bouts that move are those the loop finds, in the order of their timestamps. -/
theorem boutsToMove_perm :
    ((timedCandidates clock input).filterMap fun timed =>
      (movesAt clock input timed.1 timed.2).map (timed.1, ·)).Perm (boutsToMove clock input) :=
  (sortWith_perm _).filterMap _

theorem forall_boutsToMove_iff {Holds : ℤ → Prop} :
    (∀ bout ∈ boutsToMove clock input, Holds bout.2) ↔
      ∀ timed ∈ timedCandidates clock input, ∀ atMs,
        movesAt clock input timed.1 timed.2 = some atMs → Holds atMs := by
  simp only [← boutsToMove_perm.mem_iff, List.mem_filterMap, Option.map_eq_some_iff]
  constructor
  · intro h timed hTimed atMs hMoves
    exact h _ ⟨timed, hTimed, atMs, hMoves, rfl⟩
  · rintro h _ ⟨timed, hTimed, atMs, hMoves, rfl⟩
    exact h timed hTimed atMs hMoves

/-- While no bout leaves the day, the loop shifts each bout that moves. -/
theorem shiftLoop_stays {l : List (MoveCandidateMatch τ × τ)}
    (shifts : List (PlannedMatchShift τ))
    (h : ∀ timed ∈ l, ∀ atMs, movesAt clock input timed.1 timed.2 = some atMs →
      ¬BoutLeaves clock input atMs) :
    shiftLoop clock input shifts l = (shifts ++ l.filterMap fun timed =>
      (movesAt clock input timed.1 timed.2).map fun atMs =>
        ⟨timed.1.id, clock.toISOString (shiftedMs input atMs)⟩, none) := by
  induction l generalizing shifts with
  | nil => simp [shiftLoop]
  | cons timed rest ih =>
    have hRest := fun shifts => ih shifts fun t ht => h t (List.mem_cons_of_mem timed ht)
    rw [shiftLoop]
    cases hMoves : movesAt clock input timed.1 timed.2 with
    | none => simp [hRest, hMoves]
    | some atMs =>
      have hStays := h timed List.mem_cons_self atMs hMoves
      refine (if_neg hStays).trans ((hRest _).trans ?_)
      simp [hMoves]

/-- A bout that leaves the day ends the loop, with no shift kept. -/
theorem shiftLoop_leaves {l : List (MoveCandidateMatch τ × τ)}
    (shifts : List (PlannedMatchShift τ))
    (h : ∃ timed ∈ l, ∃ atMs, movesAt clock input timed.1 timed.2 = some atMs ∧
      BoutLeaves clock input atMs) :
    ∃ crossing, shiftLoop clock input shifts l = ([], some crossing) := by
  induction l generalizing shifts with
  | nil => simp at h
  | cons timed rest ih =>
    rw [shiftLoop]
    cases hMoves : movesAt clock input timed.1 timed.2 with
    | none =>
      obtain ⟨leaver, hMem, atMs, hAt, hLeaves⟩ := h
      rcases List.mem_cons.mp hMem with rfl | hRest
      · cases hMoves.symm.trans hAt
      · exact ih shifts ⟨leaver, hRest, atMs, hAt, hLeaves⟩
    | some first =>
      by_cases hFirst : BoutLeaves clock input first
      · exact ⟨_, if_pos hFirst⟩
      · obtain ⟨leaver, hMem, atMs, hAt, hLeaves⟩ := h
        rcases List.mem_cons.mp hMem with rfl | hRest
        · obtain rfl := Option.some.inj (hMoves.symm.trans hAt)
          exact absurd hLeaves hFirst
        · obtain ⟨crossing, hCrossing⟩ := ih (shifts ++
            [⟨timed.1.id, clock.toISOString (shiftedMs input first)⟩])
            ⟨leaver, hRest, atMs, hAt, hLeaves⟩
          exact ⟨crossing, (if_neg hFirst).trans hCrossing⟩

theorem planMatchShifts_stays
    (h : ∀ bout ∈ boutsToMove clock input, ¬BoutLeaves clock input bout.2) :
    ∃ shifts, planMatchShifts clock input = (shifts, none) ∧
      shifts.Perm ((boutsToMove clock input).map fun bout =>
        ⟨bout.1.id, clock.toISOString (shiftedMs input bout.2)⟩) := by
  refine ⟨_, shiftLoop_stays [] (forall_boutsToMove_iff.mp h), ?_⟩
  have hPerm := (@boutsToMove_perm τ clock input).map fun bout =>
    (⟨bout.1.id, clock.toISOString (shiftedMs input bout.2)⟩ : PlannedMatchShift τ)
  rw [List.map_filterMap] at hPerm
  simpa [Function.comp_def] using hPerm

theorem planMatchShifts_leaves
    (h : ∃ bout ∈ boutsToMove clock input, BoutLeaves clock input bout.2) :
    ∃ crossing, planMatchShifts clock input = ([], some crossing) := by
  refine shiftLoop_leaves [] ?_
  by_contra hNone
  push Not at hNone
  obtain ⟨bout, hMem, hLeaves⟩ := h
  have hStays : ∀ bout ∈ boutsToMove clock input, ¬BoutLeaves clock input bout.2 :=
    forall_boutsToMove_iff.mpr hNone
  exact hStays bout hMem hLeaves

/-! ## The plan -/

/-- The plan is refused when something is seen leaving the day, and then it is empty. -/
theorem planTimeShift_cases :
    (SeenLeaving clock input ∧ ∃ crossing,
        planTimeShift clock input = refusedPlan input crossing) ∨
      ¬SeenLeaving clock input ∧ ∃ shifts,
        planTimeShift clock input = ⟨shifts, (barsToMove input).map fun bar =>
          ⟨bar.id, bar.startMin + input.deltaMin, bar.endMin + input.deltaMin⟩, none⟩ ∧
        shifts.Perm ((boutsToMove clock input).map fun bout =>
          ⟨bout.1.id, clock.toISOString (shiftedMs input bout.2)⟩) := by
  rw [planTimeShift, SeenLeaving]
  cases hBar : firstBarPastMidnight input with
  | some crossing =>
    obtain ⟨bar, hMem, hSeen⟩ := isSome_firstBarPastMidnight_iff.mp
      (Option.isSome_of_eq_some hBar)
    exact Or.inl ⟨Or.inl ⟨bar, hMem, isSome_barCrossing_iff.mp hSeen⟩, crossing, rfl⟩
  | none =>
    have hBars : ¬∃ bar ∈ barsToMove input, bar.startMin + input.deltaMin < DAY_FIRST_MIN ∨
        DAY_LAST_MIN < bar.endMin + input.deltaMin := by
      rintro ⟨bar, hMem, hSeen⟩
      have hSome := isSome_firstBarPastMidnight_iff.mpr
        ⟨bar, hMem, isSome_barCrossing_iff.mpr hSeen⟩
      rw [hBar] at hSome
      cases hSome
    by_cases hBout : ∃ bout ∈ boutsToMove clock input, BoutLeaves clock input bout.2
    · obtain ⟨crossing, hPlan⟩ := planMatchShifts_leaves hBout
      rw [hPlan]
      exact Or.inl ⟨Or.inr hBout, crossing, rfl⟩
    · push Not at hBars
      obtain ⟨shifts, hPlan, hPerm⟩ := planMatchShifts_stays fun bout hMem hLeaves =>
        hBout ⟨bout, hMem, hLeaves⟩
      refine Or.inr ⟨?_, shifts, ?_, hPerm⟩
      · push Not
        exact ⟨hBars, fun bout hMem hLeaves => hBout ⟨bout, hMem, hLeaves⟩⟩
      · rw [hPlan, shiftBlocksFrom_eq fun bar hMem => (hBars bar hMem).1]

theorem wallMs_shifted_iff {atMs : ℤ} :
    clock.wallMs (shiftedMs input atMs) = clock.wallMs atMs + input.deltaMin * 60000 ↔
      clock.offsetMs (shiftedMs input atMs) = clock.offsetMs atMs := by
  rw [EventClock.wallMs, EventClock.wallMs, shiftedMs]
  omega

variable (clock input) in
/-- The shift is whole or refused, and refused when something would leave the day, just when
something is seen leaving it or nothing goes unseen. -/
theorem shiftLaw_iff : ShiftLaw clock input ↔ SeenLeaving clock input ∨ Steady clock input := by
  rcases planTimeShift_cases with ⟨hSeen, crossing, hPlan⟩ | ⟨hUnseen, shifts, hPlan, hPerm⟩
  · refine iff_of_true ⟨?_, ?_, ?_⟩ (Or.inl hSeen)
    · rw [hPlan]
      exact fun _ => ⟨rfl, rfl⟩
    · rw [hPlan]
      exact nofun
    · rw [hPlan]
      refine iff_of_true rfl (hSeen.imp ?_ id)
      rintro ⟨bar, hMem, hEdge⟩
      refine ⟨bar, hMem, fun hInside => ?_⟩
      rcases hEdge with hEdge | hEdge
      · exact absurd hInside.1.1 (not_le.mpr hEdge)
      · exact absurd hInside.2.2 (not_le.mpr hEdge)
  · have hInDay (hSteady : Steady clock input) : ∀ bar ∈ barsToMove input,
        InDay (bar.startMin + input.deltaMin) ∧ InDay (bar.endMin + input.deltaMin) := by
      intro bar hMem
      have hEdges : ¬(bar.startMin + input.deltaMin < DAY_FIRST_MIN ∨
          DAY_LAST_MIN < bar.endMin + input.deltaMin) :=
        fun hEdge => hUnseen (Or.inl ⟨bar, hMem, hEdge⟩)
      push Not at hEdges
      obtain ⟨hStart, hEnd⟩ := hSteady.bars bar hMem
      exact ⟨⟨hEdges.1, hStart⟩, ⟨hEnd, hEdges.2⟩⟩
    constructor
    · intro h
      have hWhole := h.whole (by rw [hPlan])
      refine Or.inr ⟨fun bar hMem => ?_, fun bout hMem => ?_⟩
      · obtain ⟨hStart, hEnd⟩ := hWhole.inDay bar hMem
        exact ⟨hStart.2, hEnd.1⟩
      · exact wallMs_shifted_iff.mp (hWhole.onClock bout hMem)
    · rintro (hSeen | hSteady)
      · exact absurd hSeen hUnseen
      · refine ⟨?_, fun _ => ?_, ?_⟩
        · rw [hPlan]
          exact nofun
        · rw [hPlan]
          exact ⟨rfl, hInDay hSteady, hPerm,
            fun bout hMem => wallMs_shifted_iff.mpr (hSteady.offset bout hMem),
            fun bout hMem => not_not.mp fun hLeaves => hUnseen (Or.inr ⟨bout, hMem, hLeaves⟩)⟩
        · rw [hPlan]
          refine iff_of_false nofun ?_
          rintro (⟨bar, hMem, hLeaves⟩ | hLeaves)
          · exact hLeaves (hInDay hSteady bar hMem)
          · exact hUnseen (Or.inr hLeaves)

/-- Paris around 28 March 2027: at 01:00 UTC its clock goes from 02:00 to 03:00. -/
private def paris : EventClock ℤ where
  dateParse := some
  toISOString := id
  dateParse_toISOString _ := rfl
  offsetMs ms := if ms < 1806195600000 then 3600000 else 7200000
  dayName day := if day = 20905 then "2027-03-28" else "another day"
  localeCompare := compare

/-- The night's bar and the bout under it at 01:30, an hour later. -/
private def springForward : TimeShift ℤ where
  action := "Pushing the day back"
  deltaMin := 60
  fromMin := 60
  blockDateIso := "2027-03-28"
  dayBlocks := [⟨⟨"night", 90, 150⟩, "Night"⟩]
  candidates := [⟨"m1", some 1806193800000, "scheduled", none⟩]

/-- The bar goes from 01:30 to 02:30 and its bout to 03:30. -/
theorem shiftLaw_springForward : ¬ShiftLaw paris springForward := by
  intro h
  have hPlan : (planTimeShift paris springForward).refusal = none := by decide
  have hMoves : (⟨"m1", some 1806193800000, "scheduled", none⟩, 1806193800000) ∈
      boutsToMove paris springForward := by decide
  have hClock := (h.whole hPlan).onClock _ hMoves
  revert hClock
  decide

end MyClash.Programme
