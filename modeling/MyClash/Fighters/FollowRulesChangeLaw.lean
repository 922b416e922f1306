import MyClash.Fighters.FollowRulesChange

/-!
# What the follow of a rules change guarantees

Over every world: whatever the database answers, whichever settles and reads fail, and whatever
others write in between.
-/

namespace MyClash.Fighters

open StableSort

universe u v w

/-! ## The database's own answers -/

section Database

variable {ω : Type w} {υ : Type u} {τ : Type v} [LinearOrder υ] [LinearOrder τ]

theorem mem_fighters_status_under {db : Tables υ τ} {registrations : List (RegistrationRow υ)}
    {tournament : υ} {before after : SettleRules} {also : List υ} {row : StatusRow υ τ}
    (h : row ∈ fighters_status_under db registrations tournament before after also) :
    ∃ r ∈ registrations, r.tournament_id = tournament ∧ r.id = row.registration_id := by
  rw [fighters_status_under, mem_sortWith, List.mem_filter, List.mem_map] at h
  obtain ⟨⟨r, hr, rfl⟩, -⟩ := h
  obtain ⟨hMem, hOf⟩ := List.mem_filter.mp hr
  exact ⟨r, hMem, of_decide_eq_true hOf, rfl⟩

theorem fighters_status_under_also {db : Tables υ τ} {registrations : List (RegistrationRow υ)}
    {tournament : υ} (before after : SettleRules) {also : List υ} {r : RegistrationRow υ}
    (hMem : r ∈ registrations) (hOf : r.tournament_id = tournament) (hAlso : r.id ∈ also) :
    ∃ row ∈ fighters_status_under db registrations tournament before after also,
      row.registration_id = r.id := by
  refine ⟨_, mem_sortWith.mpr (List.mem_filter.mpr
    ⟨List.mem_map.mpr ⟨r, List.mem_filter.mpr ⟨hMem, decide_eq_true hOf⟩, rfl⟩, ?_⟩), rfl⟩
  exact decide_eq_true (.inr (.inr hAlso))

/-- A Tournament whose Registrations stay while their statuses move. -/
def databaseAnswers (db : ω → Tables υ τ) (rows : ω → List (RegistrationRow υ)) (tournament : υ)
    (registrations : List υ)
    (hStay : ∀ world, ((rows world).filter fun r => r.tournament_id = tournament).map (·.id) =
      registrations) : StatusAnswers ω υ τ where
  registrations := registrations
  answer world := fighters_status_under (db world) (rows world) tournament
  inTournament world before after also row hRow := by
    obtain ⟨r, hr, hOf, hId⟩ := mem_fighters_status_under hRow
    rw [← hStay world, ← hId]
    exact List.mem_map_of_mem (List.mem_filter.mpr ⟨hr, decide_eq_true hOf⟩)
  also_named world before after also id hAlso hIn := by
    rw [← hStay world, List.mem_map] at hIn
    obtain ⟨r, hr, rfl⟩ := hIn
    obtain ⟨hMem, hOf⟩ := List.mem_filter.mp hr
    exact fighters_status_under_also before after hMem (of_decide_eq_true hOf) hAlso

end Database

/-! ## One loop -/

section Loops

variable {ω : Type w} {υ : Type u} {τ : Type v} [DecidableEq υ]
variable {deps : FollowDeps ω υ τ} {tournamentId : υ}

def blockedOf (decided : List (Decided ω υ τ)) : List υ :=
  (decided.filter fun d => d.fate ≠ .settled).map (·.row.registration_id)

def settledOf (decided : List (Decided ω υ τ)) : List υ :=
  (decided.filter fun d => d.fate = .settled).map (·.row.registration_id)

/-- Two Fighters of one unfought bout. -/
def Shares (deps : FollowDeps ω υ τ) (tournamentId : υ) (world : ω) (a b : υ) : Prop :=
  a ≠ b ∧ ∃ bout ∈ unfoughtAt deps tournamentId world b, bout.2.has a = true

/-- No Fighter going out was settled over one that failed or was held before them on a bout of
both. -/
def HeldBack (deps : FollowDeps ω υ τ) (tournamentId : υ) (decided : List (Decided ω υ τ)) : Prop :=
  ∀ before d after, decided = before ++ d :: after → d.row.goesOut = true → d.fate ≠ .held →
    ∀ earlier ∈ before, earlier.fate ≠ .settled →
      ¬ Shares deps tournamentId d.world earlier.row.registration_id d.row.registration_id

theorem HeldBack.concat {decided : List (Decided ω υ τ)} {d : Decided ω υ τ}
    (h : HeldBack deps tournamentId decided)
    (hFree : d.row.goesOut = true → d.fate ≠ .held → ∀ id ∈ blockedOf decided,
      ¬ Shares deps tournamentId d.world id d.row.registration_id) :
    HeldBack deps tournamentId (decided ++ [d]) := by
  intro before d' after hSplit hOut hFate earlier hEarlier hBlocked
  rcases List.eq_nil_or_concat after with rfl | ⟨after', last, rfl⟩
  · obtain ⟨rfl, hLast⟩ := List.append_inj' hSplit rfl
    cases hLast
    exact hFree hOut hFate _ (List.mem_map_of_mem
      (List.mem_filter.mpr ⟨hEarlier, decide_eq_true hBlocked⟩))
  · rw [List.concat_eq_append, ← List.cons_append, ← List.append_assoc] at hSplit
    exact h before d' after' (List.append_inj' hSplit rfl).1 hOut hFate earlier hEarlier hBlocked

/-- A loop and the rows it decided so far. -/
structure LoopTold (deps : FollowDeps ω υ τ) (tournamentId : υ) (start : List υ)
    (rows : List (StatusRow υ τ)) (loop : Loop ω υ τ) : Prop where
  rows : loop.decided.map (·.row) = rows
  blocked : loop.blocked = blockedOf loop.decided
  settled : loop.settled = start ++ settledOf loop.decided
  heldBack : HeldBack deps tournamentId loop.decided
  clean : (∀ d ∈ loop.decided, d.fate ≠ .failed) → loop.readFailed = false → loop.blocked = []

theorem LoopTold.start (deps : FollowDeps ω υ τ) (tournamentId : υ) (world : ω) (settled : List υ) :
    LoopTold deps tournamentId settled [] ⟨world, settled, [], false, []⟩ where
  rows := rfl
  blocked := rfl
  settled := (List.append_nil settled).symm
  heldBack before d after h := by
    cases before <;> cases h
  clean _ _ := rfl

variable {start : List υ} {rows : List (StatusRow υ τ)} {loop : Loop ω υ τ}

theorem loopTold_settleRow (h : LoopTold deps tournamentId start rows loop) (row : StatusRow υ τ)
    (hFree : row.goesOut = true → ∀ id ∈ loop.blocked,
      ¬ Shares deps tournamentId loop.world id row.registration_id) :
    LoopTold deps tournamentId start (rows ++ [row]) (settleRow deps loop row) := by
  rw [h.blocked] at hFree
  rw [settleRow]
  split_ifs with hSettled
  · exact
      { rows := by rw [List.map_append, h.rows]; rfl
        blocked := by simp [blockedOf, h.blocked]
        settled := by simp [settledOf, h.settled]
        heldBack := h.heldBack.concat fun hOut _ => hFree hOut
        clean := fun hNone => h.clean fun d hd => hNone d (List.mem_append_left _ hd) }
  · exact
      { rows := by rw [List.map_append, h.rows]; rfl
        blocked := by simp [blockedOf, h.blocked]
        settled := by simp [settledOf, h.settled]
        heldBack := h.heldBack.concat fun hOut _ => hFree hOut
        clean := fun hNone =>
          absurd rfl (hNone _ (List.mem_append_right _ (List.mem_singleton.mpr rfl))) }

theorem not_shares_of_facesBlocked {world : ω} {blocked : List υ} {id : υ}
    (h : facesBlocked deps tournamentId world blocked id = false) :
    ∀ earlier ∈ blocked, ¬ Shares deps tournamentId world earlier id := by
  rintro earlier hEarlier ⟨hNe, bout, hBout, hHas⟩
  have hCorners := List.any_eq_false.mp h bout hBout
  rw [Bool.not_eq_true, List.any_eq_false] at hCorners
  rw [Bout.has, Bool.or_eq_true, decide_eq_true_eq, decide_eq_true_eq] at hHas
  rcases hHas with hRed | hBlue
  · exact hCorners _ List.mem_cons_self (by rw [hRed]; exact decide_eq_true ⟨hNe, hEarlier⟩)
  · exact hCorners _ (List.mem_cons_of_mem _ List.mem_cons_self)
      (by rw [hBlue]; exact decide_eq_true ⟨hNe, hEarlier⟩)

/-- What `isHeld` leaves of the loop, and what it says of the Fighter it lets through. -/
theorem isHeld_spec (h : LoopTold deps tournamentId start rows loop) (id : υ) :
    LoopTold deps tournamentId start rows (isHeld deps tournamentId loop id).2 ∧
      ((isHeld deps tournamentId loop id).1 = false →
        ∀ earlier ∈ (isHeld deps tournamentId loop id).2.blocked,
          ¬ Shares deps tournamentId (isHeld deps tournamentId loop id).2.world earlier id) ∧
      ((isHeld deps tournamentId loop id).1 = true →
        (isHeld deps tournamentId loop id).2.readFailed = true ∨
          (isHeld deps tournamentId loop id).2.blocked ≠ []) := by
  rw [isHeld]
  dsimp only
  split_ifs with hFailed hEmpty hRead
  · exact ⟨h, nofun, fun _ => .inl hFailed⟩
  · refine ⟨h, fun _ earlier hEarlier => ?_, nofun⟩
    rw [List.isEmpty_iff.mp hEmpty] at hEarlier
    cases hEarlier
  · exact ⟨⟨h.rows, h.blocked, h.settled, h.heldBack, h.clean⟩, not_shares_of_facesBlocked,
      fun _ => .inr fun hNil => hEmpty (List.isEmpty_iff.mpr hNil)⟩
  · exact ⟨⟨h.rows, h.blocked, h.settled, h.heldBack, nofun⟩, nofun, fun _ => .inl rfl⟩

theorem loopTold_goOut (h : LoopTold deps tournamentId start rows loop) (row : StatusRow υ τ) :
    LoopTold deps tournamentId start (rows ++ [row]) (goOut deps tournamentId loop row) := by
  obtain ⟨hTold, hFree, hHeld⟩ := isHeld_spec h row.registration_id
  rw [goOut]
  split_ifs with hIs
  · exact
      { rows := by rw [List.map_append, hTold.rows]; rfl
        blocked := by simp [blockedOf, hTold.blocked]
        settled := by simp [settledOf, hTold.settled]
        heldBack := hTold.heldBack.concat fun _ hFate => absurd rfl hFate
        clean := fun hNone hRead => by
          have hBlocked := hTold.clean (fun d hd => hNone d (List.mem_append_left _ hd)) hRead
          rcases hHeld hIs with hFailed | hSome
          · rw [hFailed] at hRead
            cases hRead
          · exact absurd hBlocked hSome }
  · exact loopTold_settleRow hTold row fun _ => hFree (Bool.not_eq_true _ ▸ hIs)

theorem loopTold_foldl {step : Loop ω υ τ → StatusRow υ τ → Loop ω υ τ} {P : StatusRow υ τ → Prop}
    (hStep : ∀ {rows loop} row, P row → LoopTold deps tournamentId start rows loop →
      LoopTold deps tournamentId start (rows ++ [row]) (step loop row)) (list : List (StatusRow υ τ))
    (hAll : ∀ row ∈ list, P row) {rows : List (StatusRow υ τ)} {loop : Loop ω υ τ}
    (h : LoopTold deps tournamentId start rows loop) :
    LoopTold deps tournamentId start (rows ++ list) (list.foldl step loop) := by
  induction list generalizing rows loop with
  | nil => rwa [List.append_nil]
  | cons row list ih =>
    rw [List.foldl_cons, List.append_cons]
    exact ih (fun r hr => hAll r (List.mem_cons_of_mem row hr))
      (hStep row (hAll row List.mem_cons_self) h)

/-- The order of a loop: those going out as given, then those coming back as given. -/
def loopOrder (rows : List (StatusRow υ τ)) : List (StatusRow υ τ) :=
  rows.filter StatusRow.goesOut ++ rows.filter fun row => !row.goesOut

theorem loopTold_settleInOrder (deps : FollowDeps ω υ τ) (tournamentId : υ) (world : ω)
    (rows : List (StatusRow υ τ)) (start : List υ) :
    LoopTold deps tournamentId start (loopOrder rows)
      (settleInOrder deps tournamentId world rows start) := by
  have hOut := loopTold_foldl (P := fun _ => True) (fun row _ h => loopTold_goOut h row)
    (rows.filter StatusRow.goesOut) (fun _ _ => trivial)
    (LoopTold.start deps tournamentId world start)
  rw [settleInOrder]
  refine loopTold_foldl (P := fun row => row.goesOut = false) (fun row hBack h => ?_)
    (rows.filter fun row => !row.goesOut) (fun row hRow => ?_) hOut
  · exact loopTold_settleRow h row fun hGoes => by rw [hBack] at hGoes; cases hGoes
  · simpa using (List.mem_filter.mp hRow).2

/-- A loop none of whose settles and reads failed settled its rows in their order. -/
theorem LoopTold.settled_all (h : LoopTold deps tournamentId start rows loop)
    (hNone : ∀ d ∈ loop.decided, d.fate ≠ .failed) (hRead : loop.readFailed = false) :
    loop.settled = start ++ rows.map (·.registration_id) := by
  have hBlocked : blockedOf loop.decided = [] := h.blocked.symm.trans (h.clean hNone hRead)
  rw [blockedOf, List.map_eq_nil_iff, List.filter_eq_nil_iff] at hBlocked
  have hAll : loop.decided.filter (fun d => d.fate = .settled) = loop.decided :=
    List.filter_eq_self.mpr fun d hd => by simpa using hBlocked d hd
  rw [h.settled, settledOf, hAll, ← h.rows, List.map_map]
  rfl

/-- A Fighter of a loop's rows is settled or blocked by it. -/
theorem LoopTold.settled_or_blocked (h : LoopTold deps tournamentId start rows loop)
    {row : StatusRow υ τ} (hRow : row ∈ rows) :
    row.registration_id ∈ loop.settled ∨ row.registration_id ∈ loop.blocked := by
  rw [← h.rows] at hRow
  obtain ⟨d, hd, rfl⟩ := List.mem_map.mp hRow
  rw [h.settled, h.blocked]
  by_cases hFate : d.fate = .settled
  · exact .inl (List.mem_append_right _ (List.mem_map.mpr
      ⟨d, List.mem_filter.mpr ⟨hd, decide_eq_true hFate⟩, rfl⟩))
  · exact .inr (List.mem_map.mpr ⟨d, List.mem_filter.mpr ⟨hd, decide_eq_true hFate⟩, rfl⟩)

omit [DecidableEq υ] in
theorem mem_loopOrder {rows : List (StatusRow υ τ)} {row : StatusRow υ τ} :
    row ∈ loopOrder rows ↔ row ∈ rows := by
  rw [loopOrder, List.mem_append, List.mem_filter, List.mem_filter]
  cases row.goesOut <;> simp

/-! ## The two loops -/

/-- What holds of a follow, whatever the world does. -/
structure FollowLaw (deps : FollowDeps ω υ τ) (tournamentId : υ) (f : FollowRun ω υ τ) : Prop where
  order1 : f.loop1.decided.map (·.row) = loopOrder (f.first.getD [])
  order2 : f.loop2.decided.map (·.row) = loopOrder f.second
  heldBack : ∀ loop ∈ [f.loop1, f.loop2], HeldBack deps tournamentId loop.decided
  named : ∀ row ∈ f.first.getD [],
    row.registration_id ∈ f.loop2.settled ∨ row.registration_id ∈ f.result.notSettled
  disjoint : ∀ id ∈ f.result.notSettled, id ∉ f.result.inStep
  inOrder : f.result.followFailed = false →
    (∀ d ∈ f.loop1.decided ++ f.loop2.decided, d.fate ≠ .failed) →
    f.loop2.settled =
      (loopOrder (f.first.getD []) ++ loopOrder f.second).map (·.registration_id)

/-- Every Fighter of the first read is one of the Tournament's. -/
theorem first_registered {change : RulesMove} {world : ω} {row : StatusRow υ τ}
    (hRow : row ∈ (followRulesChangeOf deps tournamentId change world).first.getD []) :
    row.registration_id ∈ deps.statuses.registrations := by
  rw [followRulesChangeOf] at hRow
  dsimp only at hRow
  split_ifs at hRow
  · exact deps.statuses.inTournament _ _ _ _ row hRow
  · cases hRow

/-- The second loop tries again whoever the first one left failed or held. -/
theorem second_named {change : RulesMove} {world : ω} {row : StatusRow υ τ}
    (hBlocked : row.registration_id ∈
      (followRulesChangeOf deps tournamentId change world).loop1.blocked)
    (hRow : row ∈ (followRulesChangeOf deps tournamentId change world).first.getD []) :
    ∃ again ∈ (followRulesChangeOf deps tournamentId change world).second,
      again.registration_id = row.registration_id := by
  have hSecond : ∀ {answered : Bool} {answer retried : List (StatusRow υ τ)},
      (∃ again ∈ answer, again.registration_id = row.registration_id) →
      (∃ again ∈ retried, again.registration_id = row.registration_id) →
      ∃ again ∈ if answered then answer else retried,
        again.registration_id = row.registration_id := by
    intro answered answer retried hAnswer hRetried
    cases answered
    · exact hRetried
    · exact hAnswer
  refine hSecond (deps.statuses.also_named _ _ _ _ _ hBlocked (first_registered hRow)) ?_
  -- the read failed: the first read's own row is found again
  have hFound : (((followRulesChangeOf deps tournamentId change world).first.getD []).reverse.find?
      fun other => other.registration_id = row.registration_id).isSome :=
    List.find?_isSome.mpr ⟨row, List.mem_reverse.mpr hRow, decide_eq_true rfl⟩
  obtain ⟨again, hAgain⟩ := Option.isSome_iff_exists.mp hFound
  refine ⟨again, List.mem_filterMap.mpr ⟨row.registration_id, hBlocked, hAgain⟩, ?_⟩
  simpa using List.find?_some hAgain

end Loops

end MyClash.Fighters
