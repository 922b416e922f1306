import MyClash.Pad.SeriesMemory

/-!
# The view never goes back

The rows of a queue taken one by one, over a server's row that is not read again: the screen never
goes back a stage and never changes a winner it has shown, as long as what is left of the queue
keeps the tablet in the round it stood in.
-/

namespace MyClash.Pad

open MatchFormat StableSort Scoring
open PadSeriesArgs (known)

universe u v w

/-! ## The rounds a list holds -/

def rowsAt (closed : List PadRound) (round : ℕ) : List PadRound :=
  closed.filter fun row => row.round = round

/-- Every round of the first list is in the second, as it was. -/
def Keeps (closed closed' : List PadRound) : Prop :=
  ∀ round, rowsAt closed round ≠ [] → rowsAt closed' round = rowsAt closed round

theorem Keeps.refl (closed : List PadRound) : Keeps closed closed := fun _ _ => rfl

theorem Keeps.trans {a b c : List PadRound} (hab : Keeps a b) (hbc : Keeps b c) : Keeps a c := by
  intro round h
  have hB : rowsAt b round = rowsAt a round := hab round h
  rw [hbc round (hB ▸ h), hB]

theorem known_iff {closed : List PadRound} {round : ℕ} :
    known closed round = true ↔ rowsAt closed round ≠ [] := by
  rw [known, rowsAt, List.any_eq_true, ne_eq, List.filter_eq_nil_iff]
  push Not
  rfl

theorem rowsAt_ne_nil {closed : List PadRound} {row : PadRound} (h : row ∈ closed) :
    rowsAt closed row.round ≠ [] :=
  List.ne_nil_of_mem (List.mem_filter.mpr ⟨h, decide_eq_true rfl⟩)

theorem rowsAt_append (a b : List PadRound) (round : ℕ) :
    rowsAt (a ++ b) round = rowsAt a round ++ rowsAt b round := List.filter_append ..

theorem Keeps.known {a b : List PadRound} (h : Keeps a b) {round : ℕ}
    (hKnown : known a round = true) : known b round = true := by
  rw [known_iff] at hKnown ⊢
  rwa [h round hKnown]

theorem count_rowsAt (closed : List PadRound) (row : PadRound) :
    (rowsAt closed row.round).count row = closed.count row :=
  List.count_filter (decide_eq_true rfl)

theorem Keeps.subperm {a b : List PadRound} (h : Keeps a b) : a.Subperm b := by
  rw [List.subperm_ext_iff]
  intro row hRow
  rw [← count_rowsAt a, ← count_rowsAt b, h row.round (rowsAt_ne_nil hRow)]

theorem seriesOf_isOver {closed : List PadRound} {bestOf : ℕ} :
    (seriesOf closed bestOf).isOver = true ↔
      (clinched (closed.map PadRound.counted) bestOf = true ∨ max 1 bestOf ≤ closed.length) := by
  simp only [seriesOf, seriesResult, Bool.or_eq_true, Bool.and_eq_true, Bool.not_eq_true',
    decide_eq_true_eq, List.length_map, ge_iff_le]
  constructor
  · rintro (h | ⟨-, h⟩)
    · exact .inl h
    · exact .inr h
  · rintro (h | h)
    · exact .inl h
    · cases hClinched : clinched (closed.map PadRound.counted) bestOf with
      | true => exact .inl rfl
      | false => exact .inr ⟨rfl, h⟩

/-- A series stays over when rounds are added. -/
theorem Keeps.isOver {a b : List PadRound} (h : Keeps a b) {bestOf : ℕ}
    (hOver : (seriesOf a bestOf).isOver = true) : (seriesOf b bestOf).isOver = true := by
  have hSub := h.subperm
  have hWins : ∀ color, roundWins (a.map PadRound.counted) color ≤
      roundWins (b.map PadRound.counted) color := by
    intro color
    rw [roundWins, roundWins, List.countP_map, List.countP_map]
    exact hSub.countP_le _
  rw [seriesOf_isOver] at hOver ⊢
  refine hOver.imp (fun hClinched => ?_) fun hSpent => hSpent.trans hSub.length_le
  rw [clinched, Bool.or_eq_true, decide_eq_true_eq, decide_eq_true_eq] at hClinched ⊢
  exact hClinched.imp (fun hRed => hRed.trans (hWins .red)) fun hBlue => hBlue.trans (hWins .blue)

/-! ## The winners a view shows -/

def winnerShown (view : PadSeries) (round : ℕ) : Option (Option Color) :=
  (view.closed.find? fun row => row.round = round).map (·.winnerColor)

/-- A later view is at no earlier stage, and gives each round shown closed the winner it had. -/
structure NotBack (before after : PadSeries) : Prop where
  stage_le : stage before ≤ stage after
  winner : ∀ round winner, winnerShown before round = some winner →
    winnerShown after round = some winner

theorem winnerShown_eq (view : PadSeries) (round : ℕ) :
    winnerShown view round = (rowsAt view.closed round).head?.map (·.winnerColor) := by
  rw [winnerShown, rowsAt, List.head?_filter]

theorem Keeps.winner {before after : PadSeries} (h : Keeps before.closed after.closed)
    (round : ℕ) (winner : Option Color) (hShown : winnerShown before round = some winner) :
    winnerShown after round = some winner := by
  rw [winnerShown_eq] at hShown ⊢
  have hRows : rowsAt before.closed round ≠ [] := by
    intro hNil
    rw [hNil] at hShown
    cases hShown
  rwa [h round hRows]

/-! ## The view computed now -/

section Now

variable {ι : Type u} [DecidableEq ι] (upperTrimmed : String → String) (args : PadSeriesArgs ι)

abbrev PadSeriesArgs.fromServer : List PadRound := serverRounds args.server.roundsJson

theorem saidBy_of_mem_serverRounds {roundsJson : List RoundJson} {row : PadRound}
    (h : row ∈ serverRounds roundsJson) : row.saidBy = .server := by
  rw [serverRounds, mem_sortWith, List.mem_filterMap] at h
  obtain ⟨raw, -, hRow⟩ := h
  rw [RoundJson.padRound?, Option.map_eq_some_iff] at hRow
  obtain ⟨round, -, rfl⟩ := hRow
  rfl

/-- The server's rounds, and behind them rounds of the tablet up to `last`. -/
def Extends (fromServer : List PadRound) (last : ℕ) (closed : List PadRound) : Prop :=
  ∃ own, closed = fromServer ++ own ∧
    ∀ row ∈ own, row.saidBy = .tablet ∧ row.round ≤ last ∧ known fromServer row.round = false

theorem Extends.refl (fromServer : List PadRound) (last : ℕ) :
    Extends fromServer last fromServer :=
  ⟨[], (List.append_nil _).symm, nofun⟩

theorem Extends.concat {fromServer closed : List PadRound} {last : ℕ} {row : PadRound}
    (h : Extends fromServer last closed) (hTablet : row.saidBy = .tablet)
    (hLast : row.round ≤ last) (hNew : known closed row.round = false) :
    Extends fromServer last (closed ++ [row]) := by
  obtain ⟨own, rfl, hOwn⟩ := h
  refine ⟨own ++ [row], List.append_assoc .., fun r hr => ?_⟩
  rcases List.mem_append.mp hr with hr | hr
  · exact hOwn r hr
  · cases List.mem_singleton.mp hr
    rw [known, List.any_append, Bool.or_eq_false_iff] at hNew
    exact ⟨hTablet, hLast, hNew.1⟩

omit [DecidableEq ι] in
@[simp] theorem tabletRound_round (count : RoundCount) :
    (args.tabletRound upperTrimmed count).round = count.round := by
  rw [PadSeriesArgs.tabletRound]
  dsimp only
  split <;> rfl

omit [DecidableEq ι] in
@[simp] theorem tabletRound_saidBy (count : RoundCount) :
    (args.tabletRound upperTrimmed count).saidBy = .tablet := by
  rw [PadSeriesArgs.tabletRound]
  dsimp only
  split <;> rfl

@[simp] theorem roundCount_round (round serverRound : ℕ) :
    (args.roundCount round serverRound).round = round := rfl

theorem le_foldl_max (l : List ℕ) (n : ℕ) : n ≤ l.foldl max n := by
  induction l generalizing n with
  | nil => exact le_rfl
  | cons a l ih => exact (Nat.le_max_left n a).trans (ih (max n a))

omit [DecidableEq ι] in
theorem currentRound_le_openRound : args.server.currentRound ≤ args.openRound :=
  le_foldl_max _ _

theorem passed_extends (fromServer : List PadRound) :
    Extends fromServer args.openRound (args.passed upperTrimmed fromServer) := by
  rw [PadSeriesArgs.passed]
  refine List.foldlRecOn _ _ (.refl fromServer _) fun closed hClosed round hRound => ?_
  split_ifs with hKnown
  · exact hClosed
  · have hLast : round ≤ args.openRound := by
      have hRange := List.mem_range'_1.mp hRound
      omega
    exact hClosed.concat (by simp) (by simpa using hLast) (by simpa using hKnown)

theorem closedOnPad_extends (fromServer : List PadRound) :
    Extends fromServer args.openRound (args.closedOnPad upperTrimmed fromServer) := by
  rw [PadSeriesArgs.closedOnPad]
  split_ifs with hEnds
  · have hNew := (Bool.and_eq_true _ _ ▸ hEnds).1
    refine (passed_extends upperTrimmed args fromServer).concat (by simp) (by simp) ?_
    simpa using hNew
  · exact passed_extends upperTrimmed args fromServer

/-- A tablet that opened no round of its own has closed none but the server's open one. -/
theorem closedOnPad_of_open {fromServer : List PadRound}
    (h : args.openRound = args.server.currentRound) :
    args.closedOnPad upperTrimmed fromServer = fromServer ∨
      known (args.closedOnPad upperTrimmed fromServer) args.openRound = true := by
  have hPassed : args.passed upperTrimmed fromServer = fromServer := by
    rw [PadSeriesArgs.passed, h, Nat.sub_self]
    rfl
  rw [PadSeriesArgs.closedOnPad, hPassed]
  split_ifs
  · exact .inr (by simp [known])
  · exact .inl rfl

theorem Extends.keeps {fromServer closed : List PadRound} {last : ℕ}
    (h : Extends fromServer last closed) : Keeps fromServer closed := by
  obtain ⟨own, rfl, hOwn⟩ := h
  intro round hRound
  have hNone : rowsAt own round = [] := by
    refine List.filter_eq_nil_iff.mpr fun row hRow hAt => ?_
    have hNew := (hOwn row hRow).2.2
    rw [of_decide_eq_true hAt, known_iff.mpr hRound] at hNew
    cases hNew
  rw [rowsAt_append, hNone, List.append_nil]

/-- The rounds of the server's row, as a view of the server's shows them. -/
def PadSeriesArgs.seenClosed : List PadRound := if args.bestOf ≤ 1 then [] else args.fromServer

/-- The server's row says that its round is closed. -/
def PadSeriesArgs.serverClosed : Bool :=
  (args.server.awaitingRoundAdvance && !args.server.isOver) ||
    (seriesOf args.fromServer args.bestOf).isOver

def PadSeriesArgs.seenStage : ℕ :=
  if args.bestOf ≤ 1 then 2
  else args.server.currentRound * 2 + if args.serverClosed then 1 else 0

structure OfServer (view : PadSeries) : Prop where
  saidBy : view.saidBy = .server
  closed : view.closed = args.seenClosed
  stage : stage view = args.seenStage

/-- A view that holds the server's rounds and the tablet's own, and is ahead of the server. -/
structure OfTablet (view : PadSeries) : Prop where
  saidBy : view.saidBy = .tablet
  series : 1 < args.bestOf
  keeps : Keeps args.fromServer view.closed
  own : ∀ row ∈ view.closed, known args.fromServer row.round = false →
    row.saidBy = .tablet ∧ row.round ≤ view.round
  closed : (view.awaitingStart || view.decided.isSome) =
    (known view.closed view.round || (seriesOf view.closed args.bestOf).isOver)
  front : args.server.currentRound < view.round ∨
    args.server.currentRound = view.round ∧ known view.closed view.round = true

omit [DecidableEq ι] in
theorem standing_closed (on : RoundCount) (closed : List PadRound) (saidBy : SaidBy) :
    ((args.standing on closed saidBy).awaitingStart ||
        (args.standing on closed saidBy).decided.isSome) =
      ((match saidBy with
        | .server => args.server.awaitingRoundAdvance && !args.server.isOver
        | .tablet => known closed on.round) || (seriesOf closed args.bestOf).isOver) := by
  simp only [PadSeriesArgs.standing, known]
  cases (seriesOf closed args.bestOf).isOver
  · cases saidBy <;> simp
  · simp

omit [DecidableEq ι] in
theorem standing_ofServer (h : 1 < args.bestOf) {on : RoundCount}
    (hRound : on.round = args.server.currentRound) :
    OfServer args (args.standing on args.fromServer .server) := by
  refine ⟨rfl, (if_neg (Nat.not_le.mpr h)).symm, ?_⟩
  rw [PadSeriesArgs.seenStage, if_neg (Nat.not_le.mpr h), stage, standing_closed, ← hRound]
  rfl

theorem singleRound_ofServer (h : args.bestOf ≤ 1) : OfServer args args.singleRound :=
  ⟨rfl, (if_pos h).symm, (if_pos h).symm⟩

/-- The tablet holds a round the server's row does not. -/
def PadSeriesArgs.ahead : Bool :=
  decide (args.openRound > args.server.currentRound) ||
    (args.closedOnPad upperTrimmed args.fromServer).any fun row => row.saidBy = .tablet

theorem tabletView_eq : ∃ on : RoundCount, on.round = args.openRound ∧
    args.tabletView upperTrimmed args.fromServer =
      args.standing on (args.closedOnPad upperTrimmed args.fromServer)
        (if args.ahead upperTrimmed then .tablet else .server) := by
  rw [PadSeriesArgs.tabletView]
  split
  · exact ⟨_, rfl, rfl⟩
  · exact ⟨_, rfl, rfl⟩

theorem eq_of_not_ahead (h : args.ahead upperTrimmed = false) :
    args.openRound = args.server.currentRound ∧
      args.closedOnPad upperTrimmed args.fromServer = args.fromServer := by
  obtain ⟨hRound, hOwn⟩ := Bool.or_eq_false_iff.mp h
  have hOpen : args.openRound = args.server.currentRound :=
    le_antisymm (Nat.not_lt.mp (of_decide_eq_false hRound)) (currentRound_le_openRound args)
  obtain ⟨own, hClosed, hTablet⟩ := closedOnPad_extends upperTrimmed args args.fromServer
  refine ⟨hOpen, ?_⟩
  cases own with
  | nil => rw [hClosed, List.append_nil]
  | cons row own =>
    have hRow := List.any_eq_false.mp hOwn row (by rw [hClosed]; simp)
    exact absurd (decide_eq_true (hTablet row List.mem_cons_self).1) hRow

theorem closedOnPad_front (h : args.ahead upperTrimmed = true) :
    args.server.currentRound < args.openRound ∨ args.server.currentRound = args.openRound ∧
      known (args.closedOnPad upperTrimmed args.fromServer) args.openRound = true := by
  rcases (currentRound_le_openRound args).lt_or_eq with hLt | hOpen
  · exact .inl hLt
  · refine .inr ⟨hOpen, (closedOnPad_of_open upperTrimmed args hOpen.symm).resolve_left ?_⟩
    intro hClosed
    rw [PadSeriesArgs.ahead, hClosed, ← hOpen] at h
    simp only [gt_iff_lt, lt_irrefl, decide_false, Bool.false_or, List.any_eq_true,
      decide_eq_true_eq] at h
    obtain ⟨row, hRow, hTablet⟩ := h
    rw [saidBy_of_mem_serverRounds hRow] at hTablet
    cases hTablet

/-- The view is the server's, or the tablet is ahead and stands on the rounds it closed. -/
theorem padSeries_view : OfServer args (padSeries upperTrimmed args) ∨
    OfTablet args (padSeries upperTrimmed args) ∧
      (padSeries upperTrimmed args).round = args.openRound := by
  rw [padSeries]
  by_cases hSingle : args.bestOf ≤ 1
  · rw [if_pos hSingle]
    exact .inl (singleRound_ofServer args hSingle)
  rw [if_neg hSingle]
  dsimp only
  split_ifs
  · exact .inl (standing_ofServer args (Nat.not_le.mp hSingle) rfl)
  have hSeries := Nat.not_le.mp hSingle
  obtain ⟨on, hOn, hView⟩ := tabletView_eq upperTrimmed args
  rw [hView]
  cases hAhead : args.ahead upperTrimmed with
  | false =>
    obtain ⟨hOpen, hClosed⟩ := eq_of_not_ahead upperTrimmed args hAhead
    rw [hClosed]
    exact .inl (standing_ofServer args hSeries (hOn.trans hOpen))
  | true =>
    have hExtends := closedOnPad_extends upperTrimmed args args.fromServer
    refine .inr ⟨⟨rfl, hSeries, hExtends.keeps, fun row hRow hNew => ?_, ?_, ?_⟩, hOn⟩
    · obtain ⟨own, hClosed, hOwn⟩ := hExtends
      rcases List.mem_append.mp (hClosed ▸ hRow) with hFrom | hRow
      · rw [known_iff.mpr (rowsAt_ne_nil hFrom)] at hNew
        cases hNew
      · exact ⟨(hOwn row hRow).1, (hOwn row hRow).2.1.trans hOn.ge⟩
    · exact standing_closed args on _ _
    · have hFront := closedOnPad_front upperTrimmed args hAhead
      rw [← hOn] at hFront
      exact hFront

end Now

/-! ## The rounds remembered -/

section Remember

variable {ι : Type u} {args : PadSeriesArgs ι} {now before : PadSeries}

/-- Sorting by the round leaves the rows of one round as they came. -/
theorem rowsAt_sortWith (closed : List PadRound) (round : ℕ) :
    rowsAt (sortWith (fun a b => compare a.round b.round) closed) round = rowsAt closed round := by
  have : Std.TransCmp (fun a b : PadRound => compare a.round b.round) :=
    inferInstanceAs (Std.TransCmp (compareOn PadRound.round))
  rw [rowsAt, filter_sortWith, ← rowsAt]
  refine sortWith_eq_self (List.pairwise_of_forall_mem_list fun a ha b hb => ?_)
  have hA : a.round = round := of_decide_eq_true (List.mem_filter.mp ha).2
  have hB : b.round = round := of_decide_eq_true (List.mem_filter.mp hb).2
  simp [hA, hB]

theorem rowsAt_mergedRounds (now : PadSeries) (kept : List PadRound) (round : ℕ) :
    rowsAt (mergedRounds now kept) round =
      if rowsAt kept round = [] then rowsAt now.closed round else rowsAt kept round := by
  rw [mergedRounds, rowsAt_sortWith, rowsAt_append, rowsAt, List.filter_filter]
  have hKept : ∀ row : PadRound, row.round = round →
      (kept.any fun keep => keep.round = row.round) = !decide (rowsAt kept round = []) := by
    rintro row rfl
    rw [Bool.eq_iff_iff, Bool.not_eq_true', decide_eq_false_iff_not]
    exact known_iff
  split_ifs with hNil
  · rw [hNil, List.append_nil]
    refine List.filter_congr fun row _ => ?_
    by_cases hAt : row.round = round
    · rw [hKept row hAt, decide_eq_true hAt, decide_eq_true hNil]
      rfl
    · rw [decide_eq_false hAt, Bool.false_and]
  · rw [List.append_left_eq_self, List.filter_eq_nil_iff]
    intro row _ hBoth
    rw [Bool.and_eq_true, decide_eq_true_eq] at hBoth
    rw [hKept row hBoth.1, decide_eq_false hNil] at hBoth
    cases hBoth.2

theorem OfTablet.confirmed_iff (hNow : OfTablet args now) (round : ℕ) :
    (now.closed.any fun row => row.round = round ∧ row.saidBy = .server) =
      known args.fromServer round := by
  rw [Bool.eq_iff_iff, List.any_eq_true]
  constructor
  · rintro ⟨row, hRow, hBoth⟩
    obtain ⟨rfl, hServer⟩ := of_decide_eq_true hBoth
    by_contra hNew
    rw [(hNow.own row hRow (Bool.not_eq_true _ ▸ hNew)).1] at hServer
    cases hServer
  · intro hKnown
    have hRows := known_iff.mp hKnown
    obtain ⟨row, hRow⟩ := List.exists_mem_of_ne_nil _ hRows
    have hIn := List.mem_filter.mp (hNow.keeps round hRows ▸ hRow)
    have hFrom := saidBy_of_mem_serverRounds (List.mem_filter.mp hRow).1
    exact ⟨row, hIn.1, decide_eq_true ⟨of_decide_eq_true hIn.2, hFrom⟩⟩

/-- What is kept of a round: all of it when the server does not hold it, else nothing. -/
theorem rowsAt_keptRounds (hBefore : OfTablet args before) (hNow : OfTablet args now)
    (hRound : before.round ≤ now.round) (round : ℕ) :
    rowsAt (keptRounds now before) round =
      if rowsAt args.fromServer round = [] then rowsAt before.closed round else [] := by
  by_cases hNil : rowsAt args.fromServer round = []
  · have hNew : known args.fromServer round = false := by
      rw [← Bool.not_eq_true, known_iff]
      exact not_not.mpr hNil
    rw [if_pos hNil]
    simp only [keptRounds, rowsAt, List.filter_filter, hNow.confirmed_iff]
    refine List.filter_congr fun row hRow => ?_
    by_cases hAt : row.round = round
    · obtain ⟨hTablet, hLast⟩ := hBefore.own row hRow (hAt ▸ hNew)
      simp [hAt, hNew, hTablet, hAt ▸ hLast.trans hRound]
    · simp [hAt]
  · rw [if_neg hNil]
    simp only [keptRounds, rowsAt, List.filter_filter, hNow.confirmed_iff]
    refine List.filter_eq_nil_iff.mpr fun row _ hAll => ?_
    simp only [Bool.and_eq_true, decide_eq_true_eq, Bool.not_eq_true'] at hAll
    have hNew := hAll.2.1.1
    rw [hAll.1, known_iff.mpr hNil] at hNew
    cases hNew

/-- A view merged with the rounds remembered. -/
structure Merges (args : PadSeriesArgs ι) (now before after : PadSeries) : Prop where
  tablet : OfTablet args after
  round : after.round = now.round
  keeps : Keeps before.closed after.closed

theorem merged_closed (closed : List PadRound) (bestOf : ℕ) :
    ((mergeSeries now closed bestOf).awaitingStart ||
        (mergeSeries now closed bestOf).decided.isSome) =
      (known closed now.round || (seriesOf closed bestOf).isOver) := by
  have hStood : (closed.find? fun row => row.round = now.round).isSome = known closed now.round := by
    rw [known, List.isSome_find?]
  simp only [mergeSeries, hStood]
  cases (seriesOf closed bestOf).isOver <;> simp

theorem rowsAt_merged (hBefore : OfTablet args before) (hNow : OfTablet args now)
    (hRound : before.round ≤ now.round) (round : ℕ) :
    rowsAt (mergedRounds now (keptRounds now before)) round =
      if rowsAt args.fromServer round = [] ∧ rowsAt before.closed round ≠ [] then
        rowsAt before.closed round
      else rowsAt now.closed round := by
  rw [rowsAt_mergedRounds, rowsAt_keptRounds hBefore hNow hRound]
  split_ifs <;> simp_all

theorem merged_keeps (hBefore : OfTablet args before) (hNow : OfTablet args now)
    (hRound : before.round ≤ now.round) :
    Keeps before.closed (mergedRounds now (keptRounds now before)) := by
  intro round hRows
  rw [rowsAt_merged hBefore hNow hRound]
  split_ifs with hKept
  · rfl
  · have hServer : rowsAt args.fromServer round ≠ [] := fun hNil => hKept ⟨hNil, hRows⟩
    rw [hNow.keeps round hServer, hBefore.keeps round hServer]

/-- A round the view computed now has closed is closed in the merged one. -/
theorem merged_known (hBefore : OfTablet args before) (hNow : OfTablet args now)
    (hRound : before.round ≤ now.round) {round : ℕ} (hKnown : known now.closed round = true) :
    known (mergedRounds now (keptRounds now before)) round = true := by
  rw [known_iff] at hKnown ⊢
  rw [rowsAt_merged hBefore hNow hRound]
  split_ifs with hKept
  · exact hKept.2
  · exact hKnown

theorem merged_ofTablet (hBefore : OfTablet args before) (hNow : OfTablet args now)
    (hRound : before.round ≤ now.round) :
    OfTablet args
      (mergeSeries now (mergedRounds now (keptRounds now before)) args.bestOf) where
  saidBy := hNow.saidBy
  series := hNow.series
  keeps := hBefore.keeps.trans (merged_keeps hBefore hNow hRound)
  own row hRow hNew := by
    have hAt : row ∈ rowsAt (mergedRounds now (keptRounds now before)) row.round :=
      List.mem_filter.mpr ⟨hRow, decide_eq_true rfl⟩
    rw [rowsAt_merged hBefore hNow hRound] at hAt
    split_ifs at hAt
    · obtain ⟨hTablet, hLast⟩ := hBefore.own row (List.mem_filter.mp hAt).1 hNew
      exact ⟨hTablet, hLast.trans hRound⟩
    · exact hNow.own row (List.mem_filter.mp hAt).1 hNew
  closed := merged_closed _ _
  front := hNow.front.imp_right fun hAt => ⟨hAt.1, merged_known hBefore hNow hRound hAt.2⟩

/-- Over a view of the tablet, a later one keeps every round it showed. -/
theorem rememberSeries_merges (hBefore : OfTablet args before) (hNow : OfTablet args now)
    (hRound : before.round ≤ now.round) :
    Merges args now before (rememberSeries now (some before) false args.bestOf) := by
  have hShown : rememberSeries now (some before) false args.bestOf =
      if (keptRounds now before).isEmpty then now
      else mergeSeries now (mergedRounds now (keptRounds now before)) args.bestOf := by
    simp [rememberSeries, hBefore.saidBy, hNow.saidBy]
  rw [hShown]
  split_ifs with hNone
  · refine ⟨hNow, rfl, fun round hRows => ?_⟩
    have hKept := rowsAt_keptRounds hBefore hNow hRound round
    rw [List.isEmpty_iff.mp hNone] at hKept
    split_ifs at hKept with hNil
    · exact absurd hKept.symm hRows
    · rw [hBefore.keeps round hNil, hNow.keeps round hNil]
  · exact ⟨merged_ofTablet hBefore hNow hRound, rfl, merged_keeps hBefore hNow hRound⟩

end Remember

/-! ## Stages -/

section Stage

variable {ι : Type u} {args : PadSeriesArgs ι} {before after : PadSeries}

theorem OfTablet.stage_eq (h : OfTablet args after) :
    stage after = after.round * 2 +
      if known after.closed after.round || (seriesOf after.closed args.bestOf).isOver then 1
      else 0 := by
  rw [stage, h.closed]

theorem OfTablet.stage_le (hBefore : OfTablet args before) (hAfter : OfTablet args after)
    (hRound : before.round ≤ after.round) (hKeeps : Keeps before.closed after.closed) :
    stage before ≤ stage after := by
  rw [hBefore.stage_eq, hAfter.stage_eq]
  rcases hRound.lt_or_eq with hLt | hEq
  · split_ifs <;> omega
  · have hClosed : (known before.closed before.round ||
        (seriesOf before.closed args.bestOf).isOver) = true →
        (known after.closed after.round || (seriesOf after.closed args.bestOf).isOver) = true := by
      rw [Bool.or_eq_true, Bool.or_eq_true, ← hEq]
      exact Or.imp hKeeps.known hKeeps.isOver
    split_ifs with hWas hIs
    · rw [hEq]
    · exact absurd (hClosed hWas) hIs
    · omega
    · rw [hEq]

theorem OfTablet.seenStage_eq (h : OfTablet args after) :
    args.seenStage = args.server.currentRound * 2 + if args.serverClosed then 1 else 0 :=
  if_neg (Nat.not_le.mpr h.series)

theorem OfTablet.seenStage_le (h : OfTablet args after) : args.seenStage ≤ stage after := by
  rw [h.seenStage_eq, h.stage_eq]
  rcases h.front with hLt | ⟨hEq, hKnown⟩
  · split_ifs <;> omega
  · rw [hKnown, Bool.true_or, if_pos rfl]
    split_ifs <;> omega

/-- The tablet is a stage ahead, but where the server's row closes a round it does not hold. -/
theorem OfTablet.seenStage_lt (h : OfTablet args after)
    (hOpen : args.server.currentRound < after.round ∨ args.serverClosed = false) :
    args.seenStage < stage after := by
  rw [h.seenStage_eq, h.stage_eq]
  rcases h.front with hLt | ⟨hEq, hKnown⟩
  · split_ifs <;> omega
  · have hServer : args.serverClosed = false := hOpen.resolve_left (by omega)
    rw [hKnown, hServer, Bool.true_or, if_pos rfl, if_neg Bool.false_ne_true]
    omega

end Stage

/-! ## The round the queue opens -/

section Rounds

variable {ι : Type u} {κ : Type v}

/-- The round a row puts the tablet in. -/
def QueuedRow.named : QueuedRow ι κ → ℕ
  | .hit row => row.round_number.getD 0
  | .card _ _ round => round.getD 0
  | .press row => if row.roundAction = .advance then row.round.getD 0 else 0
  | .clock => 0

theorem queuedRound_getD (own : Option ℕ) (opened : ℕ) :
    (queuedRound own opened).getD 0 = max (own.getD 0) opened := by
  rw [queuedRound]
  split_ifs with h
  · rfl
  · exact (Nat.eq_zero_of_not_pos h).symm

theorem foldl_max_le_iff {l : List ℕ} {a n : ℕ} :
    l.foldl max a ≤ n ↔ a ≤ n ∧ ∀ b ∈ l, b ≤ n := by
  induction l generalizing a with
  | nil => simp
  | cons b l ih => rw [List.foldl_cons, ih, max_le_iff, List.forall_mem_cons, and_assoc]

/-- The rounds of the queue are all at most `n`. -/
def PendingRows.Within (n : ℕ) (rows : PendingRows ι κ) : Prop :=
  ((∀ row ∈ rows.exchanges, row.round_number.getD 0 ≤ n) ∧
    ∀ row ∈ rows.penalties, row.round_number.getD 0 ≤ n) ∧ rows.opened ≤ n

theorem addPending_within (price : CardPrice ι κ) (rows : PendingRows ι κ) (row : QueuedRow ι κ)
    (n : ℕ) : (addPending price rows row).Within n ↔ rows.Within n ∧ row.named ≤ n := by
  cases row with
  | hit row =>
    simp only [addPending, PendingRows.Within, QueuedRow.named, List.forall_mem_append,
      List.forall_mem_singleton, queuedRound_getD, max_le_iff]
    tauto
  | card registrationId card round =>
    simp only [addPending, PendingRows.Within, QueuedRow.named, List.forall_mem_append,
      List.forall_mem_singleton, queuedRound_getD, max_le_iff]
    tauto
  | press row =>
    rw [addPending, QueuedRow.named]
    split_ifs
    · simp only [PendingRows.Within, max_le_iff, and_assoc]
    · simp
  | clock => simp [addPending, QueuedRow.named]

theorem pendingRowsForMatch_within (price : CardPrice ι κ) (queue : List (QueuedRow ι κ)) (n : ℕ) :
    (pendingRowsForMatch price queue).Within n ↔ ∀ row ∈ queue, row.named ≤ n := by
  induction queue using List.reverseRecOn with
  | nil => simp [pendingRowsForMatch, PendingRows.Within]
  | append_singleton queue row ih =>
    have hAdd : pendingRowsForMatch price (queue ++ [row]) =
        addPending price (pendingRowsForMatch price queue) row := List.foldl_append
    rw [hAdd, addPending_within, ih, List.forall_mem_append, List.forall_mem_singleton]

theorem opened_le_iff (price : CardPrice ι κ) (queue : List (QueuedRow ι κ)) (n : ℕ) :
    (pendingRowsForMatch price queue).opened ≤ n ↔
      ∀ row ∈ queue.filterMap QueuedRow.roundPress?, row.roundAction = .advance →
        row.round.getD 0 ≤ n := by
  induction queue using List.reverseRecOn with
  | nil => simp [pendingRowsForMatch]
  | append_singleton queue row ih =>
    have hAdd : pendingRowsForMatch price (queue ++ [row]) =
        addPending price (pendingRowsForMatch price queue) row := List.foldl_append
    rw [hAdd, List.filterMap_append, List.forall_mem_append, ← ih]
    cases row with
    | press row =>
      rw [addPending]
      split_ifs with hAdvance <;> simp [QueuedRow.roundPress?, hAdvance]
    | _ => simp [addPending, QueuedRow.roundPress?]

variable {ρ : Type w} (bout : ReadBout ι κ ρ)

def ReadBout.openRound (queue : List (QueuedRow ι κ)) : ℕ := (bout.args queue).openRound

theorem openRound_le_iff (queue : List (QueuedRow ι κ)) (n : ℕ) :
    bout.openRound queue ≤ n ↔
      bout.server.server.currentRound ≤ n ∧ ∀ row ∈ queue, row.named ≤ n := by
  have hOpened := opened_le_iff bout.price queue n
  rw [← pendingRowsForMatch_within bout.price, PendingRows.Within, hOpened]
  rw [ReadBout.openRound, PadSeriesArgs.openRound, foldl_max_le_iff]
  simp only [PadSeriesArgs.stamps, PadSeriesArgs.advances, ReadBout.args, List.forall_mem_append,
    List.forall_mem_map, List.mem_filter, decide_eq_true_eq, and_imp]

theorem openRound_mono {queue queue' : List (QueuedRow ι κ)} (h : ∀ row ∈ queue, row ∈ queue') :
    bout.openRound queue ≤ bout.openRound queue' := by
  obtain ⟨hServer, hRows⟩ := (openRound_le_iff bout queue' _).mp le_rfl
  exact (openRound_le_iff bout queue _).mpr ⟨hServer, fun row hRow => hRows row (h row hRow)⟩

end Rounds

/-! ## The screen -/

section Screen

variable {ι : Type u} {κ : Type v} {ρ : Type w} [DecidableEq ι] [DecidableEq ρ]
variable {bout : ReadBout ι κ ρ}

/-- What is shown on a bout that is not read again and that nothing is taken back on. -/
structure Drawn (bout : ReadBout ι κ ρ) (memory : SeriesMemory ρ) : Prop where
  forgotten : memory.forgotten = none
  read : memory.standsOver.getD bout.read = bout.read

theorem draw_memory (bout : ReadBout ι κ ρ) (queue : List (QueuedRow ι κ))
    {memory : Option (SeriesMemory ρ)} (h : ∀ m ∈ memory, Drawn bout m) :
    Drawn bout (bout.draw queue memory).memory ∧
      (bout.draw queue memory).memory.view = rememberSeries (bout.seriesNow queue)
        (memory.map SeriesMemory.view) false bout.server.bestOf := by
  have hForgotten : memory.bind SeriesMemory.forgotten = none := by
    cases memory with
    | none => rfl
    | some m => exact (h m rfl).forgotten
  have hOver : (memory.bind SeriesMemory.standsOver).getD bout.read = bout.read := by
    cases memory with
    | none => rfl
    | some m => exact (h m rfl).read
  rw [ReadBout.draw, showSeries, hForgotten]
  dsimp only
  rw [hOver, if_pos rfl]
  split_ifs
  · exact ⟨⟨rfl, rfl⟩, rfl⟩
  · exact ⟨⟨rfl, rfl⟩, rfl⟩

omit [DecidableEq ρ] in
/-- The view computed of a queue is the server's, or the tablet's in the round the queue opens. -/
theorem seriesNow_view (bout : ReadBout ι κ ρ) (queue : List (QueuedRow ι κ)) :
    OfServer bout.server (bout.seriesNow queue) ∨
      OfTablet bout.server (bout.seriesNow queue) ∧
        (bout.seriesNow queue).round = bout.openRound queue := by
  rcases padSeries_view bout.upperTrimmed (bout.args queue) with h | ⟨h, hRound⟩
  · exact .inl ⟨h.saidBy, h.closed, h.stage⟩
  · exact .inr ⟨⟨h.saidBy, h.series, h.keeps, h.own, h.closed, h.front⟩, hRound⟩

/-- What is left of the queue keeps the tablet in its round, which the server's row does not say
is closed while it holds no row of it; or leaves nothing the tablet is ahead with. -/
def KeepsRound (bout : ReadBout ι κ ρ) (queue left : List (QueuedRow ι κ)) : Prop :=
  (bout.seriesNow left).saidBy = .server ∨
    bout.openRound queue ≤ bout.openRound left ∧
      (bout.server.server.currentRound < bout.openRound left ∨ bout.server.serverClosed = false)

/-- A view of the server's, or of the tablet in a round up to `last`. -/
def Seen (args : PadSeriesArgs ι) (last : ℕ) (view : PadSeries) : Prop :=
  OfServer args view ∨ OfTablet args view ∧ view.round ≤ last

/-- A view of the server's, or one the tablet is a stage ahead in. -/
def Stands (args : PadSeriesArgs ι) (last : ℕ) (view : PadSeries) : Prop :=
  OfServer args view ∨ OfTablet args view ∧ view.round ≤ last ∧ args.seenStage < stage view

omit [DecidableEq ι] [DecidableEq ρ] in
theorem rememberSeries_overServer {args : PadSeriesArgs ι} {before : PadSeries}
    (h : OfServer args before) (now : PadSeries) (bestOf : ℕ) :
    rememberSeries now (some before) false bestOf = now := by
  simp [rememberSeries, h.saidBy]

omit [DecidableEq ι] [DecidableEq ρ] in
theorem rememberSeries_behind {args : PadSeriesArgs ι} {now before : PadSeries}
    (hNow : OfServer args now) (hBefore : OfTablet args before) (bestOf : ℕ) :
    rememberSeries now (some before) false bestOf =
      if args.seenStage < stage before then before else now := by
  simp [rememberSeries, hBefore.saidBy, hNow.saidBy, hNow.stage]

omit [DecidableEq ρ] in
theorem remember_seen {left : List (QueuedRow ι κ)} {view : PadSeries} {last : ℕ}
    (hView : Seen bout.server last view) (hLast : last ≤ bout.openRound left) :
    Seen bout.server (bout.openRound left)
      (rememberSeries (bout.seriesNow left) (some view) false bout.server.bestOf) := by
  rcases hView with hView | ⟨hView, hRound⟩
  · rw [rememberSeries_overServer hView]
    exact (seriesNow_view bout left).imp_right fun h => ⟨h.1, h.2.le⟩
  · rcases seriesNow_view bout left with hNow | ⟨hNow, hOpen⟩
    · rw [rememberSeries_behind hNow hView]
      split_ifs
      · exact .inr ⟨hView, hRound.trans hLast⟩
      · exact .inl hNow
    · have hMerged := rememberSeries_merges hView hNow (by omega)
      exact .inr ⟨hMerged.tablet, (hMerged.round.trans hOpen).le⟩

omit [DecidableEq ρ] in
/-- A draw whose queue keeps the round leaves the tablet a stage ahead, or the server's view. -/
theorem remember_stands {queue left : List (QueuedRow ι κ)} {view : PadSeries}
    (hView : Seen bout.server (bout.openRound queue) view) (hKeeps : KeepsRound bout queue left)
    (hLeft : bout.openRound left ≤ bout.openRound queue) :
    Stands bout.server (bout.openRound queue)
      (rememberSeries (bout.seriesNow left) (some view) false bout.server.bestOf) := by
  rcases seriesNow_view bout left with hNow | ⟨hNow, hOpen⟩
  · rcases hView with hView | ⟨hView, hRound⟩
    · rw [rememberSeries_overServer hView]
      exact .inl hNow
    · rw [rememberSeries_behind hNow hView]
      split_ifs with hAhead
      · exact .inr ⟨hView, hRound, hAhead⟩
      · exact .inl hNow
  · rcases hKeeps with hServer | ⟨hStays, hAhead⟩
    · rw [hNow.saidBy] at hServer
      cases hServer
    rw [← hOpen] at hAhead
    rcases hView with hView | ⟨hView, hRound⟩
    · rw [rememberSeries_overServer hView]
      exact .inr ⟨hNow, hOpen.le.trans hLeft, hNow.seenStage_lt hAhead⟩
    · have hMerged := rememberSeries_merges hView hNow (by omega)
      rw [← hMerged.round] at hAhead
      exact .inr ⟨hMerged.tablet, (hMerged.round.trans hOpen).le.trans hLeft,
        hMerged.tablet.seenStage_lt hAhead⟩

theorem NotBack.refl (view : PadSeries) : NotBack view view := ⟨le_rfl, fun _ _ h => h⟩

theorem NotBack.trans {a b c : PadSeries} (hab : NotBack a b) (hbc : NotBack b c) : NotBack a c :=
  ⟨hab.stage_le.trans hbc.stage_le, fun round winner h =>
    hbc.winner round winner (hab.winner round winner h)⟩

omit [DecidableEq ρ] in
/-- One draw of what is left never goes back. -/
theorem remember_notBack {queue left : List (QueuedRow ι κ)} {view : PadSeries}
    (hView : Stands bout.server (bout.openRound queue) view)
    (hKeeps : KeepsRound bout queue left) :
    NotBack view
      (rememberSeries (bout.seriesNow left) (some view) false bout.server.bestOf) := by
  rcases hView with hView | ⟨hView, hRound, hAhead⟩
  · rw [rememberSeries_overServer hView]
    rcases seriesNow_view bout left with hNow | ⟨hNow, -⟩
    · have hKeep : Keeps view.closed (bout.seriesNow left).closed := by
        rw [hView.closed, hNow.closed]
        exact .refl _
      exact ⟨(hView.stage.trans hNow.stage.symm).le, hKeep.winner⟩
    · have hKeep : Keeps view.closed (bout.seriesNow left).closed := by
        rw [hView.closed, PadSeriesArgs.seenClosed, if_neg (Nat.not_le.mpr hNow.series)]
        exact hNow.keeps
      exact ⟨hView.stage.le.trans hNow.seenStage_le, hKeep.winner⟩
  · rcases seriesNow_view bout left with hNow | ⟨hNow, hOpen⟩
    · rw [rememberSeries_behind hNow hView, if_pos hAhead]
      exact .refl view
    · rcases hKeeps with hServer | ⟨hStays, -⟩
      · rw [hNow.saidBy] at hServer
        cases hServer
      have hMerged := rememberSeries_merges hView hNow (by omega)
      have hLe : view.round ≤ (bout.seriesNow left).round := by omega
      exact ⟨hView.stage_le hMerged.tablet (hLe.trans hMerged.round.ge) hMerged.keeps,
        hMerged.keeps.winner⟩

omit [DecidableEq ρ] in
theorem now_seen (bout : ReadBout ι κ ρ) (queue : List (QueuedRow ι κ)) :
    Seen bout.server (bout.openRound queue) (bout.seriesNow queue) :=
  (seriesNow_view bout queue).imp_right fun h => ⟨h.1, h.2.le⟩

omit [DecidableEq ρ] in
theorem now_stands {queue : List (QueuedRow ι κ)} (hKeeps : KeepsRound bout queue queue) :
    Stands bout.server (bout.openRound queue) (bout.seriesNow queue) := by
  rcases seriesNow_view bout queue with hNow | ⟨hNow, hOpen⟩
  · exact .inl hNow
  · rcases hKeeps with hServer | ⟨-, hAhead⟩
    · rw [hNow.saidBy] at hServer
      cases hServer
    · rw [← hOpen] at hAhead
      exact .inr ⟨hNow, hOpen.le, hNow.seenStage_lt hAhead⟩

/-! ## Runs -/

/-- A screen the official tapped up to here. -/
structure TappedSeen (bout : ReadBout ι κ ρ) (screen : Screen ι κ ρ) : Prop where
  drawn : Drawn bout screen.memory
  seen : Seen bout.server (bout.openRound screen.queue) screen.memory.view
  stands : KeepsRound bout screen.queue screen.queue →
    Stands bout.server (bout.openRound screen.queue) screen.memory.view

theorem seen_opened (queue : List (QueuedRow ι κ)) : TappedSeen bout (bout.draw queue none) := by
  have hNone : ∀ m ∈ (none : Option (SeriesMemory ρ)), Drawn bout m := by
    intro m hm
    cases hm
  obtain ⟨hDrawn, hView⟩ := draw_memory bout queue hNone
  rw [Option.map_none, rememberSeries] at hView
  refine ⟨hDrawn, ?_, fun hKeeps => ?_⟩
  · rw [hView]
    exact now_seen bout queue
  · rw [hView]
    exact now_stands hKeeps

theorem seen_tapped {screen : Screen ι κ ρ} (h : TappedSeen bout screen)
    (rows : List (QueuedRow ι κ)) :
    TappedSeen bout (bout.draw (screen.queue ++ rows) (some screen.memory)) := by
  have hSome : ∀ m ∈ some screen.memory, Drawn bout m := by
    rintro _ ⟨⟩
    exact h.drawn
  obtain ⟨hDrawn, hView⟩ := draw_memory bout (screen.queue ++ rows) hSome
  rw [Option.map_some] at hView
  have hLast : bout.openRound screen.queue ≤ bout.openRound (screen.queue ++ rows) :=
    openRound_mono bout fun row hRow => List.mem_append_left rows hRow
  have hSeen : Seen bout.server (bout.openRound (screen.queue ++ rows)) screen.memory.view :=
    h.seen.imp_right fun hTablet => ⟨hTablet.1, hTablet.2.trans hLast⟩
  refine ⟨hDrawn, ?_, fun hKeeps => ?_⟩
  · rw [hView]
    exact remember_seen hSeen le_rfl
  · rw [hView]
    exact remember_stands hSeen hKeeps le_rfl

theorem tapped_seen {screen : Screen ι κ ρ} (h : bout.Tapped screen) : TappedSeen bout screen := by
  induction h with
  | opened queue => exact seen_opened queue
  | tapped rows _ ih => exact seen_tapped ih rows

/-- A screen while the rows of `queue` go out. -/
structure Going (bout : ReadBout ι κ ρ) (queue : List (QueuedRow ι κ)) (screen : Screen ι κ ρ) :
    Prop where
  drawn : Drawn bout screen.memory
  stands : Stands bout.server (bout.openRound queue) screen.memory.view

theorem taken_going {queue : List (QueuedRow ι κ)} {screen : Screen ι κ ρ}
    (h : Going bout queue screen) (hLeft : screen.queue.tail ⊆ queue)
    (hKeeps : KeepsRound bout queue screen.queue.tail) :
    Going bout queue (bout.taken screen) ∧
      NotBack screen.memory.view (bout.taken screen).memory.view := by
  have hSome : ∀ m ∈ some screen.memory, Drawn bout m := by
    rintro _ ⟨⟩
    exact h.drawn
  obtain ⟨hDrawn, hView⟩ := draw_memory bout screen.queue.tail hSome
  rw [Option.map_some] at hView
  have hSeen : Seen bout.server (bout.openRound queue) screen.memory.view :=
    h.stands.imp_right fun hTablet => ⟨hTablet.1, hTablet.2.1⟩
  refine ⟨⟨hDrawn, ?_⟩, ?_⟩
  · rw [ReadBout.taken, hView]
    exact remember_stands hSeen hKeeps (openRound_mono bout hLeft)
  · rw [ReadBout.taken, hView]
    exact remember_notBack h.stands hKeeps

theorem queue_taken (screen : Screen ι κ ρ) (n : ℕ) :
    (bout.taken^[n] screen).queue = screen.queue.drop n := by
  induction n with
  | zero => rfl
  | succ n ih =>
    rw [Function.iterate_succ_apply', ← List.tail_drop, ← ih]
    rfl

theorem going_taken {screen : Screen ι κ ρ} (hTapped : bout.Tapped screen)
    (hKeeps : ∀ n, KeepsRound bout screen.queue (screen.queue.drop n)) (n : ℕ) :
    Going bout screen.queue (bout.taken^[n] screen) ∧
      NotBack (bout.taken^[n] screen).memory.view (bout.taken^[n + 1] screen).memory.view := by
  have hTail : ∀ n, (bout.taken^[n] screen).queue.tail = screen.queue.drop (n + 1) := by
    intro n
    rw [queue_taken, List.tail_drop]
  have hTake : ∀ n, Going bout screen.queue (bout.taken^[n] screen) →
      Going bout screen.queue (bout.taken^[n + 1] screen) ∧
        NotBack (bout.taken^[n] screen).memory.view (bout.taken^[n + 1] screen).memory.view := by
    intro n h
    rw [Function.iterate_succ_apply']
    exact taken_going h (hTail n ▸ List.drop_subset _ _) (hTail n ▸ hKeeps (n + 1))
  have hGoing : ∀ n, Going bout screen.queue (bout.taken^[n] screen) := by
    intro n
    induction n with
    | zero =>
      have hSeen := tapped_seen hTapped
      exact ⟨hSeen.drawn, hSeen.stands (hKeeps 0)⟩
    | succ n ih => exact (hTake n ih).1
  exact ⟨hGoing n, (hTake n (hGoing n)).2⟩

/-- Rows taken from the front, each leaving a queue that keeps the tablet in its round: no later
view is behind an earlier one. -/
theorem taken_notBack {screen : Screen ι κ ρ} (hTapped : bout.Tapped screen)
    (hKeeps : ∀ n, KeepsRound bout screen.queue (screen.queue.drop n)) {m n : ℕ} (h : m ≤ n) :
    NotBack (bout.taken^[m] screen).memory.view (bout.taken^[n] screen).memory.view := by
  induction n, h using Nat.le_induction with
  | base => exact .refl _
  | succ n _ ih => exact ih.trans (going_taken hTapped hKeeps n).2

end Screen

/-! ## Two queues -/

/-- The server's row of round 1, red 4-3 ahead, in a bout of two rounds won to five points. -/
def secondRoundBout : ReadBout ℕ Unit Unit where
  server :=
    { bestOf := 3
      format := ⟨some .singleElim, none⟩
      matchFormat :=
        ⟨5, .normal, none, .drawZeroScores, ⟨[.draw], none, [.suddenDeath], [.suddenDeath]⟩⟩
      server := ⟨1, false, false, [], 4, 3⟩
      redRegistrationId := 1
      blueRegistrationId := 2
      exchanges := []
      penalties := []
      queued := []
      queuedPenalties := []
      roundPresses := []
      held := false
      edition := .edition2026_10 }
  price _ _ := none
  read := ()
  upperTrimmed := id

def redPoint (round : ℕ) : QueuedRow ℕ Unit := .hit ⟨.clean, some .red, some 1, none, some round⟩

def startRound (round : ℕ) : QueuedRow ℕ Unit := .press ⟨.advance, some round, none⟩

/-- A point of each round, with "Start round 2" between them. -/
theorem taken_notBack_inOrder :
    NotBack (secondRoundBout.draw [redPoint 1, startRound 2, redPoint 2] none).memory.view
      (secondRoundBout.taken^[3]
        (secondRoundBout.draw [redPoint 1, startRound 2, redPoint 2] none)).memory.view := by
  refine taken_notBack (.opened [redPoint 1, startRound 2, redPoint 2]) (fun n => ?_)
    (Nat.zero_le 3)
  match n with
  | 0 => exact .inr ⟨by decide, .inl (by decide)⟩
  | 1 => exact .inr ⟨by decide, .inl (by decide)⟩
  | 2 => exact .inr ⟨by decide, .inl (by decide)⟩
  | n + 3 =>
    have hNone : secondRoundBout.seriesNow ([redPoint 1, startRound 2, redPoint 2].drop (n + 3)) =
        secondRoundBout.seriesNow [] := by
      rw [List.drop_eq_nil_of_le (Nat.le_add_left 3 n)]
    exact .inl (congrArg PadSeries.saidBy hNone)

/-- Red's point of round 1 stands behind "Start round 2" again, and comes back to round 1 when the
server takes the press: the screen falls from round 2 to round 1. -/
theorem taken_back : ∃ screen, secondRoundBout.Tapped screen ∧
    screen.queue = [startRound 2, redPoint 1] ∧
    stage screen.memory.view = 4 ∧ stage (secondRoundBout.taken screen).memory.view = 3 ∧
    ¬ NotBack screen.memory.view (secondRoundBout.taken screen).memory.view := by
  have hBefore : stage (secondRoundBout.draw [startRound 2, redPoint 1] none).memory.view = 4 := by
    decide +kernel
  have hAfter : stage (secondRoundBout.taken
      (secondRoundBout.draw [startRound 2, redPoint 1] none)).memory.view = 3 := by
    decide +kernel
  refine ⟨_, .opened [startRound 2, redPoint 1], rfl, hBefore, hAfter, fun hNotBack => ?_⟩
  have hLe := hNotBack.stage_le
  rw [hBefore, hAfter] at hLe
  exact absurd hLe (by decide)

end MyClash.Pad
