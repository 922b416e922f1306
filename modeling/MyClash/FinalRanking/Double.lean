import MyClash.FinalRanking.Single
import MyClash.Bracket.DoubleElimFinish

/-!
# The final ranking of a double elimination

The deciding bout opens the ranking. Everyone else is found where they went out, and every
such place is read by one of the four groups that follow.
-/

namespace MyClash.FinalRanking

open Placing Knockout Bracket

/-- A bracket with every bout decided; the reset it skips has no fighters. -/
structure CompletedDouble (b : DoubleElimBracket) (homeWins : MatchRef → Bool)
    (reg : ℕ → String) (row : DoubleElimSlot → RankingSlot) : Prop where
  registered : Registered reg b.fighterCount
  recorded : ∀ s ∈ b.slots, b.node s ∈ b.fought homeWins →
    Recorded reg (s.homeSource.side (b.played homeWins)) (s.awaySource.side (b.played homeWins))
      (homeWins (b.selfRef s)) (row s)
  skipped : ∀ s ∈ b.slots, b.node s ∉ b.fought homeWins →
    (row s).redRegistrationId = none ∧ (row s).blueRegistrationId = none
  placed : ∀ s ∈ b.slots, (row s).round = s.round ∧ (row s).position = s.position

/-- The payload of a generated bracket. -/
def payload (b : DoubleElimBracket) : BracketPayload where
  phaseType := some "double_elim"
  wbRounds := some b.wbRounds
  lbRounds := some b.lbRounds
  secondChanceTarget := some (match b.secondChanceTarget with | .gold => "gold" | .bronze => "bronze")
  bronzeMatch := some b.bronzeMatch
  repechageEntryRound := some b.repechageEntryRound

/-- The layout is that of the shape. -/
structure Reads (layout : DoubleElimLayout) (shape : DoubleElimShape) : Prop where
  wbRounds : layout.wbRounds = shape.wbRounds
  lastLbRound : layout.lastLbRound = shape.wbRounds + shape.lbRounds
  isBronze : layout.isBronze = (shape.secondChanceTarget == .bronze)
  bronzeMatch : layout.bronzeMatch = (shape.secondChanceTarget == .bronze && shape.bronzeMatch)
  entryRound : layout.entryRound = shape.repechageEntryRound

theorem reads_payload (shape : DoubleElimShape) :
    Reads (readLayout (rankingBracketShape (payload (DoubleElim.ofShape shape)))) shape := by
  have hTarget : (rankingBracketShape (payload (DoubleElim.ofShape shape))).secondChanceTarget =
      some shape.secondChanceTarget := by
    rw [rankingBracketShape, payload, DoubleElim.ofShape]
    cases shape.secondChanceTarget <;> simp
  have hMatch : (rankingBracketShape (payload (DoubleElim.ofShape shape))).bronzeMatch =
      some shape.bronzeMatch := rfl
  refine ⟨rfl, rfl, ?_, ?_, rfl⟩
  · rw [readLayout, hTarget]
    cases shape.secondChanceTarget <;> rfl
  · rw [readLayout, hTarget, hMatch]
    cases shape.secondChanceTarget <;> cases shape.bronzeMatch <;> rfl

/-! ## What each group places -/

section Groups

variable {collate : String → String → Ordering} {slots : List RankingSlot}
  {layout : DoubleElimLayout} {r : Ranking} {id : String}

/-- A group places losers and, in the bronze mode, winners of the rows. -/
def NamedBy (slots : List RankingSlot) (id : String) : Prop :=
  ∃ x ∈ slots, ∃ w l, resultIds x = some (w, l) ∧ (id = w ∨ id = l)

theorem ids_survivors (kind : Ranking → FinalRankingResultKind) (lastRound : List RankingSlot) :
    id ∈ ((StableSort.sortWith (r.byPoolScore collate)
        ((lastRound.filterMap winnerLoser).map WinnerLoser.winner)).foldl
          (fun r side => r.push side (kind r)) r).ids ↔
      id ∈ r.ids ∨ ∃ x ∈ lastRound, ∃ l, resultIds x = some (id, l) := by
  rw [Ranking.ids_foldl_push, mem_addAll, List.mem_map]
  refine or_congr_right ?_
  constructor
  · rintro ⟨side, hSide, rfl⟩
    obtain ⟨wl, hWl, rfl⟩ := List.mem_map.mp (StableSort.mem_sortWith.mp hSide)
    obtain ⟨x, hx, hWl⟩ := List.mem_filterMap.mp hWl
    exact ⟨x, hx, _, mem_resultIds.mpr ⟨wl, hWl, rfl, rfl⟩⟩
  · rintro ⟨x, hx, l, hResult⟩
    obtain ⟨wl, hWl, rfl, -⟩ := mem_resultIds.mp hResult
    refine ⟨wl.winner, StableSort.mem_sortWith.mpr (List.mem_map_of_mem ?_), rfl⟩
    exact List.mem_filterMap.mpr ⟨x, hx, hWl⟩

theorem prefix_foldl_push (kind : Ranking → FinalRankingResultKind) (extra : Exit)
    (r : Ranking) (sides : List Side) :
    r.ids <+: (sides.foldl (fun r side => r.push side (kind r) extra) r).ids := by
  rw [Ranking.ids_foldl_push]
  exact prefix_addAll _ _

variable (collate slots layout r) in
theorem placeBronzePodium_spec : r.ids <+: (placeBronzePodium collate slots layout r).ids ∧
    ∀ id, id ∈ (placeBronzePodium collate slots layout r).ids →
      id ∈ r.ids ∨ NamedBy slots id := by
  rw [placeBronzePodium]
  split
  · exact ⟨List.prefix_rfl, fun id => Or.inl⟩
  · simp only
    split
    · refine ⟨prefix_placeBronzeBout _, fun id hId => ?_⟩
      rcases mem_placeBronzeBout.mp hId with hIn | ⟨x, hx, w, l, hResult, hEq⟩
      · exact Or.inl hIn
      · have hMem := List.mem_of_mem_head? hx
        exact Or.inr ⟨x, (List.mem_filter.mp hMem).1, w, l, hResult, hEq⟩
    · refine ⟨prefix_foldl_push _ _ _ _, fun id hId => ?_⟩
      rcases (ids_survivors _ _).mp hId with hIn | ⟨x, hx, l, hResult⟩
      · exact Or.inl hIn
      · exact Or.inr ⟨x, (List.mem_filter.mp hx).1, id, l, hResult, Or.inl rfl⟩

variable (collate slots r) in
theorem pushRounds_spec (exit : ℕ → Exit) (podiumKinds : Bool) (p : RankingSlot → Bool) :
    r.ids <+: (r.pushRounds collate (slots.filter p) exit podiumKinds).ids ∧
      (∀ id, id ∈ (r.pushRounds collate (slots.filter p) exit podiumKinds).ids →
        id ∈ r.ids ∨ NamedBy slots id) ∧
      ∀ x ∈ slots, p x = true → ∀ w l, resultIds x = some (w, l) →
        l ∈ (r.pushRounds collate (slots.filter p) exit podiumKinds).ids := by
  refine ⟨Ranking.prefix_pushRounds _ _, fun id hId => ?_, fun x hx hp w l hResult => ?_⟩
  · rcases Ranking.mem_pushRounds.mp hId with hIn | ⟨x, hx, w, hResult⟩
    · exact Or.inl hIn
    · exact Or.inr ⟨x, (List.mem_filter.mp hx).1, w, id, hResult, Or.inr rfl⟩
  · exact Ranking.mem_pushRounds.mpr (Or.inr ⟨x, List.mem_filter.mpr ⟨hx, hp⟩, w, hResult⟩)

variable (collate slots layout r) in
theorem placePreCutoffWinners_spec :
    r.ids <+: (placePreCutoffWinners collate slots layout r).ids ∧
      (∀ id, id ∈ (placePreCutoffWinners collate slots layout r).ids →
        id ∈ r.ids ∨ NamedBy slots id) ∧
      ∀ x ∈ slots, 1 ≤ x.round → x.round < layout.entryRound → ∀ w l,
        resultIds x = some (w, l) → l ∈ (placePreCutoffWinners collate slots layout r).ids := by
  rw [placePreCutoffWinners]
  split
  · exact ⟨List.prefix_rfl, fun id => Or.inl, fun x hx hOne hLt => by omega⟩
  · obtain ⟨hPrefix, hFrom, hTo⟩ := pushRounds_spec collate slots r
      (fun round => { eliminationRound := some round, bracketSection := some .WB }) false
      fun s => decide (1 ≤ s.round ∧ s.round < layout.entryRound)
    exact ⟨hPrefix, hFrom, fun x hx hOne hLt => hTo x hx (decide_eq_true ⟨hOne, hLt⟩)⟩

variable (collate slots r) in
theorem placePlayIn_spec : r.ids <+: (placePlayIn collate slots r).ids ∧
    (∀ id, id ∈ (placePlayIn collate slots r).ids → id ∈ r.ids ∨ NamedBy slots id) ∧
      ∀ x ∈ slots, x.round = 0 → ∀ w l, resultIds x = some (w, l) →
        l ∈ (placePlayIn collate slots r).ids := by
  have hIds : ∀ id, id ∈ (placePlayIn collate slots r).ids ↔ id ∈ r.ids ∨
      ∃ side ∈ losersOf (losersByRound (slots.filter fun s => s.round == 0) r) 0,
        side.registrationId = id := by
    intro id
    rw [placePlayIn, Ranking.ids_foldl_push (fun _ => .round), mem_addAll, List.mem_map]
    simp only [StableSort.mem_sortWith]
  refine ⟨prefix_foldl_push (fun _ => .round) _ _ _, fun id hId => ?_, fun x hx hRound w l hR => ?_⟩
  · rcases (hIds id).mp hId with hIn | hLoser
    · exact Or.inl hIn
    · obtain ⟨-, x, hx, -, w, hResult⟩ := mem_losersOf.mp hLoser
      exact Or.inr ⟨x, (List.mem_filter.mp hx).1, w, id, hResult, Or.inr rfl⟩
  · by_cases hIn : l ∈ r.ids
    · exact (hIds l).mpr (Or.inl hIn)
    · refine (hIds l).mpr (Or.inr (mem_losersOf.mpr ⟨hIn, x, ?_, hRound, w, hR⟩))
      exact List.mem_filter.mpr ⟨hx, beq_iff_eq.mpr hRound⟩

end Groups

namespace CompletedDouble

open DoubleElim

variable {shape : DoubleElimShape} {fighterCount surplus depth : ℕ}
  {homeWins : MatchRef → Bool} {reg : ℕ → String} {row : DoubleElimSlot → RankingSlot}
  {rows : List RankingSlot}
  (h : CompletedDouble (ofShape shape) homeWins reg row)
  (hSized : Sized shape fighterCount surplus depth)

include h hSized

theorem result_of_fought {s : DoubleElimSlot} (hs : s ∈ (ofShape shape).slots)
    (hFought : (ofShape shape).node s ∈ (ofShape shape).fought homeWins) {w l : String} :
    resultIds (row s) = some (w, l) ↔ ∃ f g,
      (ofShape shape).played homeWins ((ofShape shape).selfRef s) = ⟨some f, some g⟩ ∧
        w = reg f ∧ l = reg g := by
  have hFighters : (ofShape shape).fighterCount = fighterCount := hSized.fighters
  have hResult : (ofShape shape).played homeWins ((ofShape shape).selfRef s) = _ :=
    hSized.result_eq homeWins hFought
  rw [hResult]
  refine resultIds_bout (n := (ofShape shape).node s) (h.recorded s hs hFought)
    fun x hx f hSide => ?_
  obtain ⟨g, hg, hEq⟩ := hSized.fighter homeWins hFought hx
  rw [hEq] at hSide
  cases hSide
  exact h.registered.ne_empty f (by rwa [hFighters])

omit hSized in
theorem result_of_skipped {s : DoubleElimSlot} (hs : s ∈ (ofShape shape).slots)
    (hSkipped : (ofShape shape).node s ∉ (ofShape shape).fought homeWins) :
    resultIds (row s) = none := by
  obtain ⟨hRed, hBlue⟩ := h.skipped s hs hSkipped
  have hNobody : Recorded reg none none true (row s) := ⟨hRed, hBlue, by rintro _ _ ⟨⟩⟩
  exact hNobody.resultIds_lone (Or.inl rfl)

/-- Both of a decided row are of the field. -/
theorem named_mem (hRows : rows.Perm ((ofShape shape).slots.map row)) {id : String}
    (hNamed : NamedBy rows id) : id ∈ (List.range' 1 fighterCount).map reg := by
  obtain ⟨x, hx, w, l, hResult, hEq⟩ := hNamed
  obtain ⟨s, hs, rfl⟩ := List.mem_map.mp (hRows.mem_iff.mp hx)
  by_cases hFought : (ofShape shape).node s ∈ (ofShape shape).fought homeWins
  · obtain ⟨f, g, hBoard, rfl, rfl⟩ := (h.result_of_fought hSized hs hFought).mp hResult
    obtain ⟨f', hf, g', hg, hBoard'⟩ := hSized.decided homeWins hFought
    have hBoth : (⟨some f, some g⟩ : Result) = ⟨some f', some g'⟩ := hBoard.symm.trans hBoard'
    cases hBoth
    rcases hEq with rfl | rfl
    · exact List.mem_map_of_mem hf
    · exact List.mem_map_of_mem hg
  · rw [h.result_of_skipped hs hFought] at hResult
    cases hResult

/-- A winner or a loser of a bout stands in the row of its slot. -/
theorem row_of_feed (hRows : rows.Perm ((ofShape shape).slots.map row)) {r : MatchRef}
    (hKey : r ∈ ((ofShape shape).fought homeWins).map Node.key) :
    ∃ s ∈ (ofShape shape).slots, (ofShape shape).selfRef s = r ∧ row s ∈ rows ∧
      ∃ f g, (ofShape shape).played homeWins r = ⟨some f, some g⟩ ∧
        resultIds (row s) = some (reg f, reg g) := by
  obtain ⟨s, hs, rfl, hFought⟩ := slot_of_key homeWins hKey
  obtain ⟨f, -, g, -, hBoard⟩ := hSized.decided homeWins hFought
  exact ⟨s, hs, rfl, hRows.mem_iff.mpr (List.mem_map_of_mem hs), f, g, hBoard,
    (h.result_of_fought hSized hs hFought).mpr ⟨f, g, hBoard, rfl, rfl⟩⟩

theorem mem_bracketRegIds (hRows : rows.Perm ((ofShape shape).slots.map row)) (id : String) :
    id ∈ bracketRegIds rows ↔ id ∈ (List.range' 1 fighterCount).map reg := by
  have hFighters : (ofShape shape).fighterCount = fighterCount := hSized.fighters
  rw [bracketRegIds, List.mem_flatMap]
  constructor
  · rintro ⟨x, hx, hId⟩
    obtain ⟨s, hs, rfl⟩ := List.mem_map.mp (hRows.mem_iff.mp hx)
    by_cases hFought : (ofShape shape).node s ∈ (ofShape shape).fought homeWins
    · have hSide : ∀ f, s.homeSource.side ((ofShape shape).played homeWins) = some f ∨
          s.awaySource.side ((ofShape shape).played homeWins) = some f →
          f ∈ List.range' 1 fighterCount := by
        rintro f (hf | hf)
        · obtain ⟨g, hg, hEq⟩ := hSized.fighter homeWins hFought (x := s.homeSource)
            List.mem_cons_self
          rw [hEq] at hf
          cases hf
          exact hg
        · obtain ⟨g, hg, hEq⟩ := hSized.fighter homeWins hFought (x := s.awaySource)
            (List.mem_cons_of_mem _ List.mem_cons_self)
          rw [hEq] at hf
          cases hf
          exact hg
      obtain ⟨f, hf, rfl⟩ := ((h.recorded s hs hFought).mem_ids fun f hf =>
        h.registered.ne_empty f (by rw [hFighters]; exact hSide f hf)).mp hId
      exact List.mem_map_of_mem (hSide f hf)
    · obtain ⟨hRed, hBlue⟩ := h.skipped s hs hFought
      rw [hRed, hBlue] at hId
      cases hId
  · intro hId
    obtain ⟨f, hf, rfl⟩ := List.mem_map.mp hId
    obtain ⟨x, hSide, ⟨r, hKey, hReads⟩, -⟩ := hSized.found homeWins hf
    obtain ⟨s, hs, rfl, hFought⟩ := slot_of_key homeWins hKey
    refine ⟨row s, hRows.mem_iff.mpr (List.mem_map_of_mem hs), ?_⟩
    -- whoever comes out of a bout stood on one of its sides
    have hResult : (ofShape shape).played homeWins ((ofShape shape).selfRef s) = _ :=
      hSized.result_eq homeWins hFought
    obtain ⟨u, hu, hHome⟩ := hSized.fighter homeWins hFought (x := s.homeSource)
      List.mem_cons_self
    obtain ⟨v, hv, hAway⟩ := hSized.fighter homeWins hFought (x := s.awaySource)
      (List.mem_cons_of_mem _ List.mem_cons_self)
    rw [Node.bout_two _ hHome hAway] at hResult
    refine ((h.recorded s hs hFought).mem_ids ?_).mpr ⟨f, ?_, rfl⟩
    · rintro g (hg | hg)
      · rw [hHome] at hg
        cases hg
        exact h.registered.ne_empty _ (by rwa [hFighters])
      · rw [hAway] at hg
        cases hg
        exact h.registered.ne_empty _ (by rwa [hFighters])
    · rw [hHome, hAway]
      cases x with
      | seed n => cases hReads
      | bye => cases hReads
      | winnerOf r =>
        cases hReads
        rw [Feed.side_winnerOf, hResult] at hSide
        split at hSide
        · exact Or.inl hSide
        · exact Or.inr hSide
      | loserOf r =>
        cases hReads
        rw [Feed.side_loserOf, hResult] at hSide
        split at hSide
        · exact Or.inr hSide
        · exact Or.inl hSide

/-! ### The deciding bout -/

omit hSized in
theorem slotAt_eq (hRows : rows.Perm ((ofShape shape).slots.map row)) {round : ℕ}
    {s : DoubleElimSlot} (hs : s ∈ (ofShape shape).slots) (hRound : s.round = round)
    (hPosition : s.position = 1)
    (hOnly : ∀ t ∈ (ofShape shape).slots, t.round = round → t = s) :
    slotAt rows round = some (row s) := by
  obtain ⟨hr, hp⟩ := h.placed s hs
  refine find?_unique (hRows.mem_iff.mpr (List.mem_map_of_mem hs)) ?_ fun y hy hAt => ?_
  · rw [hr, hp, hRound, hPosition]
    simp
  · obtain ⟨t, ht, rfl⟩ := List.mem_map.mp (hRows.mem_iff.mp hy)
    rw [Bool.and_eq_true, beq_iff_eq, beq_iff_eq] at hAt
    rw [hOnly t ht ((h.placed t ht).1.symm.trans hAt.1)]

/-- The code looks the title up in the deciding bout. -/
theorem decidingSlot_eq (hRows : rows.Perm ((ofShape shape).slots.map row))
    {layout : DoubleElimLayout} (hReads : Reads layout shape) :
    ∃ s ∈ (ofShape shape).slots,
      (ofShape shape).selfRef s = (ofShape shape).deciding homeWins ∧
        (ofShape shape).node s ∈ (ofShape shape).fought homeWins ∧
          decidingSlot rows layout = some (row s) := by
  obtain ⟨n, hn, hKey, -⟩ := hSized.title homeWins
  obtain ⟨s, hs, hRef, hFought⟩ := slot_of_key homeWins (List.mem_map.mpr ⟨n, hn, hKey⟩)
  refine ⟨s, hs, hRef, hFought, ?_⟩
  rw [decidingSlot, hReads.isBronze, hReads.wbRounds, hReads.lastLbRound]
  cases hTarget : shape.secondChanceTarget with
  | bronze =>
    have hDeciding : (ofShape shape).deciding homeWins = .wb shape.wbRounds 1 := by
      simp only [DoubleElimBracket.deciding, ofShape, hTarget]
    rw [hDeciding] at hRef
    obtain ⟨hRound, hPosition, -⟩ := of_selfRef_wb hRef
    refine h.slotAt_eq hRows hs hRound hPosition fun t ht hT => ?_
    refine hSized.eq_of_selfRef ht hs ?_
    have hOne := hSized.position_of_last ht hT
    rw [hRef, selfRef_wb (b := ofShape shape) (Nat.le_of_eq hT), hT, hOne]
  | gold =>
    have hDeciding : (ofShape shape).deciding homeWins =
        if shape.grandFinalReset && !homeWins .gf then .gfReset else .gf := by
      simp only [DoubleElimBracket.deciding, ofShape, hTarget]
    rw [hDeciding] at hRef
    have hReset : ∀ t ∈ (ofShape shape).slots,
        t.round = shape.wbRounds + shape.lbRounds + 1 + 1 → (ofShape shape).selfRef t = .gfReset :=
      fun t _ hT => selfRef_reset (b := ofShape shape) hT
    have hGf : ∀ t ∈ (ofShape shape).slots,
        t.round = shape.wbRounds + shape.lbRounds + 1 → (ofShape shape).selfRef t = .gf :=
      fun t _ hT => selfRef_gf (b := ofShape shape) hT
    have hFinal : shape.wbRounds + shape.lbRounds < s.round := by
      by_contra hNot
      by_cases hLe : s.round ≤ shape.wbRounds
      · rw [selfRef_wb (b := ofShape shape) hLe] at hRef
        split at hRef <;> cases hRef
      · rw [selfRef_lb (b := ofShape shape) (k := s.round - shape.wbRounds)
          (show s.round = shape.wbRounds + _ by omega) (by omega)
          (show _ ≤ shape.lbRounds by omega)] at hRef
        split at hRef <;> cases hRef
    obtain ⟨hPosition, hRound⟩ := mem_finals hSized.rounds_pos hs hFinal
    simp only [beq_eq_false_iff_ne.mpr (show SecondChanceTarget.gold ≠ .bronze by decide),
      Bool.false_eq_true, if_false]
    cases hPlayed : shape.grandFinalReset && !homeWins .gf with
    | true =>
      rw [hPlayed] at hRef
      have hLast : s.round = shape.wbRounds + shape.lbRounds + 1 + 1 := by
        rcases hRound with hEq | hEq
        · rw [hGf s hs hEq] at hRef
          cases hRef
        · exact hEq
      rw [h.slotAt_eq hRows hs hLast hPosition fun t ht hT =>
        hSized.eq_of_selfRef ht hs ((hReset t ht hT).trans hRef.symm)]
      obtain ⟨f, -, g, -, hBoard⟩ := hSized.decided homeWins hFought
      obtain ⟨wl, hWl, -⟩ := mem_resultIds.mp
        ((h.result_of_fought hSized hs hFought).mpr ⟨f, g, hBoard, rfl, rfl⟩)
      simp [hWl]
    | false =>
      rw [hPlayed] at hRef
      have hLast : s.round = shape.wbRounds + shape.lbRounds + 1 := by
        rcases hRound with hEq | hEq
        · exact hEq
        · rw [hReset s hs hEq] at hRef
          cases hRef
      have hAt := h.slotAt_eq hRows hs hLast hPosition fun t ht hT =>
        hSized.eq_of_selfRef ht hs ((hGf t ht hT).trans hRef.symm)
      cases hFind : slotAt rows (shape.wbRounds + shape.lbRounds + 1 + 1) with
      | none => simpa using hAt
      | some x =>
        obtain ⟨t, ht, rfl⟩ := List.mem_map.mp
          (hRows.mem_iff.mp (List.mem_of_find?_eq_some hFind))
        have hSome := List.find?_some hFind
        rw [Bool.and_eq_true, beq_iff_eq] at hSome
        have hKey := hReset t ht ((h.placed t ht).1.symm.trans hSome.1)
        have hSkipped : (ofShape shape).node t ∉ (ofShape shape).fought homeWins := by
          intro hIn
          rw [hSized.reset_fought homeWins hIn hKey] at hPlayed
          cases hPlayed
        have hNone : winnerLoser (row t) = none :=
          Option.map_eq_none_iff.mp (h.result_of_skipped ht hSkipped)
        simpa [hNone] using hAt

/-! ### Everyone is placed -/

section Order

variable (collate : String → String → Ordering) {layout : DoubleElimLayout} {r : Ranking}
  (hRows : rows.Perm ((ofShape shape).slots.map row)) (hReads : Reads layout shape)

include hRows hReads

variable (r) in
/-- The winners of the last losers-bracket round are third and fourth of the bronze mode. -/
theorem survivor_placed {position : ℕ} (hTarget : shape.secondChanceTarget = .bronze)
    (hKey : .lb shape.lbRounds position ∈ ((ofShape shape).fought homeWins).map Node.key) {f : ℕ}
    (hWins : ((ofShape shape).played homeWins (.lb shape.lbRounds position)).winner = some f) :
    reg f ∈ (placeBronzePodium collate rows layout r).ids := by
  obtain ⟨s, hs, hRef, hRow, u, v, hBoard, hResult⟩ := h.row_of_feed hSized hRows hKey
  rw [hBoard] at hWins
  cases hWins
  have hRound : s.round = shape.wbRounds + shape.lbRounds := (of_selfRef_lb hRef).1
  have hLast : row s ∈ rows.filter fun x => x.round == layout.lastLbRound := by
    refine List.mem_filter.mpr ⟨hRow, ?_⟩
    rw [(h.placed s hs).1, hReads.lastLbRound, beq_iff_eq]
    exact hRound
  rw [placeBronzePodium, hReads.isBronze, hReads.bronzeMatch, hTarget]
  cases hOn : shape.bronzeMatch with
  | true =>
    have hOnly : ∀ x ∈ rows.filter (fun x => x.round == layout.lastLbRound), x = row s := by
      intro x hx
      obtain ⟨hx, hAt⟩ := List.mem_filter.mp hx
      obtain ⟨t, ht, rfl⟩ := List.mem_map.mp (hRows.mem_iff.mp hx)
      rw [beq_iff_eq, (h.placed t ht).1, hReads.lastLbRound] at hAt
      rw [hSized.bronze_only hTarget hOn ht hs hAt hRound]
    have hHead : (rows.filter fun x => x.round == layout.lastLbRound).head? = some (row s) := by
      cases hList : rows.filter fun x => x.round == layout.lastLbRound with
      | nil =>
        rw [hList] at hLast
        cases hLast
      | cons x rest => rw [List.head?_cons, hOnly x (by rw [hList]; exact List.mem_cons_self)]
    exact mem_placeBronzeBout.mpr (Or.inr ⟨row s, hHead, reg f, reg v, hResult, Or.inl rfl⟩)
  | false => exact (ids_survivors _ _).mpr (Or.inr ⟨row s, hLast, reg v, hResult⟩)

/-- The groups after the title place the rest of the field. -/
theorem mem_groups (hTitle : ∀ f, ((ofShape shape).played homeWins
      ((ofShape shape).deciding homeWins)).winner = some f ∨
        ((ofShape shape).played homeWins ((ofShape shape).deciding homeWins)).loser = some f →
      reg f ∈ r.ids)
    (hField : ∀ id ∈ r.ids, id ∈ (List.range' 1 fighterCount).map reg) :
    r.ids <+: (placeBelowTitle collate rows layout r).ids ∧
      ∀ id, id ∈ (placeBelowTitle collate rows layout r).ids ↔
        id ∈ (List.range' 1 fighterCount).map reg := by
  rw [placeBelowTitle]
  obtain ⟨hPodium, hFromPodium⟩ := placeBronzePodium_spec collate rows layout r
  generalize hR2 : placeBronzePodium collate rows layout r = r2 at *
  have hLosersSpec := pushRounds_spec collate rows r2
    (fun round => { eliminationRound := some (round - layout.wbRounds),
                    bracketSection := some .LB })
    (!layout.isBronze)
    fun s => decide (layout.wbRounds < s.round ∧ s.round ≤ layout.lastLbRound)
  rw [← placeLosersBracket] at hLosersSpec
  obtain ⟨hLosers, hFromLosers, hToLosers⟩ := hLosersSpec
  generalize placeLosersBracket collate rows layout r2 = r3 at *
  obtain ⟨hEarly, hFromEarly, hToEarly⟩ := placePreCutoffWinners_spec collate rows layout r3
  generalize placePreCutoffWinners collate rows layout r3 = r4 at *
  obtain ⟨hPlayIn, hFromPlayIn, hToPlayIn⟩ := placePlayIn_spec collate rows r4
  refine ⟨((hPodium.trans hLosers).trans hEarly).trans hPlayIn, fun id => ⟨fun hId => ?_, ?_⟩⟩
  · have hNamed : id ∈ r.ids ∨ NamedBy rows id := by
      rcases hFromPlayIn id hId with hId | hNamed
      · rcases hFromEarly id hId with hId | hNamed
        · rcases hFromLosers id hId with hId | hNamed
          · exact hFromPodium id hId
          · exact Or.inr hNamed
        · exact Or.inr hNamed
      · exact Or.inr hNamed
    rcases hNamed with hIn | hNamed
    · exact hField id hIn
    · exact h.named_mem hSized hRows hNamed
  · intro hId
    obtain ⟨f, hf, rfl⟩ := List.mem_map.mp hId
    obtain ⟨x, hSide, ⟨k, hKey, hFrom⟩, hWhere⟩ := hSized.found homeWins hf
    have hAll := (((hPodium.trans hLosers).trans hEarly).trans hPlayIn).subset
    rcases hWhere with rfl | rfl | hOut
    · exact hAll (hTitle f (Or.inl hSide))
    · exact hAll (hTitle f (Or.inr hSide))
    cases hOut with
    | losers k position =>
      cases hFrom
      obtain ⟨s, hs, hRef, hRow, u, v, hBoard, hResult⟩ := h.row_of_feed hSized hRows hKey
      rw [Feed.side_loserOf, hBoard] at hSide
      cases hSide
      obtain ⟨hRound, -, hOne, hLe⟩ := of_selfRef_lb hRef
      change s.round = shape.wbRounds + k at hRound
      change k ≤ shape.lbRounds at hLe
      refine (hEarly.trans hPlayIn).subset (hToLosers _ hRow (decide_eq_true ?_) _ _ hResult)
      rw [(h.placed s hs).1, hReads.wbRounds, hReads.lastLbRound]
      omega
    | early round position hLt =>
      cases hFrom
      obtain ⟨s, hs, hRef, hRow, u, v, hBoard, hResult⟩ := h.row_of_feed hSized hRows hKey
      rw [Feed.side_loserOf, hBoard] at hSide
      cases hSide
      obtain ⟨hRound, -, -⟩ := of_selfRef_wb hRef
      have hAt : (row s).round = round := (h.placed s hs).1.trans hRound
      rcases Nat.eq_zero_or_pos round with hZero | hPos
      · exact hToPlayIn _ hRow (hAt.trans hZero) _ _ hResult
      · refine hPlayIn.subset (hToEarly _ hRow ?_ ?_ _ _ hResult)
        · omega
        · rw [hReads.entryRound]
          omega
    | survivor position hTarget =>
      cases hFrom
      have hPlaced := h.survivor_placed hSized collate r hRows hReads hTarget hKey hSide
      rw [hR2] at hPlaced
      exact ((hLosers.trans hEarly).trans hPlayIn).subset hPlaced

end Order

end CompletedDouble

/-- The law of a double elimination: the title is the deciding bout's. -/
theorem computeFinalRanking_double (collate : String → String → Ordering) {fighterCount : ℕ}
    {options : DoubleElimOptions} {b : DoubleElimBracket} {homeWins : MatchRef → Bool}
    {reg : ℕ → String} {row : DoubleElimSlot → RankingSlot} {rows : List RankingSlot}
    (hBracket : doubleElimBracket fighterCount options = .ok b)
    (h : CompletedDouble b homeWins reg row) (hRows : rows.Perm (b.slots.map row))
    (bronzeSlotId : Option String) (poolEntries : List PoolEntry) :
    ∃ champion runnerUp,
      b.played homeWins (b.deciding homeWins) = ⟨some champion, some runnerUp⟩ ∧
        RankingLaw (computeFinalRanking collate rows poolEntries bronzeSlotId
            (some (rankingBracketShape (payload b))))
          ((List.range' 1 b.fighterCount).map reg) poolEntries (reg champion)
            (reg runnerUp) := by
  rw [doubleElimBracket] at hBracket
  cases hShape : DoubleElim.resolveDoubleElimShape fighterCount options with
  | error message =>
    rw [hShape] at hBracket
    cases hBracket
  | ok shape =>
    rw [hShape] at hBracket
    cases hBracket
    obtain ⟨surplus, depth, hSized⟩ := DoubleElim.resolveDoubleElimShape_sized hShape
    have hFighters : (DoubleElim.ofShape shape).fighterCount = fighterCount := hSized.fighters
    obtain ⟨n, hn, hKey, f, hf, g, hg, hNe, hBoard⟩ := hSized.title homeWins
    rw [hKey] at hBoard
    refine ⟨f, g, hBoard, ?_⟩
    have hReads := reads_payload shape
    obtain ⟨s, hs, hRef, hFought, hSlot⟩ := h.decidingSlot_eq hSized hRows hReads
    obtain ⟨wl, hWl, hWinner, hLoser⟩ := mem_resultIds.mp
      ((h.result_of_fought hSized hs hFought).mpr ⟨f, g, by rw [hRef, hBoard], rfl, rfl⟩)
    have hIds : (placePodium (.new poolEntries) wl .champion .runnerUp).ids = [reg f, reg g] := by
      rw [ids_title, hWinner, hLoser]
      rw [hWinner, hLoser]
      exact fun hEq => hNe (h.registered.inj f (by rwa [hFighters]) g (by rwa [hFighters]) hEq)
    have hTitle : ∀ x, ((DoubleElim.ofShape shape).played homeWins
          ((DoubleElim.ofShape shape).deciding homeWins)).winner = some x ∨
        ((DoubleElim.ofShape shape).played homeWins
          ((DoubleElim.ofShape shape).deciding homeWins)).loser = some x →
        reg x ∈ (placePodium (.new poolEntries) wl .champion .runnerUp).ids := by
      intro x hx
      rw [hBoard] at hx
      rw [hIds]
      rcases hx with hx | hx <;> cases hx <;> simp
    have hField : ∀ id ∈ (placePodium (.new poolEntries) wl .champion .runnerUp).ids,
        id ∈ (List.range' 1 fighterCount).map reg := by
      intro id hId
      rw [hIds] at hId
      rcases List.mem_pair.mp hId with rfl | rfl
      · exact List.mem_map_of_mem hf
      · exact List.mem_map_of_mem hg
    obtain ⟨hPrefix, hAll⟩ := h.mem_groups hSized collate hRows hReads hTitle hField
    have hRanking : computeFinalRanking collate rows poolEntries bronzeSlotId
        (some (rankingBracketShape (payload (DoubleElim.ofShape shape)))) =
          (placeNonBracket collate rows poolEntries (placeBelowTitle collate rows
            (readLayout (rankingBracketShape (payload (DoubleElim.ofShape shape))))
              (placePodium (.new poolEntries) wl .champion .runnerUp))).entries := by
      rw [computeFinalRanking, if_neg (by simp [rankingBracketShape, payload]), orderBracket,
        if_pos (by simp [rankingBracketShape, payload]), orderDoubleElim, placeTitle, hSlot,
        Option.bind_some, hWl]
      rfl
    rw [hRanking, hFighters]
    refine lawful_of_ordered hAll (h.mem_bracketRegIds hSized hRows) ?_
    rwa [← hIds]

/-! ## Both brackets -/

/-- The final ranking of every completed bracket, with any pool entries: places `1..n`,
everyone once, the title from the deciding bout, the pools below the bracket, and in a single
elimination every loser below the fighter who beat them. -/
theorem computeFinalRanking_lawful (collate : String → String → Ordering) (reg : ℕ → String)
    (rows : List RankingSlot) (bronzeSlotId : Option String) (poolEntries : List PoolEntry) :
    (∀ (fighterCount : ℕ) (size : Option ℕ) (b : SingleElimBracket) (homeWins : SlotRef → Bool)
        (row : BracketSlot → RankingSlot) (bracket : Option RankingBracketShape),
      singleElimBracket fighterCount size = .ok b → CompletedSingle b homeWins reg row →
      rows.Perm (b.slots.map row) →
      (∀ id, truthy bronzeSlotId = some id → ∃ s ∈ b.slots, b.isBronze s ∧ (row s).id = id) →
      (∀ shape, bracket = some shape → shape.phaseType = .single_elim) →
      ∃ champion runnerUp, b.played homeWins ⟨b.rounds, 1⟩ = ⟨some champion, some runnerUp⟩ ∧
        RankingLaw (computeFinalRanking collate rows poolEntries bronzeSlotId bracket)
          ((List.range' 1 b.fighterCount).map reg) poolEntries (reg champion) (reg runnerUp) ∧
        ∀ s ∈ b.slots, ∀ f g, b.played homeWins s.ref = ⟨some f, some g⟩ →
          ∀ e ∈ computeFinalRanking collate rows poolEntries bronzeSlotId bracket,
          ∀ e' ∈ computeFinalRanking collate rows poolEntries bronzeSlotId bracket,
            e.registrationId = reg f → e'.registrationId = reg g → e.place < e'.place) ∧
    ∀ (fighterCount : ℕ) (options : DoubleElimOptions) (b : DoubleElimBracket)
        (homeWins : MatchRef → Bool) (row : DoubleElimSlot → RankingSlot),
      doubleElimBracket fighterCount options = .ok b → CompletedDouble b homeWins reg row →
      rows.Perm (b.slots.map row) →
      ∃ champion runnerUp,
        b.played homeWins (b.deciding homeWins) = ⟨some champion, some runnerUp⟩ ∧
          RankingLaw (computeFinalRanking collate rows poolEntries bronzeSlotId
              (some (rankingBracketShape (payload b))))
            ((List.range' 1 b.fighterCount).map reg) poolEntries (reg champion)
              (reg runnerUp) :=
  ⟨fun _ _ _ _ _ _ hBracket h hRows hId hShape =>
      computeFinalRanking_single hBracket h hRows hId hShape poolEntries,
    fun _ _ _ _ _ hBracket h hRows =>
      computeFinalRanking_double collate hBracket h hRows bronzeSlotId poolEntries⟩

/-! ### Rows of a play -/

/-- The row of a bout with its winner recorded. -/
def playedRow (reg : ℕ → String) (id : String) (round position : ℕ) (home away : Option ℕ)
    (homeWins : Bool) : RankingSlot where
  id := id
  round := round
  position := position
  status := "completed"
  redRegistrationId := home.map reg
  blueRegistrationId := away.map reg
  redFighterName := some "Red"
  blueFighterName := some "Blue"
  redClubAbbrev := none
  blueClubAbbrev := none
  redScore := none
  blueScore := none
  winnerRegistrationId :=
    match home, away with
    | some h, some a => some (reg (if homeWins then h else a))
    | _, _ => none

theorem recorded_playedRow (reg : ℕ → String) (id : String) (round position : ℕ)
    (home away : Option ℕ) (homeWins : Bool) :
    Recorded reg home away homeWins (playedRow reg id round position home away homeWins) where
  red := rfl
  blue := rfl
  result h a hHome hAway := by
    subst hHome hAway
    refine ⟨rfl, rfl, rfl, Or.inl ?_⟩
    cases homeWins <;> rfl

def singleRow (b : SingleElimBracket) (homeWins : SlotRef → Bool) (reg : ℕ → String)
    (s : BracketSlot) : RankingSlot :=
  playedRow reg s.ref.text s.round s.position (s.homeSource.side (b.played homeWins))
    (s.awaySource.side (b.played homeWins)) (homeWins s.ref)

/-- A bracket of the default size always comes to its end. -/
theorem completedSingle_default {fighterCount : ℕ} {b : SingleElimBracket}
    (hBracket : singleElimBracket fighterCount none = .ok b) (homeWins : SlotRef → Bool)
    {reg : ℕ → String} (hReg : Registered reg b.fighterCount) :
    CompletedSingle b homeWins reg (singleRow b homeWins reg) := by
  obtain ⟨-, hCount, k, hRounds, hMode⟩ := singleElimBracket_ok hBracket
  obtain ⟨main, bronze, hLaid⟩ : ∃ main bronze, Laid b main bronze := by
    rcases hMode with ⟨hSize, -⟩ | ⟨-, m, hField, hFit, hSlots⟩
    · cases hSize
    · exact laid_default hCount hRounds hField hFit hSlots
  refine ⟨hReg, fun s hs hNot x hx hBye => ?_, fun s _ => recorded_playedRow _ _ _ _ _ _ _,
    fun s _ => ⟨rfl, rfl⟩, ?_⟩
  · exact hLaid.filled homeWins (hLaid.mem_main hs hNot) hx hBye
  · have hRefs := hLaid.ordered.refs.imp SlotRef.Before.ne
    have hTexts := List.Nodup.map SlotRef.text_injective hRefs
    rwa [List.map_map] at hTexts

def doubleRow (b : DoubleElimBracket) (homeWins : MatchRef → Bool) (reg : ℕ → String)
    (s : DoubleElimSlot) : RankingSlot :=
  if b.node s ∈ b.fought homeWins then
    playedRow reg (b.selfRef s).text s.round s.position (s.homeSource.side (b.played homeWins))
      (s.awaySource.side (b.played homeWins)) (homeWins (b.selfRef s))
  else playedRow reg (b.selfRef s).text s.round s.position none none true

theorem completedDouble_rows (b : DoubleElimBracket) (homeWins : MatchRef → Bool)
    {reg : ℕ → String} (hReg : Registered reg b.fighterCount) :
    CompletedDouble b homeWins reg (doubleRow b homeWins reg) where
  registered := hReg
  recorded s _ hFought := by
    rw [doubleRow, if_pos hFought]
    exact recorded_playedRow _ _ _ _ _ _ _
  skipped s _ hSkipped := by
    rw [doubleRow, if_neg hSkipped]
    exact ⟨rfl, rfl⟩
  placed s _ := by
    rw [doubleRow]
    split <;> exact ⟨rfl, rfl⟩

theorem registered_repr (fighterCount : ℕ) : Registered toString fighterCount where
  ne_empty f _ hEmpty := by
    have hChars := congrArg String.toList hEmpty
    rw [Nat.toString_eq_repr, Nat.toList_repr] at hChars
    exact Nat.toDigits_ne_nil hChars
  inj f _ g _ hEq := toString_nat_inj hEq

/-- Thirteen fighters in a single elimination, and six in a double elimination whose reset
is skipped. -/
theorem computeFinalRanking_lawful_played :
    (∃ b, singleElimBracket 13 none = .ok b ∧ ∃ champion runnerUp,
      RankingLaw (computeFinalRanking compare
          (b.slots.map (singleRow b (fun _ => true) toString)) [] none none)
        ((List.range' 1 b.fighterCount).map toString) [] (toString (champion : ℕ))
          (toString (runnerUp : ℕ))) ∧
    ∃ b, doubleElimBracket 6 { grandFinalReset := some true } = .ok b ∧ ∃ champion runnerUp,
      RankingLaw (computeFinalRanking compare
          (b.slots.map (doubleRow b (fun _ => true) toString)) [] none
            (some (rankingBracketShape (payload b))))
        ((List.range' 1 b.fighterCount).map toString) [] (toString (champion : ℕ))
          (toString (runnerUp : ℕ)) := by
  constructor
  · have hOk : (singleElimBracket 13 none).isOk = true := by decide +kernel
    cases h : singleElimBracket 13 none with
    | error message =>
      rw [h] at hOk
      cases hOk
    | ok b =>
      obtain ⟨champion, runnerUp, -, hLaw, -⟩ :=
        (computeFinalRanking_lawful compare toString _ none []).1 13 none b (fun _ => true) _ none h
          (completedSingle_default h _ (registered_repr _)) (.refl _)
          (fun id hId => by cases hId) (fun shape hShape => by cases hShape)
      exact ⟨b, rfl, champion, runnerUp, hLaw⟩
  · have hOk : (doubleElimBracket 6 { grandFinalReset := some true }).isOk = true := by
      decide +kernel
    cases h : doubleElimBracket 6 { grandFinalReset := some true } with
    | error message =>
      rw [h] at hOk
      cases hOk
    | ok b =>
      obtain ⟨champion, runnerUp, -, hLaw⟩ :=
        (computeFinalRanking_lawful compare toString _ none []).2 6 _ b (fun _ => true) _ h
          (completedDouble_rows b _ (registered_repr _)) (.refl _)
      exact ⟨b, rfl, champion, runnerUp, hLaw⟩

end MyClash.FinalRanking
