import MyClash.FinalRanking.Rows
import MyClash.Bracket.SingleElimFinish

/-!
# The final ranking of a single elimination

The rows of a completed bracket come in any order. The final opens the ranking, the bronze
bout goes on, and the losers of the other rounds follow, so nobody stands above the fighter
who beat them.
-/

namespace MyClash.FinalRanking

open Placing Knockout Bracket

/-- A bracket with every bout decided, as the rows tell it. -/
structure CompletedSingle (b : SingleElimBracket) (homeWins : SlotRef → Bool)
    (reg : ℕ → String) (row : BracketSlot → RankingSlot) : Prop where
  registered : Registered reg b.fighterCount
  filled : ∀ s ∈ b.slots, b.isBronze s = false → ∀ x ∈ s.node.sides, x.isBye = false →
    (x.side (b.played homeWins)).isSome
  recorded : ∀ s ∈ b.slots, Recorded reg (s.homeSource.side (b.played homeWins))
    (s.awaySource.side (b.played homeWins)) (homeWins s.ref) (row s)
  placed : ∀ s ∈ b.slots, (row s).round = s.round ∧ (row s).position = s.position
  ids : (b.slots.map fun s => (row s).id).Nodup

theorem find?_unique {α : Type} {p : α → Bool} {l : List α} {x : α} (hx : x ∈ l)
    (hp : p x = true) (hUnique : ∀ y ∈ l, p y = true → y = x) : l.find? p = some x := by
  cases hFind : l.find? p with
  | none => exact absurd hp (by simpa using List.find?_eq_none.mp hFind x hx)
  | some y => rw [hUnique y (List.mem_of_find?_eq_some hFind) (List.find?_some hFind)]

theorem maxRound_eq {slots : List RankingSlot} {last : ℕ} (hLe : ∀ s ∈ slots, s.round ≤ last)
    (hMem : ∃ s ∈ slots, s.round = last) : maxRound slots = last := by
  have hFold : ∀ (l : List RankingSlot) (m : ℕ), m ≤ last → (∀ s ∈ l, s.round ≤ last) →
      (m = last ∨ ∃ s ∈ l, s.round = last) →
      l.foldl (fun m s => max m s.round) m = last := by
    intro l
    induction l with
    | nil =>
      intro m _ _ hIn
      simpa using hIn
    | cons s l ih =>
      intro m hm hLe hIn
      have hHere := hLe s List.mem_cons_self
      refine ih (max m s.round) (by omega) (fun t ht => hLe t (List.mem_cons_of_mem s ht)) ?_
      rcases hIn with rfl | ⟨t, ht, hEq⟩
      · exact Or.inl (by omega)
      · rcases List.mem_cons.mp ht with rfl | ht
        · exact Or.inl (by omega)
        · exact Or.inr ⟨t, ht, hEq⟩
  exact hFold slots 0 (Nat.zero_le _) hLe (Or.inr hMem)

namespace CompletedSingle

variable {b : SingleElimBracket} {homeWins : SlotRef → Bool} {reg : ℕ → String}
  {row : BracketSlot → RankingSlot} {main bronze : List BracketSlot} {rows : List RankingSlot}

section Rows

variable (h : CompletedSingle b homeWins reg row) (hLaid : Laid b main bronze)

include h hLaid

theorem result_iff {s : BracketSlot} (hs : s ∈ b.slots) {w l : String} : resultIds (row s) = some (w, l) ↔
    ∃ f g, b.played homeWins s.ref = ⟨some f, some g⟩ ∧ w = reg f ∧ l = reg g := by
  rw [hLaid.result_eq homeWins hs]
  exact resultIds_bout (n := s.node) (h.recorded s hs) fun x hx f hSide =>
    h.registered.ne_empty f (hLaid.side_mem homeWins hs hx hSide)

/-- The registrations of the rows are those of the field. -/
theorem mem_bracketRegIds (hRows : ∀ x, x ∈ rows ↔ ∃ s ∈ b.slots, row s = x) (id : String) :
    id ∈ bracketRegIds rows ↔ id ∈ (List.range' 1 b.fighterCount).map reg := by
  have hIds : ∀ s ∈ b.slots,
      (id ∈ (truthy (row s).redRegistrationId).toList ++
        (truthy (row s).blueRegistrationId).toList ↔
          ∃ x ∈ s.node.sides, ∃ f, x.side (b.played homeWins) = some f ∧ reg f = id) := by
    intro s hs
    rw [(h.recorded s hs).mem_ids]
    · simp only [BracketSlot.node, Node.sides, List.mem_cons, List.not_mem_nil, or_false,
        exists_eq_left, or_and_right, exists_or]
    · rintro f (hf | hf)
      · exact h.registered.ne_empty f (hLaid.side_mem homeWins hs List.mem_cons_self hf)
      · exact h.registered.ne_empty f
          (hLaid.side_mem homeWins hs (List.mem_cons_of_mem _ List.mem_cons_self) hf)
  rw [bracketRegIds, List.mem_flatMap]
  constructor
  · rintro ⟨x, hx, hId⟩
    obtain ⟨s, hs, rfl⟩ := (hRows x).mp hx
    obtain ⟨y, hy, f, hSide, rfl⟩ := (hIds s hs).mp hId
    exact List.mem_map_of_mem (hLaid.side_mem homeWins hs hy hSide)
  · intro hId
    obtain ⟨f, hf, rfl⟩ := List.mem_map.mp hId
    obtain ⟨node, hNode, hSide⟩ := List.mem_flatMap.mp
      (List.count_pos_iff.mp (Nat.lt_of_lt_of_eq Nat.zero_lt_one (hLaid.lawful.seeds f hf).symm))
    obtain ⟨s, hs, rfl⟩ := List.mem_map.mp hNode
    exact ⟨row s, (hRows _).mpr ⟨s, hs, rfl⟩, (hIds s hs).mpr ⟨_, hSide, f, rfl, rfl⟩⟩

end Rows

/-! ## What the ordering finds -/

section Find

variable (h : CompletedSingle b homeWins reg row) (hLaid : Laid b main bronze)
  (hRows : rows.Perm (b.slots.map row))

include h hLaid hRows

omit h hLaid in
theorem mem_rows {x : RankingSlot} : x ∈ rows ↔ ∃ s ∈ b.slots, row s = x := by
  rw [hRows.mem_iff, List.mem_map]

omit hRows hLaid in
theorem eq_of_id {s s' : BracketSlot} (hs : s ∈ b.slots) (hs' : s' ∈ b.slots)
    (hId : (row s).id = (row s').id) : s = s' := List.inj_on_of_nodup_map h.ids hs hs' hId

omit hRows in
/-- Round and position name a slot. -/
theorem eq_of_place {s s' : BracketSlot} (hs : s ∈ b.slots) (hs' : s' ∈ b.slots)
    (hRound : (row s).round = s'.round) (hPosition : (row s).position = s'.position) :
    s = s' := by
  obtain ⟨hr, hp⟩ := h.placed s hs
  refine hLaid.eq_of_ref hs hs' ?_
  rw [BracketSlot.ref, BracketSlot.ref, ← hr, ← hp, hRound, hPosition]

theorem maxRound_rows : maxRound rows = b.rounds := by
  obtain ⟨final, hFinal, hRef⟩ := hLaid.final_slot
  have hSlot := hLaid.main_subset hFinal
  refine maxRound_eq (fun x hx => ?_) ⟨row final, (mem_rows hRows).mpr ⟨final, hSlot, rfl⟩, ?_⟩
  · obtain ⟨s, hs, rfl⟩ := (mem_rows hRows).mp hx
    rw [(h.placed s hs).1]
    rw [hLaid.slots, List.mem_append] at hs
    rcases hs with hs | hs
    · rcases hLaid.main_round s hs with hRound | ⟨hRound, -⟩
      · exact Nat.le_of_lt hRound
      · exact Nat.le_of_eq hRound
    · rw [(hLaid.bronze_eq s hs).2]
      exact Nat.le_refl _
  · rw [(h.placed final hSlot).1]
    exact congrArg SlotRef.round hRef

theorem findBronzeSlot_some {bronzeSlotId : Option String}
    (hId : ∀ id, truthy bronzeSlotId = some id → ∃ s ∈ b.slots, b.isBronze s ∧ (row s).id = id)
    {s : BracketSlot} (hs : s ∈ bronze) : findBronzeSlot rows bronzeSlotId = some (row s) := by
  have hSlot : s ∈ b.slots := by
    rw [hLaid.slots]
    exact List.mem_append_right _ hs
  have hRow := (mem_rows hRows).mpr ⟨s, hSlot, rfl⟩
  have hEq := (hLaid.bronze_eq s hs).2
  rw [findBronzeSlot]
  split
  · rename_i id hSome
    obtain ⟨t, ht, hIs, rfl⟩ := hId id hSome
    obtain rfl : t = s := by rw [hEq, (hLaid.bronze_eq t (hLaid.mem_bronze ht hIs)).2]
    refine find?_unique hRow (beq_self_eq_true _) fun y hy hp => ?_
    obtain ⟨u, hu, rfl⟩ := (mem_rows hRows).mp hy
    rw [h.eq_of_id hu hSlot (beq_iff_eq.mp hp)]
  · rw [h.maxRound_rows hLaid hRows]
    have hPlace : s.round = b.rounds ∧ s.position = 2 := by
      rw [hEq]
      exact ⟨rfl, rfl⟩
    refine find?_unique hRow ?_ fun y hy hp => ?_
    · rw [(h.placed s hSlot).1, (h.placed s hSlot).2, hPlace.1, hPlace.2]
      simp
    · obtain ⟨u, hu, rfl⟩ := (mem_rows hRows).mp hy
      rw [Bool.and_eq_true, beq_iff_eq, beq_iff_eq] at hp
      rw [h.eq_of_place hLaid hu hSlot (hp.1.trans hPlace.1.symm) (hp.2.trans hPlace.2.symm)]

theorem findBronzeSlot_none {bronzeSlotId : Option String}
    (hId : ∀ id, truthy bronzeSlotId = some id → ∃ s ∈ b.slots, b.isBronze s ∧ (row s).id = id)
    (hNone : bronze = []) : findBronzeSlot rows bronzeSlotId = none := by
  rw [findBronzeSlot]
  split
  · rename_i id hSome
    obtain ⟨t, ht, hIs, -⟩ := hId id hSome
    have hMem := hLaid.mem_bronze ht hIs
    rw [hNone] at hMem
    cases hMem
  · rw [h.maxRound_rows hLaid hRows, List.find?_eq_none]
    intro y hy hp
    obtain ⟨u, hu, rfl⟩ := (mem_rows hRows).mp hy
    rw [(h.placed u hu).1, (h.placed u hu).2] at hp
    have hMem := hLaid.mem_bronze hu hp
    rw [hNone] at hMem
    cases hMem

/-- The bronze bout, if there is one, and the rest. -/
theorem bronze_split {bronzeSlotId : Option String}
    (hId : ∀ id, truthy bronzeSlotId = some id → ∃ s ∈ b.slots, b.isBronze s ∧ (row s).id = id) :
    (∀ x, findBronzeSlot rows bronzeSlotId = some x ↔ ∃ s ∈ bronze, row s = x) ∧
      ∀ x, x ∈ mainSlotsOf rows (findBronzeSlot rows bronzeSlotId) ↔ ∃ s ∈ main, row s = x := by
  have hSplit : ∀ s, s ∈ b.slots ↔ s ∈ main ∨ s ∈ bronze := fun s => by
    rw [hLaid.slots, List.mem_append]
  rcases bronze.eq_nil_or_concat with hNone | ⟨rest, s, hConcat⟩
  · rw [h.findBronzeSlot_none hLaid hRows hId hNone]
    refine ⟨fun x => by simp [hNone], fun x => ?_⟩
    rw [mainSlotsOf, mem_rows hRows]
    simp only [hSplit, hNone, List.not_mem_nil, or_false]
  · have hs : s ∈ bronze := by simp [hConcat]
    have hSlot := (hSplit s).mpr (Or.inr hs)
    have hOnly : ∀ t ∈ bronze, t = s := fun t ht => by
      rw [(hLaid.bronze_eq t ht).2, (hLaid.bronze_eq s hs).2]
    rw [h.findBronzeSlot_some hLaid hRows hId hs]
    refine ⟨fun x => ?_, fun x => ?_⟩
    · constructor
      · rintro ⟨⟩
        exact ⟨s, hs, rfl⟩
      · rintro ⟨t, ht, rfl⟩
        rw [hOnly t ht]
    · rw [mainSlotsOf, List.mem_filter, mem_rows hRows, bne_iff_ne]
      constructor
      · rintro ⟨⟨t, ht, rfl⟩, hNe⟩
        rcases (hSplit t).mp ht with hMain | hBronze
        · exact ⟨t, hMain, rfl⟩
        · rw [hOnly t hBronze] at hNe
          exact absurd rfl hNe
      · rintro ⟨t, ht, rfl⟩
        have hT := (hSplit t).mpr (Or.inl ht)
        refine ⟨⟨t, hT, rfl⟩, fun hEq => ?_⟩
        have hIs := hLaid.isBronze_bronze hs
        rw [← h.eq_of_id hT hSlot hEq, hLaid.isBronze_main ht] at hIs
        cases hIs

end Find

/-! ## The order -/

section Order

variable {collate : String → String → Ordering} {bronzeSlotId : Option String} {final : BracketSlot} {champion runnerUp : ℕ}

theorem findFinal (h : CompletedSingle b homeWins reg row) (hLaid : Laid b main bronze)
    {mainRows : List RankingSlot} (hMain : ∀ x, x ∈ mainRows ↔ ∃ s ∈ main, row s = x)
    (hFinal : final ∈ main) (hRef : final.ref = ⟨b.rounds, 1⟩) :
    mainRows.find? (fun s => s.round == b.rounds && s.position == 1) = some (row final) := by
  have hSlot := hLaid.main_subset hFinal
  have hRound : final.round = b.rounds := congrArg SlotRef.round hRef
  have hPosition : final.position = 1 := congrArg SlotRef.position hRef
  refine find?_unique ((hMain _).mpr ⟨final, hFinal, rfl⟩) ?_ fun y hy hp => ?_
  · rw [(h.placed final hSlot).1, (h.placed final hSlot).2, hRound, hPosition]
    simp
  · obtain ⟨u, hu, rfl⟩ := (hMain y).mp hy
    rw [Bool.and_eq_true, beq_iff_eq, beq_iff_eq] at hp
    rw [h.eq_of_place hLaid (hLaid.main_subset hu) hSlot (hp.1.trans hRound.symm)
      (hp.2.trans hPosition.symm)]

/-- What the ordering places: the title, the bronze bout, the rounds. -/
theorem orderSingleElim_eq (collate : String → String → Ordering)
    (h : CompletedSingle b homeWins reg row) (hLaid : Laid b main bronze)
    (hRows : rows.Perm (b.slots.map row))
    (hId : ∀ id, truthy bronzeSlotId = some id → ∃ s ∈ b.slots, b.isBronze s ∧ (row s).id = id)
    (hFinal : final ∈ main) (hRef : final.ref = ⟨b.rounds, 1⟩) {wl : WinnerLoser}
    (hWl : winnerLoser (row final) = some wl) (r : Ranking) :
    orderSingleElim collate rows bronzeSlotId r =
      some (placeBelowFinal collate (findBronzeSlot rows bronzeSlotId)
        (mainSlotsOf rows (findBronzeSlot rows bronzeSlotId)) b.rounds
        (placePodium r wl .champion .runnerUp)) := by
  have hMain := (h.bronze_split hLaid hRows hId).2
  rw [orderSingleElim, h.maxRound_rows hLaid hRows]
  simp only [h.findFinal hLaid hMain hFinal hRef, Option.some_or, Option.bind_some, hWl]

variable (h : CompletedSingle b homeWins reg row) (hLaid : Laid b main bronze)
  (hFinal : final ∈ main) (hRef : final.ref = ⟨b.rounds, 1⟩)
  (hTitle : b.played homeWins final.ref = ⟨some champion, some runnerUp⟩)

include h hLaid hFinal hRef hTitle

/-- Whoever loses before the final is neither of its two. -/
theorem not_title {s : BracketSlot} (hs : s ∈ main) (hRound : s.round < b.rounds) {f : ℕ}
    (hLoses : (b.played homeWins s.ref).loser = some f) :
    reg f ∉ [reg champion, reg runnerUp] := by
  have hTwo := hLaid.fighters_of_result homeWins (hLaid.main_subset hFinal) hTitle
  have hField := hLaid.fighter_of_loser homeWins hs hLoses
  intro hMem
  rcases List.mem_pair.mp hMem with hEq | hEq
  · obtain rfl := h.registered.inj f hField champion hTwo.1 hEq
    refine hLaid.champion_unbeaten homeWins ?_ hs hLoses
    rw [← hRef, hTitle]
  · obtain rfl := h.registered.inj f hField runnerUp hTwo.2 hEq
    have hSame := hLaid.loses_once homeWins hs hFinal hLoses (by rw [hTitle])
    rw [hSame] at hRound
    exact Nat.lt_irrefl _ (hRound.trans_eq (congrArg SlotRef.round hRef).symm)

omit h in
/-- The winner of a semi-final stands in the title. -/
theorem title_of_semi {s : BracketSlot} (hs : s ∈ main) (hRound : s.round + 1 = b.rounds) {f : ℕ}
    (hWins : (b.played homeWins s.ref).winner = some f) :
    reg f ∈ [reg champion, reg runnerUp] := by
  rcases hLaid.climbs homeWins _ s hs (Nat.le_refl _) hWins with hChampion | ⟨t, ht, hLt, hLoses⟩
  · rw [← hRef, hTitle] at hChampion
    cases hChampion
    exact List.mem_cons_self
  · obtain rfl := hLaid.eq_final hFinal hRef ht (by omega)
    rw [hTitle] at hLoses
    cases hLoses
    simp

section Below

variable {bronzeSlot : Option RankingSlot} {mainRows : List RankingSlot} {r : Ranking}
  (hIds : r.ids = [reg champion, reg runnerUp])
  (hBronze : ∀ x, bronzeSlot = some x ↔ ∃ s ∈ bronze, row s = x)
  (hMain : ∀ x, x ∈ mainRows ↔ ∃ s ∈ main, row s = x)

include hIds hBronze

omit hFinal hRef hTitle in
/-- Whoever the bronze bout places lost a semi-final. -/
theorem mem_bronze_ids {f : ℕ} (hf : f ∈ List.range' 1 b.fighterCount) :
    reg f ∈ (placeBronzeBout bronzeSlot r).ids → reg f ∈ [reg champion, reg runnerUp] ∨
      ∃ s ∈ main, s.round + 1 = b.rounds ∧ (b.played homeWins s.ref).loser = some f := by
  rw [mem_placeBronzeBout, hIds]
  rintro (hIn | ⟨x, hx, w, l, hResult, hEq⟩)
  · exact Or.inl hIn
  obtain ⟨s, hs, rfl⟩ := (hBronze x).mp hx
  have hSlot : s ∈ b.slots := by
    rw [hLaid.slots]
    exact List.mem_append_right _ hs
  obtain ⟨u, v, hBeat, rfl, rfl⟩ := (h.result_iff hLaid hSlot).mp hResult
  obtain ⟨hu, hv⟩ := hLaid.fighters_of_result homeWins hSlot hBeat
  obtain ⟨-, hSemi⟩ := hLaid.bronze_decided homeWins hs hBeat
  rcases hEq with hEq | hEq
  · exact Or.inr (hSemi f (Or.inl (h.registered.inj f hf u hu hEq)))
  · exact Or.inr (hSemi f (Or.inr (h.registered.inj f hf v hv hEq)))

include hMain

variable (collate)

/-- The bracket places its field. -/
theorem mem_placeBelowFinal (id : String) :
    id ∈ (placeBelowFinal collate bronzeSlot mainRows b.rounds r).ids ↔
      id ∈ (List.range' 1 b.fighterCount).map reg := by
  have hTwo := hLaid.fighters_of_result homeWins (hLaid.main_subset hFinal) hTitle
  rw [placeBelowFinal, Ranking.mem_pushRounds]
  constructor
  · rintro (hIn | ⟨x, hx, w, hResult⟩)
    · rw [mem_placeBronzeBout, hIds] at hIn
      rcases hIn with hIn | ⟨x, hx, w, l, hResult, hEq⟩
      · rcases List.mem_pair.mp hIn with rfl | rfl
        · exact List.mem_map_of_mem hTwo.1
        · exact List.mem_map_of_mem hTwo.2
      · obtain ⟨s, hs, rfl⟩ := (hBronze x).mp hx
        have hSlot : s ∈ b.slots := by
          rw [hLaid.slots]
          exact List.mem_append_right _ hs
        obtain ⟨u, v, hBeat, rfl, rfl⟩ := (h.result_iff hLaid hSlot).mp hResult
        obtain ⟨hu, hv⟩ := hLaid.fighters_of_result homeWins hSlot hBeat
        rcases hEq with rfl | rfl
        · exact List.mem_map_of_mem hu
        · exact List.mem_map_of_mem hv
    · obtain ⟨s, hs, rfl⟩ := (hMain x).mp (List.mem_filter.mp hx).1
      have hSlot := hLaid.main_subset hs
      obtain ⟨u, v, hBeat, rfl, rfl⟩ := (h.result_iff hLaid hSlot).mp hResult
      exact List.mem_map_of_mem (hLaid.fighters_of_result homeWins hSlot hBeat).2
  · intro hId
    obtain ⟨f, hf, rfl⟩ := List.mem_map.mp hId
    have hTitleIn : ∀ x, x ∈ [reg champion, reg runnerUp] →
        x ∈ (placeBronzeBout bronzeSlot r).ids := fun x hx =>
      mem_placeBronzeBout.mpr (Or.inl (by rwa [hIds]))
    rcases hLaid.champion_or_loses homeWins hf with hWins | ⟨s, hs, hLoses⟩
    · rw [← hRef, hTitle] at hWins
      cases hWins
      exact Or.inl (hTitleIn _ List.mem_cons_self)
    · by_cases hRound : b.rounds ≤ s.round
      · obtain rfl := hLaid.eq_final hFinal hRef hs hRound
        rw [hTitle] at hLoses
        cases hLoses
        exact Or.inl (hTitleIn _ (by simp))
      · have hSlot := hLaid.main_subset hs
        obtain ⟨w, hResult⟩ := hLaid.result_of_loser homeWins hSlot hLoses
        refine Or.inr ⟨row s, List.mem_filter.mpr ⟨(hMain _).mpr ⟨s, hs, rfl⟩, ?_⟩, reg w, ?_⟩
        · rw [(h.placed s hSlot).1, bne_iff_ne]
          omega
        · exact (h.result_iff hLaid hSlot).mpr ⟨w, f, hResult, rfl, rfl⟩

/-- A loser stands below the fighter who beat them. -/
theorem above_placeBelowFinal {s : BracketSlot} (hs : s ∈ b.slots) {f g : ℕ}
    (hResult : b.played homeWins s.ref = ⟨some f, some g⟩) :
    Above (placeBelowFinal collate bronzeSlot mainRows b.rounds r).ids (reg f) (reg g) := by
  obtain ⟨hf, hg⟩ := hLaid.fighters_of_result homeWins hs hResult
  have hRow := (h.result_iff hLaid hs).mpr ⟨f, g, hResult, rfl, rfl⟩
  have hPodium : (placeBronzeBout bronzeSlot r).ids <+:
      (placeBelowFinal collate bronzeSlot mainRows b.rounds r).ids :=
    Ranking.prefix_pushRounds _ _
  have hTitlePrefix := (prefix_placeBronzeBout (r := r) bronzeSlot).trans hPodium
  have hIn := hs
  rw [hLaid.slots, List.mem_append] at hIn
  rcases hIn with hIn | hIn
  · have hWins : (b.played homeWins s.ref).winner = some f := by rw [hResult]
    have hLoses : (b.played homeWins s.ref).loser = some g := by rw [hResult]
    by_cases hLast : b.rounds ≤ s.round
    · -- the final itself: first stands above second
      obtain rfl := hLaid.eq_final hFinal hRef hIn hLast
      rw [hTitle] at hResult
      cases hResult
      refine Above.of_extends ⟨[reg champion], ⟨[reg runnerUp], hIds.symm⟩, by simp, ?_⟩
        hTitlePrefix
      intro hMem
      have hSame := h.registered.inj runnerUp hg champion hf (List.mem_singleton.mp hMem)
      rw [hSame] at hLoses
      exact hLaid.champion_unbeaten homeWins (by rw [← hRef, hTitle]) hIn hLoses
    · have hNot := h.not_title hLaid hFinal hRef hTitle hIn (by omega) hLoses
      by_cases hThird : reg g ∈ (placeBronzeBout bronzeSlot r).ids
      · -- a semi-final: its winner stands in the title
        rcases h.mem_bronze_ids hLaid hIds hBronze hg hThird with
          hMem | ⟨semi, hSemi, hRound, hLost⟩
        · exact absurd hMem hNot
        · obtain rfl := hLaid.loses_once homeWins hIn hSemi hLoses hLost
          refine ⟨r.ids, hTitlePrefix, ?_, by rwa [hIds]⟩
          rw [hIds]
          exact title_of_semi hLaid hFinal hRef hTitle hIn hRound hWins
      · have hKeep : ∀ t ∈ main, t.round < b.rounds →
            row t ∈ mainRows.filter fun s => s.round != b.rounds := fun t ht hLt => by
          refine List.mem_filter.mpr ⟨(hMain _).mpr ⟨t, ht, rfl⟩, ?_⟩
          rw [(h.placed t (hLaid.main_subset ht)).1, bne_iff_ne]
          omega
        refine Ranking.above_pushRounds (hKeep s hIn (by omega)) hRow hThird ?_ ?_
        · intro other hOther v hLost
          obtain ⟨t, ht, rfl⟩ := (hMain other).mp (List.mem_filter.mp hOther).1
          obtain ⟨u, g', hLost, -, hEq⟩ := (h.result_iff hLaid (hLaid.main_subset ht)).mp hLost
          have hG' := (hLaid.fighters_of_result homeWins (hLaid.main_subset ht) hLost).2
          obtain rfl := h.registered.inj g hg g' hG' hEq
          rw [hLaid.loses_once homeWins ht hIn (by rw [hLost]) hLoses]
        · rcases hLaid.climbs homeWins _ s hIn (Nat.le_refl _) hWins with
            hChampion | ⟨t, ht, hLt, hLost⟩
          · rw [← hRef, hTitle] at hChampion
            cases hChampion
            exact Or.inl (mem_placeBronzeBout.mpr (Or.inl (by rw [hIds]; simp)))
          · by_cases hEnd : b.rounds ≤ t.round
            · obtain rfl := hLaid.eq_final hFinal hRef ht hEnd
              rw [hTitle] at hLost
              cases hLost
              exact Or.inl (mem_placeBronzeBout.mpr (Or.inl (by rw [hIds]; simp)))
            · have hSlot := hLaid.main_subset ht
              obtain ⟨w, hBeat⟩ := hLaid.result_of_loser homeWins hSlot hLost
              refine Or.inr ⟨row t, hKeep t ht (by omega), ?_, reg w, ?_⟩
              · rw [(h.placed s hs).1, (h.placed t hSlot).1]
                exact hLt
              · exact (h.result_iff hLaid hSlot).mpr ⟨w, f, hBeat, rfl, rfl⟩
  · -- the bronze bout
    obtain ⟨hNe, hSemi⟩ := hLaid.bronze_decided homeWins hIn hResult
    obtain ⟨semi, hSemi, hRound, hLost⟩ := hSemi g (Or.inr rfl)
    obtain rfl : bronzeSlot = some (row s) := (hBronze _).mpr ⟨s, hIn, rfl⟩
    refine (above_placeBronzeBout hRow ?_ ?_).of_extends hPodium
    · exact fun hEq => hNe (h.registered.inj f hf g hg hEq)
    · rw [hIds]
      exact h.not_title hLaid hFinal hRef hTitle hSemi (by omega) hLost

end Below

end Order

end CompletedSingle

/-- The law of a single elimination: the title is the final's, and every loser stands below
the fighter who beat them. -/
theorem computeFinalRanking_single {collate : String → String → Ordering} {fighterCount : ℕ}
    {size : Option ℕ} {b : SingleElimBracket} {homeWins : SlotRef → Bool} {reg : ℕ → String}
    {row : BracketSlot → RankingSlot} {rows : List RankingSlot} {bronzeSlotId : Option String}
    {bracket : Option RankingBracketShape} (hBracket : singleElimBracket fighterCount size = .ok b)
    (h : CompletedSingle b homeWins reg row) (hRows : rows.Perm (b.slots.map row))
    (hId : ∀ id, truthy bronzeSlotId = some id → ∃ s ∈ b.slots, b.isBronze s ∧ (row s).id = id)
    (hShape : ∀ shape, bracket = some shape → shape.phaseType = .single_elim)
    (poolEntries : List PoolEntry) :
    ∃ champion runnerUp, b.played homeWins ⟨b.rounds, 1⟩ = ⟨some champion, some runnerUp⟩ ∧
      RankingLaw (computeFinalRanking collate rows poolEntries bronzeSlotId bracket)
        ((List.range' 1 b.fighterCount).map reg) poolEntries (reg champion) (reg runnerUp) ∧
      ∀ s ∈ b.slots, ∀ f g, b.played homeWins s.ref = ⟨some f, some g⟩ →
        ∀ e ∈ computeFinalRanking collate rows poolEntries bronzeSlotId bracket,
        ∀ e' ∈ computeFinalRanking collate rows poolEntries bronzeSlotId bracket,
          e.registrationId = reg f → e'.registrationId = reg g → e.place < e'.place := by
  obtain ⟨main, bronze, hLaid, hMeets⟩ := exists_laid hBracket h.filled
  obtain ⟨final, hFinal, hRef, champion, runnerUp, hTitle⟩ :=
    hLaid.final_decided hMeets homeWins
  refine ⟨champion, runnerUp, hRef ▸ hTitle, ?_⟩
  have hSlot := hLaid.main_subset hFinal
  obtain ⟨wl, hWl, hWinner, hLoser⟩ := mem_resultIds.mp
    ((h.result_iff hLaid hSlot).mpr ⟨champion, runnerUp, hTitle, rfl, rfl⟩)
  have hIds : (placePodium (.new poolEntries) wl .champion .runnerUp).ids =
      [reg champion, reg runnerUp] := by
    rw [ids_title, hWinner, hLoser]
    rw [hWinner, hLoser]
    intro hEq
    have hTwo := hLaid.fighters_of_result homeWins hSlot hTitle
    have hSame := h.registered.inj champion hTwo.1 runnerUp hTwo.2 hEq
    refine hLaid.champion_unbeaten homeWins (by rw [← hRef, hTitle]) hFinal ?_
    rw [hTitle, hSame]
  obtain ⟨hBronze, hMain⟩ := h.bronze_split hLaid hRows hId
  have hOrder := h.orderSingleElim_eq collate hLaid hRows hId hFinal hRef hWl (.new poolEntries)
  have hRanking : computeFinalRanking collate rows poolEntries bronzeSlotId bracket =
      (placeNonBracket collate rows poolEntries (placeBelowFinal collate
        (findBronzeSlot rows bronzeSlotId) (mainSlotsOf rows (findBronzeSlot rows bronzeSlotId))
        b.rounds (placePodium (.new poolEntries) wl .champion .runnerUp))).entries := by
    have hBracketOrder : orderBracket collate rows bronzeSlotId bracket (.new poolEntries) =
        orderSingleElim collate rows bronzeSlotId (.new poolEntries) := by
      cases bracket with
      | none => rfl
      | some shape => rw [orderBracket, hShape shape rfl, if_neg (by decide)]
    have hNotSwiss : bracket.map RankingBracketShape.phaseType ≠ some .swiss := by
      cases bracket with
      | none => simp
      | some shape => simp [hShape shape rfl]
    rw [computeFinalRanking, if_neg hNotSwiss, hBracketOrder, hOrder]
  have hAll := h.mem_placeBelowFinal collate hLaid hFinal hRef hTitle hIds hBronze hMain
  rw [hRanking]
  constructor
  · refine lawful_of_ordered hAll (h.mem_bracketRegIds hLaid fun x => CompletedSingle.mem_rows hRows) ?_
    rw [← hIds]
    exact (prefix_placeBronzeBout _).trans (Ranking.prefix_pushRounds _ _)
  · intro s hs f g hResult e he e' he' hE hE'
    have hAbove := (h.above_placeBelowFinal collate hLaid hFinal hRef hTitle hIds hBronze hMain hs
      hResult).of_extends (prefix_placeNonBracket collate rows poolEntries _)
    exact hAbove.number_lt (Ranking.places _) (Ranking.nodup_ids _) he he' hE hE'


end MyClash.FinalRanking
