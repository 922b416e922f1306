import MyClash.FinalRanking.Compute
import MyClash.Library.Knockout

/-!
# The rows of a completed bracket

A row repeats the two fighters of its bout and, once both are there, the result. The law of
the final ranking is stated here, with what it takes besides the order of the bracket.
-/

namespace MyClash.FinalRanking

open StableSort Placing Knockout

/-- What decides a row: the recorded winner, or the scores if no side is recorded. -/
def Decides (row : RankingSlot) (home away : String) (homeWins : Bool) : Prop :=
  row.winnerRegistrationId = some (if homeWins then home else away) ∨
    row.winnerRegistrationId ≠ some home ∧ row.winnerRegistrationId ≠ some away ∧
      ∃ red blue, row.redScore = some red ∧ row.blueScore = some blue ∧
        if homeWins then blue < red else red < blue

structure Recorded (reg : ℕ → String) (home away : Option ℕ) (homeWins : Bool)
    (row : RankingSlot) : Prop where
  red : row.redRegistrationId = home.map reg
  blue : row.blueRegistrationId = away.map reg
  result : ∀ h a, home = some h → away = some a → row.status = "completed" ∧
    (truthy row.redFighterName).isSome ∧ (truthy row.blueFighterName).isSome ∧
      Decides row (reg h) (reg a) homeWins

/-- Everyone of the field has a registration of their own. -/
structure Registered (reg : ℕ → String) (fighterCount : ℕ) : Prop where
  ne_empty : ∀ f ∈ List.range' 1 fighterCount, reg f ≠ ""
  inj : ∀ f ∈ List.range' 1 fighterCount, ∀ g ∈ List.range' 1 fighterCount,
    reg f = reg g → f = g

/-- What the final ranking of a completed bracket has to be. -/
structure RankingLaw (ranking : List FinalRankingEntry) (fighters : List String)
    (poolEntries : List PoolEntry) (winner loser : String) : Prop where
  places : ranking.map FinalRankingEntry.place = List.range' 1 ranking.length
  listed : ∀ id, (ranking.map FinalRankingEntry.registrationId).count id =
    if id ∈ fighters ∨ id ∈ poolEntries.map PoolEntry.registrationId then 1 else 0
  title : (ranking.map FinalRankingEntry.registrationId).take 2 = [winner, loser]
  abovePool : ∀ e ∈ ranking, ∀ e' ∈ ranking, e.registrationId ∈ fighters →
    e'.registrationId ∉ fighters → e.place < e'.place

/-! ## One row -/

theorem truthy_some {text : String} (h : text ≠ "") : truthy (some text) = some text := by
  simp [truthy, h]

theorem side_eq {registrationId fighterName : Option String} (club : Option String)
    {reg : ℕ → String} {seat : Option ℕ} {f : ℕ} (hId : registrationId = seat.map reg)
    (hSeat : seat = some f) (hNe : reg f ≠ "") (hName : (truthy fighterName).isSome) :
    ∃ name, side registrationId fighterName club = some ⟨reg f, name, club⟩ := by
  obtain ⟨name, hName⟩ := Option.isSome_iff_exists.mp hName
  exact ⟨name, by rw [side, hId, hSeat, Option.map_some, truthy_some hNe, hName]⟩

theorem side_none (fighterName club : Option String) : side none fighterName club = none := rfl

section Row

variable {reg : ℕ → String} {home away : Option ℕ} {homeWins : Bool} {row : RankingSlot}

theorem Recorded.resultIds_two (h : Recorded reg home away homeWins row) {f g : ℕ}
    (hHome : home = some f) (hAway : away = some g) (hF : reg f ≠ "") (hG : reg g ≠ "") :
    resultIds row = some (if homeWins then (reg f, reg g) else (reg g, reg f)) := by
  obtain ⟨hStatus, hRedName, hBlueName, hDecides⟩ := h.result f g hHome hAway
  obtain ⟨red, hRed⟩ := side_eq row.redClubAbbrev h.red hHome hF hRedName
  obtain ⟨blue, hBlue⟩ := side_eq row.blueClubAbbrev h.blue hAway hG hBlueName
  rw [resultIds, winnerLoser, if_neg (by simpa using hStatus), hRed, hBlue]
  simp only
  rcases hDecides with hWinner | ⟨hNotHome, hNotAway, redScore, blueScore, hR, hB, hScores⟩
  · rw [hWinner]
    cases homeWins with
    | true => simp
    | false =>
      by_cases hSame : reg g = reg f
      · simp [hSame]
      · simp [hSame]
  · rw [if_neg hNotHome, if_neg hNotAway, hR, hB]
    cases homeWins with
    | true =>
      simp only [if_true] at hScores
      simp [hScores, hScores.ne']
    | false =>
      simp only [Bool.false_eq_true, if_false] at hScores
      simp [hScores.ne, not_lt.mpr hScores.le]

theorem Recorded.resultIds_lone (h : Recorded reg home away homeWins row)
    (hLone : home = none ∨ away = none) : resultIds row = none := by
  rw [resultIds, winnerLoser]
  split
  · rfl
  · rcases hLone with rfl | rfl
    · rw [h.red, Option.map_none, side_none]
      rfl
    · rw [h.blue, Option.map_none, side_none]
      split
      · rename_i hBlue
        cases hBlue
      · rfl

/-- The row of a bout names its winner and its loser, or nobody. -/
theorem resultIds_bout {κ : Type} {n : Node κ} {board : κ → Result}
    (h : Recorded reg (n.home.side board) (n.away.side board) homeWins row)
    (hReg : ∀ x ∈ n.sides, ∀ f, x.side board = some f → reg f ≠ "") {w l : String} :
    resultIds row = some (w, l) ↔
      ∃ f g, n.bout homeWins board = ⟨some f, some g⟩ ∧ w = reg f ∧ l = reg g := by
  have hMem : n.home ∈ n.sides ∧ n.away ∈ n.sides := by simp [Node.sides]
  cases hHome : n.home.side board with
  | none =>
    rw [h.resultIds_lone (Or.inl hHome)]
    constructor
    · rintro ⟨⟩
    · rintro ⟨f, g, hBout, -⟩
      rw [Node.bout, hHome] at hBout
      split at hBout <;> simp_all
      split at hBout <;> simp_all
  | some f =>
    cases hAway : n.away.side board with
    | none =>
      rw [h.resultIds_lone (Or.inr hAway)]
      constructor
      · rintro ⟨⟩
      · rintro ⟨f, g, hBout, -⟩
        rw [Node.bout, hHome, hAway] at hBout
        simp only at hBout
        split at hBout <;> cases hBout
    | some g =>
      rw [h.resultIds_two hHome hAway (hReg _ hMem.1 f hHome) (hReg _ hMem.2 g hAway),
        Node.bout_two homeWins hHome hAway]
      cases homeWins with
      | true =>
        constructor
        · rintro ⟨⟩
          exact ⟨f, g, rfl, rfl, rfl⟩
        · rintro ⟨_, _, ⟨⟩, rfl, rfl⟩
          rfl
      | false =>
        constructor
        · rintro ⟨⟩
          exact ⟨g, f, rfl, rfl, rfl⟩
        · rintro ⟨_, _, ⟨⟩, rfl, rfl⟩
          rfl

theorem Recorded.mem_ids (h : Recorded reg home away homeWins row)
    (hReg : ∀ f, home = some f ∨ away = some f → reg f ≠ "") {id : String} :
    id ∈ (truthy row.redRegistrationId).toList ++ (truthy row.blueRegistrationId).toList ↔
      ∃ f, (home = some f ∨ away = some f) ∧ reg f = id := by
  have hSide : ∀ seat : Option ℕ, (∀ f, seat = some f → reg f ≠ "") →
      (id ∈ (truthy (seat.map reg)).toList ↔ ∃ f, seat = some f ∧ reg f = id) := by
    intro seat hSeat
    cases seat with
    | none => simp [truthy]
    | some f => simp [truthy_some (hSeat f rfl), eq_comm]
  rw [List.mem_append, h.red, h.blue, hSide home fun f hf => hReg f (Or.inl hf),
    hSide away fun f hf => hReg f (Or.inr hf), ← exists_or]
  simp only [or_and_right]

end Row

/-! ## Below the bracket -/

variable {collate : String → String → Ordering} {slots : List RankingSlot}
  {poolEntries : List PoolEntry} {r : Ranking} {fighters : List String}

variable (collate slots poolEntries r) in
theorem ids_placeNonBracket : ∃ nonBracket : List Side,
    (∀ side, side ∈ nonBracket ↔ side ∈ poolEntries.map PoolEntry.side ∧
      side.registrationId ∉ bracketRegIds slots ∧ side.registrationId ∉ r.ids) ∧
    (placeNonBracket collate slots poolEntries r).ids =
      addAll r.ids (nonBracket.map Side.registrationId) := by
  refine ⟨_, fun side => ?_, Ranking.ids_foldl_push (fun _ => .pool) {} r _⟩
  simp [List.mem_filter, Ranking.has]

variable (collate slots poolEntries r) in
theorem prefix_placeNonBracket :
    r.ids <+: (placeNonBracket collate slots poolEntries r).ids := by
  obtain ⟨nonBracket, -, hIds⟩ := ids_placeNonBracket collate slots poolEntries r
  rw [hIds]
  exact prefix_addAll _ _

/-- Once the bracket is placed, the pools only add those who never reached it. -/
theorem lawful_of_ordered {winner loser : String} (hPlaced : ∀ id, id ∈ r.ids ↔ id ∈ fighters)
    (hBracket : ∀ id, id ∈ bracketRegIds slots ↔ id ∈ fighters)
    (hTitle : [winner, loser] <+: r.ids) :
    RankingLaw (placeNonBracket collate slots poolEntries r).entries fighters poolEntries
      winner loser := by
  obtain ⟨nonBracket, hMem, hIds⟩ := ids_placeNonBracket collate slots poolEntries r
  have hPrefix : r.ids <+: (placeNonBracket collate slots poolEntries r).ids :=
    prefix_placeNonBracket collate slots poolEntries r
  refine ⟨Ranking.places _, fun id => ?_, ?_, fun e he e' he' hIn hOut => ?_⟩
  · have hListed : id ∈ (placeNonBracket collate slots poolEntries r).ids ↔
        id ∈ fighters ∨ id ∈ poolEntries.map PoolEntry.registrationId := by
      rw [hIds, mem_addAll, hPlaced, List.mem_map, List.mem_map]
      constructor
      · rintro (hIn | ⟨side, hSide, rfl⟩)
        · exact Or.inl hIn
        · obtain ⟨e, he, rfl⟩ := List.mem_map.mp ((hMem side).mp hSide).1
          exact Or.inr ⟨e, he, rfl⟩
      · rintro (hIn | ⟨e, he, rfl⟩)
        · exact Or.inl hIn
        · by_cases hIn : e.registrationId ∈ fighters
          · exact Or.inl hIn
          · refine Or.inr ⟨e.side, (hMem _).mpr ⟨List.mem_map_of_mem he, ?_, ?_⟩, rfl⟩
            · exact fun hNot => hIn ((hBracket _).mp hNot)
            · exact fun hNot => hIn ((hPlaced _).mp hNot)
    split
    · rename_i hIn
      exact List.count_eq_one_of_mem (Ranking.nodup_ids _) (hListed.mpr hIn)
    · rename_i hOut
      exact List.count_eq_zero_of_not_mem fun hIn => hOut (hListed.mp hIn)
  · obtain ⟨rest, hRest⟩ := hTitle.trans hPrefix
    change (placeNonBracket collate slots poolEntries r).ids.take 2 = _
    rw [← hRest]
    rfl
  · have hAbove : Above (placeNonBracket collate slots poolEntries r).ids e.registrationId
        e'.registrationId :=
      ⟨r.ids, hPrefix, (hPlaced _).mpr hIn, fun hNot => hOut ((hPlaced _).mp hNot)⟩
    exact hAbove.number_lt (Ranking.places _) (Ranking.nodup_ids _) he he' rfl rfl

theorem ids_placePodium (wl : WinnerLoser) (first second : FinalRankingResultKind) :
    (placePodium r wl first second).ids =
      add (add r.ids wl.winner.registrationId) wl.loser.registrationId := by
  rw [placePodium, Ranking.ids_push, Ranking.ids_push]

theorem mem_placeBronzeBout {bronzeSlot : Option RankingSlot} {id : String} :
    id ∈ (placeBronzeBout bronzeSlot r).ids ↔ id ∈ r.ids ∨
      ∃ x, bronzeSlot = some x ∧ ∃ w l, resultIds x = some (w, l) ∧ (id = w ∨ id = l) := by
  rw [placeBronzeBout]
  split
  · rename_i wl hWl
    obtain ⟨x, rfl, hWl⟩ := Option.bind_eq_some_iff.mp hWl
    rw [ids_placePodium, mem_add, mem_add, or_assoc]
    refine or_congr_right ?_
    constructor
    · exact fun hId => ⟨x, rfl, _, _, mem_resultIds.mpr ⟨wl, hWl, rfl, rfl⟩, hId⟩
    · rintro ⟨_, ⟨⟩, w, l, hResult, hId⟩
      obtain ⟨wl', hWl', rfl, rfl⟩ := mem_resultIds.mp hResult
      obtain rfl : wl = wl' := Option.some.inj (hWl.symm.trans hWl')
      exact hId
  · rename_i hNone
    constructor
    · exact Or.inl
    · rintro (hIn | ⟨x, rfl, w, l, hResult, -⟩)
      · exact hIn
      · obtain ⟨wl, hWl, -⟩ := mem_resultIds.mp hResult
        rw [Option.bind_some, hWl] at hNone
        cases hNone

theorem prefix_placeBronzeBout (bronzeSlot : Option RankingSlot) :
    r.ids <+: (placeBronzeBout bronzeSlot r).ids := by
  rw [placeBronzeBout]
  split
  · rw [ids_placePodium]
    exact (prefix_add _ _).trans (prefix_add _ _)
  · exact List.prefix_rfl

/-- Third stands above fourth, unless fourth was placed before. -/
theorem above_placeBronzeBout {x : RankingSlot} {w l : String}
    (hResult : resultIds x = some (w, l)) (hNe : w ≠ l) (hOpen : l ∉ r.ids) :
    Above (placeBronzeBout (some x) r).ids w l := by
  obtain ⟨wl, hWl, rfl, rfl⟩ := mem_resultIds.mp hResult
  rw [placeBronzeBout, Option.bind_some, hWl]
  simp only [ids_placePodium]
  refine ⟨add r.ids wl.winner.registrationId, prefix_add _ _, by simp, ?_⟩
  rw [mem_add, not_or]
  exact ⟨hOpen, hNe.symm⟩

/-- The title opens the ranking. -/
theorem ids_title {wl : WinnerLoser} (hNe : wl.winner.registrationId ≠ wl.loser.registrationId) :
    (placePodium (.new poolEntries) wl .champion .runnerUp).ids =
      [wl.winner.registrationId, wl.loser.registrationId] := by
  rw [ids_placePodium, Ranking.ids_new, add_of_not_mem List.not_mem_nil, List.nil_append,
    add_of_not_mem (by simpa using hNe.symm)]
  rfl

end MyClash.FinalRanking
