import MyClash.FinalRanking.Core

/-!
# Who is placed, and before whom

What each way of pushing does to the list of placed registrations: it only grows at its
end, it takes exactly the losers it is given, and a deeper round stands before the others.
-/

namespace MyClash.FinalRanking

open StableSort Placing

namespace Ranking

@[simp] theorem ids_new (poolEntries : List PoolEntry) : (new poolEntries).ids = [] := rfl

theorem nodup_ids (r : Ranking) : r.ids.Nodup := r.nodup

@[simp] theorem ids_push (r : Ranking) (side : Side) (kind : FinalRankingResultKind)
    (extra : Exit) : (r.push side kind extra).ids = add r.ids side.registrationId := by
  rw [push, add]
  split
  · rfl
  · exact List.map_append

theorem ids_foldl_push (kind : Ranking → FinalRankingResultKind) (extra : Exit) (r : Ranking)
    (sides : List Side) :
    (sides.foldl (fun r side => r.push side (kind r) extra) r).ids =
      addAll r.ids (sides.map Side.registrationId) := by
  induction sides generalizing r with
  | nil => rfl
  | cons side sides ih => rw [List.foldl_cons, ih, ids_push, List.map_cons, addAll_cons]

variable {collate : String → String → Ordering}

theorem ids_pushRound (r : Ranking) (losers : List Side) (extra : Exit) (podiumKinds : Bool) :
    (r.pushRound collate losers extra podiumKinds).ids =
      addAll r.ids ((sortWith (r.byPoolScore collate) losers).map Side.registrationId) :=
  ids_foldl_push (fun r => roundKind podiumKinds (r.entries.length + 1)) extra r _

theorem mem_pushRound {r : Ranking} {losers : List Side} {extra : Exit} {podiumKinds : Bool}
    {id : String} : id ∈ (r.pushRound collate losers extra podiumKinds).ids ↔
      id ∈ r.ids ∨ ∃ side ∈ losers, side.registrationId = id := by
  rw [ids_pushRound, mem_addAll, List.mem_map]
  simp only [mem_sortWith]

theorem prefix_pushRound (r : Ranking) (losers : List Side) (extra : Exit) (podiumKinds : Bool) :
    r.ids <+: (r.pushRound collate losers extra podiumKinds).ids := by
  rw [ids_pushRound]
  exact prefix_addAll _ _

end Ranking

/-! ## The losers of a round -/

theorem mem_resultIds {slot : RankingSlot} {w l : String} :
    resultIds slot = some (w, l) ↔ ∃ wl, winnerLoser slot = some wl ∧
      wl.winner.registrationId = w ∧ wl.loser.registrationId = l := by
  simp [resultIds, Option.map_eq_some_iff]

theorem mem_openLoser {r : Ranking} {slot : RankingSlot} {round : ℕ} {side : Side} :
    openLoser r slot = some (round, side) ↔ slot.round = round ∧
      side.registrationId ∉ r.ids ∧ ∃ wl, winnerLoser slot = some wl ∧ wl.loser = side := by
  rw [openLoser]
  split
  · rename_i wl hWl
    by_cases hHas : wl.loser.registrationId ∈ r.ids
    · simp only [Ranking.has, hHas, decide_true, if_true, hWl]
      constructor
      · rintro ⟨⟩
      · rintro ⟨-, hNot, wl', hEq, rfl⟩
        cases hEq
        exact absurd hHas hNot
    · simp only [Ranking.has, hHas, decide_false, Bool.false_eq_true, if_false,
        Option.some.injEq, Prod.mk.injEq, hWl]
      constructor
      · rintro ⟨rfl, rfl⟩
        exact ⟨rfl, hHas, wl, rfl, rfl⟩
      · rintro ⟨rfl, -, wl', rfl, rfl⟩
        exact ⟨rfl, rfl⟩
  · rename_i hNone
    simp [hNone]

section Rounds

variable {slots : List RankingSlot} {r : Ranking} {round : ℕ} {id : String}

/-- A loser of `slots` in `round`, not placed before. -/
theorem mem_losersOf :
    (∃ side ∈ losersOf (losersByRound slots r) round, side.registrationId = id) ↔
      id ∉ r.ids ∧ ∃ slot ∈ slots, slot.round = round ∧ ∃ w, resultIds slot = some (w, id) := by
  rw [losersOf, losersByRound, Buckets.bucket_collect]
  constructor
  · rintro ⟨side, hSide, rfl⟩
    obtain ⟨⟨round', side'⟩, hEntry, rfl⟩ := List.mem_map.mp hSide
    obtain ⟨hEntry, hRound⟩ := List.mem_filter.mp hEntry
    obtain ⟨slot, hSlot, hOpen⟩ := List.mem_filterMap.mp hEntry
    obtain ⟨rfl, hNot, wl, hWl, rfl⟩ := mem_openLoser.mp hOpen
    exact ⟨hNot, slot, hSlot, of_decide_eq_true hRound, wl.winner.registrationId,
      mem_resultIds.mpr ⟨wl, hWl, rfl, rfl⟩⟩
  · rintro ⟨hNot, slot, hSlot, hRound, w, hResult⟩
    obtain ⟨wl, hWl, -, rfl⟩ := mem_resultIds.mp hResult
    have hOpen : openLoser r slot = some (round, wl.loser) :=
      mem_openLoser.mpr ⟨hRound, hNot, wl, hWl, rfl⟩
    refine ⟨wl.loser, List.mem_map.mpr ⟨(round, wl.loser), ?_, rfl⟩, rfl⟩
    exact List.mem_filter.mpr ⟨List.mem_filterMap.mpr ⟨slot, hSlot, hOpen⟩, decide_eq_true rfl⟩

theorem mem_deepestFirst {byRound : List (ℕ × List (ℕ × Side))} :
    round ∈ deepestFirst byRound ↔ round ∈ Buckets.keys byRound := mem_sortWith

/-- A round with a loser is among the rounds. -/
theorem mem_deepestFirst_of_loser {slot : RankingSlot} {w : String} (hSlot : slot ∈ slots)
    (hResult : resultIds slot = some (w, id)) (hNot : id ∉ r.ids) :
    slot.round ∈ deepestFirst (losersByRound slots r) := by
  obtain ⟨wl, hWl, -, rfl⟩ := mem_resultIds.mp hResult
  refine mem_deepestFirst.mpr (Buckets.mem_keys_collect.mpr ⟨(slot.round, wl.loser), ?_, rfl⟩)
  exact List.mem_filterMap.mpr ⟨slot, hSlot, mem_openLoser.mpr ⟨rfl, hNot, wl, hWl, rfl⟩⟩

variable (slots r) in
theorem deepestFirst_sorted : (deepestFirst (losersByRound slots r)).Pairwise (· > ·) := by
  have hNodup : ((Buckets.keys (losersByRound slots r)).map fun round => round).Nodup := by
    rw [List.map_id']
    exact Buckets.nodup_keys_collect _ _
  have hLt : (deepestFirst (losersByRound slots r)).Pairwise fun a b => compare b a = .lt :=
    pairwise_lt_sortWith _ (fun a b h => (Nat.compare_eq_eq.mp h).symm) hNodup
  exact hLt.imp fun h => Nat.compare_eq_lt.mp h

end Rounds

/-! ## Round after round -/

namespace Ranking

variable {collate : String → String → Ordering} {slots : List RankingSlot} {r : Ranking}
  {exit : ℕ → Exit} {podiumKinds : Bool} {id : String}

variable (collate exit podiumKinds) in
/-- After some of the rounds. -/
theorem foldl_pushRound (losers : ℕ → List Side) (rounds : List ℕ) (r : Ranking) :
    r.ids <+: (rounds.foldl (fun r round =>
        r.pushRound collate (losers round) (exit round) podiumKinds) r).ids ∧
      ∀ id, id ∈ (rounds.foldl (fun r round =>
          r.pushRound collate (losers round) (exit round) podiumKinds) r).ids ↔
        id ∈ r.ids ∨ ∃ round ∈ rounds, ∃ side ∈ losers round, side.registrationId = id := by
  induction rounds generalizing r with
  | nil => simp
  | cons round rounds ih =>
    obtain ⟨hPrefix, hMem⟩ := ih (r.pushRound collate (losers round) (exit round) podiumKinds)
    refine ⟨(prefix_pushRound _ _ _ _).trans hPrefix, fun id => ?_⟩
    rw [List.foldl_cons, hMem, mem_pushRound, or_assoc, List.exists_mem_cons_iff]

theorem prefix_pushRounds (r : Ranking) (slots : List RankingSlot) :
    r.ids <+: (r.pushRounds collate slots exit podiumKinds).ids :=
  (foldl_pushRound _ _ _ _ _ r).1

theorem mem_pushRounds : id ∈ (r.pushRounds collate slots exit podiumKinds).ids ↔
    id ∈ r.ids ∨ ∃ slot ∈ slots, ∃ w, resultIds slot = some (w, id) := by
  rw [pushRounds, (foldl_pushRound _ _ _ _ _ r).2 id]
  constructor
  · rintro (hIn | ⟨round, -, hLoser⟩)
    · exact Or.inl hIn
    · obtain ⟨-, slot, hSlot, -, w, hResult⟩ := mem_losersOf.mp hLoser
      exact Or.inr ⟨slot, hSlot, w, hResult⟩
  · rintro (hIn | ⟨slot, hSlot, w, hResult⟩)
    · exact Or.inl hIn
    · by_cases hIn : id ∈ r.ids
      · exact Or.inl hIn
      · exact Or.inr ⟨slot.round, mem_deepestFirst_of_loser hSlot hResult hIn,
          mem_losersOf.mpr ⟨hIn, slot, hSlot, rfl, w, hResult⟩⟩

/-- A loser stands below whoever is placed already or lost in a deeper round. -/
theorem above_pushRounds {slot : RankingSlot} {w l : String} (hSlot : slot ∈ slots)
    (hResult : resultIds slot = some (w, l)) (hOpen : l ∉ r.ids)
    (hOnce : ∀ other ∈ slots, ∀ v, resultIds other = some (v, l) → other.round = slot.round)
    (hLater : w ∈ r.ids ∨ ∃ other ∈ slots, slot.round < other.round ∧
      ∃ v, resultIds other = some (v, w)) :
    Above (r.pushRounds collate slots exit podiumKinds).ids w l := by
  obtain ⟨deeper, others, hSplit⟩ :=
    List.append_of_mem (mem_deepestFirst_of_loser hSlot hResult hOpen)
  have hSorted := deepestFirst_sorted slots r
  rw [hSplit] at hSorted
  obtain ⟨-, hOthers, hDeeper⟩ := List.pairwise_append.mp hSorted
  -- the moment before the round of `slot` is placed
  have hBefore := foldl_pushRound collate exit podiumKinds (losersOf (losersByRound slots r))
    deeper r
  refine ⟨_, ?_, (hBefore.2 w).mpr ?_, fun hIn => ?_⟩
  · rw [pushRounds, hSplit, List.foldl_append]
    exact (foldl_pushRound _ _ _ _ _ _).1
  · by_cases hIn : w ∈ r.ids
    · exact Or.inl hIn
    obtain ⟨other, hOther, hLt, v, hLost⟩ := hLater.resolve_left hIn
    have hRound := mem_deepestFirst_of_loser hOther hLost hIn
    rw [hSplit] at hRound
    refine Or.inr ⟨other.round, ?_, mem_losersOf.mpr ⟨hIn, other, hOther, rfl, v, hLost⟩⟩
    rcases List.mem_append.mp hRound with hMem | hMem
    · exact hMem
    · rcases List.mem_cons.mp hMem with hEq | hMem
      · omega
      · have hGt := (List.pairwise_cons.mp hOthers).1 _ hMem
        omega
  · rcases (hBefore.2 l).mp hIn with hIn | ⟨round, hRound, hLoser⟩
    · exact hOpen hIn
    · obtain ⟨-, other, hOther, hEq, v, hLost⟩ := mem_losersOf.mp hLoser
      have hGt := hDeeper round hRound slot.round List.mem_cons_self
      have hSame := hOnce other hOther v hLost
      omega

end Ranking

end MyClash.FinalRanking
