import MyClash.Bracket.SingleElim

/-!
# The wiring of a single elimination

Each round takes what the round before it puts out, so the bracket without its bronze bout
takes the seeds to the winner of the final.
-/

namespace MyClash.Bracket

open Knockout

def seedFeeds (start n : ℕ) : List Source := (List.range' start n).map Feed.seed

def winnerFeeds (round n : ℕ) : List Source :=
  (List.range' 1 n).map fun pos => .winnerOf ⟨round, pos⟩

theorem seedFeeds_append (start m n : ℕ) :
    seedFeeds start m ++ seedFeeds (start + m) n = seedFeeds start (m + n) := by
  rw [seedFeeds, seedFeeds, seedFeeds, ← List.map_append, List.range'_append_1]

@[simp] theorem node_bracketSlot (round position : ℕ) (home away : Source) :
    (bracketSlot round position home away).node = ⟨⟨round, position⟩, home, away⟩ := rfl

@[simp] theorem ref_bracketSlot (round position : ℕ) (home away : Source) :
    (bracketSlot round position home away).ref = ⟨round, position⟩ := rfl

theorem advances_round {opn : List Source} (round n : ℕ) (home away : ℕ → Source)
    (hHome : ∀ pos, (home pos).isBye = false) (hAway : ∀ pos, (away pos).isBye = false)
    (hOpen : opn.Perm ((List.range' 1 n).flatMap fun pos => [home pos, away pos])) :
    Advances opn (((List.range' 1 n).map fun pos =>
        bracketSlot round pos (home pos) (away pos)).map BracketSlot.node)
      (winnerFeeds round n) := by
  rw [List.map_map]
  exact Advances.of_positions _ (fun pos => ⟨round, pos⟩) home away hHome hAway hOpen

theorem playIn_advances (fighterCount byeSeedCount m : ℕ)
    (hCount : fighterCount = byeSeedCount + m + m) :
    Advances (seedFeeds (byeSeedCount + 1) (m + m))
      ((playInSlots fighterCount byeSeedCount m).map BracketSlot.node) (winnerFeeds 0 m) := by
  refine advances_round 0 m _ _ (fun _ => rfl) (fun _ => rfl) ?_
  refine .trans ?_ (flatMap_pair_perm _ _ _).symm
  rw [← seedFeeds_append]
  refine .append (.of_eq ?_) ?_
  · rw [seedFeeds, List.range'_eq_map_range, List.range'_eq_map_range, List.map_map, List.map_map]
    exact List.map_congr_left fun i _ => by
      simp only [Function.comp_apply, Nat.add_assoc]
  · have hDown := map_countdown_perm (fun pos => fighterCount - pos + 1)
      (byeSeedCount + 1 + m) (n := m) (by omega)
    simpa only [seedFeeds, List.map_map, Function.comp_def] using (hDown.map Feed.seed).symm

theorem flatMap_adjacent_winners (round n : ℕ) :
    ((List.range' 1 n).flatMap fun pos =>
      [(.winnerOf ⟨round, (pos - 1) * 2 + 1⟩ : Source), .winnerOf ⟨round, (pos - 1) * 2 + 2⟩]) =
      winnerFeeds round (n * 2) :=
  flatMap_adjacent (fun pos => (.winnerOf ⟨round, pos⟩ : Source)) n

theorem winnerSlots_advances {k : ℕ} (hk : 1 ≤ k) :
    Advances (winnerFeeds 1 (2 ^ (k - 1))) ((winnerSlots (2 ^ k) k).map BracketSlot.node)
      [.winnerOf ⟨k, 1⟩] := by
  -- after `j` rounds the winners of round `j + 1` are left
  have hRounds : ∀ j, j ≤ k - 1 → Advances (winnerFeeds 1 (2 ^ (k - 1)))
      (((List.range' 2 j).flatMap fun round =>
        (List.range' 1 (2 ^ k / 2 ^ round)).map fun pos =>
          bracketSlot round pos (.winnerOf ⟨round - 1, (pos - 1) * 2 + 1⟩)
            (.winnerOf ⟨round - 1, (pos - 1) * 2 + 2⟩)).map BracketSlot.node)
      (winnerFeeds (j + 1) (2 ^ (k - 1 - j))) := by
    intro j
    induction j with
    | zero => exact fun _ => Advances.nil _
    | succ j ih =>
      intro hj
      have hCount : 2 ^ k / 2 ^ (2 + j) = 2 ^ (k - 1 - (j + 1)) := by
        rw [Nat.pow_div (by omega) (by decide)]
        congr 1
        omega
      have hHalf : 2 ^ (k - 1 - j) = 2 ^ (k - 1 - (j + 1)) * 2 := by
        rw [← Nat.pow_succ]
        congr 1
        omega
      rw [List.range'_1_concat, List.flatMap_append, List.map_append, List.flatMap_singleton,
        hCount]
      refine (ih (by omega)).append ?_
      have hOpen : winnerFeeds (j + 1) (2 ^ (k - 1 - j)) =
          (List.range' 1 (2 ^ (k - 1 - (j + 1)))).flatMap fun pos =>
            [.winnerOf ⟨2 + j - 1, (pos - 1) * 2 + 1⟩, .winnerOf ⟨2 + j - 1, (pos - 1) * 2 + 2⟩] := by
        rw [flatMap_adjacent_winners, hHalf]
        congr 1
        omega
      have hRound := advances_round (2 + j) _ _ _ (fun _ => rfl) (fun _ => rfl) (.of_eq hOpen)
      rwa [Nat.add_comm 2 j] at hRound ⊢
  have hAll := hRounds (k - 1) (Nat.le_refl _)
  rw [Nat.sub_self, Nat.sub_add_cancel hk] at hAll
  exact hAll

/-! ## Round 1 -/

theorem flatMap_zipIdx {α β : Type} (l : List α) (start : ℕ) (f : α → List β) :
    ((l.zipIdx start).flatMap fun entry => f entry.1) = l.flatMap f := by
  rw [← List.flatMap_map, List.zipIdx_map_fst]

theorem firstRound_nodes (bracketSize : ℕ) (seat : ℕ → Source) :
    (firstRoundSlots bracketSize seat).map BracketSlot.node =
      ((buildSeedingOrder bracketSize).zipIdx 1).map fun entry =>
        ⟨⟨1, entry.2⟩, seat entry.1.1, seat entry.1.2⟩ := by
  rw [firstRoundSlots, List.map_map]
  rfl

theorem mem_buildSeedingOrder {k : ℕ} {pair : ℕ × ℕ} (h : pair ∈ buildSeedingOrder (2 ^ (k + 1))) :
    1 ≤ pair.1 ∧ pair.1 ≤ 2 ^ k ∧ pair.2 = 2 ^ (k + 1) + 1 - pair.1 := by
  rw [buildSeedingOrder_pow] at h
  obtain ⟨seed, hSeed, rfl⟩ := List.mem_map.mp h
  have hRange := List.mem_range'_1.mp ((seedsAfter_perm k).mem_iff.mp hSeed)
  exact ⟨hRange.1, by omega, rfl⟩

theorem flatMap_seats (k : ℕ) (seat : ℕ → Source) :
    ((buildSeedingOrder (2 ^ (k + 1))).flatMap fun pair => [seat pair.1, seat pair.2]).Perm
      ((List.range' 1 (2 ^ (k + 1))).map seat) := by
  have hSeeds : (buildSeedingOrder (2 ^ (k + 1))).flatMap (fun pair => [seat pair.1, seat pair.2]) =
      (seedsAfter (k + 1)).map seat := by
    rw [buildSeedingOrder_pow, List.flatMap_map, seedsAfter, insertComplements, length_seedsAfter,
      ← Nat.pow_succ, List.map_flatMap]
    rfl
  rw [hSeeds]
  exact (seedsAfter_perm (k + 1)).map seat

/-- Round 1 takes the seats that are no bye, one at least of each pair. -/
theorem firstRound_advances {k : ℕ} {seat : ℕ → Source} {opn : List Source}
    (hSeat : ∀ seed, seed ≤ 2 ^ k → (seat seed).isBye = false)
    (hOpen : opn.Perm (((List.range' 1 (2 ^ (k + 1))).map seat).filter fun x => !x.isBye)) :
    Advances opn ((firstRoundSlots (2 ^ (k + 1)) seat).map BracketSlot.node)
      (winnerFeeds 1 (2 ^ k)) := by
  rw [firstRound_nodes]
  refine (Advances.round ?_ ?_).of_perm (.refl _) (.of_eq ?_)
  · intro node hNode
    obtain ⟨⟨pair, pos⟩, hEntry, rfl⟩ := List.mem_map.mp hNode
    have hPair := mem_buildSeedingOrder (List.fst_mem_of_mem_zipIdx hEntry)
    simp [Node.feeds, Node.sides, hSeat pair.1 hPair.2.1]
  · refine hOpen.trans ?_
    rw [List.flatMap_map]
    change List.Perm _ (((buildSeedingOrder (2 ^ (k + 1))).zipIdx 1).flatMap fun entry =>
      [seat entry.1.1, seat entry.1.2].filter fun x => !x.isBye)
    rw [flatMap_zipIdx _ _ fun pair : ℕ × ℕ =>
      [seat pair.1, seat pair.2].filter fun x => !x.isBye, ← List.filter_flatMap]
    exact ((flatMap_seats k seat).symm.filter _)
  · rw [List.map_map, winnerFeeds]
    have hPositions : ((buildSeedingOrder (2 ^ (k + 1))).zipIdx 1).map Prod.snd =
        List.range' 1 (2 ^ k) := by
      rw [List.zipIdx_map_snd, buildSeedingOrder_pow, List.length_map, length_seedsAfter]
    rw [← hPositions, List.map_map]
    rfl

theorem filter_map_seats {seat : ℕ → Source} {start n : ℕ} (f : ℕ → Source)
    (hf : ∀ i, (f i).isBye = false)
    (hSeat : ∀ seed, start ≤ seed → seed < start + n → seat seed = f seed) :
    ((List.range' start n).map seat).filter (fun x => !x.isBye) = (List.range' start n).map f := by
  have hMap : (List.range' start n).map seat = (List.range' start n).map f := by
    refine List.map_congr_left fun seed hSeed => ?_
    have hRange := List.mem_range'_1.mp hSeed
    exact hSeat seed hRange.1 hRange.2
  rw [hMap, List.filter_eq_self]
  intro x hx
  obtain ⟨i, -, rfl⟩ := List.mem_map.mp hx
  simp [hf]

/-- With an explicit size the seats past the field are byes. -/
theorem seats_explicit {fighterCount byeSeedCount size : ℕ} (hSize : fighterCount ≤ size) :
    ((List.range' 1 size).map (seatSource true false fighterCount byeSeedCount)).filter
      (fun x => !x.isBye) = seedFeeds 1 fighterCount := by
  obtain ⟨byes, rfl⟩ := Nat.exists_eq_add_of_le hSize
  rw [← List.range'_append_1, List.map_append, List.filter_append,
    filter_map_seats Feed.seed (fun _ => rfl)]
  · have hByes : ((List.range' (1 + fighterCount) byes).map
        (seatSource true false fighterCount byeSeedCount)).filter (fun x => !x.isBye) = [] := by
      rw [List.filter_eq_nil_iff]
      intro x hx
      obtain ⟨seed, hSeed, rfl⟩ := List.mem_map.mp hx
      have hRange := List.mem_range'_1.mp hSeed
      have hLt : fighterCount < seed := by omega
      simp [seatSource, hLt, Feed.isBye]
    rw [hByes, List.append_nil, seedFeeds]
  · intro seed _ hLt
    have hNot : ¬ fighterCount < seed := by omega
    simp [seatSource, hNot]

/-- With a play-in its winners sit on the low seats. -/
theorem seats_playIn (fighterCount byeSeedCount m : ℕ) :
    ((List.range' 1 (byeSeedCount + m)).map (seatSource false true fighterCount byeSeedCount)).filter
      (fun x => !x.isBye) = seedFeeds 1 byeSeedCount ++ winnerFeeds 0 m := by
  rw [← List.range'_append_1, List.map_append, List.filter_append,
    filter_map_seats Feed.seed (fun _ => rfl),
    filter_map_seats (fun seed => .winnerOf ⟨0, seed - byeSeedCount⟩) (fun _ => rfl), seedFeeds,
    winnerFeeds]
  · rw [List.append_cancel_left_eq, List.range'_eq_map_range, List.range'_eq_map_range, List.map_map,
      List.map_map]
    refine List.map_congr_left fun i _ => ?_
    simp only [Function.comp_apply, Feed.winnerOf.injEq, SlotRef.mk.injEq, true_and]
    omega
  · intro seed hLe _
    have hLt : byeSeedCount < seed := by omega
    simp [seatSource, hLt]
  · intro seed _ hLt
    have hNot : ¬ byeSeedCount < seed := by omega
    simp [seatSource, hNot]

theorem seats_full {fighterCount byeSeedCount size : ℕ} :
    ((List.range' 1 size).map (seatSource false false fighterCount byeSeedCount)).filter
      (fun x => !x.isBye) = seedFeeds 1 size :=
  filter_map_seats Feed.seed (fun _ => rfl) fun seed _ _ => by simp [seatSource]

end MyClash.Bracket
