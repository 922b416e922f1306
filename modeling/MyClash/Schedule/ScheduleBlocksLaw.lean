import MyClash.Schedule.RoundCodeLaw
import MyClash.Schedule.ScheduleBlocks

/-!
# The blocks are the runs

Every placed bout is in one block, and a block spans its bouts from the first start to the last
end. Bouts share a block just as they share a run, while codes are read as the rounds they were
written for and no two Tournaments of one name have a round alike.
-/

namespace MyClash.Schedule

variable {τ : Type*}

/-! ## Keys -/

theorem bar_notMem_of_numberAfter {letters token : List Char} {n : ℕ} (hLetters : '|' ∉ letters)
    (h : numberAfter letters token = some n) : '|' ∉ token := by
  simp only [numberAfter, Option.ite_none_right_eq_some] at h
  obtain ⟨⟨⟨number, rfl⟩, -, hDigits⟩, -⟩ := h
  rw [List.drop_left, List.all_eq_true] at hDigits
  intro hMem
  rcases List.mem_append.mp hMem with hMem | hMem
  · exact hLetters hMem
  · exact absurd (hDigits '|' hMem) (by decide)

theorem parseDoubleElimToken_token {token : List Char} {round : BracketRound}
    (h : parseDoubleElimToken token = some round) : round.token = token ∧ '|' ∉ token := by
  unfold parseDoubleElimToken at h
  by_cases hFinal : token = ['G', 'F']
  · rw [if_pos hFinal] at h
    cases h
    exact ⟨rfl, by simp [hFinal]⟩
  rw [if_neg hFinal] at h
  by_cases hReset : token = ['G', 'F', 'R']
  · rw [if_pos hReset] at h
    cases h
    exact ⟨rfl, by simp [hReset]⟩
  rw [if_neg hReset] at h
  cases hLosers : numberAfter ['L', 'B'] token with
  | some k =>
    rw [hLosers] at h
    cases h
    exact ⟨rfl, bar_notMem_of_numberAfter (by decide) hLosers⟩
  | none =>
    rw [hLosers] at h
    dsimp only at h
    split at h
    · cases h
      exact ⟨rfl, by decide⟩
    · cases h
      exact ⟨rfl, by decide⟩
    · cases h
      exact ⟨rfl, by decide⟩
    · split at h
      · rename_i hNumber
        cases h
        exact ⟨rfl, bar_notMem_of_numberAfter (by decide) hNumber⟩
      · rename_i hNumber
        cases h
        exact ⟨rfl, bar_notMem_of_numberAfter (by decide) hNumber⟩
      · cases h

theorem parseRoundToken_token {token : List Char} {round : BracketRound}
    (h : parseRoundToken token = some round) : round.token = token ∧ '|' ∉ token := by
  unfold parseRoundToken at h
  by_cases hPlayIn : token = ['P', 'I']
  · rw [if_pos hPlayIn] at h
    cases h
    exact ⟨rfl, by simp [hPlayIn]⟩
  rw [if_neg hPlayIn] at h
  cases hDouble : parseDoubleElimToken token with
  | some round' =>
    rw [hDouble] at h
    cases h
    exact parseDoubleElimToken_token hDouble
  | none =>
    rw [hDouble] at h
    dsimp only at h
    split at h
    · cases h
      exact ⟨rfl, by decide⟩
    · cases h
      exact ⟨rfl, by decide⟩
    · cases h
      exact ⟨rfl, by decide⟩
    · by_cases hName : inheritedNames.any (·.toList = token) = true
      · rw [if_pos hName] at h
        cases h
        obtain ⟨name, hMem, hToken⟩ := List.any_eq_true.mp hName
        have hAll : inheritedNames.all (!·.toList.contains '|') = true := by decide
        have hPlain := List.all_eq_true.mp hAll name hMem
        rw [← of_decide_eq_true hToken]
        exact ⟨rfl, by simpa using hPlain⟩
      · rw [if_neg hName] at h
        split at h
        · rename_i hNumber
          cases h
          exact ⟨rfl, bar_notMem_of_numberAfter (by decide) hNumber⟩
        · rename_i hNumber
          cases h
          exact ⟨rfl, bar_notMem_of_numberAfter (by decide) hNumber⟩
        · cases h

/-- No token is read with the bar that parts a key. -/
theorem bar_notMem_token {code : Option (List Char)} {round : BracketRound}
    (h : parseBracketRound code = some round) : '|' ∉ round.token := by
  rw [parseBracketRound] at h
  split at h
  · cases h
  split at h
  · rename_i hSwiss
    cases h
    obtain ⟨part, -, hPart⟩ := List.exists_of_findSome?_eq_some hSwiss
    obtain ⟨n, hNumber, rfl⟩ := Option.map_eq_some_iff.mp hPart
    exact bar_notMem_of_numberAfter (by decide) hNumber
  · obtain ⟨token, -, hToken⟩ := Option.bind_eq_some_iff.mp h
    obtain ⟨hEq, hBar⟩ := parseRoundToken_token hToken
    rwa [hEq]

/-- What a key says of a run. -/
inductive RunName where
  | pool (id : String)
  | round (tournamentName : String) (token : List Char)
  | solo (id : String)

@[grind =] def RunName.text : RunName → String
  | .pool id => "pool:" ++ id ++ "|" ++ BlockKind.pool.text
  | .round tournamentName token =>
    "round:" ++ tournamentName ++ "|" ++ String.ofList token ++ "|" ++ BlockKind.bracket.text
  | .solo id => "solo:" ++ id ++ "|" ++ BlockKind.other.text

def RunName.Plain : RunName → Prop
  | .round _ token => '|' ∉ token
  | _ => True

theorem append_bar_inj {a b s t : List Char} (hs : '|' ∉ s) (ht : '|' ∉ t)
    (h : a ++ '|' :: s = b ++ '|' :: t) : a = b ∧ s = t := by
  induction a generalizing b with
  | nil =>
    cases b with
    | nil => exact ⟨rfl, by simpa using h⟩
    | cons c b =>
      obtain ⟨-, rfl⟩ := List.cons.inj h
      exact absurd (by simp) hs
  | cons c a ih =>
    cases b with
    | nil =>
      obtain ⟨-, rfl⟩ := List.cons.inj h
      exact absurd (by simp) ht
    | cons c' b =>
      obtain ⟨rfl, hRest⟩ := List.cons.inj h
      obtain ⟨rfl, rfl⟩ := ih hRest
      exact ⟨rfl, rfl⟩

/-- The key tells the runs apart. -/
theorem RunName.text_inj {a b : RunName} (ha : a.Plain) (hb : b.Plain) (h : a.text = b.text) :
    a = b := by
  have hList := congrArg String.toList h
  cases a with
  | pool id =>
    cases b with
    | pool id' =>
      have hIds : id = id' := by
        simpa [RunName.text, String.toList_append, String.toList_inj] using hList
      rw [hIds]
    | round => simp [RunName.text, String.toList_append] at hList
    | solo => simp [RunName.text, String.toList_append] at hList
  | round name token =>
    cases b with
    | pool => simp [RunName.text, String.toList_append] at hList
    | round name' token' =>
      simp only [RunName.text, String.toList_append, List.append_assoc] at hList
      have hParts := List.append_cancel_left hList
      simp only [← List.append_assoc] at hParts
      have hParts := List.append_cancel_right (List.append_cancel_right hParts)
      simp only [List.append_assoc, String.toList_ofList] at hParts
      obtain ⟨hName, hToken⟩ := append_bar_inj ha hb hParts
      rw [String.toList_inj.mp hName, hToken]
    | solo => simp [RunName.text, String.toList_append] at hList
  | solo id =>
    cases b with
    | pool => simp [RunName.text, String.toList_append] at hList
    | round => simp [RunName.text, String.toList_append] at hList
    | solo id' =>
      have hIds : id = id' := by
        simpa [RunName.text, String.toList_append, String.toList_inj] using hList
      rw [hIds]

def runName (m : BlockMatchInput τ) : RunName :=
  match m.poolId.filter (· ≠ "") with
  | some poolId => .pool poolId
  | none =>
    match (parseBracketRound m.roundCode).map (·.token) with
    | some token => .round (m.tournamentName.getD "") token
    | none => .solo m.id

theorem groupKey_eq (m : PlacedMatch τ) : groupKey m = (runName m.row).text := by
  rw [groupKey, runKey, runName]
  cases m.row.poolId.filter (· ≠ "") with
  | some poolId => rfl
  | none => cases parseBracketRound m.row.roundCode <;> rfl

theorem runName_plain (m : BlockMatchInput τ) : (runName m).Plain := by
  rw [runName]
  cases m.poolId.filter (· ≠ "") with
  | some poolId => trivial
  | none =>
    cases hParse : parseBracketRound m.roundCode with
    | none => trivial
    | some round => exact bar_notMem_token hParse

theorem groupKey_eq_iff {m m' : PlacedMatch τ} :
    groupKey m = groupKey m' ↔ runName m.row = runName m'.row := by
  rw [groupKey_eq, groupKey_eq]
  exact ⟨RunName.text_inj (runName_plain _) (runName_plain _), congrArg RunName.text⟩

/-! ## Tokens tell the rounds of a Tournament apart -/

theorem Reads.order_unique {token : List Char} {order order' : ℚ} (h : Reads token order)
    (h' : Reads token order') : order = order' := by
  obtain ⟨label, hParse⟩ := h.parsed
  obtain ⟨label', hParse'⟩ := h'.parsed
  rw [hParse] at hParse'
  cases hParse'
  rfl

theorem digits_injective : Function.Injective digits := by
  intro m n h
  have hNumber := numberAfter_digits [] m
  rw [h] at hNumber
  exact Option.some.inj (hNumber.symm.trans (numberAfter_digits [] n))

theorem fightersLeft_inj {last round round' : ℕ} (hRound : round ≤ last) (hRound' : round' ≤ last)
    (h : ((2 ^ (last + 1 - round) : ℕ) : ℚ) = (2 ^ (last + 1 - round') : ℕ)) : round = round' := by
  have hExp := Nat.pow_right_injective (le_refl 2) (Nat.cast_injective h)
  omega

theorem fightersLeft_ne_thousand (e : ℕ) : ((2 ^ e : ℕ) : ℚ) ≠ 1000 := by
  intro h
  have hNat : 2 ^ e = 1000 := by exact_mod_cast h
  rcases Nat.lt_or_ge e 10 with hLt | hGe
  · have hLe : 2 ^ e ≤ 2 ^ 9 := Nat.pow_le_pow_right (by decide) (by omega)
    omega
  · have hLe : 2 ^ 10 ≤ 2 ^ e := Nat.pow_le_pow_right (by decide) hGe
    omega

theorem doubleElimRoundLabel_inj {wbRounds lbRounds round round' : ℕ}
    (hRound : round ≤ wbRounds + lbRounds + 2) (hRound' : round' ≤ wbRounds + lbRounds + 2)
    (h : doubleElimRoundLabel round wbRounds lbRounds =
      doubleElimRoundLabel round' wbRounds lbRounds) : round = round' := by
  have hOrder := (reads_doubleElimRoundLabel round wbRounds lbRounds).order_unique
    (h ▸ reads_doubleElimRoundLabel round' wbRounds lbRounds)
  by_cases hWinners : (round ≠ 0 ∧ round ≤ wbRounds) ∧ round' ≠ 0 ∧ round' ≤ wbRounds
  · obtain ⟨⟨hFirst, hWb⟩, hFirst', hWb'⟩ := hWinners
    rw [orderOf_winners hFirst hWb, orderOf_winners hFirst' hWb'] at hOrder
    exact fightersLeft_inj hWb hWb' (by linarith)
  -- The letters of a section are its own.
  · simp only [doubleElimRoundLabel] at h
    split_ifs at h <;> first
      | omega
      | exact absurd (List.cons.inj h).1 (by decide)
      | exact absurd h (by decide)
      | skip
    have hDigits := digits_injective (List.cons.inj (List.cons.inj h).2).2
    omega

theorem orderOf_single_inj {last round round' : ℕ} (hRound : round ≤ last)
    (hRound' : round' ≤ last)
    (h : (Rounds.single last).orderOf round = (Rounds.single last).orderOf round') :
    round = round' := by
  rcases Nat.eq_zero_or_pos round with rfl | hPos <;>
    rcases Nat.eq_zero_or_pos round' with rfl | hPos'
  · rfl
  · rw [Rounds.orderOf_zero, orderOf_single (by omega)] at h
    exact absurd (by linarith) (fightersLeft_ne_thousand (last + 1 - round'))
  · rw [Rounds.orderOf_zero, orderOf_single (by omega)] at h
    exact absurd (by linarith) (fightersLeft_ne_thousand (last + 1 - round))
  · rw [orderOf_single (by omega), orderOf_single (by omega)] at h
    exact fightersLeft_inj hRound hRound' (by linarith)

theorem orderOf_counted_inj {round round' : ℕ}
    (h : Rounds.counted.orderOf round = Rounds.counted.orderOf round') : round = round' := by
  simp only [Rounds.orderOf] at h
  have hNonneg : (0 : ℚ) ≤ round := Nat.cast_nonneg round
  have hNonneg' : (0 : ℚ) ≤ round' := Nat.cast_nonneg round'
  split_ifs at h with hFirst hFirst' hFirst'
  · omega
  · linarith
  · linarith
  · exact_mod_cast add_left_cancel h

theorem orderOf_ofSize_inj {bracketSize : Option ℕ} {round round' : ℕ}
    (hRound : (Rounds.ofSize bracketSize).Has round)
    (hRound' : (Rounds.ofSize bracketSize).Has round')
    (h : (Rounds.ofSize bracketSize).orderOf round = (Rounds.ofSize bracketSize).orderOf round') :
    round = round' := by
  cases bracketSize with
  | none => exact orderOf_counted_inj h
  | some size =>
    by_cases hSize : size < 2
    · simp only [Rounds.ofSize, if_pos hSize] at h
      exact orderOf_counted_inj h
    · simp only [Rounds.ofSize, if_neg hSize] at hRound hRound' h
      exact orderOf_single_inj hRound hRound' h

/-- A token is of Swiss shape just for a Swiss round. -/
theorem Shape.roundToken_ne_swiss {shape : Shape} {round n : ℕ} (h : shape.Has (.bracket round)) :
    shape.roundToken (.bracket round) ≠ shape.roundToken (.swiss n) := by
  obtain ⟨token, hToken, hReads⟩ := Shape.reads_roundToken h
  rw [hToken]
  intro hSame
  have hNot := hReads.notSwiss
  rw [Option.some.inj hSame] at hNot
  exact absurd (hNot.symm.trans (numberAfter_digits ['S'] n)) nofun

/-- Two rounds of one Tournament are not written alike. -/
theorem Shape.eq_of_roundToken {shape : Shape} {p q : RoundPlace} (hp : shape.Has p)
    (hq : shape.Has q) (h : shape.roundToken p = shape.roundToken q) : p = q := by
  cases p with
  | swiss n =>
    cases q with
    | swiss n' => rw [digits_injective (List.cons.inj (Option.some.inj h)).2]
    | bracket round' => exact absurd h.symm (Shape.roundToken_ne_swiss hq)
  | bracket round =>
    cases q with
    | swiss n' => exact absurd h (Shape.roundToken_ne_swiss hp)
    | bracket round' =>
      obtain ⟨token, hToken, hReads⟩ := Shape.reads_roundToken hp
      obtain ⟨token', hToken', hReads'⟩ := Shape.reads_roundToken hq
      have hSame : token = token' := Option.some.inj (hToken.symm.trans (h.trans hToken'))
      have hOrder := hReads.order_unique (hSame ▸ hReads')
      congr 1
      simp only [Shape.Has, Shape.orderOf, Shape.rounds] at hp hq hOrder
      simp only [Shape.roundToken, bracketToken] at h
      cases hWb : shape.wbRounds.filter (· ≠ 0) with
      | none =>
        rw [hWb] at hp hq hOrder
        exact orderOf_ofSize_inj hp hq hOrder
      | some wbRounds =>
        cases hLb : shape.lbRounds with
        | none =>
          rw [hWb, hLb] at hp hq hOrder
          exact orderOf_ofSize_inj hp hq hOrder
        | some lbRounds =>
          rw [hWb, hLb] at hp hq h
          exact doubleElimRoundLabel_inj hp hq (Option.some.inj h)

/-! ## Blocks of rows -/

theorem placed_row {m : BlockMatchInput τ} {p : PlacedMatch τ} (h : placed m = some p) :
    p.row = m ∧ m.scheduledAt = some p.scheduledAt := by
  unfold placed at h
  split at h
  · rename_i hLice hStart
    cases h
    exact ⟨rfl, hStart⟩
  · cases h

/-- The bouts that are placed. -/
theorem map_row_placed (rows : List (BlockMatchInput τ)) :
    (rows.filterMap placed).map (·.row) = rows.filter fun m => (placed m).isSome := by
  induction rows with
  | nil => rfl
  | cons m rows ih =>
    cases hPlaced : placed m with
    | none => simp [hPlaced, ih]
    | some p => simp [hPlaced, (placed_row hPlaced).1, ih]

section Blocks

variable {iso : IsoClock τ} {rows : List (BlockMatchInput τ)}

/-- What a block shows of its run. -/
structure Shows (iso : IsoClock τ) (group : List (PlacedMatch τ)) (block : ScheduleBlock τ) :
    Prop where
  bouts : block.bouts.Perm (group.map blockMatch)
  span : ∃ hull, IsHull {w | w ∈ group.map (windowOf iso)} hull ∧
    block.startIso = iso.toISOString hull.startMs ∧ block.endIso = iso.toISOString hull.endMs

def ScheduleBlock.Holds (block : ScheduleBlock τ) (id : String) : Prop :=
  ∃ m ∈ block.bouts, m.id = id

theorem Shows.holds_iff {group : List (PlacedMatch τ)} {block : ScheduleBlock τ}
    (h : Shows iso group block) {id : String} :
    block.Holds id ↔ ∃ m ∈ group, m.row.id = id := by
  rw [ScheduleBlock.Holds]
  constructor
  · rintro ⟨m, hMem, rfl⟩
    obtain ⟨p, hp, rfl⟩ := List.mem_map.mp (h.bouts.mem_iff.mp hMem)
    exact ⟨p, hp, rfl⟩
  · rintro ⟨p, hp, rfl⟩
    exact ⟨blockMatch p, h.bouts.mem_iff.mpr (List.mem_map_of_mem hp), rfl⟩

theorem eq_of_id_eq (hIds : (rows.map (·.id)).Nodup) {p p' : PlacedMatch τ}
    (hp : p ∈ rows.filterMap placed) (hp' : p' ∈ rows.filterMap placed)
    (h : p.row.id = p'.row.id) : p = p' := by
  obtain ⟨m, hm, hPlaced⟩ := List.mem_filterMap.mp hp
  obtain ⟨m', hm', hPlaced'⟩ := List.mem_filterMap.mp hp'
  rw [(placed_row hPlaced).1, (placed_row hPlaced').1] at h
  obtain rfl : m = m' := List.inj_on_of_nodup_map hIds hm hm' h
  exact Option.some.inj (hPlaced.symm.trans hPlaced')

theorem ne_nil_of_mem_collect {key : String} {group : List (PlacedMatch τ)}
    (h : (key, group) ∈ Buckets.collect groupKey (rows.filterMap placed)) : group ≠ [] := by
  obtain ⟨m, hMem, hKey⟩ := Buckets.mem_keys_collect.mp (List.mem_map_of_mem (f := Prod.fst) h)
  have hIn : m ∈ group := by
    rw [Buckets.eq_filter_of_mem_collect h]
    exact List.mem_filter.mpr ⟨hMem, decide_eq_true hKey⟩
  exact List.ne_nil_of_mem hIn

variable [LinearOrder τ]

theorem sortByStart_perm (group : List (PlacedMatch τ)) : (sortByStart group).Perm group :=
  StableSort.sortWith_perm group

theorem exists_blockOf (iso : IsoClock τ) (key : String) {group : List (PlacedMatch τ)}
    (h : group ≠ []) :
    ∃ block, blockOf iso key group = some block ∧ Shows iso group block := by
  have hPerm := sortByStart_perm group
  obtain ⟨m, rest, rfl⟩ := List.exists_cons_of_ne_nil h
  obtain ⟨first, later, hSorted⟩ : ∃ first later, sortByStart (m :: rest) = first :: later := by
    refine List.exists_cons_of_ne_nil fun hNil => ?_
    rw [hNil] at hPerm
    exact List.cons_ne_nil _ _ hPerm.nil_eq.symm
  obtain ⟨hull, hHull⟩ : ∃ hull, hullMs ((first :: later).map (windowOf iso)) = some hull := ⟨_, rfl⟩
  rw [hSorted] at hPerm
  simp only [blockOf, hSorted, List.head?_cons, Option.bind_some, hHull, Option.map_some,
    Option.some.injEq, exists_eq_left']
  refine ⟨hPerm.map blockMatch, hull, ?_, rfl, rfl⟩
  have hSet : {w | w ∈ (m :: rest).map (windowOf iso)} =
      {w | w ∈ (first :: later).map (windowOf iso)} := by
    ext w
    exact (hPerm.map (windowOf iso)).mem_iff.symm
  rw [hSet]
  exact isHull_of_hullMs hHull

/-- The blocks hold the placed bouts, each once. -/
theorem blocks_perm (iso : IsoClock τ) (rows : List (BlockMatchInput τ)) :
    ((buildScheduleBlocks iso rows).flatMap (·.bouts)).Perm
      ((rows.filterMap placed).map blockMatch) := by
  have hGroups : ∀ groups : List (String × List (PlacedMatch τ)), (∀ g ∈ groups, g.2 ≠ []) →
      ((groups.filterMap fun g => blockOf iso g.1 g.2).flatMap (·.bouts)).Perm
        ((groups.flatMap Prod.snd).map blockMatch) := by
    intro groups
    induction groups with
    | nil => exact fun _ => .nil
    | cons g groups ih =>
      intro hFilled
      obtain ⟨block, hBlock, hShows⟩ := exists_blockOf iso g.1
        (hFilled g List.mem_cons_self)
      simp only [List.filterMap_cons, hBlock, List.flatMap_cons, List.map_append]
      exact hShows.bouts.append (ih fun g' hg' => hFilled g' (List.mem_cons_of_mem _ hg'))
  refine ((StableSort.sortWith_perm _).flatMap_right _).trans ?_
  refine (hGroups _ fun g hg => ne_nil_of_mem_collect hg).trans ?_
  exact (Buckets.flatMap_collect_perm groupKey _).map blockMatch

/-- A block is that of the bouts with its key. -/
theorem exists_key_of_mem {block : ScheduleBlock τ} (h : block ∈ buildScheduleBlocks iso rows) :
    ∃ key, Shows iso ((rows.filterMap placed).filter fun m => decide (groupKey m = key)) block := by
  obtain ⟨⟨key, group⟩, hMem, hBlock⟩ := List.mem_filterMap.mp (StableSort.mem_sortWith.mp h)
  obtain ⟨block', hBlock', hShows⟩ := exists_blockOf iso key
    (ne_nil_of_mem_collect hMem)
  obtain rfl : block' = block := Option.some.inj (hBlock'.symm.trans hBlock)
  rw [Buckets.eq_filter_of_mem_collect hMem] at hShows
  exact ⟨key, hShows⟩

/-- Every placed bout's run has a block. -/
theorem exists_block_of_mem (iso : IsoClock τ) {m : PlacedMatch τ} (h : m ∈ rows.filterMap placed) :
    ∃ block ∈ buildScheduleBlocks iso rows,
      Shows iso ((rows.filterMap placed).filter fun m' => decide (groupKey m' = groupKey m))
        block := by
  obtain ⟨⟨key, group⟩, hMem, hKey⟩ :=
    List.mem_map.mp (@Buckets.mem_keys_collect _ _ _ groupKey _ _ |>.mpr ⟨m, h, rfl⟩)
  obtain rfl : key = groupKey m := hKey
  obtain ⟨block, hBlock, hShows⟩ := exists_blockOf iso (groupKey m)
    (ne_nil_of_mem_collect hMem)
  rw [Buckets.eq_filter_of_mem_collect hMem] at hShows
  exact ⟨block, StableSort.mem_sortWith.mpr (List.mem_filterMap.mpr ⟨_, hMem, hBlock⟩), hShows⟩

/-- Placed bouts are in one block just when their keys are the same. -/
theorem share_iff (iso : IsoClock τ) (hIds : (rows.map (·.id)).Nodup) {p p' : PlacedMatch τ}
    (hp : p ∈ rows.filterMap placed) (hp' : p' ∈ rows.filterMap placed) :
    (∃ block ∈ buildScheduleBlocks iso rows, block.Holds p.row.id ∧ block.Holds p'.row.id) ↔
      groupKey p = groupKey p' := by
  constructor
  · rintro ⟨block, hBlock, hHolds, hHolds'⟩
    obtain ⟨key, hShows⟩ := exists_key_of_mem hBlock
    obtain ⟨q, hq, hId⟩ := hShows.holds_iff.mp hHolds
    obtain ⟨q', hq', hId'⟩ := hShows.holds_iff.mp hHolds'
    obtain ⟨hq, hKey⟩ := List.mem_filter.mp hq
    obtain ⟨hq', hKey'⟩ := List.mem_filter.mp hq'
    rw [← eq_of_id_eq hIds hq hp hId, ← eq_of_id_eq hIds hq' hp' hId']
    exact (of_decide_eq_true hKey).trans (of_decide_eq_true hKey').symm
  · intro hKey
    obtain ⟨block, hBlock, hShows⟩ := exists_block_of_mem iso hp
    refine ⟨block, hBlock, hShows.holds_iff.mpr ⟨p, ?_, rfl⟩, hShows.holds_iff.mpr ⟨p', ?_, rfl⟩⟩
    · exact List.mem_filter.mpr ⟨hp, decide_eq_true rfl⟩
    · exact List.mem_filter.mpr ⟨hp', decide_eq_true hKey.symm⟩

end Blocks

/-! ## The bouts of an Event -/

structure Tournament where
  id : String
  name : Option String
  slug : Option String
  shape : Shape

/-- What a bout is fought for: its Pool, a round of its Tournament, or neither where it was made
by hand. A round's bouts are numbered, a bout made by hand is labelled with any text. -/
inductive Run (shape : Shape) where
  | pool (id : String) (named : id ≠ "") (name : Option String) (number : ℕ)
      (matchNumber : MatchNumber)
  | round (place : RoundPlace) (has : shape.Has place) (matchNumber : MatchNumber)
      (plain : '-' ∉ matchSegment matchNumber)
  | hand (inBracket : Bool) (matchNumber : MatchNumber)

structure Bout (τ : Type*) where
  id : String
  liceId : Option String
  scheduledAt : Option τ
  durationMinutes : ℕ+
  tournament : Tournament
  run : Run tournament.shape
  redFighterName : Option String
  blueFighterName : Option String
  status : Option String

namespace Bout

variable (trimmedLower : String → String) (b : Bout τ)

def poolId : Option String :=
  match b.run with
  | .pool id .. => some id
  | _ => none

def poolName : Option String :=
  match b.run with
  | .pool _ _ name .. => name
  | _ => none

def place : Option RoundPlace :=
  match b.run with
  | .round place .. => some place
  | _ => none

def codeInput : RoundCodeInput :=
  let shape := b.tournament.shape
  match b.run with
  | .pool _ _ _ number matchNumber =>
    ⟨shape.weapon, some number, none, none, shape.bracketSize, matchNumber, shape.wbRounds,
      shape.lbRounds, false⟩
  | .round place _ matchNumber _ => shape.inputOf place matchNumber
  | .hand inBracket matchNumber =>
    ⟨shape.weapon, none, none, none, shape.bracketSize, matchNumber, shape.wbRounds,
      shape.lbRounds, inBracket⟩

/-- The row of the bout. -/
def row : BlockMatchInput τ where
  id := b.id
  liceId := b.liceId
  scheduledAt := b.scheduledAt
  poolId := b.poolId
  poolName := b.poolName
  roundCode := some (formatRoundCode trimmedLower b.codeInput)
  tournamentName := b.tournament.name
  tournamentSlug := b.tournament.slug
  redFighterName := b.redFighterName
  blueFighterName := b.blueFighterName
  durationMinutes := b.durationMinutes
  status := b.status

/-- The bout has a lice and a start. -/
def isPlaced : Bool := b.liceId.any (· ≠ "") && b.scheduledAt.isSome

/-- The token the bout's code is read with. A round of a bracket is not read where the weapon is
abbreviated `B`, and what a bout made by hand is labelled may read as a round. -/
def readAs : Option (List Char) :=
  match b.run with
  | .pool .. => none
  | .round (.swiss n) .. => b.tournament.shape.roundToken (.swiss n)
  | .round (.bracket round) .. =>
    if weaponAbbr trimmedLower b.tournament.shape.weapon = ['B'] then none
    else b.tournament.shape.roundToken (.bracket round)
  | .hand .. => (parseBracketRound (some (formatRoundCode trimmedLower b.codeInput))).map (·.token)

/-- The same Pool, or the same round of the same Tournament. -/
def SameRun (b b' : Bout τ) : Prop :=
  (∃ id, b.poolId = some id ∧ b'.poolId = some id) ∨
    (b.tournament = b'.tournament ∧ ∃ place, b.place = some place ∧ b'.place = some place)

end Bout

/-- The bouts of a schedule, each once. -/
structure Slate (τ : Type*) where
  bouts : List (Bout τ)
  ids_nodup : (bouts.map (·.id)).Nodup

namespace Slate

variable (trimmedLower : String → String) (s : Slate τ)

/-- No two bouts of one bracket round have a weapon abbreviated `B`, and two bouts read with one
token under one Tournament name are of rounds of one Tournament. -/
structure ToldApart : Prop where
  bracket : ∀ b ∈ s.bouts, ∀ b' ∈ s.bouts, b.isPlaced → b'.isPlaced → b ≠ b' →
    ∀ round, b.place = some (.bracket round) → b'.place = some (.bracket round) →
      b.tournament = b'.tournament → weaponAbbr trimmedLower b.tournament.shape.weapon ≠ ['B']
  names : ∀ b ∈ s.bouts, ∀ b' ∈ s.bouts, b.isPlaced → b'.isPlaced → b ≠ b' →
    b.tournament.name.getD "" = b'.tournament.name.getD "" →
      ∀ token ∈ b.readAs trimmedLower, token ∈ b'.readAs trimmedLower →
        b.tournament = b'.tournament ∧ b.place ≠ none ∧ b'.place ≠ none

variable [LinearOrder τ] (iso : IsoClock τ)

def blocks : List (ScheduleBlock τ) := buildScheduleBlocks iso (s.bouts.map (·.row trimmedLower))

/-- The windows of the bouts that a block holds. -/
def windowsOf (block : ScheduleBlock τ) : Set Referees.TimeWindowMs :=
  {w | ∃ b ∈ s.bouts, block.Holds b.id ∧ ∃ start ∈ b.scheduledAt,
    w = matchWindowMs (iso.getTime start) b.durationMinutes}

/-- Every placed bout is in one block and no other bout in any, a block goes from the earliest
start to the latest end of its bouts, and bouts share a block just when they share a run. -/
structure BlocksLaw : Prop where
  covers : ((s.blocks trimmedLower iso).flatMap fun block => block.bouts.map (·.id)).Perm
    ((s.bouts.filter (·.isPlaced)).map (·.id))
  hull : ∀ block ∈ s.blocks trimmedLower iso, ∃ hull, IsHull (s.windowsOf iso block) hull ∧
    iso.getTime block.startIso = hull.startMs ∧ iso.getTime block.endIso = hull.endMs
  share : ∀ b ∈ s.bouts, ∀ b' ∈ s.bouts, b.isPlaced → b'.isPlaced →
    ((∃ block ∈ s.blocks trimmedLower iso, block.Holds b.id ∧ block.Holds b'.id) ↔
      b = b' ∨ b.SameRun b')

end Slate

/-! ## A bout's run -/

variable {trimmedLower : String → String} {b b' : Bout τ}

theorem isSome_placed_row (b : Bout τ) : (placed (b.row trimmedLower)).isSome = b.isPlaced := by
  simp only [placed, Bout.row, Bout.isPlaced]
  cases b.liceId with
  | none => rfl
  | some liceId =>
    rw [Option.filter_some]
    by_cases hLice : liceId = "" <;> cases b.scheduledAt <;> simp [hLice]

/-- A round's code is read with its token, but for a bracket where the weapon is abbreviated `B`. -/
theorem Bout.parse_row (h : b.poolId = none) :
    (parseBracketRound (b.row trimmedLower).roundCode).map (·.token) = b.readAs trimmedLower := by
  obtain ⟨id, liceId, scheduledAt, minutes, tournament, run, red, blue, status⟩ := b
  cases run with
  | pool => cases h
  | hand => rfl
  | round place has matchNumber plain =>
    cases place with
    | swiss n => exact congrArg (Option.map (·.token)) (Shape.read_swiss plain)
    | bracket round =>
      obtain ⟨token, hToken, hReads⟩ := Shape.reads_roundToken has
      obtain ⟨label, hLabel⟩ := hReads.parsed
      refine (congrArg (Option.map (·.token)) (Shape.read_bracket hToken hReads plain)).trans ?_
      simp only [Bout.readAs, hToken]
      split_ifs
      · rfl
      · rw [hLabel]
        rfl

theorem Bout.poolId_ne (h : b.poolId = some "") : False := by
  obtain ⟨id, liceId, scheduledAt, minutes, tournament, run, red, blue, status⟩ := b
  cases run with
  | pool id named =>
    cases h
    exact named rfl
  | hand => cases h
  | round => cases h

theorem Bout.runName_row (b : Bout τ) : runName (b.row trimmedLower) =
    match b.poolId with
    | some poolId => .pool poolId
    | none =>
      match b.readAs trimmedLower with
      | some token => .round (b.tournament.name.getD "") token
      | none => .solo b.id := by
  have hRow : (b.row trimmedLower).poolId = b.poolId := rfl
  rw [runName, hRow]
  cases hPool : b.poolId with
  | some poolId =>
    have hNamed : poolId ≠ "" := fun hEmpty => Bout.poolId_ne (hEmpty ▸ hPool)
    rw [Option.filter_some, if_pos (decide_eq_true hNamed)]
  | none =>
    rw [Bout.parse_row hPool]
    rfl

/-- Bouts have one run by name: their Pool, or what their codes are read as. -/
theorem Bout.runName_eq_iff : runName (b.row trimmedLower) = runName (b'.row trimmedLower) ↔
    (∃ id, b.poolId = some id ∧ b'.poolId = some id) ∨
      (b.poolId = none ∧ b'.poolId = none ∧
        ((b.tournament.name.getD "" = b'.tournament.name.getD "" ∧
            ∃ token, b.readAs trimmedLower = some token ∧ b'.readAs trimmedLower = some token) ∨
          (b.readAs trimmedLower = none ∧ b'.readAs trimmedLower = none ∧ b.id = b'.id))) := by
  rw [Bout.runName_row, Bout.runName_row]
  cases b.poolId <;> cases b'.poolId <;> cases b.readAs trimmedLower <;>
    cases b'.readAs trimmedLower <;> simp [eq_comm]

theorem Bout.poolId_of_place (h : b.place ≠ none) : b.poolId = none := by
  obtain ⟨id, liceId, scheduledAt, minutes, tournament, run, red, blue, status⟩ := b
  cases run with
  | pool => exact absurd rfl h
  | hand => rfl
  | round => rfl

theorem Bout.poolId_of_readAs {token : List Char} (h : b.readAs trimmedLower = some token) :
    b.poolId = none := by
  obtain ⟨id, liceId, scheduledAt, minutes, tournament, run, red, blue, status⟩ := b
  cases run with
  | pool => cases h
  | hand => rfl
  | round => rfl

/-- A bout of a round that its code is read as. -/
theorem Bout.exists_round (hPlace : b.place ≠ none) {token : List Char}
    (hRead : b.readAs trimmedLower = some token) : ∃ place, b.place = some place ∧
      b.tournament.shape.Has place ∧ b.tournament.shape.roundToken place = some token := by
  obtain ⟨id, liceId, scheduledAt, minutes, tournament, run, red, blue, status⟩ := b
  cases run with
  | pool => cases hRead
  | hand => exact absurd rfl hPlace
  | round place has =>
    refine ⟨place, rfl, has, ?_⟩
    cases place with
    | swiss n => exact hRead
    | bracket round =>
      simp only [Bout.readAs] at hRead
      split_ifs at hRead
      exact hRead

/-- A round's bout is read as its round, unless it is of a bracket whose weapon is `B`. -/
theorem Bout.readAs_round {place : RoundPlace} (hPlace : b.place = some place)
    (hRead : ∀ round, place = .bracket round →
      weaponAbbr trimmedLower b.tournament.shape.weapon ≠ ['B']) :
    ∃ token, b.tournament.shape.roundToken place = some token ∧
      b.readAs trimmedLower = some token := by
  obtain ⟨id, liceId, scheduledAt, minutes, tournament, run, red, blue, status⟩ := b
  cases run with
  | pool => cases hPlace
  | hand => cases hPlace
  | round place' has =>
    cases hPlace
    cases place with
    | swiss n => exact ⟨_, rfl, rfl⟩
    | bracket round =>
      obtain ⟨token, hToken, -⟩ := Shape.reads_roundToken has
      exact ⟨token, hToken, (if_neg (hRead round rfl)).trans hToken⟩

theorem Bout.readAs_bracket {round : ℕ} (hPlace : b.place = some (.bracket round))
    (hB : weaponAbbr trimmedLower b.tournament.shape.weapon = ['B']) :
    b.readAs trimmedLower = none := by
  obtain ⟨id, liceId, scheduledAt, minutes, tournament, run, red, blue, status⟩ := b
  cases run with
  | pool => cases hPlace
  | hand => cases hPlace
  | round place' has =>
    cases hPlace
    exact if_pos hB

/-! ## The law -/

variable {s : Slate τ}

theorem Slate.ids_row (trimmedLower : String → String) (s : Slate τ) :
    ((s.bouts.map (·.row trimmedLower)).map (·.id)).Nodup := by
  rw [List.map_map]
  exact s.ids_nodup

theorem Slate.exists_placed (hMem : b ∈ s.bouts) (hPlaced : b.isPlaced = true) :
    ∃ p ∈ (s.bouts.map (·.row trimmedLower)).filterMap placed, p.row = b.row trimmedLower := by
  obtain ⟨p, hp⟩ := Option.isSome_iff_exists.mp
    ((@isSome_placed_row _ trimmedLower b).trans hPlaced)
  exact ⟨p, List.mem_filterMap.mpr ⟨_, List.mem_map_of_mem hMem, hp⟩, (placed_row hp).1⟩

/-- Where the runs are told apart, those of one name are one run. -/
theorem Slate.ToldApart.sameRun (h : s.ToldApart trimmedLower) (hb : b ∈ s.bouts)
    (hb' : b' ∈ s.bouts) (hPlaced : b.isPlaced = true) (hPlaced' : b'.isPlaced = true)
    (hName : runName (b.row trimmedLower) = runName (b'.row trimmedLower)) :
    b = b' ∨ b.SameRun b' := by
  by_cases hSelf : b = b'
  · exact Or.inl hSelf
  rcases Bout.runName_eq_iff.mp hName with hPool | ⟨-, -, ⟨hNames, token, hRead, hRead'⟩ | hSolo⟩
  · exact Or.inr (Or.inl hPool)
  · obtain ⟨hTournament, hPlace, hPlace'⟩ :=
      h.names b hb b' hb' hPlaced hPlaced' hSelf hNames token hRead hRead'
    obtain ⟨place, hAt, hHas, hToken⟩ := Bout.exists_round hPlace hRead
    obtain ⟨place', hAt', hHas', hToken'⟩ := Bout.exists_round hPlace' hRead'
    rw [← hTournament] at hHas' hToken'
    obtain rfl := Shape.eq_of_roundToken hHas hHas' (hToken.trans hToken'.symm)
    exact Or.inr (Or.inr ⟨hTournament, place, hAt, hAt'⟩)
  · exact Or.inl (List.inj_on_of_nodup_map s.ids_nodup hb hb' hSolo.2.2)

/-- Where the runs are told apart, one run has one name. -/
theorem Slate.ToldApart.runName_eq (h : s.ToldApart trimmedLower) (hb : b ∈ s.bouts)
    (hb' : b' ∈ s.bouts) (hPlaced : b.isPlaced = true) (hPlaced' : b'.isPlaced = true)
    (hSame : b = b' ∨ b.SameRun b') :
    runName (b.row trimmedLower) = runName (b'.row trimmedLower) := by
  by_cases hSelf : b = b'
  · rw [hSelf]
  rcases hSame.resolve_left hSelf with hPool | ⟨hTournament, place, hAt, hAt'⟩
  · exact Bout.runName_eq_iff.mpr (Or.inl hPool)
  · have hB : ∀ round, place = .bracket round →
        weaponAbbr trimmedLower b.tournament.shape.weapon ≠ ['B'] := by
      rintro round rfl
      exact h.bracket b hb b' hb' hPlaced hPlaced' hSelf round hAt hAt' hTournament
    obtain ⟨token, hToken, hRead⟩ := Bout.readAs_round hAt hB
    obtain ⟨token', hToken', hRead'⟩ := Bout.readAs_round hAt' (hTournament ▸ hB)
    rw [← hTournament, hToken] at hToken'
    obtain rfl := Option.some.inj hToken'
    refine Bout.runName_eq_iff.mpr (Or.inr ⟨Bout.poolId_of_readAs hRead,
      Bout.poolId_of_readAs hRead', Or.inl ⟨?_, token, hRead, hRead'⟩⟩)
    rw [hTournament]

section Law

variable [LinearOrder τ] {iso : IsoClock τ}

theorem Slate.covers (trimmedLower : String → String) (s : Slate τ) (iso : IsoClock τ) :
    ((s.blocks trimmedLower iso).flatMap fun block => block.bouts.map (·.id)).Perm
      ((s.bouts.filter (·.isPlaced)).map (·.id)) := by
  have hPerm := (blocks_perm iso (s.bouts.map (·.row trimmedLower))).map (·.id)
  rw [List.map_flatMap] at hPerm
  refine hPerm.trans (.of_eq ?_)
  calc
    _ = (((s.bouts.map (·.row trimmedLower)).filterMap placed).map (·.row)).map (·.id) := by
      rw [List.map_map, List.map_map]
      rfl
    _ = ((s.bouts.filter (·.isPlaced)).map (·.row trimmedLower)).map (·.id) := by
      rw [map_row_placed, List.filter_map]
      congr 3
      funext b
      exact isSome_placed_row b
    _ = (s.bouts.filter (·.isPlaced)).map (·.id) := by
      rw [List.map_map]
      rfl

theorem Slate.hull {block : ScheduleBlock τ} (h : block ∈ s.blocks trimmedLower iso) :
    ∃ hull, IsHull (s.windowsOf iso block) hull ∧
      iso.getTime block.startIso = hull.startMs ∧ iso.getTime block.endIso = hull.endMs := by
  obtain ⟨key, hShows⟩ := exists_key_of_mem h
  obtain ⟨hull, hHull, hStart, hEnd⟩ := hShows.span
  refine ⟨hull, ?_, by simp [hStart], by simp [hEnd]⟩
  convert hHull using 1
  ext w
  simp only [Slate.windowsOf, Set.mem_ofPred_eq, List.mem_map]
  constructor
  · rintro ⟨b, hb, hHolds, start, hTime, rfl⟩
    obtain ⟨m, hm, hId⟩ := hShows.holds_iff.mp hHolds
    obtain ⟨hIn, -⟩ := List.mem_filter.mp hm
    obtain ⟨row, hRow, hPlaced⟩ := List.mem_filterMap.mp hIn
    obtain ⟨b', hb', rfl⟩ := List.mem_map.mp hRow
    obtain ⟨hRowEq, hTime'⟩ := placed_row hPlaced
    obtain rfl : b' = b := List.inj_on_of_nodup_map s.ids_nodup hb' hb (by
      rw [hRowEq] at hId
      exact hId)
    obtain rfl : m.scheduledAt = start := Option.some.inj (hTime'.symm.trans hTime)
    exact ⟨m, hm, by rw [windowOf, hRowEq]; rfl⟩
  · rintro ⟨m, hm, rfl⟩
    obtain ⟨hIn, -⟩ := List.mem_filter.mp hm
    obtain ⟨row, hRow, hPlaced⟩ := List.mem_filterMap.mp hIn
    obtain ⟨b, hb, rfl⟩ := List.mem_map.mp hRow
    obtain ⟨hRowEq, hTime⟩ := placed_row hPlaced
    refine ⟨b, hb, hShows.holds_iff.mpr ⟨m, hm, by rw [hRowEq]; rfl⟩, m.scheduledAt, hTime, ?_⟩
    rw [windowOf, hRowEq]
    rfl

theorem Slate.share (iso : IsoClock τ) (hb : b ∈ s.bouts) (hb' : b' ∈ s.bouts)
    (hPlaced : b.isPlaced = true) (hPlaced' : b'.isPlaced = true) :
    (∃ block ∈ s.blocks trimmedLower iso, block.Holds b.id ∧ block.Holds b'.id) ↔
      runName (b.row trimmedLower) = runName (b'.row trimmedLower) := by
  obtain ⟨p, hp, hRow⟩ := Slate.exists_placed hb hPlaced
  obtain ⟨p', hp', hRow'⟩ := Slate.exists_placed hb' hPlaced'
  have hShare := share_iff iso (s.ids_row trimmedLower) hp hp'
  rw [groupKey_eq_iff, hRow, hRow'] at hShare
  exact hShare

/-- The blocks are the runs just when no bracket is read past its mark, and no Tournaments of one
name have bouts that are read as one round. -/
theorem Slate.blocksLaw_iff (trimmedLower : String → String) (s : Slate τ) (iso : IsoClock τ) :
    s.BlocksLaw trimmedLower iso ↔ s.ToldApart trimmedLower := by
  constructor
  · intro h
    refine ⟨fun b hb b' hb' hPlaced hPlaced' hSelf round hAt hAt' hTournament hB => ?_,
      fun b hb b' hb' hPlaced hPlaced' hSelf hNames token hRead hRead' => ?_⟩
    · have hSame : b = b' ∨ b.SameRun b' := Or.inr (Or.inr ⟨hTournament, _, hAt, hAt'⟩)
      have hName := (Slate.share iso hb hb' hPlaced hPlaced').mp
        ((h.share b hb b' hb' hPlaced hPlaced').mpr hSame)
      have hNone := Bout.readAs_bracket hAt hB
      rcases Bout.runName_eq_iff.mp hName with ⟨id, hPool, -⟩ | ⟨-, -, ⟨-, token, hRead, -⟩ | hSolo⟩
      · rw [Bout.poolId_of_place (by rw [hAt]; nofun)] at hPool
        cases hPool
      · rw [hNone] at hRead
        cases hRead
      · exact hSelf (List.inj_on_of_nodup_map s.ids_nodup hb hb' hSolo.2.2)
    · have hPool := Bout.poolId_of_readAs hRead
      have hName := Bout.runName_eq_iff.mpr (Or.inr ⟨hPool, Bout.poolId_of_readAs hRead',
        Or.inl ⟨hNames, token, hRead, hRead'⟩⟩)
      have hSame := (h.share b hb b' hb' hPlaced hPlaced').mp
        ((Slate.share iso hb hb' hPlaced hPlaced').mpr hName)
      rcases hSame.resolve_left hSelf with ⟨id, hId, -⟩ | ⟨hTournament, place, hAt, hAt'⟩
      · rw [hPool] at hId
        cases hId
      · exact ⟨hTournament, by rw [hAt]; nofun, by rw [hAt']; nofun⟩
  · intro h
    refine ⟨s.covers trimmedLower iso, fun block hBlock => Slate.hull hBlock,
      fun b hb b' hb' hPlaced hPlaced' => ?_⟩
    rw [Slate.share iso hb hb' hPlaced hPlaced']
    exact ⟨h.sameRun hb hb' hPlaced hPlaced', h.runName_eq hb hb' hPlaced hPlaced'⟩

end Law

/-! ## Two Tournaments of one name -/

/-- Instants written as they are. -/
def plainClock : IsoClock ℤ := ⟨id, id, Eq.refl⟩

def longsword : Shape := ⟨some "Longsword", 0, some 8, none, none⟩

/-- The first quarter-final of a Tournament called Longsword. -/
def quarterFinal (id tournamentId liceId : String) : Bout ℤ where
  id := id
  liceId := some liceId
  scheduledAt := some 0
  durationMinutes := 5
  tournament := ⟨tournamentId, some "Longsword", none, longsword⟩
  run := .round (.bracket 1) (show 1 ≤ Nat.clog 2 8 by decide) (.number 1) (by decide)
  redFighterName := none
  blueFighterName := none
  status := none

def twins : Slate ℤ where
  bouts := [quarterFinal "a" "women" "lice-1", quarterFinal "b" "open" "lice-2"]
  ids_nodup := by decide

/-- The quarter-finals of both are drawn as one block. -/
theorem Slate.blocksLaw_twins : ¬twins.BlocksLaw trimmedLowerAscii plainClock := by
  intro h
  have hWomen : quarterFinal "a" "women" "lice-1" ∈ twins.bouts := List.mem_cons_self
  have hOpen : quarterFinal "b" "open" "lice-2" ∈ twins.bouts :=
    List.mem_cons_of_mem _ List.mem_cons_self
  have hRead : ∀ id tournamentId liceId,
      (quarterFinal id tournamentId liceId).readAs trimmedLowerAscii = some ['Q', 'F'] := by
    intro id tournamentId liceId
    have hAbbr : weaponAbbr trimmedLowerAscii longsword.weapon ≠ ['B'] := by decide
    have hToken : longsword.roundToken (.bracket 1) = some ['Q', 'F'] := by decide
    exact (if_neg hAbbr).trans hToken
  have hName := Bout.runName_eq_iff.mpr
    (Or.inr ⟨rfl, rfl, Or.inl ⟨rfl, _, hRead "a" "women" "lice-1", hRead "b" "open" "lice-2"⟩⟩)
  have hSame := (h.share _ hWomen _ hOpen rfl rfl).mp
    ((Slate.share plainClock hWomen hOpen rfl rfl).mpr hName)
  rcases hSame with hSelf | ⟨id, hPool, -⟩ | ⟨hTournament, -⟩
  · exact absurd (congrArg Bout.id hSelf) (by decide)
  · cases hPool
  · exact absurd (congrArg Tournament.id hTournament) (by decide)

end MyClash.Schedule
