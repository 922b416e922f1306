import MyClash.Bracket.DoubleElim

/-!
# The sizes of an accepted double elimination

In powers of two: a bracket of `2 ^ wbRounds` seats whose last `2 ^ depth` fighters have a
second chance. `lbRounds` carries the truncation of the bronze mode.
-/

namespace MyClash.Bracket

namespace DoubleElim

/-- What the resolved sizes come to. -/
structure Sized (shape : DoubleElimShape) (fighterCount surplus depth : ℕ) : Prop where
  fighters : shape.fighterCount = fighterCount
  rounds_pos : 1 ≤ shape.wbRounds
  size : shape.bracketSize = 2 ^ shape.wbRounds
  field : fighterCount = 2 ^ shape.wbRounds + surplus
  fits : surplus ≤ 2 ^ shape.wbRounds
  playIn : shape.playInMatchCount = surplus
  hasPlayIn : shape.hasPlayInRound = decide (0 < surplus)
  byeSeeds : shape.byeSeedCount = if 0 < surplus then 2 ^ shape.wbRounds - surplus else 0
  depth_pos : 1 ≤ depth
  depth_le : depth ≤ shape.wbRounds
  entrySize : shape.repechageEntrySize = 2 ^ depth
  entryRound : shape.repechageEntryRound + depth = shape.wbRounds + 1
  gold : shape.secondChanceTarget = .gold → shape.lbRounds = 2 * (depth - 1)
  bronze : shape.secondChanceTarget = .bronze → shape.grandFinalReset = false ∧
    (if shape.bronzeMatch then 2 ≤ depth ∧ shape.lbRounds = 2 * (depth - 1) - 1
      else 3 ≤ depth ∧ shape.lbRounds = 2 * (depth - 1) - 2)

theorem resolveBracketSize_ok {fighterCount bracketSize : ℕ} {options : DoubleElimOptions}
    (hTwo : 2 ≤ fighterCount)
    (h : resolveBracketSize fighterCount options = .ok bracketSize) :
    (∃ k, bracketSize = 2 ^ (k + 1)) ∧ bracketSize ≤ fighterCount ∧
      fighterCount ≤ bracketSize * 2 := by
  rw [resolveBracketSize] at h
  split at h
  · by_cases hIs : isPowerOf2 fighterCount = true
    · rw [if_pos hIs] at h
      cases h
      exact ⟨pow_of_isPowerOf2 hTwo hIs, Nat.le_refl _, by omega⟩
    · rw [if_neg hIs] at h
      cases h
      obtain ⟨k, hk, hLt, hLe⟩ := highestPowerOf2Below_spec hTwo
      rw [hk]
      cases k with
      | zero =>
        obtain rfl : fighterCount = 2 := by omega
        exact absurd rfl hIs
      | succ k => exact ⟨⟨k, rfl⟩, Nat.le_of_lt hLt, hLe⟩
  · split at h
    · cases h
    · rename_i hPower
      split at h
      · cases h
      · split at h
        · cases h
        · cases h
          simp only [Bool.or_eq_true, decide_eq_true_eq, Bool.not_eq_true', not_or, Nat.not_lt,
            Bool.not_eq_false] at hPower
          exact ⟨pow_of_isPowerOf2 hPower.1 hPower.2, by omega, by omega⟩

theorem resolveRepechageEntrySize_ok {rounds entrySize : ℕ} {options : DoubleElimOptions}
    (hRounds : 1 ≤ rounds)
    (h : resolveRepechageEntrySize (2 ^ rounds) options = .ok entrySize) :
    ∃ depth, 1 ≤ depth ∧ depth ≤ rounds ∧ entrySize = 2 ^ depth := by
  rw [resolveRepechageEntrySize] at h
  split at h
  · cases h
    exact ⟨rounds, hRounds, Nat.le_refl _, rfl⟩
  · split at h
    · cases h
    · rename_i hPower
      split at h
      · cases h
      · rename_i hLe
        cases h
        simp only [Bool.or_eq_true, decide_eq_true_eq, Bool.not_eq_true', not_or, Nat.not_lt,
          Bool.not_eq_false] at hPower
        obtain ⟨k, rfl⟩ := pow_of_isPowerOf2 hPower.1 hPower.2
        exact ⟨k + 1, Nat.succ_pos k,
          (Nat.pow_le_pow_iff_right (by decide)).mp (Nat.le_of_not_lt hLe), rfl⟩

theorem resolveLbRounds_gold {depth lbRounds : ℕ} {bronzeMatch : Bool}
    (h : resolveLbRounds (2 ^ depth) .gold bronzeMatch = .ok lbRounds) :
    lbRounds = 2 * (depth - 1) := by
  rw [resolveLbRounds, Nat.log2_two_pow] at h
  cases h
  rfl

theorem resolveLbRounds_bronze {depth lbRounds : ℕ} {bronzeMatch : Bool}
    (h : resolveLbRounds (2 ^ depth) .bronze bronzeMatch = .ok lbRounds) :
    if bronzeMatch then 2 ≤ depth ∧ lbRounds = 2 * (depth - 1) - 1
      else 3 ≤ depth ∧ lbRounds = 2 * (depth - 1) - 2 := by
  rw [resolveLbRounds, Nat.log2_two_pow] at h
  cases bronzeMatch
  · simp only [Bool.false_eq_true, if_false] at h ⊢
    split at h
    · cases h
    · cases h
      exact ⟨by omega, rfl⟩
  · simp only [if_true] at h ⊢
    split at h
    · cases h
    · cases h
      exact ⟨by omega, rfl⟩

theorem bind_eq_ok {α β : Type} {x : Except String α} {f : α → Except String β} {b : β}
    (h : x.bind f = .ok b) : ∃ a, x = .ok a ∧ f a = .ok b := by
  cases x with
  | error message => cases h
  | ok a => exact ⟨a, rfl, h⟩

theorem resolveDoubleElimShape_sized {fighterCount : ℕ} {options : DoubleElimOptions}
    {shape : DoubleElimShape} (h : resolveDoubleElimShape fighterCount options = .ok shape) :
    ∃ surplus depth, Sized shape fighterCount surplus depth := by
  rw [resolveDoubleElimShape] at h
  split at h
  · cases h
  rename_i hTwo
  have hTwo : 2 ≤ fighterCount := Nat.le_of_not_lt hTwo
  obtain ⟨bracketSize, hSize, h⟩ := bind_eq_ok h
  obtain ⟨⟨k, rfl⟩, hLe, hFit⟩ := resolveBracketSize_ok hTwo hSize
  simp only at h
  split at h
  · cases h
  obtain ⟨-, hReject, h⟩ := bind_eq_ok h
  obtain ⟨entrySize, hEntry, h⟩ := bind_eq_ok h
  obtain ⟨depth, hDepth, hDepthLe, rfl⟩ := resolveRepechageEntrySize_ok (Nat.succ_pos k) hEntry
  obtain ⟨lbRounds, hLb, h⟩ := bind_eq_ok h
  cases h
  have hSurplus : fighterCount - 2 ^ (k + 1) ≤ 2 ^ (k + 1) := by omega
  refine ⟨fighterCount - 2 ^ (k + 1), depth,
    { fighters := rfl
      rounds_pos := by simp [Nat.log2_two_pow]
      size := by simp [Nat.log2_two_pow]
      field := by simp only [Nat.log2_two_pow]; omega
      fits := by simpa only [Nat.log2_two_pow] using hSurplus
      playIn := rfl
      hasPlayIn := rfl
      byeSeeds := by simp [Nat.log2_two_pow]
      depth_pos := hDepth
      depth_le := by simpa only [Nat.log2_two_pow] using hDepthLe
      entrySize := rfl
      entryRound := by simp only [Nat.log2_two_pow]; omega
      gold := fun hGold => ?_
      bronze := fun hBronze => ?_ }⟩
  · have hTarget : options.secondChanceTarget.getD .gold = .gold := hGold
    rw [hTarget] at hLb
    exact resolveLbRounds_gold hLb
  · have hTarget : options.secondChanceTarget.getD .gold = .bronze := hBronze
    rw [hTarget] at hLb
    refine ⟨by simp [hTarget], ?_⟩
    simpa [hTarget] using resolveLbRounds_bronze hLb

end DoubleElim

end MyClash.Bracket
