import MyClash.MatchFormat.Config
import MyClash.MatchFormat.Outcome
import Mathlib.Algebra.Order.Group.Defs
import Mathlib.Tactic.Linarith

/-!
# The end of a round

When a score ends a round by itself, and for whom: the point cap, which asks the level chain
of the phase, and the doubles ceiling, which does not.
-/

namespace MyClash.MatchFormat

inductive DecisionEdition where
  | edition2026_04
  | edition2026_10

structure CountdownRules where
  lessFarBelowLeads : Bool
  doublesBeforeCap : Bool

/-- What moved on 2026-10-11, for a bout that counts down only. -/
def COUNTDOWN_RULES : DecisionEdition → CountdownRules
  | .edition2026_04 => ⟨false, false⟩
  | .edition2026_10 => ⟨true, true⟩

inductive RoundEndReason where
  | firstToPoints
  | maxDoubles
  | maxDoublesDraw
  | maxDoublesResultStands
  deriving DecidableEq

def maxDoubleHitEndReason (config : MatchFormatConfig) : RoundEndReason :=
  match config.maxDoubleHitOutcome with
  | .drawZeroScores => .maxDoublesDraw
  | .resultStands => .maxDoublesResultStands
  | .doubleLossZeroScores => .maxDoubles

/-- The two scores, and how far under zero each side went when the scorer said so. -/
structure CapScore where
  redScore : ℚ
  blueScore : ℚ
  redBelowZero : Option ℚ
  blueBelowZero : Option ℚ
  doubles : ℕ

variable (score : CapScore) (config : MatchFormatConfig) (edition : DecisionEdition)

def capLeader : Option Color :=
  if config.scoringDirection ≠ .reverseZeroLoses then
    leadingColor score.redScore score.blueScore
  else if !(COUNTDOWN_RULES edition).lessFarBelowLeads then
    leadingColor score.redScore score.blueScore
  else
    leadingColor (score.redScore - score.redBelowZero.getD 0)
      (score.blueScore - score.blueBelowZero.getD 0)

def pointCapWinnerColor : Option Color :=
  if config.scoringDirection = .reverseZeroLoses then
    if score.redScore ≤ 0 ∧ score.blueScore ≤ 0 then capLeader score config edition
    else if score.redScore ≤ 0 then some .blue
    else if score.blueScore ≤ 0 then some .red
    else none
  else if score.redScore ≥ config.pointCap ∧ score.blueScore ≥ config.pointCap then
    leadingColor score.redScore score.blueScore
  else if score.redScore ≥ config.pointCap then some .red
  else if score.blueScore ≥ config.pointCap then some .blue
  else none

def isPointCapReached : Bool :=
  if config.scoringDirection = .reverseZeroLoses then
    score.redScore ≤ 0 || score.blueScore ≤ 0
  else score.redScore ≥ config.pointCap || score.blueScore ≥ config.pointCap

section Phase

variable (upperTrimmed : String → String) (m : FormatMatch)

def pointCapEndsBout : Bool :=
  if !isPointCapReached score config then false
  else if (capLeader score config edition).isSome then true
  else chainAllowsLevelEnd upperTrimmed config m

structure RoundOutcome where
  autoOver : Bool
  winnerColor : Option Color
  endReason : Option RoundEndReason

def atTheCeiling : Bool :=
  match getEffectiveMaxDoubles m config with
  | some maxDoubles => score.doubles ≥ maxDoubles
  | none => false

def ceiling : RoundOutcome where
  autoOver := true
  winnerColor :=
    if maxDoubleHitZeroesScores config then none
    else leadingColor score.redScore score.blueScore
  endReason := some (maxDoubleHitEndReason config)

def roundOutcome : RoundOutcome :=
  if atTheCeiling score config m && config.scoringDirection == .reverseZeroLoses &&
      (COUNTDOWN_RULES edition).doublesBeforeCap then
    ceiling score config
  else if pointCapEndsBout score config edition upperTrimmed m then
    ⟨true, pointCapWinnerColor score config edition, some .firstToPoints⟩
  else if atTheCeiling score config m then ceiling score config
  else ⟨false, none, none⟩

end Phase

/-- A side out of points on the board is behind a side that is not, also with the points below
zero taken off: no card lifted a side that went below zero back over the other. -/
def Settled : Prop :=
  config.scoringDirection = .reverseZeroLoses → (COUNTDOWN_RULES edition).lessFarBelowLeads →
    (score.redScore ≤ 0 → 0 < score.blueScore →
      score.redScore - score.redBelowZero.getD 0 < score.blueScore - score.blueBelowZero.getD 0) ∧
    (score.blueScore ≤ 0 → 0 < score.redScore →
      score.blueScore - score.blueBelowZero.getD 0 < score.redScore - score.redBelowZero.getD 0)

section CountedDown

/-- Points earned, as the scores a board shows under the config's direction. -/
def applyScoringDirection (redEarned blueEarned : ℚ) : ℚ × ℚ :=
  if config.scoringDirection ≠ .reverseZeroLoses then (redEarned, blueEarned)
  else (max 0 (config.pointCap - blueEarned), max 0 (config.pointCap - redEarned))

def belowZero (redEarned blueEarned : ℚ) : Option ℚ × Option ℚ :=
  if config.scoringDirection ≠ .reverseZeroLoses then (none, none)
  else (some (max 0 (blueEarned - config.pointCap)), some (max 0 (redEarned - config.pointCap)))

/-- The board of what was earned, with the cards added to their own side after the turn. -/
def cardedScore (redEarned blueEarned redCards blueCards : ℚ) (doubles : ℕ) : CapScore where
  redScore := (applyScoringDirection config redEarned blueEarned).1 + redCards
  blueScore := (applyScoringDirection config redEarned blueEarned).2 + blueCards
  redBelowZero := (belowZero config redEarned blueEarned).1
  blueBelowZero := (belowZero config redEarned blueEarned).2
  doubles := doubles

variable {config}

theorem above_of_shown {earned cap cards other : ℚ} (hCards : cards ≤ 0) (hOther : other ≤ 0)
    (hShown : 0 < max 0 (cap - earned) + cards) {below : ℚ} (hBelow : 0 ≤ below) :
    other - below < max 0 (cap - earned) + cards - max 0 (earned - cap) := by
  have hLeft : 0 < cap - earned := by
    by_contra hOut
    rw [max_eq_left (not_lt.mp hOut)] at hShown
    linarith
  rw [max_eq_left (a := (0 : ℚ)) (b := earned - cap) (by linarith)]
  linarith

/-- Cards that only take points leave every score settled. -/
theorem settled_cardedScore {redEarned blueEarned redCards blueCards : ℚ} (hRed : redCards ≤ 0)
    (hBlue : blueCards ≤ 0) (doubles : ℕ) :
    Settled (cardedScore config redEarned blueEarned redCards blueCards doubles) config
      edition := by
  intro hDown _
  simp only [cardedScore, applyScoringDirection, belowZero, hDown, ne_eq, not_true_eq_false,
    if_false, Option.getD_some]
  exact ⟨fun hOut hShown => above_of_shown hBlue hOut hShown (le_max_left 0 _),
    fun hOut hShown => above_of_shown hRed hOut hShown (le_max_left 0 _)⟩

end CountedDown

variable {score config edition}

/-- A cap reached with a leader is won by a side, and on a settled score by the leader. -/
theorem pointCapWinnerColor_of_reached (hReached : isPointCapReached score config)
    (hLeader : capLeader score config edition ≠ none) :
    pointCapWinnerColor score config edition ≠ none := by
  unfold isPointCapReached at hReached
  unfold pointCapWinnerColor
  by_cases hDown : config.scoringDirection = .reverseZeroLoses
  · rw [if_pos hDown] at hReached ⊢
    simp only [Bool.or_eq_true, decide_eq_true_eq] at hReached
    split_ifs with hBoth hRed hBlue
    · exact hLeader
    · simp
    · simp
    · exact absurd hReached (by simp [hRed, hBlue])
  · rw [if_neg hDown] at hReached ⊢
    simp only [Bool.or_eq_true, decide_eq_true_eq] at hReached
    split_ifs with hBoth hRed hBlue
    · simpa [capLeader, hDown] using hLeader
    · simp
    · simp
    · exact absurd hReached (by simp [hRed, hBlue])

theorem isPointCapReached_of_winner (h : pointCapWinnerColor score config edition ≠ none) :
    isPointCapReached score config := by
  unfold pointCapWinnerColor at h
  unfold isPointCapReached
  split_ifs at h ⊢ <;> simp_all

theorem capLeader_of_redOut (hDown : config.scoringDirection = .reverseZeroLoses)
    (hSettled : Settled score config edition) (hRed : score.redScore ≤ 0)
    (hBlue : 0 < score.blueScore) : capLeader score config edition = some .blue := by
  rw [capLeader, if_neg (not_not.mpr hDown)]
  cases hRules : (COUNTDOWN_RULES edition).lessFarBelowLeads with
  | false => exact leadingColor_blue (hRed.trans_lt hBlue)
  | true => exact leadingColor_blue ((hSettled hDown hRules).1 hRed hBlue)

theorem capLeader_of_blueOut (hDown : config.scoringDirection = .reverseZeroLoses)
    (hSettled : Settled score config edition) (hBlue : score.blueScore ≤ 0)
    (hRed : 0 < score.redScore) : capLeader score config edition = some .red := by
  rw [capLeader, if_neg (not_not.mpr hDown)]
  cases hRules : (COUNTDOWN_RULES edition).lessFarBelowLeads with
  | false => exact leadingColor_red (hBlue.trans_lt hRed)
  | true => exact leadingColor_red ((hSettled hDown hRules).2 hBlue hRed)

/-- On a settled score whoever the cap names leads. -/
theorem capLeader_eq_of_winner (hSettled : Settled score config edition)
    (h : pointCapWinnerColor score config edition ≠ none) :
    capLeader score config edition = pointCapWinnerColor score config edition := by
  unfold pointCapWinnerColor at h ⊢
  by_cases hDown : config.scoringDirection = .reverseZeroLoses
  · rw [if_pos hDown] at h ⊢
    split_ifs at h ⊢ with hBoth hRed hBlue
    · rfl
    · exact capLeader_of_redOut hDown hSettled hRed (not_le.mp fun hBlue => hBoth ⟨hRed, hBlue⟩)
    · exact capLeader_of_blueOut hDown hSettled hBlue (not_le.mp hRed)
    · exact absurd rfl h
  · rw [if_neg hDown] at h ⊢
    rw [capLeader, if_pos hDown]
    split_ifs at h ⊢ with hBoth hRed hBlue
    · rfl
    · exact leadingColor_red (lt_of_lt_of_le (not_le.mp fun hBlue => hBoth ⟨hRed, hBlue⟩) hRed)
    · exact leadingColor_blue (lt_of_lt_of_le (not_le.mp hRed) hBlue)
    · exact absurd rfl h

variable {upperTrimmed : String → String} {m : FormatMatch}

theorem pointCapEndsBout_of_winner (hSettled : Settled score config edition)
    (h : pointCapWinnerColor score config edition ≠ none) :
    pointCapEndsBout score config edition upperTrimmed m := by
  have hLeader : (capLeader score config edition).isSome := by
    rw [capLeader_eq_of_winner hSettled h]
    exact Option.isSome_iff_ne_none.mpr h
  rw [pointCapEndsBout, isPointCapReached_of_winner h, hLeader]
  rfl

/-- Where the phase cannot end level, a cap that ends a bout has a winner. -/
theorem winner_of_pointCapEndsBout (hChain : chainAllowsLevelEnd upperTrimmed config m = false)
    (h : pointCapEndsBout score config edition upperTrimmed m) :
    pointCapWinnerColor score config edition ≠ none := by
  unfold pointCapEndsBout at h
  split_ifs at h with hReached hLeader
  · exact pointCapWinnerColor_of_reached (by simpa using hReached)
      (Option.isSome_iff_ne_none.mp hLeader)
  · exact absurd h (by simp [hChain])

/-- An automatic end is the cap's, with the cap's winner, or the doubles ceiling's. -/
theorem roundOutcome_cases (h : (roundOutcome score config edition upperTrimmed m).autoOver) :
    (pointCapEndsBout score config edition upperTrimmed m ∧
        roundOutcome score config edition upperTrimmed m =
          ⟨true, pointCapWinnerColor score config edition, some .firstToPoints⟩) ∨
      (atTheCeiling score config m ∧
        roundOutcome score config edition upperTrimmed m = ceiling score config) := by
  unfold roundOutcome at h ⊢
  split_ifs at h ⊢ with hFirst hCap hCeiling
  · simp only [Bool.and_eq_true] at hFirst
    exact Or.inr ⟨hFirst.1.1, rfl⟩
  · exact Or.inl ⟨hCap, rfl⟩
  · exact Or.inr ⟨hCeiling, rfl⟩

/-- A pool whose chain is sudden death alone, under the federal doubles ceiling. -/
def suddenDeathPool : MatchFormatConfig where
  pointCap := 10
  scoringDirection := .normal
  maxDoubleHits := some 4
  maxDoubleHitOutcome := .doubleLossZeroScores
  levelAtTime := ⟨[.suddenDeath], none, [.suddenDeath], [.suddenDeath]⟩

/-- The ceiling ends a bout with no winner in a phase that cannot end level. -/
theorem roundOutcome_ceiling_without_winner :
    ¬ ∀ (upperTrimmed : String → String) (m : FormatMatch) (config : MatchFormatConfig)
      (score : CapScore) (edition : DecisionEdition),
      chainAllowsLevelEnd upperTrimmed config m = false →
      (roundOutcome score config edition upperTrimmed m).autoOver →
      (roundOutcome score config edition upperTrimmed m).winnerColor ≠ none := fun h =>
  h id ⟨some .pool, none⟩ suddenDeathPool ⟨0, 0, none, none, 4⟩ .edition2026_10 (by decide)
    (by decide) (by decide)

theorem roundOutcome_winner (hChain : chainAllowsLevelEnd upperTrimmed config m = false) :
    ((roundOutcome score config edition upperTrimmed m).autoOver →
        (roundOutcome score config edition upperTrimmed m).endReason = some .firstToPoints ∧
            (roundOutcome score config edition upperTrimmed m).winnerColor ≠ none ∧
            (roundOutcome score config edition upperTrimmed m).winnerColor =
              pointCapWinnerColor score config edition ∧
            (Settled score config edition →
              (roundOutcome score config edition upperTrimmed m).winnerColor =
                capLeader score config edition) ∨
          atTheCeiling score config m ∧
            roundOutcome score config edition upperTrimmed m = ceiling score config) ∧
      (Settled score config edition → pointCapWinnerColor score config edition ≠ none →
        pointCapEndsBout score config edition upperTrimmed m) := by
  refine ⟨fun hOver => ?_, pointCapEndsBout_of_winner⟩
  rcases roundOutcome_cases hOver with ⟨hCap, hOutcome⟩ | hCeiling
  · have hWinner := winner_of_pointCapEndsBout hChain hCap
    rw [hOutcome]
    exact Or.inl ⟨rfl, hWinner, rfl, fun hSettled => (capLeader_eq_of_winner hSettled hWinner).symm⟩
  · exact Or.inr hCeiling

theorem roundOutcome_winner_capped :
    (roundOutcome ⟨10, 3, none, none, 1⟩ suddenDeathPool .edition2026_10 id
        ⟨some .pool, none⟩).winnerColor =
      capLeader ⟨10, 3, none, none, 1⟩ suddenDeathPool .edition2026_10 := by
  have hEnds := (@roundOutcome_winner ⟨10, 3, none, none, 1⟩ suddenDeathPool .edition2026_10 id
    ⟨some .pool, none⟩ (by decide)).1 (by decide)
  rcases hEnds with ⟨-, -, -, hLeader⟩ | ⟨hCeiling, -⟩
  · exact hLeader nofun
  · exact absurd hCeiling (by decide)

end MyClash.MatchFormat
