import MyClash.FinalRanking.Core
import MyClash.MatchFormat.Outcome

/-!
# The winner of a bracket bout, read twice

The bracket moves on whom `resolveMatchWinner` names, and the final ranking places whom
`winnerLoser` names. The first names nobody for a stored winner of another bout and reads a missing
score as zero; the second reads the scores, where it has both.
-/

namespace MyClash.FinalRanking

open MatchFormat

def RankingSlot.bout (slot : RankingSlot) : FinishedBout String where
  winnerRegistrationId := slot.winnerRegistrationId
  redRegistrationId := slot.redRegistrationId
  blueRegistrationId := slot.blueRegistrationId
  redScore := slot.redScore
  blueScore := slot.blueScore
  endReason := none

def resolveMatchWinner (status : String) (bout : FinishedBout String) : Option Color :=
  if status ≠ "completed" then none else winnerColorFrom bout

def RankingSlot.registrationOf (slot : RankingSlot) : Color → Option String
  | .red => slot.redRegistrationId
  | .blue => slot.blueRegistrationId

/-- Both fighters of the slot are there, with their names. -/
structure RankingSlot.Named (slot : RankingSlot) : Prop where
  red : (side slot.redRegistrationId slot.redFighterName slot.redClubAbbrev).isSome
  blue : (side slot.blueRegistrationId slot.blueFighterName slot.blueClubAbbrev).isSome

/-- Level on the board, or a side without a score. -/
def RankingSlot.Undecided (slot : RankingSlot) : Prop :=
  slot.redScore = none ∨ slot.blueScore = none ∨ slot.redScore = slot.blueScore

/-- One of the two fighters is recorded; or nobody, on a board that has both scores or is level
without one; or a stranger, on a board that decides nothing. -/
def RankingSlot.WinnerClear (slot : RankingSlot) : Prop :=
  match slot.winnerRegistrationId with
  | some winner =>
    some winner = slot.redRegistrationId ∨ some winner = slot.blueRegistrationId ∨ slot.Undecided
  | none =>
    (slot.redScore.isSome ∧ slot.blueScore.isSome) ∨
      slot.redScore.getD 0 = slot.blueScore.getD 0

theorem side_eq_some {registrationId fighterName clubAbbrev : Option String} {s : Side}
    (h : side registrationId fighterName clubAbbrev = some s) :
    registrationId = some s.registrationId := by
  rw [side] at h
  split at h
  · rename_i id name hId hName
    rw [← Option.some.inj h]
    exact (Option.filter_eq_some_iff.mp hId).1
  · cases h

section Named

variable {slot : RankingSlot} {red blue : Side}

/-- Whom the scores name, where the slot has both. -/
def RankingSlot.ahead (slot : RankingSlot) (red blue : Side) : Option Side :=
  match slot.redScore, slot.blueScore with
  | some redScore, some blueScore =>
    if redScore = blueScore then none else if blueScore < redScore then some red else some blue
  | _, _ => none

theorem ahead_eq_none : slot.ahead red blue = none ↔ slot.Undecided := by
  rw [RankingSlot.ahead, RankingSlot.Undecided]
  rcases slot.redScore with _ | redScore <;> rcases slot.blueScore with _ | blueScore
  · simp
  · simp
  · simp
  · simp only [reduceCtorEq, false_or, Option.some.injEq]
    split_ifs with hLevel hRed <;> simp [hLevel]

/-- The recorded fighter, else whoever is ahead. -/
theorem winner_of_named (hStatus : slot.status = "completed")
    (hRed : side slot.redRegistrationId slot.redFighterName slot.redClubAbbrev = some red)
    (hBlue : side slot.blueRegistrationId slot.blueFighterName slot.blueClubAbbrev = some blue) :
    (winnerLoser slot).map (·.winner) =
      if slot.winnerRegistrationId = some red.registrationId then some red
      else if slot.winnerRegistrationId = some blue.registrationId then some blue
      else slot.ahead red blue := by
  rw [winnerLoser, if_neg (not_not.mpr hStatus), hRed, hBlue, RankingSlot.ahead]
  dsimp only
  split_ifs with hWonRed hWonBlue
  · rfl
  · rfl
  · rcases slot.redScore with _ | redScore <;> rcases slot.blueScore with _ | blueScore
    · rfl
    · rfl
    · rfl
    · dsimp only
      split_ifs <;> rfl

theorem ahead_iff_leading (hRed : slot.redRegistrationId = some red.registrationId)
    (hBlue : slot.blueRegistrationId = some blue.registrationId) :
    (slot.ahead red blue).map (·.registrationId) =
        (leadingColor (slot.redScore.getD 0) (slot.blueScore.getD 0)).bind slot.registrationOf ↔
      (slot.redScore.isSome ∧ slot.blueScore.isSome) ∨
        slot.redScore.getD 0 = slot.blueScore.getD 0 := by
  have hMissing : ∀ redScore blueScore : ℚ,
      none = (leadingColor redScore blueScore).bind slot.registrationOf ↔
        redScore = blueScore := by
    intro redScore blueScore
    rw [← leadingColor_eq_none]
    rcases leadingColor redScore blueScore with _ | _ | _ <;>
      simp [RankingSlot.registrationOf, hRed, hBlue]
  rw [RankingSlot.ahead]
  rcases slot.redScore with _ | redScore <;> rcases slot.blueScore with _ | blueScore
  · simpa using hMissing 0 0
  · simpa using hMissing 0 blueScore
  · simpa using hMissing redScore 0
  · refine iff_of_true ?_ (.inl ⟨rfl, rfl⟩)
    dsimp only [Option.getD_some]
    rcases lt_trichotomy redScore blueScore with hLt | hEq | hLt
    · rw [leadingColor_blue hLt, if_neg hLt.ne, if_neg hLt.not_gt]
      exact hBlue.symm
    · rw [leadingColor_eq_none.mpr hEq, if_pos hEq]
      rfl
    · rw [leadingColor_red hLt, if_neg hLt.ne', if_pos hLt]
      exact hRed.symm

end Named

/-- The final ranking and the bracket name one winner exactly where the result is clear. -/
theorem winnerLoser_iff {slot : RankingSlot} (hStatus : slot.status = "completed")
    (hNamed : slot.Named) :
    ((winnerLoser slot).map (·.winner.registrationId) =
          (resolveMatchWinner slot.status slot.bout).bind slot.registrationOf ∧
        (winnerLoser slot).map (·.winner.registrationId) =
          (winnerColorFrom slot.bout).bind slot.registrationOf) ↔
      slot.WinnerClear := by
  obtain ⟨red, hRed⟩ := Option.isSome_iff_exists.mp hNamed.red
  obtain ⟨blue, hBlue⟩ := Option.isSome_iff_exists.mp hNamed.blue
  have hRedId := side_eq_some hRed
  have hBlueId := side_eq_some hBlue
  have hResolved : resolveMatchWinner slot.status slot.bout = winnerColorFrom slot.bout := by
    rw [resolveMatchWinner, if_neg (not_not.mpr hStatus)]
  have hWinner : (winnerLoser slot).map (·.winner.registrationId) =
      ((winnerLoser slot).map (·.winner)).map (·.registrationId) := by
    rw [Option.map_map]
    rfl
  rw [hResolved, and_self, hWinner, winner_of_named hStatus hRed hBlue, winnerColorFrom,
    RankingSlot.WinnerClear]
  dsimp only [RankingSlot.bout]
  cases hStored : slot.winnerRegistrationId with
  | none =>
    dsimp only
    rw [if_neg nofun, if_neg nofun]
    exact ahead_iff_leading hRedId hBlueId
  | some winner =>
    simp only [hRedId, hBlueId]
    split_ifs with hWonRed hWonBlue
    · simp [RankingSlot.registrationOf, hRedId, hWonRed]
    · simp [RankingSlot.registrationOf, hBlueId, hWonBlue]
    · rw [Option.bind_none, Option.map_eq_none_iff, ahead_eq_none]
      exact ⟨fun h => .inr (.inr h), fun h => (h.resolve_left hWonRed).resolve_left hWonBlue⟩

/-- Red against blue, 5 to 3, with a winner who is neither. -/
def strangerSlot : RankingSlot where
  id := "slot"
  round := 1
  position := 1
  status := "completed"
  redRegistrationId := some "red"
  blueRegistrationId := some "blue"
  redFighterName := some "Red"
  blueFighterName := some "Blue"
  redClubAbbrev := none
  blueClubAbbrev := none
  redScore := some 5
  blueScore := some 3
  winnerRegistrationId := some "stranger"

theorem not_sameWinner_strangerSlot :
    ¬∀ slot : RankingSlot, slot.status = "completed" → slot.Named →
      (winnerLoser slot).map (·.winner.registrationId) =
        (resolveMatchWinner slot.status slot.bout).bind slot.registrationOf := by
  intro h
  have hSame := h strangerSlot rfl ⟨by decide, by decide⟩
  revert hSame
  decide +kernel

theorem winnerLoser_iff_awarded :
    (winnerLoser { strangerSlot with winnerRegistrationId := some "blue" }).map
        (·.winner.registrationId) =
      (resolveMatchWinner "completed"
        (RankingSlot.bout { strangerSlot with winnerRegistrationId := some "blue" })).bind
        (RankingSlot.registrationOf { strangerSlot with winnerRegistrationId := some "blue" }) :=
  ((@winnerLoser_iff { strangerSlot with winnerRegistrationId := some "blue" } rfl
    ⟨by decide, by decide⟩).mpr (.inr (.inl rfl))).1

end MyClash.FinalRanking
