import MyClash.Bracket.SingleElim
import MyClash.Library.Buckets
import MyClash.Library.StableSort

/-!
# Grouping a bracket by its branches

Every slot up to the spread round goes to the unit of one anchor of that round; the rounds above
it converge in a unit of their own. A double elimination spreads its winners bracket only.
-/

namespace MyClash.Schedule

open StableSort Buckets
open MyClash.Bracket (SlotRef)

universe u

structure BracketSlotInput (ι : Type u) where
  matchId : ι
  round : ℕ
  position : ℕ

inductive BranchKind where
  | anchor
  | converge
  deriving DecidableEq

structure BranchUnit (ι : Type u) where
  kind : BranchKind
  anchor : Option SlotRef
  matchIds : List ι

structure GroupBracketBranchesResult (ι : Type u) where
  units : List (BranchUnit ι)
  spreadRound : ℕ
  orphans : List ι

/-- The round split of a double elimination, which only its phase config carries. -/
structure GroupBracketBranchesOptions where
  wbRounds : Option ℕ
  lbRounds : Option ℕ

section Group

variable {ι : Type u}

def slotOrder (a b : BracketSlotInput ι) : Ordering :=
  (compare a.round b.round).then (compare a.position b.position)

def ordered (slots : List (BracketSlotInput ι)) : List ι :=
  (sortWith slotOrder slots).map (·.matchId)

def convergeUnit (matchIds : List ι) : BranchUnit ι := ⟨.converge, none, matchIds⟩

def anchorUnit (spreadRound position : ℕ) (matchIds : List ι) : BranchUnit ι :=
  ⟨.anchor, some ⟨spreadRound, position⟩, matchIds⟩

/-- The spread-round position a slot folds into. -/
def foldedPosition (spreadRound : ℕ) (s : BracketSlotInput ι) : ℕ :=
  (s.position + 2 ^ (spreadRound - s.round) - 1) / 2 ^ (spreadRound - s.round)

def maxRound (slots : List (BracketSlotInput ι)) : ℕ := (slots.map (·.round)).foldl max 0

/-- The round whose full size best matches the number of lices. -/
def spreadRoundOf (slots : List (BracketSlotInput ι)) (liceCount : ℕ) : ℕ :=
  max 1 (maxRound slots - Nat.log2 liceCount)

def anchorBuckets (slots : List (BracketSlotInput ι)) (spreadRound : ℕ) :
    List (ℕ × List (BracketSlotInput ι)) :=
  collect (foldedPosition spreadRound) (slots.filter fun s => s.round ≤ spreadRound)

def spreadUnits (slots : List (BracketSlotInput ι)) (spreadRound : ℕ) : List (BranchUnit ι) :=
  let buckets := anchorBuckets slots spreadRound
  let convergeSlots := slots.filter fun s => spreadRound < s.round
  ((sortWith compare (keys buckets)).map fun p =>
      anchorUnit spreadRound p (ordered (bucket buckets p))) ++
    if 0 < convergeSlots.length then [convergeUnit (ordered convergeSlots)] else []

def spreadBranches (slots : List (BracketSlotInput ι)) (liceCount : ℕ) :
    GroupBracketBranchesResult ι :=
  if slots.length = 0 then ⟨[], 0, []⟩
  else
    let rounds := slots.map (·.round)
    -- One lice, or a single round: everything converges.
    if liceCount ≤ 1 ∨ rounds.dedup.length ≤ 1 then
      ⟨[convergeUnit (ordered slots)],
        max 1 ((rounds.filter (1 ≤ ·)).foldl min (maxRound slots)), []⟩
    else
      let spreadRound := spreadRoundOf slots liceCount
      ⟨spreadUnits slots spreadRound, spreadRound, []⟩

def convergeIds (units : List (BranchUnit ι)) : List ι :=
  ((units.find? fun u => u.kind = .converge).map (·.matchIds)).getD []

def anchorUnits (units : List (BranchUnit ι)) : List (BranchUnit ι) :=
  units.filter fun u => u.kind = .anchor

def groupBracketBranches (slots : List (BracketSlotInput ι)) (liceCount : ℕ)
    (options : GroupBracketBranchesOptions) : GroupBracketBranchesResult ι :=
  match options.wbRounds.filter (0 < ·), options.lbRounds with
  | some wbRounds, some _ =>
    let wb := spreadBranches (slots.filter fun s => s.round ≤ wbRounds) liceCount
    let ids := convergeIds wb.units ++ ordered (slots.filter fun s => wbRounds < s.round)
    ⟨anchorUnits wb.units ++ if 0 < ids.length then [convergeUnit ids] else [], wb.spreadRound, []⟩
  | _, _ => spreadBranches slots liceCount

end Group

/-! ## Every slot is in one unit -/

section Partition

variable {ι : Type u} {slots : List (BracketSlotInput ι)} {units : List (BranchUnit ι)}

theorem ordered_perm (slots : List (BracketSlotInput ι)) :
    (ordered slots).Perm (slots.map (·.matchId)) :=
  (sortWith_perm slots).map _

/-- Anchors, and after them at most one unit that converges. -/
structure Grouped (units : List (BranchUnit ι)) (ids : List ι) : Prop where
  shape : ∃ anchors : List (BranchUnit ι), (∀ u ∈ anchors, u.kind = .anchor) ∧
    (units = anchors ∨ ∃ tail, units = anchors ++ [convergeUnit tail])
  perm : (units.flatMap (·.matchIds)).Perm ids

theorem Grouped.anchorUnits_append {ids : List ι} (h : Grouped units ids) :
    (anchorUnits units).flatMap (·.matchIds) ++ convergeIds units =
      units.flatMap (·.matchIds) := by
  obtain ⟨anchors, hAnchors, hUnits | ⟨tail, rfl⟩⟩ := h.shape
  · rw [← hUnits] at hAnchors
    have hKeep : anchorUnits units = units :=
      List.filter_eq_self.mpr fun u hu => decide_eq_true (hAnchors u hu)
    have hNone : convergeIds units = [] := by
      rw [convergeIds, List.find?_eq_none.mpr]
      · rfl
      · intro u hu
        rw [hAnchors u hu]
        decide
    rw [hKeep, hNone, List.append_nil]
  · have hKeep : anchorUnits (anchors ++ [convergeUnit tail]) = anchors := by
      rw [anchorUnits, List.filter_append,
        List.filter_eq_self.mpr fun u hu => decide_eq_true (hAnchors u hu)]
      exact List.append_nil _
    have hFound : convergeIds (anchors ++ [convergeUnit tail]) = tail := by
      rw [convergeIds, List.find?_append, List.find?_eq_none.mpr]
      · rfl
      · intro u hu
        rw [hAnchors u hu]
        decide
    rw [hKeep, hFound, List.flatMap_append]
    exact congrArg _ (List.append_nil _).symm

theorem filter_not_perm (slots : List (BracketSlotInput ι)) (round : ℕ) :
    ((slots.filter fun s => s.round ≤ round) ++ slots.filter fun s => round < s.round).Perm
      slots := by
  refine .trans (.of_eq ?_) (List.filter_append_perm (fun s => decide (s.round ≤ round)) slots)
  congr 1
  refine List.filter_congr fun s _ => ?_
  rw [← decide_not, decide_eq_decide, not_le]

theorem grouped_of_anchors {anchors : List (BranchUnit ι)} {tail ids : List ι}
    (hAnchors : ∀ u ∈ anchors, u.kind = .anchor)
    (hPerm : (anchors.flatMap (·.matchIds) ++ tail).Perm ids) :
    Grouped (anchors ++ if 0 < tail.length then [convergeUnit tail] else []) ids := by
  split
  · refine ⟨⟨anchors, hAnchors, Or.inr ⟨tail, rfl⟩⟩, ?_⟩
    rw [List.flatMap_append]
    exact (List.Perm.of_eq (congrArg _ (List.append_nil tail))).trans hPerm
  · rename_i hNone
    obtain rfl : tail = [] := List.eq_nil_of_length_eq_zero (by omega)
    rw [List.append_nil] at hPerm ⊢
    exact ⟨⟨anchors, hAnchors, Or.inl rfl⟩, hPerm⟩

theorem spreadUnits_perm (slots : List (BracketSlotInput ι)) (spreadRound : ℕ) :
    (((sortWith compare (keys (anchorBuckets slots spreadRound))).map fun p =>
        anchorUnit spreadRound p (ordered (bucket (anchorBuckets slots spreadRound) p))).flatMap
          (·.matchIds) ++
      ordered (slots.filter fun s => spreadRound < s.round)).Perm (slots.map (·.matchId)) := by
  have hAnchors : ((sortWith compare (keys (anchorBuckets slots spreadRound))).flatMap fun p =>
      ordered (bucket (anchorBuckets slots spreadRound) p)).Perm
      ((slots.filter fun s => s.round ≤ spreadRound).map (·.matchId)) := by
    refine (List.Perm.flatMap_left _ fun p _ => ordered_perm _).trans ?_
    rw [← List.map_flatMap]
    exact (flatMap_bucket_perm _ _ (sortWith_perm _)).map _
  rw [List.flatMap_map]
  refine (hAnchors.append (ordered_perm _)).trans ?_
  rw [← List.map_append]
  exact (filter_not_perm slots spreadRound).map _

theorem grouped_spreadBranches (slots : List (BracketSlotInput ι)) (liceCount : ℕ) :
    Grouped (spreadBranches slots liceCount).units (slots.map (·.matchId)) := by
  rw [spreadBranches]
  split
  · rename_i hNone
    rw [List.eq_nil_of_length_eq_zero hNone]
    exact ⟨⟨[], nofun, Or.inl rfl⟩, .refl _⟩
  · dsimp only
    split
    · refine ⟨⟨[], nofun, Or.inr ⟨ordered slots, rfl⟩⟩, ?_⟩
      exact (List.Perm.of_eq (List.append_nil _)).trans (ordered_perm slots)
    · have hPerm := spreadUnits_perm slots (spreadRoundOf slots liceCount)
      have hTail : (slots.filter fun s => spreadRoundOf slots liceCount < s.round).length =
          (ordered (slots.filter fun s => spreadRoundOf slots liceCount < s.round)).length := by
        rw [(ordered_perm _).length_eq, List.length_map]
      simp only [spreadUnits]
      rw [hTail]
      refine grouped_of_anchors (fun u hu => ?_) hPerm
      obtain ⟨p, -, rfl⟩ := List.mem_map.mp hu
      rfl

/-- Each slot is in exactly one unit, anchors first and what converges last. -/
theorem grouped_groupBracketBranches (slots : List (BracketSlotInput ι)) (liceCount : ℕ)
    (options : GroupBracketBranchesOptions) :
    Grouped (groupBracketBranches slots liceCount options).units (slots.map (·.matchId)) := by
  rw [groupBracketBranches]
  split
  · rename_i wbRounds _ _ _
    have hWinners :=
      grouped_spreadBranches (slots.filter fun s => s.round ≤ wbRounds) liceCount
    refine grouped_of_anchors (fun u hu => of_decide_eq_true (List.mem_filter.mp hu).2) ?_
    rw [← List.append_assoc, hWinners.anchorUnits_append]
    refine (hWinners.perm.append (ordered_perm _)).trans ?_
    rw [← List.map_append]
    exact (filter_not_perm slots wbRounds).map _
  · exact grouped_spreadBranches slots liceCount

end Partition

end MyClash.Schedule
