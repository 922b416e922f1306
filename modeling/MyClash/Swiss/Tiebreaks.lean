import Mathlib.Data.List.Count
import Mathlib.Data.Rat.Floor
import MyClash.Library.OrderedMap
import MyClash.MatchFormat.Outcome

/-!
# The Swiss tie-break keys

What a fighter's opponents say of their placing: measures over the whole field, and the net of
the bouts inside one block of level fighters.
-/

namespace MyClash.Swiss

open MatchFormat

universe u

abbrev SwissOutcome := BoutOutcome

structure SwissBout (ι : Type u) where
  opponentId : ι
  outcome : SwissOutcome

/-- One entry of `bouts` for each bout fought; a bye is none. -/
structure SwissResultRecord (ι : Type u) where
  registrationId : ι
  swissPts : ℚ
  bouts : List (SwissBout ι)

structure OpponentTiebreaks where
  buchholz : ℚ
  buchholzCut1 : ℚ
  sonnebornBerger : ℚ
  opponentWinPct : ℚ

/-- Two decimals, rounded half up as `Math.round` does. -/
def round2 (value : ℚ) : ℚ := ⌊value * 100 + 1 / 2⌋ / 100

variable {ι : Type u} [DecidableEq ι]

/-- What an opponent weighs: all of their points for a win, half for a draw. -/
def sonnebornBergerCredit (opponent : ℚ) : SwissOutcome → ℚ
  | .win => opponent
  | .draw => opponent / 2
  | .loss => 0

/-- The keys of one fighter. An opponent outside the field scores 0 and has no bouts. -/
def tiebreaksOf (pointsOf : OrderedMap ι ℚ) (boutsOf : OrderedMap ι (List (SwissBout ι)))
    (record : SwissResultRecord ι) : OpponentTiebreaks :=
  let pointsAgainst := fun bout : SwissBout ι => (pointsOf.get? bout.opponentId).getD 0
  let opponentPoints := record.bouts.map pointsAgainst
  let buchholz := opponentPoints.sum
  let theirs := record.bouts.flatMap fun bout => (boutsOf.get? bout.opponentId).getD []
  { buchholz
    buchholzCut1 :=
      match opponentPoints.min? with
      | none => 0
      | some weakest => buchholz - weakest
    sonnebornBerger :=
      round2 (record.bouts.map fun bout =>
        sonnebornBergerCredit (pointsAgainst bout) bout.outcome).sum
    opponentWinPct :=
      round2 (if theirs.length = 0 then 0
        else (theirs.countP (·.outcome = .win) : ℚ) / theirs.length) }

def opponentTiebreaks (records : List (SwissResultRecord ι)) : OrderedMap ι OpponentTiebreaks :=
  let pointsOf := OrderedMap.ofList (records.map fun r => (r.registrationId, r.swissPts))
  let boutsOf := OrderedMap.ofList (records.map fun r => (r.registrationId, r.bouts))
  OrderedMap.ofList (records.map fun r => (r.registrationId, tiebreaksOf pointsOf boutsOf r))

def outcomeNet : SwissOutcome → ℤ
  | .win => 1
  | .loss => -1
  | .draw => 0

/-- Wins less losses against the members of the block. -/
def netAgainst (blockIds : List ι) (bouts : List (SwissBout ι)) : ℤ :=
  ((bouts.filter (·.opponentId ∈ blockIds)).map fun bout => outcomeNet bout.outcome).sum

def headToHeadWithin (blockIds : List ι) (records : List (SwissResultRecord ι)) : OrderedMap ι ℤ :=
  OrderedMap.ofList ((records.filter (·.registrationId ∈ blockIds)).map fun r =>
    (r.registrationId, netAgainst blockIds r.bouts))

/-! ## Symmetric records -/

def opposite : SwissOutcome → SwissOutcome
  | .win => .loss
  | .loss => .win
  | .draw => .draw

/-- Who met whom, and how it went for the first of the two. -/
structure Meeting (ι : Type u) where
  fighter : ι
  opponent : ι
  outcome : SwissOutcome
  deriving DecidableEq

def Meeting.flip (m : Meeting ι) : Meeting ι := ⟨m.opponent, m.fighter, opposite m.outcome⟩

def meetings (records : List (SwissResultRecord ι)) : List (Meeting ι) :=
  records.flatMap fun r => r.bouts.map fun bout => ⟨r.registrationId, bout.opponentId, bout.outcome⟩

/-- One record a fighter, and every bout stands in both records, with opposite results. -/
structure Symmetric (records : List (SwissResultRecord ι)) : Prop where
  nodup : (records.map (·.registrationId)).Nodup
  opposite : ∀ m : Meeting ι, (meetings records).count m = (meetings records).count m.flip

omit [DecidableEq ι] in
theorem flip_flip (m : Meeting ι) : m.flip.flip = m := by
  obtain ⟨fighter, opponent, outcome⟩ := m
  cases outcome <;> rfl

variable {records : List (SwissResultRecord ι)}

theorem symmetric_iff : Symmetric records ↔
    (records.map (·.registrationId)).Nodup ∧
      ∀ m ∈ meetings records, (meetings records).count m = (meetings records).count m.flip := by
  constructor
  · intro h
    exact ⟨h.nodup, fun m _ => h.opposite m⟩
  · rintro ⟨hNodup, hMet⟩
    refine ⟨hNodup, fun m => ?_⟩
    by_cases hFlip : m.flip ∈ meetings records
    · rw [hMet m.flip hFlip, flip_flip]
    · by_cases hMem : m ∈ meetings records
      · exact hMet m hMem
      · rw [List.count_eq_zero_of_not_mem hMem, List.count_eq_zero_of_not_mem hFlip]

instance : Decidable (Symmetric records) := decidable_of_iff' _ symmetric_iff

theorem Symmetric.perm (h : Symmetric records) :
    (meetings records).Perm ((meetings records).map Meeting.flip) := by
  rw [List.perm_iff_count]
  intro m
  rw [h.opposite m]
  conv_rhs => rw [← flip_flip m]
  exact (List.count_map_of_injective _ _ (Function.LeftInverse.injective flip_flip) m.flip).symm

/-- A sum over all bouts may be taken from the other side of each. -/
theorem Symmetric.sum_flip (h : Symmetric records) {β : Type*} [AddCommMonoid β]
    (f : Meeting ι → β) :
    ((meetings records).map f).sum = ((meetings records).map fun m => f m.flip).sum := by
  rw [(h.perm.map f).sum_eq, List.map_map]
  rfl

omit [DecidableEq ι] in
theorem sum_meetings {β : Type*} [AddCommMonoid β] (f : Meeting ι → β) :
    ((meetings records).map f).sum =
      (records.map fun r =>
        (r.bouts.map fun bout => f ⟨r.registrationId, bout.opponentId, bout.outcome⟩).sum).sum := by
  induction records with
  | nil => rfl
  | cons r records ih =>
    rw [meetings, List.flatMap_cons, List.map_append, List.sum_append, List.map_map]
    exact congrArg _ ih

/-! ## The sums over the field -/

theorem values_ofList_records {β : Type*} (h : (records.map (·.registrationId)).Nodup)
    (f : SwissResultRecord ι → β) :
    (OrderedMap.ofList (records.map fun r => (r.registrationId, f r))).values = records.map f := by
  have hKeys : ((records.map fun r => (r.registrationId, f r)).map Prod.fst).Nodup := by
    rw [List.map_map]
    exact h
  rw [OrderedMap.values, OrderedMap.entries_ofList hKeys, List.map_map]
  rfl

theorem get?_ofList_record {β : Type*} (h : (records.map (·.registrationId)).Nodup)
    (f : SwissResultRecord ι → β) {r : SwissResultRecord ι} (hr : r ∈ records) :
    (OrderedMap.ofList (records.map fun r => (r.registrationId, f r))).get? r.registrationId =
      some (f r) := by
  have hKeys : ((records.map fun r => (r.registrationId, f r)).map Prod.fst).Nodup := by
    rw [List.map_map]
    exact h
  rw [OrderedMap.get?_eq_some_iff, OrderedMap.entries_ofList hKeys]
  exact List.mem_map_of_mem hr

theorem sum_buchholz (h : Symmetric records) :
    ((opponentTiebreaks records).values.map (·.buchholz)).sum =
      (records.map fun r => r.swissPts * (r.bouts.length : ℚ)).sum := by
  let pointsOf := OrderedMap.ofList (records.map fun r => (r.registrationId, r.swissPts))
  let points := fun id => (pointsOf.get? id).getD 0
  have hOwn : ∀ r ∈ records, points r.registrationId = r.swissPts := by
    intro r hr
    exact congrArg (Option.getD · 0) (get?_ofList_record h.nodup (·.swissPts) hr)
  rw [opponentTiebreaks, values_ofList_records h.nodup, List.map_map]
  calc (records.map fun r => (r.bouts.map fun bout => points bout.opponentId).sum).sum
      = ((meetings records).map fun m => points m.opponent).sum :=
        (sum_meetings fun m => points m.opponent).symm
    _ = ((meetings records).map fun m => points m.fighter).sum := h.sum_flip _
    _ = (records.map fun r => (r.bouts.map fun _ => points r.registrationId).sum).sum :=
        sum_meetings fun m => points m.fighter
    _ = (records.map fun r => r.swissPts * (r.bouts.length : ℚ)).sum := by
        refine congrArg List.sum (List.map_congr_left fun r hr => ?_)
        rw [hOwn r hr, List.map_const', List.sum_replicate, nsmul_eq_mul, mul_comm]

theorem sum_filter_map {α β : Type*} [AddCommMonoid β] (p : α → Prop) [DecidablePred p]
    (f : α → β) (l : List α) :
    ((l.filter p).map f).sum = (l.map fun a => if p a then f a else 0).sum := by
  induction l with
  | nil => rfl
  | cons a l ih => by_cases h : p a <;> simp [h, ih]

/-- The net of a meeting where both fighters are of the block. -/
def Meeting.netWithin (blockIds : List ι) (m : Meeting ι) : ℤ :=
  if m.fighter ∈ blockIds ∧ m.opponent ∈ blockIds then outcomeNet m.outcome else 0

theorem netWithin_flip (blockIds : List ι) (m : Meeting ι) :
    m.flip.netWithin blockIds = -m.netWithin blockIds := by
  obtain ⟨fighter, opponent, outcome⟩ := m
  simp only [Meeting.netWithin, Meeting.flip, and_comm (a := opponent ∈ blockIds)]
  split_ifs
  · cases outcome <;> rfl
  · rfl

theorem sum_headToHead (h : Symmetric records) (blockIds : List ι) :
    (headToHeadWithin blockIds records).values.sum = 0 := by
  have hBlock : ((records.filter (·.registrationId ∈ blockIds)).map (·.registrationId)).Nodup :=
    h.nodup.sublist (List.filter_sublist.map _)
  have hSum : (headToHeadWithin blockIds records).values.sum =
      ((meetings records).map (Meeting.netWithin blockIds)).sum := by
    rw [headToHeadWithin, values_ofList_records hBlock, sum_filter_map, sum_meetings]
    refine congrArg List.sum (List.map_congr_left fun r _ => ?_)
    rw [netAgainst, sum_filter_map]
    by_cases hMem : r.registrationId ∈ blockIds <;> simp [Meeting.netWithin, hMem]
  have hFlip := h.sum_flip (Meeting.netWithin blockIds)
  have hNeg : ((meetings records).map fun m => m.flip.netWithin blockIds).sum =
      -((meetings records).map (Meeting.netWithin blockIds)).sum := by
    rw [List.sum_neg, List.map_map]
    exact congrArg List.sum (List.map_congr_left fun m _ => netWithin_flip blockIds m)
  omega

end MyClash.Swiss
