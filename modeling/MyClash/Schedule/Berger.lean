import MyClash.Library.PaddedNumber
import Mathlib.Data.List.Perm.Basic
import Mathlib.Data.List.Range
import Mathlib.Data.List.Pairwise
import Mathlib.Data.List.Nodup
import Mathlib.Data.Nat.Choose.Basic
import Mathlib.Logic.Function.Iterate

/-!
# The Berger table of a pool

The circle method: one fighter stays, the others turn by one each round, and each round pairs the
first with the last, the second with the last but one. An odd pool takes a bye into the circle, and
the bouts with the bye are left out.
-/

namespace MyClash.Schedule.Berger

open PaddedNumber

structure BergerMatch where
  round : ℕ
  matchInRound : ℕ
  sequence : ℕ
  homeIndex : ℕ
  awayIndex : ℕ
  label : String

structure BergerScheduleOptions where
  liceLabel : Option String
  poolLabel : Option String

def totalMatches (n : ℕ) : ℕ := n * (n - 1) / 2

def totalRounds (n : ℕ) : ℕ := if n % 2 = 0 then n - 1 else n

def labelWidth (n : ℕ) : ℕ := (Nat.toDigits 10 (totalMatches n)).length

def label (lice pool : String) (width sequence : ℕ) : String :=
  "L" ++ lice ++ "-P" ++ pool ++ "-M" ++ String.ofList (padded width sequence)

/-- Positions 1 to the last move on by one, the last to the first of them. -/
def rotate : List ℕ → List ℕ
  | [] => []
  | pivot :: rest =>
    match rest.getLast? with
    | none => [pivot]
    | some last => pivot :: last :: rest.dropLast

/-- The bouts so far, and the number of the next. -/
structure Table where
  bouts : List BergerMatch
  sequence : ℕ

section Schedule

variable (labelOf : ℕ → String) (n : ℕ)

def Table.push (table : Table) (round i home away : ℕ) : Table where
  bouts := table.bouts ++ [⟨round + 1, i, table.sequence, home, away, labelOf table.sequence⟩]
  sequence := table.sequence + 1

/-- One round; a couple with the bye is skipped. -/
def playRound (size round : ℕ) (rotation : List ℕ) (table : Table) : Table :=
  (List.range (size / 2)).foldl
    (fun table i =>
      let home := rotation.getD i 0
      let away := rotation.getD (size - 1 - i) 0
      if n % 2 ≠ 0 ∧ (home = n ∨ away = n) then table else table.push labelOf round i home away)
    table

def playRounds (size rounds : ℕ) : Table × List ℕ :=
  (List.range rounds).foldl
    (fun (table, rotation) round => (playRound labelOf n size round rotation table, rotate rotation))
    (⟨[], 1⟩, List.range size)

end Schedule

def bergerSchedule (n : ℕ) (options : BergerScheduleOptions) : Except String (List BergerMatch) :=
  if n < 2 then .error "Need at least 2 players for a round-robin"
  else
    let lice := options.liceLabel.getD "1"
    let pool := options.poolLabel.getD "A"
    let size := if n % 2 ≠ 0 then n + 1 else n
    .ok (playRounds (label lice pool (labelWidth n)) n size (size - 1)).1.bouts

/-! ## The circle -/

/-- Who stands at a position of a circle of `m + 1` after `round` turns. -/
def standing (m round i : ℕ) : ℕ :=
  if i = 0 then 0 else if round < i then i - round else i + m - round

theorem rotate_standing {m round : ℕ} (hRound : round < m) :
    rotate ((List.range (m + 1)).map (standing m round)) =
      (List.range (m + 1)).map (standing m (round + 1)) := by
  obtain ⟨k, rfl⟩ := Nat.exists_eq_succ_of_ne_zero (Nat.ne_zero_of_lt hRound)
  have hLast : (List.range (k.succ + 1)).map (standing k.succ round) =
      standing k.succ round 0 :: ((List.range k).map fun i => standing k.succ round (i + 1)) ++
        [standing k.succ round (k + 1)] := by
    rw [List.range_succ, List.map_append, List.range_succ_eq_map, List.map_cons, List.map_map]
    rfl
  have hFirst : (List.range (k.succ + 1)).map (standing k.succ (round + 1)) =
      standing k.succ (round + 1) 0 :: standing k.succ (round + 1) 1 ::
        (List.range k).map fun i => standing k.succ (round + 1) (i + 2) := by
    rw [List.range_succ_eq_map, List.map_cons, List.map_map, List.range_succ_eq_map, List.map_cons,
      List.map_map]
    rfl
  rw [hLast, hFirst, List.cons_append, rotate, List.getLast?_concat, List.dropLast_concat]
  have hStays : standing k.succ round 0 = standing k.succ (round + 1) 0 := rfl
  have hBack : standing k.succ round (k + 1) = standing k.succ (round + 1) 1 := by
    simp only [standing]
    split_ifs <;> omega
  have hNext : ∀ i ∈ List.range k,
      standing k.succ round (i + 1) = standing k.succ (round + 1) (i + 2) := by
    intro i _
    simp only [standing]
    split_ifs <;> omega
  dsimp only
  rw [hStays, hBack, List.map_congr_left hNext]

theorem iterate_rotate {m round : ℕ} (hRound : round ≤ m) :
    rotate^[round] (List.range (m + 1)) = (List.range (m + 1)).map (standing m round) := by
  induction round with
  | zero =>
    have hStart : ∀ i ∈ List.range (m + 1), standing m 0 i = i := by
      intro i _
      rw [standing]
      split_ifs <;> omega
    rw [Function.iterate_zero, id, List.map_congr_left hStart, List.map_id']
  | succ round ih =>
    rw [Function.iterate_succ_apply', ih (by omega), rotate_standing (by omega)]

/-- Every position holds another fighter. -/
theorem standing_inj {m round i j : ℕ} (hRound : round < m) (hi : i ≤ m) (hj : j ≤ m)
    (h : standing m round i = standing m round j) : i = j := by
  rw [standing, standing] at h
  split_ifs at h <;> omega

theorem standing_le {m round i : ℕ} (hRound : round < m) (hi : i ≤ m) : standing m round i ≤ m := by
  rw [standing]
  split_ifs <;> omega

/-- The couple at a position of a round, the lower index first. -/
def couple (m round i : ℕ) : ℕ × ℕ :=
  (min (standing m round i) (standing m round (m - i)),
    max (standing m round i) (standing m round (m - i)))

theorem couple_eq_couple {m round round' i j : ℕ} (h : couple m round i = couple m round' j) :
    (standing m round i = standing m round' j ∧
        standing m round (m - i) = standing m round' (m - j)) ∨
      (standing m round i = standing m round' (m - j) ∧
        standing m round (m - i) = standing m round' j) := by
  obtain ⟨hMin, hMax⟩ := Prod.mk.inj h
  omega

/-- Where a fighter stands, by how far he has come. -/
theorem standing_eq (m round : ℕ) {i : ℕ} (hi : i ≠ 0) :
    (round < i ∧ standing m round i = i - round) ∨
      (i ≤ round ∧ standing m round i = i + m - round) := by
  rw [standing, if_neg hi]
  split_ifs <;> omega

theorem standing_of_lt {m round i : ℕ} (h : round < i) : standing m round i = i - round := by
  rw [standing, if_neg (by omega), if_pos h]

theorem standing_of_le {m round i : ℕ} (hi : i ≠ 0) (h : i ≤ round) :
    standing m round i = i + m - round := by
  rw [standing, if_neg hi, if_neg (by omega)]

theorem standing_zero (m round : ℕ) : standing m round 0 = 0 := if_pos rfl

theorem standing_pos {m round i : ℕ} (hRound : round < m) (hi0 : i ≠ 0) :
    0 < standing m round i := by
  rcases standing_eq m round hi0 with h | h <;> omega

/-- The two of a couple stand, together, as far back as the round tells, up to whole turns. -/
theorem couple_sum {half round i : ℕ} (hRound : round < 2 * half + 1) (hi0 : i ≠ 0)
    (hi : i ≤ half) :
    ∃ turns ∈ [1, 2, 3], standing (2 * half + 1) round i +
      standing (2 * half + 1) round (2 * half + 1 - i) + 2 * round = turns * (2 * half + 1) := by
  have hAway := standing_eq (2 * half + 1) round (show 2 * half + 1 - i ≠ 0 by omega)
  rcases standing_eq (2 * half + 1) round hi0 with ⟨hLt, hHome⟩ | ⟨hLe, hHome⟩
  · rcases hAway with ⟨hLt', hAway⟩ | ⟨hLe', hAway⟩
    · exact ⟨1, by simp, by omega⟩
    · exact ⟨2, by simp, by omega⟩
  · rcases hAway with ⟨hLt', hAway⟩ | ⟨hLe', hAway⟩
    · exact ⟨2, by simp, by omega⟩
    · exact ⟨3, by simp, by omega⟩

/-- The number of the places is odd, so that two rounds of the same sum are one. -/
theorem round_eq_of_sum {half round round' sum : ℕ} (hRound : round < 2 * half + 1)
    (hRound' : round' < 2 * half + 1)
    (h : ∃ turns ∈ [1, 2, 3], sum + 2 * round = turns * (2 * half + 1))
    (h' : ∃ turns ∈ [1, 2, 3], sum + 2 * round' = turns * (2 * half + 1)) : round = round' := by
  simp only [List.mem_cons, List.not_mem_nil, or_false, exists_eq_or_imp, exists_eq_left] at h h'
  rcases h with h | h | h <;> rcases h' with h' | h' | h' <;> omega

/-- No couple meets twice. -/
theorem couple_inj {half round round' i j : ℕ} (hRound : round < 2 * half + 1)
    (hRound' : round' < 2 * half + 1) (hi : i ≤ half) (hj : j ≤ half)
    (h : couple (2 * half + 1) round i = couple (2 * half + 1) round' j) :
    round = round' ∧ i = j := by
  have hSides := couple_eq_couple h
  have hPos {k : ℕ} (hk : k ≠ 0) : 0 < standing (2 * half + 1) round k := standing_pos hRound hk
  have hPos' {k : ℕ} (hk : k ≠ 0) : 0 < standing (2 * half + 1) round' k := standing_pos hRound' hk
  have hAway := hPos (show 2 * half + 1 - i ≠ 0 by omega)
  have hAway' := hPos' (show 2 * half + 1 - j ≠ 0 by omega)
  by_cases hi0 : i = 0
  · -- the fighter who stays is in the first couple alone
    subst hi0
    have hj0 : j = 0 := by
      by_contra hj0
      have hHome' := hPos' hj0
      rw [standing_zero] at hSides
      omega
    subst hj0
    rcases standing_eq (2 * half + 1) round (show 2 * half + 1 - 0 ≠ 0 by omega) with hTop | hTop
    · rcases standing_eq (2 * half + 1) round' (show 2 * half + 1 - 0 ≠ 0 by omega) with
        hTop' | hTop'
      · rw [standing_zero, standing_zero] at hSides
        omega
      · omega
    · omega
  · have hj0 : j ≠ 0 := by
      rintro rfl
      have hHome := hPos hi0
      rw [standing_zero] at hSides
      omega
    have hSum := couple_sum hRound hi0 hi
    have hSum' := couple_sum hRound' hj0 hj
    have hSame : standing (2 * half + 1) round i + standing (2 * half + 1) round (2 * half + 1 - i) =
        standing (2 * half + 1) round' j +
          standing (2 * half + 1) round' (2 * half + 1 - j) := by omega
    rw [hSame] at hSum
    obtain rfl := round_eq_of_sum hRound hRound' hSum hSum'
    rcases hSides with ⟨hHome, -⟩ | ⟨hHome, -⟩
    · exact ⟨rfl, standing_inj hRound (by omega) (by omega) hHome⟩
    · have hFar := standing_inj hRound (by omega) (by omega) hHome
      omega

theorem couple_eq {m round i a b : ℕ} (hLt : a < b)
    (h : (standing m round i = a ∧ standing m round (m - i) = b) ∨
      (standing m round i = b ∧ standing m round (m - i) = a)) : couple m round i = (a, b) := by
  rw [couple]
  refine Prod.ext ?_ ?_ <;> dsimp only <;> omega

/-- Every couple meets: the round and the position follow from how far the two stand apart. -/
theorem couple_surj {half a b : ℕ} (hLt : a < b) (hb : b ≤ 2 * half + 1) :
    ∃ round < 2 * half + 1, ∃ i ≤ half, couple (2 * half + 1) round i = (a, b) := by
  rcases Nat.eq_zero_or_pos a with rfl | hPos
  · refine ⟨2 * half + 1 - b, by omega, 0, Nat.zero_le _, couple_eq hLt (.inl ⟨rfl, ?_⟩)⟩
    rw [standing_of_lt (by omega)]
    omega
  · obtain ⟨i, hEven | hOdd⟩ : ∃ i, b - a = 2 * i ∨ b - a = 2 * i + 1 :=
      ⟨(b - a) / 2, by omega⟩
    · refine ⟨i + (2 * half + 1) - b, by omega, i, by omega, couple_eq hLt (.inr ?_)⟩
      rw [standing_of_le (by omega) (by omega), standing_of_lt (by omega)]
      omega
    · have hi : half - i ≠ 0 := by omega
      by_cases hFar : a ≤ half - i
      · refine ⟨half - i - a, by omega, half - i, by omega, couple_eq hLt (.inl ?_)⟩
        rw [standing_of_lt (by omega), standing_of_lt (by omega)]
        omega
      · refine ⟨half - i + (2 * half + 1) - a, by omega, half - i, by omega,
          couple_eq hLt (.inl ?_)⟩
        rw [standing_of_le hi (by omega), standing_of_le (by omega) (by omega)]
        omega

/-! ## The table as a list -/

/-- A bout before it gets its number. -/
structure Seat where
  round : ℕ
  place : ℕ
  home : ℕ
  away : ℕ

def Seat.couple (seat : Seat) : ℕ × ℕ := (min seat.home seat.away, max seat.home seat.away)

def Seat.numbered (labelOf : ℕ → String) (seat : Seat) (sequence : ℕ) : BergerMatch :=
  ⟨seat.round + 1, seat.place, sequence, seat.home, seat.away, labelOf sequence⟩

/-- The seats of a round without those against the bye. -/
def seatsOf (n size round : ℕ) (rotation : List ℕ) : List Seat :=
  (List.range (size / 2)).filterMap fun i =>
    if n % 2 ≠ 0 ∧ (rotation.getD i 0 = n ∨ rotation.getD (size - 1 - i) 0 = n) then none
    else some ⟨round, i, rotation.getD i 0, rotation.getD (size - 1 - i) 0⟩

def seats (n size rounds : ℕ) : List Seat :=
  (List.range rounds).flatMap fun round => seatsOf n size round (rotate^[round] (List.range size))

section Listing

variable (labelOf : ℕ → String) (n : ℕ)

def Table.pushSeat (table : Table) (seat : Seat) : Table :=
  table.push labelOf seat.round seat.place seat.home seat.away

theorem playRound_eq (size round : ℕ) (rotation : List ℕ) (table : Table) :
    playRound labelOf n size round rotation table =
      (seatsOf n size round rotation).foldl (Table.pushSeat labelOf) table := by
  rw [playRound, seatsOf, List.foldl_filterMap]
  refine congrFun (congrFun (congrArg List.foldl ?_) _) _
  funext table i
  dsimp only
  split_ifs <;> rfl

theorem seats_succ (size rounds : ℕ) :
    seats n size (rounds + 1) =
      seats n size rounds ++ seatsOf n size rounds (rotate^[rounds] (List.range size)) := by
  rw [seats, List.range_succ, List.flatMap_append, List.flatMap_singleton, seats]

theorem playRounds_eq (size rounds : ℕ) :
    playRounds labelOf n size rounds =
      ((seats n size rounds).foldl (Table.pushSeat labelOf) ⟨[], 1⟩,
        rotate^[rounds] (List.range size)) := by
  induction rounds with
  | zero => rfl
  | succ rounds ih =>
    rw [playRounds, List.range_succ, List.foldl_concat, ← playRounds, ih, seats_succ,
      List.foldl_append, Function.iterate_succ_apply']
    dsimp only
    rw [playRound_eq]

theorem foldl_pushSeat (seats : List Seat) (table : Table) :
    (seats.foldl (Table.pushSeat labelOf) table).bouts =
      table.bouts ++ (seats.zipIdx table.sequence).map fun x => x.1.numbered labelOf x.2 := by
  induction seats generalizing table with
  | nil => rw [List.zipIdx_nil, List.map_nil, List.append_nil, List.foldl_nil]
  | cons seat seats ih =>
    rw [List.foldl_cons, ih, List.zipIdx_cons, List.map_cons]
    simp only [Table.pushSeat, Table.push, Seat.numbered, List.append_assoc, List.cons_append,
      List.nil_append]

end Listing

theorem bergerSchedule_eq {n half : ℕ} (options : BergerScheduleOptions)
    (hHalf : n = 2 * half + 1 ∨ n = 2 * half + 2) (hTwo : 2 ≤ n) :
    bergerSchedule n options =
      .ok (((seats n (2 * half + 2) (2 * half + 1)).zipIdx 1).map fun x =>
        x.1.numbered (label (options.liceLabel.getD "1") (options.poolLabel.getD "A")
          (labelWidth n)) x.2) := by
  have hSize : (if n % 2 ≠ 0 then n + 1 else n) = 2 * half + 2 := by
    split_ifs <;> omega
  rw [bergerSchedule, if_neg (by omega)]
  dsimp only
  rw [hSize, playRounds_eq, show 2 * half + 2 - 1 = 2 * half + 1 from rfl, foldl_pushSeat,
    List.nil_append]

/-! ## The bouts of the table -/

def seatAt (m round i : ℕ) : Seat := ⟨round, i, standing m round i, standing m round (m - i)⟩

theorem seatsOf_eq {half round : ℕ} (n : ℕ) (hRound : round < 2 * half + 1) :
    seatsOf n (2 * half + 2) round (rotate^[round] (List.range (2 * half + 2))) =
      (List.range (half + 1)).filterMap fun i =>
        if n % 2 ≠ 0 ∧ (standing (2 * half + 1) round i = n ∨
          standing (2 * half + 1) round (2 * half + 1 - i) = n) then none
        else some (seatAt (2 * half + 1) round i) := by
  have hHalf : (2 * half + 2) / 2 = half + 1 := by omega
  rw [seatsOf, iterate_rotate hRound.le, hHalf]
  refine List.filterMap_congr fun i hi => ?_
  have hPlace : i < half + 1 := List.mem_range.mp hi
  have hAt : ∀ j ≤ 2 * half + 1, ((List.range (2 * half + 1 + 1)).map
      (standing (2 * half + 1) round)).getD j 0 = standing (2 * half + 1) round j := by
    intro j hj
    rw [List.getD_eq_getElem?_getD, List.getElem?_map, List.getElem?_range (by omega)]
    rfl
  rw [hAt i (by omega), hAt (2 * half + 2 - 1 - i) (by omega)]
  rfl

theorem mem_seats {n half : ℕ} {seat : Seat} :
    seat ∈ seats n (2 * half + 2) (2 * half + 1) ↔
      ∃ round < 2 * half + 1, ∃ i ≤ half, seat = seatAt (2 * half + 1) round i ∧
        ¬(n % 2 ≠ 0 ∧ (standing (2 * half + 1) round i = n ∨
          standing (2 * half + 1) round (2 * half + 1 - i) = n)) := by
  rw [seats, List.mem_flatMap]
  constructor
  · rintro ⟨round, hRound, hSeat⟩
    rw [seatsOf_eq n (List.mem_range.mp hRound), List.mem_filterMap] at hSeat
    obtain ⟨i, hi, hSome⟩ := hSeat
    split at hSome
    case isTrue => cases hSome
    case isFalse hBye =>
      exact ⟨round, List.mem_range.mp hRound, i, Nat.lt_succ_iff.mp (List.mem_range.mp hi),
        (Option.some.inj hSome).symm, hBye⟩
  · rintro ⟨round, hRound, i, hi, rfl, hBye⟩
    refine ⟨round, List.mem_range.mpr hRound, ?_⟩
    rw [seatsOf_eq n hRound, List.mem_filterMap]
    exact ⟨i, List.mem_range.mpr (Nat.lt_succ_iff.mpr hi), if_neg hBye⟩

/-- Every seat of the table has another round or another place. -/
theorem pairwise_seats (n size rounds : ℕ) :
    (seats n size rounds).Pairwise fun s t => ¬(s.round = t.round ∧ s.place = t.place) := by
  have hRound : ∀ {round : ℕ} {rotation : List ℕ} {seat : Seat},
      seat ∈ seatsOf n size round rotation → seat.round = round := by
    intro round rotation seat hSeat
    obtain ⟨i, -, hSome⟩ := List.mem_filterMap.mp hSeat
    split at hSome
    case isTrue => cases hSome
    case isFalse => rw [← Option.some.inj hSome]
  rw [seats, List.pairwise_flatMap]
  constructor
  · intro round _
    rw [seatsOf, List.pairwise_filterMap]
    refine List.nodup_range.imp fun {i j} hNe s hs t ht hSame => hNe ?_
    split at hs
    case isTrue => cases hs
    case isFalse =>
      split at ht
      case isTrue => cases ht
      case isFalse =>
        rw [← Option.some.inj hs, ← Option.some.inj ht] at hSame
        exact hSame.2
  · refine List.nodup_range.imp fun {round round'} hNe s hs t ht hSame => hNe ?_
    rw [← hRound hs, ← hRound ht, hSame.1]

theorem fight_once_a_round (n half : ℕ) :
    (seats n (2 * half + 2) (2 * half + 1)).Pairwise fun s t => s.round = t.round →
      s.home ≠ t.home ∧ s.home ≠ t.away ∧ s.away ≠ t.home ∧ s.away ≠ t.away := by
  refine (pairwise_seats n _ _).imp_of_mem fun {s t} hs ht hNe hSame => ?_
  obtain ⟨round, hRound, i, hi, rfl, -⟩ := mem_seats.mp hs
  obtain ⟨round', hRound', j, hj, rfl, -⟩ := mem_seats.mp ht
  obtain rfl : round = round' := hSame
  have hPlace : i ≠ j := fun h => hNe ⟨rfl, h⟩
  refine ⟨fun h => ?_, fun h => ?_, fun h => ?_, fun h => ?_⟩ <;>
  · have := standing_inj hRound (by omega) (by omega) h
    omega

theorem nodup_couples (n half : ℕ) :
    ((seats n (2 * half + 2) (2 * half + 1)).map Seat.couple).Nodup := by
  rw [List.Nodup, List.pairwise_map]
  refine (pairwise_seats n _ _).imp_of_mem fun {s t} hs ht hNe hSame => hNe ?_
  obtain ⟨round, hRound, i, hi, rfl, -⟩ := mem_seats.mp hs
  obtain ⟨round', hRound', j, hj, rfl, -⟩ := mem_seats.mp ht
  exact couple_inj hRound hRound' hi hj hSame

/-- The couples of a pool, the lower index first. -/
def couples (n : ℕ) : List (ℕ × ℕ) :=
  (List.range n).flatMap fun b => (List.range b).map fun a => (a, b)

theorem mem_couples {n a b : ℕ} : (a, b) ∈ couples n ↔ a < b ∧ b < n := by
  rw [couples, List.mem_flatMap]
  constructor
  · rintro ⟨b', hb, h⟩
    obtain ⟨a', ha, hSame⟩ := List.mem_map.mp h
    obtain ⟨rfl, rfl⟩ := Prod.mk.inj hSame
    exact ⟨List.mem_range.mp ha, List.mem_range.mp hb⟩
  · rintro ⟨ha, hb⟩
    exact ⟨b, List.mem_range.mpr hb, List.mem_map.mpr ⟨a, List.mem_range.mpr ha, rfl⟩⟩

theorem nodup_couples_pool (n : ℕ) : (couples n).Nodup := by
  rw [couples, List.Nodup, List.pairwise_flatMap]
  constructor
  · intro b _
    exact List.pairwise_map.mpr (List.nodup_range.imp fun hNe hSame => hNe (Prod.mk.inj hSame).1)
  · refine List.nodup_range.imp fun hNe s hs t ht hSame => hNe ?_
    obtain ⟨a, -, rfl⟩ := List.mem_map.mp hs
    obtain ⟨a', -, rfl⟩ := List.mem_map.mp ht
    exact (Prod.mk.inj hSame).2

theorem length_couples (n : ℕ) : (couples n).length = totalMatches n := by
  induction n with
  | zero => rfl
  | succ n ih =>
    rw [couples, List.range_succ, List.flatMap_append, List.length_append, ← couples, ih,
      List.flatMap_singleton, List.length_map, List.length_range, totalMatches, totalMatches,
      Nat.triangle_succ]

section Table

variable {n half : ℕ} (hHalf : n = 2 * half + 1 ∨ n = 2 * half + 2)

include hHalf

theorem seat_lt {seat : Seat} (h : seat ∈ seats n (2 * half + 2) (2 * half + 1)) :
    seat.home < n ∧ seat.away < n ∧ seat.home ≠ seat.away := by
  obtain ⟨round, hRound, i, hi, rfl, hBye⟩ := mem_seats.mp h
  have hHome := standing_le hRound (show i ≤ 2 * half + 1 by omega)
  have hAway := standing_le hRound (show 2 * half + 1 - i ≤ 2 * half + 1 by omega)
  refine ⟨?_, ?_, fun hSame => ?_⟩
  · dsimp only [seatAt]
    omega
  · dsimp only [seatAt]
    omega
  · have hPlace := standing_inj hRound (by omega) (by omega) hSame
    omega

/-- Every couple of the pool meets once. -/
theorem perm_couples :
    ((seats n (2 * half + 2) (2 * half + 1)).map Seat.couple).Perm (couples n) := by
  refine (List.perm_ext_iff_of_nodup (nodup_couples n half) (nodup_couples_pool n)).mpr ?_
  rintro ⟨a, b⟩
  rw [mem_couples]
  constructor
  · intro h
    obtain ⟨seat, hSeat, hCouple⟩ := List.mem_map.mp h
    have hLt := seat_lt hHalf hSeat
    obtain ⟨hMin, hMax⟩ := Prod.mk.inj hCouple
    omega
  · rintro ⟨hLt, hb⟩
    obtain ⟨round, hRound, i, hi, hCouple⟩ := couple_surj hLt (show b ≤ 2 * half + 1 by omega)
    refine List.mem_map.mpr
      ⟨seatAt _ round i, mem_seats.mpr ⟨round, hRound, i, hi, rfl, ?_⟩, hCouple⟩
    obtain ⟨hMin, hMax⟩ := Prod.mk.inj hCouple
    omega

theorem length_seats : (seats n (2 * half + 2) (2 * half + 1)).length = totalMatches n := by
  rw [← List.length_map Seat.couple, (perm_couples hHalf).length_eq, length_couples]

/-- Every round has a bout: where its first couple has the bye, the second has none. -/
theorem exists_seat (hTwo : 2 ≤ n) {round : ℕ} (hRound : round < 2 * half + 1) :
    ∃ seat ∈ seats n (2 * half + 2) (2 * half + 1), seat.round = round := by
  have hSeat : ∀ i ≤ half, ¬(n % 2 ≠ 0 ∧ (standing (2 * half + 1) round i = n ∨
      standing (2 * half + 1) round (2 * half + 1 - i) = n)) →
      ∃ seat ∈ seats n (2 * half + 2) (2 * half + 1), seat.round = round := fun i hi hBye =>
    ⟨seatAt _ round i, mem_seats.mpr ⟨round, hRound, i, hi, rfl, hBye⟩, rfl⟩
  have hFirst := standing_eq (2 * half + 1) round (show 2 * half + 1 - 0 ≠ 0 by omega)
  by_cases hBye : n % 2 ≠ 0 ∧ round = 0
  · have hHome := standing_eq (2 * half + 1) round (show 1 ≠ 0 by decide)
    have hAway := standing_eq (2 * half + 1) round (show 2 * half + 1 - 1 ≠ 0 by omega)
    exact hSeat 1 (by omega) (by omega)
  · have hPivot := standing_zero (2 * half + 1) round
    exact hSeat 0 (Nat.zero_le _) (by omega)

end Table

/-! ## The law of the table -/

def BergerMatch.couple (bout : BergerMatch) : ℕ × ℕ :=
  (min bout.homeIndex bout.awayIndex, max bout.homeIndex bout.awayIndex)

structure RoundRobin (n : ℕ) (schedule : List BergerMatch) : Prop where
  inPool : ∀ bout ∈ schedule,
    bout.homeIndex < n ∧ bout.awayIndex < n ∧ bout.homeIndex ≠ bout.awayIndex
  meetOnce : ∀ a b, a < b → b < n → (schedule.map BergerMatch.couple).count (a, b) = 1
  fightOnceARound : schedule.Pairwise fun x y => x.round = y.round →
    x.homeIndex ≠ y.homeIndex ∧ x.homeIndex ≠ y.awayIndex ∧
      x.awayIndex ≠ y.homeIndex ∧ x.awayIndex ≠ y.awayIndex
  rounds : ∀ round,
    (∃ bout ∈ schedule, bout.round = round) ↔ 1 ≤ round ∧ round ≤ totalRounds n
  numbered : schedule.map BergerMatch.sequence = List.range' 1 (totalMatches n)
  labelsSorted : (schedule.map BergerMatch.label).Pairwise (· < ·)

theorem label_lt_label (lice pool : String) {n s t : ℕ} (hLt : s < t) (ht : t ≤ totalMatches n) :
    label lice pool (labelWidth n) s < label lice pool (labelWidth n) t := by
  have hWidth : 0 < labelWidth n := Nat.length_toDigits_pos
  have hBound : totalMatches n < 10 ^ labelWidth n :=
    (Nat.length_toDigits_le_iff (by decide) hWidth).mp le_rfl
  have hText : ∀ sequence, (label lice pool (labelWidth n) sequence).toList =
      ("L" ++ lice ++ "-P" ++ pool ++ "-M").toList ++ padded (labelWidth n) sequence := by
    intro sequence
    rw [label, String.toList_append, String.toList_ofList]
  rw [String.lt_iff, hText, hText]
  exact List.append_left_lt (padded_lt_padded hWidth hLt (ht.trans_lt hBound))

/-- What a bout has from its seat is read off the seats. -/
theorem map_numbered {α : Type} {labelOf : ℕ → String} (read : BergerMatch → α)
    (readSeat : Seat → α) (seats : List Seat) (hRead : ∀ (seat : Seat) (sequence : ℕ),
      read (seat.numbered labelOf sequence) = readSeat seat) :
    ((seats.zipIdx 1).map fun x => x.1.numbered labelOf x.2).map read = seats.map readSeat := by
  rw [List.map_map]
  conv_rhs => rw [← List.zipIdx_map_fst 1 seats, List.map_map]
  exact List.map_congr_left fun x _ => hRead x.1 x.2

/-- What a bout has from its number is read off the numbers. -/
theorem map_numbered_sequence {α : Type} {labelOf : ℕ → String} (read : BergerMatch → α)
    (readSequence : ℕ → α) (seats : List Seat) (hRead : ∀ (seat : Seat) (sequence : ℕ),
      read (seat.numbered labelOf sequence) = readSequence sequence) :
    ((seats.zipIdx 1).map fun x => x.1.numbered labelOf x.2).map read =
      (List.range' 1 seats.length).map readSequence := by
  rw [List.map_map, ← List.zipIdx_map_snd 1 seats, List.map_map]
  exact List.map_congr_left fun x _ => hRead x.1 x.2

theorem bergerSchedule_law (n : ℕ) (options : BergerScheduleOptions) (hTwo : 2 ≤ n) :
    ∃ schedule, bergerSchedule n options = .ok schedule ∧ RoundRobin n schedule := by
  obtain ⟨half, hHalf⟩ : ∃ half, n = 2 * half + 1 ∨ n = 2 * half + 2 := ⟨(n - 1) / 2, by omega⟩
  refine ⟨_, bergerSchedule_eq options hHalf hTwo, ?_⟩
  generalize options.liceLabel.getD "1" = lice
  generalize options.poolLabel.getD "A" = pool
  have hSeat : ∀ bout ∈ ((seats n (2 * half + 2) (2 * half + 1)).zipIdx 1).map fun x =>
      x.1.numbered (label lice pool (labelWidth n)) x.2,
      ∃ seat ∈ seats n (2 * half + 2) (2 * half + 1), ∃ sequence,
        bout = seat.numbered (label lice pool (labelWidth n)) sequence := by
    intro bout h
    obtain ⟨x, hx, rfl⟩ := List.mem_map.mp h
    exact ⟨x.1, List.fst_mem_of_mem_zipIdx hx, x.2, rfl⟩
  constructor
  case inPool =>
    intro bout h
    obtain ⟨seat, hMem, sequence, rfl⟩ := hSeat bout h
    exact seat_lt hHalf hMem
  case meetOnce =>
    intro a b hLt hb
    rw [map_numbered _ Seat.couple _ fun _ _ => rfl, (perm_couples hHalf).count_eq]
    exact List.count_eq_one_of_mem (nodup_couples_pool n) (mem_couples.mpr ⟨hLt, hb⟩)
  case fightOnceARound =>
    have hOnce := List.zipIdx_map_fst 1 (seats n (2 * half + 2) (2 * half + 1)) ▸
      fight_once_a_round n half
    exact List.pairwise_map.mpr ((List.pairwise_map.mp hOnce).imp fun h hSame =>
      h (Nat.succ.inj hSame))
  case rounds =>
    intro round
    have hRounds : totalRounds n = 2 * half + 1 := by
      rw [totalRounds]
      split_ifs <;> omega
    rw [hRounds]
    constructor
    · rintro ⟨bout, h, rfl⟩
      obtain ⟨seat, hMem, sequence, rfl⟩ := hSeat bout h
      obtain ⟨round, hRound, i, hi, rfl, -⟩ := mem_seats.mp hMem
      exact ⟨Nat.le_add_left 1 round, hRound⟩
    · rintro ⟨hOne, hLast⟩
      obtain ⟨seat, hMem, hRound⟩ := exists_seat hHalf hTwo (show round - 1 < 2 * half + 1 by omega)
      rw [← List.zipIdx_map_fst 1 (seats n _ _)] at hMem
      obtain ⟨x, hx, rfl⟩ := List.mem_map.mp hMem
      refine ⟨_, List.mem_map_of_mem hx, ?_⟩
      dsimp only [Seat.numbered]
      omega
  case numbered =>
    rw [map_numbered_sequence _ id _ fun _ _ => rfl, List.map_id, length_seats hHalf]
  case labelsSorted =>
    rw [map_numbered_sequence _ (label lice pool (labelWidth n)) _ fun _ _ => rfl,
      List.pairwise_map, length_seats hHalf]
    refine (List.pairwise_lt_range' 1 Nat.one_pos).imp_of_mem fun _ hMem hLt =>
      label_lt_label lice pool hLt ?_
    have hBound := List.mem_range'_1.mp hMem
    omega

theorem bergerSchedule_law_five :
    ∃ schedule, bergerSchedule 5 ⟨none, some "B"⟩ = .ok schedule ∧ RoundRobin 5 schedule :=
  bergerSchedule_law 5 ⟨none, some "B"⟩ (by decide)

example : (bergerSchedule 3 ⟨none, none⟩).toOption.map (List.map BergerMatch.couple) =
    some [(1, 2), (0, 2), (0, 1)] := by decide

end MyClash.Schedule.Berger
