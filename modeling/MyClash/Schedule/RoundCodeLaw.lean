import MyClash.Schedule.RoundCode
import Mathlib

/-!
# What a round code says of its round
-/

namespace MyClash.Schedule

/-! ## Segments -/

theorem minus_notMem_digits (n : ℕ) : '-' ∉ digits n := by
  intro hMem
  have hDigit := Nat.isDigit_of_mem_toDigits (by decide) (by decide) hMem
  exact absurd hDigit (by decide)

theorem digits_ne_nil (n : ℕ) : digits n ≠ [] := Nat.toDigits_ne_nil

theorem all_isDigit_digits (n : ℕ) : (digits n).all Char.isDigit = true := by
  rw [List.all_eq_true]
  exact fun c hc => Nat.isDigit_of_mem_toDigits (by decide) (by decide) hc

theorem numberAfter_digits (letters : List Char) (n : ℕ) :
    numberAfter letters (letters ++ digits n) = some n := by
  have hDrop : (letters ++ digits n).drop letters.length = digits n := List.drop_left
  rw [numberAfter, hDrop]
  rw [if_pos ⟨List.prefix_append _ _, digits_ne_nil n, all_isDigit_digits n⟩]
  exact congrArg some Nat.ofDigitChars_ten_toDigits

theorem numberAfter_eq_none {letters token : List Char} (h : ¬letters <+: token) :
    numberAfter letters token = none := if_neg fun hShape => h hShape.1

/-! ## Tokens -/

/-- The token stands in a code as a segment of its own, and is read with the order. -/
structure Reads (token : List Char) (order : ℚ) : Prop where
  ne_nil : token ≠ []
  plain : '-' ∉ token
  notSwiss : numberAfter ['S'] token = none
  parsed : ∃ label, parseRoundToken token = some ⟨token, label, some order⟩

theorem reads_playIn : Reads ['P', 'I'] 0 where
  ne_nil := nofun
  plain := by decide
  notSwiss := by decide
  parsed := ⟨"Play-ins", rfl⟩

theorem reads_grandFinal : Reads ['G', 'F'] 900 where
  ne_nil := nofun
  plain := by decide
  notSwiss := by decide
  parsed := ⟨"Grand Final", rfl⟩

theorem reads_grandFinalReset : Reads ['G', 'F', 'R'] 901 where
  ne_nil := nofun
  plain := by decide
  notSwiss := by decide
  parsed := ⟨"Grand Final Reset", rfl⟩

theorem reads_losers (k : ℕ) : Reads ('L' :: 'B' :: digits k) (500 + k) where
  ne_nil := nofun
  plain := by simp [minus_notMem_digits]
  notSwiss := by simp [numberAfter_eq_none]
  parsed := by
    have hNumber : numberAfter ['L', 'B'] ('L' :: 'B' :: digits k) = some k :=
      numberAfter_digits ['L', 'B'] k
    exact ⟨"Losers Round " ++ toString k, by simp [parseRoundToken, parseDoubleElimToken, hNumber]⟩

/-- No inherited name begins as the token of a round does. -/
theorem not_inherited {token : List Char} {c : Char} (hFirst : token.head? = some c)
    (hUpper : c.isUpper = true) : inheritedNames.any (·.toList = token) = false := by
  have hAll : inheritedNames.all (fun name => name.toList.head?.all fun c => !c.isUpper) = true := by
    decide +kernel
  rw [List.any_eq_false]
  intro name hMem hToken
  have hName := List.all_eq_true.mp hAll name hMem
  rw [of_decide_eq_true hToken, hFirst, Option.all_some, hUpper] at hName
  exact absurd hName (by decide)

/-- A round counted from the first, where the size of the bracket is not known. -/
theorem reads_counted (n : ℕ) : Reads ('B' :: digits n) (1000 + n) where
  ne_nil := nofun
  plain := by simp [minus_notMem_digits]
  notSwiss := by simp [numberAfter_eq_none]
  parsed := by
    have hNumber : numberAfter ['B'] ('B' :: digits n) = some n := numberAfter_digits ['B'] n
    have hInherited := not_inherited (List.head?_cons (a := 'B') (l := digits n)) (by decide)
    have hDouble : parseDoubleElimToken ('B' :: digits n) = none := by
      simp [parseDoubleElimToken, numberAfter_eq_none]
    refine ⟨"Round " ++ toString n, ?_⟩
    simp [parseRoundToken, hDouble, hInherited, numberAfter_eq_none, hNumber]

/-- The label of a round with `left` fighters, in a single elimination and in a winners bracket. -/
structure Named (label : List Char) (left : ℕ) : Prop where
  single : Reads label (1000 - left)
  winners : Reads ('W' :: 'B' :: label) (100 + (1000 - left) / 10)

theorem named_final : Named ['F'] 2 where
  single := ⟨nofun, by decide, by decide, "Final", rfl⟩
  winners := ⟨nofun, by decide, by decide, "Winners Final", rfl⟩

theorem named_semiFinal : Named ['S', 'F'] 4 where
  single := ⟨nofun, by decide, by decide, "Semi-finals", rfl⟩
  winners := ⟨nofun, by decide, by decide, "Winners Semi-finals", rfl⟩

theorem named_quarterFinal : Named ['Q', 'F'] 8 where
  single := ⟨nofun, by decide, by decide, "Quarter-finals", rfl⟩
  winners := ⟨nofun, by decide, by decide, "Winners Quarter-finals", rfl⟩

theorem named_ofSize (left : ℕ) : Named ('R' :: digits left) left where
  single := by
    have hNumber : numberAfter ['R'] ('R' :: digits left) = some left :=
      numberAfter_digits ['R'] left
    refine ⟨by rintro ⟨⟩, by simp [minus_notMem_digits], by simp [numberAfter_eq_none],
      "Round of " ++ toString left, ?_⟩
    have hInherited := not_inherited (List.head?_cons (a := 'R') (l := digits left)) (by decide)
    simp [parseRoundToken, parseDoubleElimToken, numberAfter_eq_none, hNumber, hInherited]
  winners := by
    have hNumber : numberAfter ['W', 'B', 'R'] ('W' :: 'B' :: 'R' :: digits left) = some left :=
      numberAfter_digits ['W', 'B', 'R'] left
    refine ⟨by rintro ⟨⟩, by simp [minus_notMem_digits], by simp [numberAfter_eq_none],
      "Winners Round of " ++ toString left, ?_⟩
    simp [parseRoundToken, parseDoubleElimToken, numberAfter_eq_none, hNumber]

/-- The label of a round of a bracket whose size is known names the fighters left. -/
theorem named_bracketRoundLabel {round size : ℕ} (hSize : 2 ≤ size) (hFirst : 1 ≤ round)
    (hLast : round ≤ Nat.clog 2 size) :
    Named (bracketRoundLabel round (some size)) (2 ^ (Nat.clog 2 size + 1 - round)) := by
  obtain ⟨e, hLeft⟩ : ∃ e, Nat.clog 2 size + 1 - round = e + 1 :=
    ⟨Nat.clog 2 size - round, by omega⟩
  rw [bracketRoundLabel, if_neg (by omega)]
  simp only [if_neg (show ¬size < 2 by omega), hLeft]
  rcases e with _ | _ | _ | e
  · exact named_final
  · exact named_semiFinal
  · exact named_quarterFinal
  · have hMany : 16 ≤ 2 ^ (e + 1 + 1 + 1 + 1) := by
      have hPos := Nat.one_le_two_pow (n := e)
      omega
    generalize 2 ^ (e + 1 + 1 + 1 + 1) = left at hMany ⊢
    split
    · omega
    · omega
    · omega
    · rw [if_pos hMany]
      exact named_ofSize left

/-! ## Weapons -/

variable {trimmedLower : String → String} {weapon : Option String}

/-- An abbreviation is a segment of its own, and none of Swiss shape. -/
structure Abbreviates (abbr : List Char) : Prop where
  ne_nil : abbr ≠ []
  plain : '-' ∉ abbr
  notSwiss : numberAfter ['S'] abbr = none

theorem toUpper_of_isAlpha {c : Char} (h : c.isAlpha = true) :
    c.toUpper.isDigit = false ∧ c.toUpper ≠ '-' := by
  have hAscii : ∀ n < 128, (Char.ofNat n).isAlpha = true →
      (Char.ofNat n).toUpper.isDigit = false ∧ (Char.ofNat n).toUpper ≠ '-' := by
    decide
  have hLt : c.toNat < 128 := by
    simp only [Char.isAlpha, Char.isUpper, Char.isLower, Bool.or_eq_true, Bool.and_eq_true,
      decide_eq_true_eq, UInt32.le_iff_toNat_le] at h
    have hUpper : 'Z'.val.toNat = 90 := rfl
    have hLower : 'z'.val.toNat = 122 := rfl
    have hVal := c.toNat_val
    omega
  rw [← Char.ofNat_toNat c] at h ⊢
  exact hAscii c.toNat hLt h

/-- A text with no digit and no hyphen abbreviates, unless it is empty. -/
theorem Abbreviates.of_letters {abbr : List Char} (hNil : abbr ≠ [])
    (h : ∀ c ∈ abbr, c.isDigit = false ∧ c ≠ '-') : Abbreviates abbr where
  ne_nil := hNil
  plain hMem := (h '-' hMem).2 rfl
  notSwiss := by
    refine if_neg fun hShape => ?_
    obtain ⟨c, hMem⟩ := List.exists_mem_of_ne_nil _ hShape.2.1
    have hDigit := List.all_eq_true.mp hShape.2.2 c hMem
    rw [(h c (List.mem_of_mem_drop hMem)).1] at hDigit
    cases hDigit

theorem abbreviates_weaponAbbr (trimmedLower : String → String) (weapon : Option String) :
    Abbreviates (weaponAbbr trimmedLower weapon) := by
  rw [weaponAbbr]
  split
  · rename_i abbr hLookup
    obtain ⟨before, later, hTable, -⟩ := List.lookup_eq_some_iff.mp hLookup
    have hMem : abbr ∈ (WEAPON_ABBREVIATIONS ++ INHERITED).map Prod.snd := by
      rw [hTable]
      simp
    simp only [WEAPON_ABBREVIATIONS, INHERITED, List.cons_append, List.nil_append, List.map_cons,
      List.map_nil, List.mem_cons, List.not_mem_nil, or_false] at hMem
    rcases hMem with rfl | rfl | rfl | rfl | rfl | rfl | rfl | rfl <;>
      exact .of_letters (by decide) (by simp)
  · dsimp only
    split_ifs with hNone
    · exact ⟨by rintro ⟨⟩, by decide, by decide⟩
    · refine .of_letters (fun hNil => hNone (hNil ▸ rfl)) fun c hc => ?_
      obtain ⟨letter, hLetter, rfl⟩ := List.mem_map.mp hc
      exact toUpper_of_isAlpha (List.mem_filter.mp (List.mem_of_mem_take hLetter)).2

/-! ## Reading a code back -/

theorem matchSegment_cases (m : MatchNumber) :
    matchSegment m = [] ∨ ∃ rest, matchSegment m = 'M' :: rest := by
  rcases m with _ | n | (_ | ⟨c, s⟩)
  · exact Or.inl rfl
  · exact Or.inr ⟨_, rfl⟩
  · exact Or.inl rfl
  · exact Or.inr ⟨_, rfl⟩

theorem notSwiss_matchSegment (m : MatchNumber) : numberAfter ['S'] (matchSegment m) = none := by
  rcases matchSegment_cases m with h | ⟨rest, h⟩
  · rw [h]
    decide
  · rw [h]
    simp [numberAfter_eq_none]

/-- A code of plain segments is read segment by segment. -/
theorem parseBracketRound_join {first : List Char} {segments : List (List Char)}
    (hFirst : first ≠ []) (hPlain : ∀ s ∈ first :: segments, '-' ∉ s) :
    parseBracketRound (some (['-'].intercalate (first :: segments))) =
      (parseSwissToken (first :: segments)).or
        ((segmentAfterB (first :: segments)).bind parseRoundToken) := by
  have hNil : ['-'].intercalate (first :: segments) ≠ [] := by
    cases segments with
    | nil => simpa using hFirst
    | cons second segments => simp [List.intercalate_cons_cons, hFirst]
  have hSplit := List.splitOn_intercalate '-' hPlain (List.cons_ne_nil _ _)
  rw [parseBracketRound, Option.filter_some, if_pos (decide_eq_true hNil)]
  dsimp only
  rw [hSplit]
  cases parseSwissToken (first :: segments) <;> rfl

/-- The segments of a code after its first two. -/
def tailSegments (m : MatchNumber) : List (List Char) := [matchSegment m].filter (· ≠ [])

theorem mem_tailSegments {m : MatchNumber} {s : List Char} (h : s ∈ tailSegments m) :
    s = matchSegment m := List.mem_singleton.mp (List.mem_filter.mp h).1

section Code

variable {m : MatchNumber} {token : List Char} {order : ℚ} {abbr : List Char}

/-- Where the abbreviation is `B`, it is taken for the mark of a bracket. -/
theorem parse_bracketCode (hAbbr : Abbreviates abbr) (hToken : Reads token order)
    (hPlain : '-' ∉ matchSegment m) :
    parseBracketRound (some (['-'].intercalate (abbr :: ['B'] :: token :: tailSegments m))) =
      if abbr = ['B'] then none else parseRoundToken token := by
  rw [parseBracketRound_join hAbbr.ne_nil]
  · have hSwiss : parseSwissToken (abbr :: ['B'] :: token :: tailSegments m) = none := by
      refine List.findSome?_eq_none_iff.mpr fun part hPart => Option.map_eq_none_iff.mpr ?_
      simp only [List.mem_cons] at hPart
      rcases hPart with rfl | rfl | rfl | hTail
      · exact hAbbr.notSwiss
      · decide
      · exact hToken.notSwiss
      · rw [mem_tailSegments hTail]
        exact notSwiss_matchSegment m
    rw [hSwiss]
    by_cases hB : abbr = ['B']
    · rw [if_pos hB]
      simp only [segmentAfterB, if_pos hB]
      rfl
    · rw [if_neg hB]
      simp [segmentAfterB, hB]
  · intro part hPart
    simp only [List.mem_cons] at hPart
    rcases hPart with rfl | rfl | rfl | hTail
    · exact hAbbr.plain
    · decide
    · exact hToken.plain
    · rw [mem_tailSegments hTail]
      exact hPlain

theorem parse_swissCode (hAbbr : Abbreviates abbr) (hPlain : '-' ∉ matchSegment m) (n : ℕ) :
    parseBracketRound (some (['-'].intercalate (abbr :: ('S' :: digits n) :: tailSegments m))) =
      some ⟨'S' :: digits n, "Swiss Round " ++ toString n, some (-1000 + n)⟩ := by
  have hNumber : numberAfter ['S'] ('S' :: digits n) = some n := numberAfter_digits ['S'] n
  rw [parseBracketRound_join hAbbr.ne_nil]
  · simp [parseSwissToken, hAbbr.notSwiss, hNumber]
  · intro part hPart
    simp only [List.mem_cons] at hPart
    rcases hPart with rfl | rfl | hTail
    · exact hAbbr.plain
    · simp [minus_notMem_digits]
    · rw [mem_tailSegments hTail]
      exact hPlain

end Code

/-! ## The rounds of a competition -/

/-- What the codes of a competition's bouts are made of. -/
structure Shape where
  weapon : Option String
  swissRounds : ℕ
  bracketSize : Option ℕ
  wbRounds : Option ℕ
  lbRounds : Option ℕ

/-- A Swiss round, or a round of the bracket: 0 is the play-in. -/
inductive RoundPlace where
  | swiss (n : ℕ)
  | bracket (round : ℕ)

namespace RoundPlace

/-- The Swiss rounds are played first, then the bracket from its play-in on. -/
def Before : RoundPlace → RoundPlace → Prop
  | .swiss n, .swiss n' => n < n'
  | .swiss _, .bracket _ => True
  | .bracket _, .swiss _ => False
  | .bracket round, .bracket round' => round < round'

end RoundPlace

/-- How a bracket counts its rounds. -/
inductive Rounds where
  | double (wbRounds lbRounds : ℕ)
  | single (last : ℕ)
  | counted

/-- A single elimination counts its rounds down to the final when its size is known. -/
def Rounds.ofSize : Option ℕ → Rounds
  | none => .counted
  | some size => if size < 2 then .counted else .single (Nat.clog 2 size)

/-- The bracket has the round. -/
def Rounds.Has (round : ℕ) : Rounds → Prop
  | .double wbRounds lbRounds => round ≤ wbRounds + lbRounds + 2
  | .single last => round ≤ last
  | .counted => True

/-- The order a code of the round is given. -/
def Rounds.orderOf (round : ℕ) (rounds : Rounds) : ℚ :=
  if round = 0 then 0
  else
    match rounds with
    | .double wbRounds lbRounds =>
      if round ≤ wbRounds then 100 + (1000 - (2 ^ (wbRounds + 1 - round) : ℕ)) / 10
      else if round ≤ wbRounds + lbRounds then 500 + (round - wbRounds : ℕ)
      else if round = wbRounds + lbRounds + 1 then 900
      else 901
    | .single last => 1000 - (2 ^ (last + 1 - round) : ℕ)
    | .counted => 1000 + round

/-- The first round is read after the play-in, and no losers round as late as the grand final. -/
def Rounds.Short : Rounds → Prop
  | .double wbRounds lbRounds => wbRounds ≤ 10 ∧ lbRounds < 400
  | .single last => last ≤ 9
  | .counted => True

namespace Shape

variable (trimmedLower : String → String) (shape : Shape)

def rounds : Rounds :=
  match shape.wbRounds.filter (· ≠ 0), shape.lbRounds with
  | some wbRounds, some lbRounds => .double wbRounds lbRounds
  | _, _ => .ofSize shape.bracketSize

/-- The competition has the round. -/
def Has : RoundPlace → Prop
  | .swiss n => 1 ≤ n ∧ n ≤ shape.swissRounds
  | .bracket round => shape.rounds.Has round

def inputOf (place : RoundPlace) (matchNumber : MatchNumber) : RoundCodeInput where
  weapon := shape.weapon
  poolNumber := none
  bracketRound := match place with
    | .swiss _ => none
    | .bracket round => some round
  swissRound := match place with
    | .swiss n => some n
    | .bracket _ => none
  bracketSize := shape.bracketSize
  matchNumber := matchNumber
  wbRounds := shape.wbRounds
  lbRounds := shape.lbRounds
  inBracket := false

/-- The round as the schedule reads it off a bout's code. -/
def read (place : RoundPlace) (matchNumber : MatchNumber) : Option BracketRound :=
  parseBracketRound (some (formatRoundCode trimmedLower (shape.inputOf place matchNumber)))

def roundToken : RoundPlace → Option (List Char)
  | .swiss n => some ('S' :: digits n)
  | .bracket round => bracketToken (some round) shape.bracketSize shape.wbRounds shape.lbRounds

/-- Every code of the competition gives its round back, and the orders follow the play. The number
of a bout is a position, or any text without a hyphen. -/
structure RoundCodeLaw : Prop where
  recovers : ∀ place m, shape.Has place → '-' ∉ matchSegment m →
    (shape.read trimmedLower place m).map (·.token) = shape.roundToken place
  ordered : ∀ p q m m', shape.Has p → shape.Has q → p.Before q → '-' ∉ matchSegment m →
    '-' ∉ matchSegment m' → ∀ round ∈ shape.read trimmedLower p m,
      ∀ round' ∈ shape.read trimmedLower q m', ∃ order ∈ round.order, ∃ order' ∈ round'.order,
        order < order'

/-- The weapon is not abbreviated `B`, there are fewer than a thousand Swiss rounds, and the
bracket is short. -/
structure Readable : Prop where
  abbr : weaponAbbr trimmedLower shape.weapon ≠ ['B']
  swiss : shape.swissRounds < 1000
  bracket : shape.rounds.Short

def orderOf : RoundPlace → ℚ
  | .swiss n => -1000 + n
  | .bracket round => shape.rounds.orderOf round

end Shape

variable {shape : Shape}

theorem reads_doubleElimRoundLabel (round wbRounds lbRounds : ℕ) :
    Reads (doubleElimRoundLabel round wbRounds lbRounds)
      ((Rounds.double wbRounds lbRounds).orderOf round) := by
  rw [doubleElimRoundLabel, Rounds.orderOf]
  split_ifs with hPlayIn hWb hLb hGrand
  · exact reads_playIn
  · have hSize : 2 ≤ 2 ^ wbRounds := by
      calc 2 = 2 ^ 1 := rfl
        _ ≤ 2 ^ wbRounds := Nat.pow_le_pow_right (by decide) (by omega)
    have hClog : Nat.clog 2 (2 ^ wbRounds) = wbRounds := Nat.clog_pow 2 wbRounds (by decide)
    have hNamed := named_bracketRoundLabel hSize (show 1 ≤ round by omega) (hClog.symm ▸ hWb)
    rw [hClog] at hNamed
    exact hNamed.winners
  · exact reads_losers _
  · exact reads_grandFinal
  · exact reads_grandFinalReset

theorem reads_bracketRoundLabel {round : ℕ} {bracketSize : Option ℕ} (hFirst : round ≠ 0)
    (h : (Rounds.ofSize bracketSize).Has round) :
    Reads (bracketRoundLabel round bracketSize) ((Rounds.ofSize bracketSize).orderOf round) := by
  have hPos : ¬round < 1 := by omega
  cases bracketSize with
  | none =>
    simp only [bracketRoundLabel, Rounds.ofSize, Rounds.orderOf, if_neg hFirst, if_neg hPos]
    exact reads_counted round
  | some size =>
    by_cases hSize : size < 2
    · simp only [bracketRoundLabel, Rounds.ofSize, Rounds.orderOf, if_neg hFirst, if_neg hPos,
        if_pos hSize]
      exact reads_counted round
    · simp only [Rounds.ofSize, if_neg hSize, Rounds.Has] at h
      simp only [Rounds.ofSize, Rounds.orderOf, if_neg hFirst, if_neg hSize]
      exact (named_bracketRoundLabel (by omega) (by omega) h).single

theorem reads_singleElim {round : ℕ} {bracketSize : Option ℕ}
    (h : (Rounds.ofSize bracketSize).Has round) :
    ∃ token, (if round = 0 then some ['P', 'I']
        else (some (bracketRoundLabel round bracketSize)).filter (· ≠ [])) = some token ∧
      Reads token ((Rounds.ofSize bracketSize).orderOf round) := by
  by_cases hFirst : round = 0
  · refine ⟨_, if_pos hFirst, ?_⟩
    simp only [Rounds.orderOf, if_pos hFirst]
    exact reads_playIn
  · have hLabel := reads_bracketRoundLabel hFirst h
    refine ⟨_, ?_, hLabel⟩
    rw [if_neg hFirst, Option.filter_some, if_pos (decide_eq_true hLabel.ne_nil)]

/-- Every round of the bracket has a token, read with the order of the round. -/
theorem Shape.reads_roundToken {round : ℕ} (h : shape.Has (.bracket round)) :
    ∃ token, shape.roundToken (.bracket round) = some token ∧
      Reads token (shape.orderOf (.bracket round)) := by
  simp only [Shape.Has, Shape.rounds] at h
  simp only [Shape.roundToken, bracketToken, Shape.orderOf, Shape.rounds]
  cases hWb : shape.wbRounds.filter (· ≠ 0) with
  | none =>
    rw [hWb] at h
    exact reads_singleElim h
  | some wbRounds =>
    rw [hWb] at h
    cases hLb : shape.lbRounds with
    | none =>
      rw [hLb] at h
      exact reads_singleElim h
    | some lbRounds => exact ⟨_, rfl, reads_doubleElimRoundLabel round wbRounds lbRounds⟩

/-! ## The law -/

theorem Shape.read_swiss {n : ℕ} {m : MatchNumber} (hPlain : '-' ∉ matchSegment m) :
    shape.read trimmedLower (.swiss n) m =
      some ⟨'S' :: digits n, "Swiss Round " ++ toString n, some (-1000 + n)⟩ := by
  have hAbbr := abbreviates_weaponAbbr trimmedLower shape.weapon
  rw [← parse_swissCode hAbbr hPlain n]
  simp [Shape.read, Shape.inputOf, formatRoundCode, tailSegments, List.filter_cons, hAbbr.ne_nil]

theorem Shape.read_bracket {round : ℕ} {m : MatchNumber} {token : List Char} {order : ℚ}
    (hToken : shape.roundToken (.bracket round) = some token) (hReads : Reads token order)
    (hPlain : '-' ∉ matchSegment m) :
    shape.read trimmedLower (.bracket round) m =
      if weaponAbbr trimmedLower shape.weapon = ['B'] then none else parseRoundToken token := by
  have hAbbr := abbreviates_weaponAbbr trimmedLower shape.weapon
  rw [Shape.roundToken] at hToken
  rw [← parse_bracketCode hAbbr hReads hPlain]
  simp [Shape.read, Shape.inputOf, formatRoundCode, tailSegments, List.filter_cons, hAbbr.ne_nil,
    hToken, hReads.ne_nil]

/-- Where the weapon is not abbreviated `B`, every code is read with its round and order. -/
theorem Shape.read_eq (hB : weaponAbbr trimmedLower shape.weapon ≠ ['B']) {place : RoundPlace}
    {m : MatchNumber} (h : shape.Has place) (hPlain : '-' ∉ matchSegment m) :
    ∃ token label, shape.roundToken place = some token ∧
      shape.read trimmedLower place m = some ⟨token, label, some (shape.orderOf place)⟩ := by
  cases place with
  | swiss n => exact ⟨_, _, rfl, Shape.read_swiss hPlain⟩
  | bracket round =>
    obtain ⟨token, hToken, hReads⟩ := Shape.reads_roundToken h
    obtain ⟨label, hLabel⟩ := hReads.parsed
    refine ⟨token, label, hToken, ?_⟩
    rw [Shape.read_bracket hToken hReads hPlain, if_neg hB, hLabel]

/-! ## The order of the rounds of a bracket -/

theorem Rounds.has_zero (rounds : Rounds) : rounds.Has 0 := by
  cases rounds <;> simp [Rounds.Has]

theorem Rounds.has_of_le (rounds : Rounds) {round round' : ℕ} (h : rounds.Has round')
    (hLe : round ≤ round') : rounds.Has round := by
  cases rounds with
  | double wbRounds lbRounds => exact hLe.trans h
  | single last => exact hLe.trans h
  | counted => trivial

@[simp] theorem Rounds.orderOf_zero (rounds : Rounds) : rounds.orderOf 0 = 0 := by
  simp only [Rounds.orderOf, if_true]

theorem orderOf_single {last round : ℕ} (h : round ≠ 0) :
    (Rounds.single last).orderOf round = 1000 - (2 ^ (last + 1 - round) : ℕ) := by
  simp only [Rounds.orderOf, if_neg h]

theorem orderOf_counted {round : ℕ} (h : round ≠ 0) :
    Rounds.counted.orderOf round = 1000 + round := by
  simp only [Rounds.orderOf, if_neg h]

section Double

variable {wbRounds lbRounds round : ℕ}

theorem orderOf_winners (h : round ≠ 0) (hWb : round ≤ wbRounds) :
    (Rounds.double wbRounds lbRounds).orderOf round =
      100 + (1000 - (2 ^ (wbRounds + 1 - round) : ℕ)) / 10 := by
  simp only [Rounds.orderOf, if_neg h, if_pos hWb]

theorem orderOf_losers (hWb : wbRounds < round) (hLb : round ≤ wbRounds + lbRounds) :
    (Rounds.double wbRounds lbRounds).orderOf round = 500 + (round - wbRounds : ℕ) := by
  simp only [Rounds.orderOf, if_neg (show round ≠ 0 by omega), if_neg (not_le.mpr hWb), if_pos hLb]

theorem orderOf_grandFinal (h : round = wbRounds + lbRounds + 1) :
    (Rounds.double wbRounds lbRounds).orderOf round = 900 := by
  simp only [Rounds.orderOf, if_neg (show round ≠ 0 by omega),
    if_neg (show ¬round ≤ wbRounds by omega), if_neg (show ¬round ≤ wbRounds + lbRounds by omega),
    if_pos h]

theorem orderOf_grandFinalReset (h : wbRounds + lbRounds + 1 < round) :
    (Rounds.double wbRounds lbRounds).orderOf round = 901 := by
  simp only [Rounds.orderOf, if_neg (show round ≠ 0 by omega),
    if_neg (show ¬round ≤ wbRounds by omega), if_neg (show ¬round ≤ wbRounds + lbRounds by omega),
    if_neg (show round ≠ wbRounds + lbRounds + 1 by omega)]

end Double

/-- Fewer fighters are left from one round to the next. -/
theorem fightersLeft_lt {last round round' : ℕ} (h : round < round') (hLast : round' ≤ last) :
    ((2 ^ (last + 1 - round') : ℕ) : ℚ) < (2 ^ (last + 1 - round) : ℕ) := by
  exact_mod_cast Nat.pow_lt_pow_right (by decide) (by omega)

theorem fightersLeft_le {last bound round : ℕ} (hFirst : round ≠ 0) (hLast : last ≤ bound) :
    ((2 ^ (last + 1 - round) : ℕ) : ℚ) ≤ (2 ^ bound : ℕ) := by
  exact_mod_cast Nat.pow_le_pow_right (by decide) (by omega)

theorem orderOf_single_lt {last round round' : ℕ} (hShort : last ≤ 9) (hLast : round' ≤ last)
    (h : round < round') :
    (Rounds.single last).orderOf round < (Rounds.single last).orderOf round' := by
  rw [orderOf_single (show round' ≠ 0 by omega)]
  by_cases hZero : round = 0
  · have hLeft := fightersLeft_le (show round' ≠ 0 by omega) hShort
    rw [hZero, Rounds.orderOf_zero]
    norm_num at hLeft ⊢
    linarith
  · rw [orderOf_single hZero]
    linarith [fightersLeft_lt h hLast]

section Double

variable {wbRounds lbRounds round : ℕ}

theorem orderOf_winners_mem (hShort : wbRounds ≤ 10) (hFirst : round ≠ 0) (hWb : round ≤ wbRounds) :
    0 < (Rounds.double wbRounds lbRounds).orderOf round ∧
      (Rounds.double wbRounds lbRounds).orderOf round < 200 := by
  have hLeft : ((2 ^ (wbRounds + 1 - round) : ℕ) : ℚ) ≤ 1024 :=
    (fightersLeft_le hFirst hShort).trans (by norm_num)
  have hPos : (0 : ℚ) < (2 ^ (wbRounds + 1 - round) : ℕ) := by positivity
  rw [orderOf_winners hFirst hWb]
  constructor <;> linarith

theorem orderOf_losers_mem (hShort : lbRounds < 400) (hWb : wbRounds < round)
    (hLb : round ≤ wbRounds + lbRounds) :
    500 < (Rounds.double wbRounds lbRounds).orderOf round ∧
      (Rounds.double wbRounds lbRounds).orderOf round < 900 := by
  have hFirst : (1 : ℚ) ≤ (round - wbRounds : ℕ) := by
    exact_mod_cast (show 1 ≤ round - wbRounds by omega)
  have hLast : ((round - wbRounds : ℕ) : ℚ) ≤ 399 := by
    exact_mod_cast (show round - wbRounds ≤ 399 by omega)
  rw [orderOf_losers hWb hLb]
  constructor <;> linarith

/-- One round of a double elimination is read before the next. -/
theorem orderOf_double_lt_succ (hWinners : wbRounds ≤ 10) (hLosers : lbRounds < 400)
    (hLast : round + 1 ≤ wbRounds + lbRounds + 2) :
    (Rounds.double wbRounds lbRounds).orderOf round <
      (Rounds.double wbRounds lbRounds).orderOf (round + 1) := by
  -- Which section the next round is in, and then which one this is in.
  rcases (by omega : round + 1 ≤ wbRounds ∨
      wbRounds < round + 1 ∧ round + 1 ≤ wbRounds + lbRounds ∨
      round + 1 = wbRounds + lbRounds + 1 ∨ round + 1 = wbRounds + lbRounds + 2)
    with hNext | ⟨hAfter, hNext⟩ | hNext | hNext
  · rcases Nat.eq_zero_or_pos round with rfl | hPos
    · rw [Rounds.orderOf_zero]
      exact (orderOf_winners_mem hWinners (by omega) hNext).1
    · rw [orderOf_winners (by omega) (by omega), orderOf_winners (by omega) hNext]
      linarith [fightersLeft_lt (Nat.lt_succ_self round) hNext]
  · rcases Nat.eq_zero_or_pos round with rfl | hPos
    · rw [Rounds.orderOf_zero]
      linarith [(orderOf_losers_mem hLosers hAfter hNext).1]
    · rcases Nat.lt_or_ge wbRounds round with hWb | hWb
      · rw [orderOf_losers hWb (by omega), orderOf_losers hAfter hNext]
        have hLt : ((round - wbRounds : ℕ) : ℚ) < (round + 1 - wbRounds : ℕ) := by
          exact_mod_cast (by omega)
        linarith
      · linarith [(@orderOf_winners_mem _ lbRounds _ hWinners (by omega) hWb).2,
          (orderOf_losers_mem hLosers hAfter hNext).1]
  · rw [orderOf_grandFinal hNext]
    rcases Nat.eq_zero_or_pos round with rfl | hPos
    · rw [Rounds.orderOf_zero]
      norm_num
    · rcases Nat.lt_or_ge wbRounds round with hWb | hWb
      · exact (orderOf_losers_mem hLosers hWb (by omega)).2
      · linarith [(@orderOf_winners_mem _ lbRounds _ hWinners (by omega) hWb).2]
  · rw [orderOf_grandFinal (by omega), orderOf_grandFinalReset (by omega)]
    norm_num

theorem orderOf_double_lt {round' : ℕ} (hWinners : wbRounds ≤ 10) (hLosers : lbRounds < 400)
    (hLast : round' ≤ wbRounds + lbRounds + 2) (h : round < round') :
    (Rounds.double wbRounds lbRounds).orderOf round <
      (Rounds.double wbRounds lbRounds).orderOf round' := by
  induction round', h using Nat.le_induction with
  | base => exact orderOf_double_lt_succ hWinners hLosers hLast
  | succ next hNext ih =>
    exact (ih (by omega)).trans (orderOf_double_lt_succ hWinners hLosers hLast)

end Double

/-- The orders of a bracket follow its rounds just when it is short. -/
theorem Rounds.ordered_iff (rounds : Rounds) :
    (∀ round round', rounds.Has round' → round < round' →
      rounds.orderOf round < rounds.orderOf round') ↔ rounds.Short := by
  cases rounds with
  | counted =>
    refine iff_of_true (fun round round' _ h => ?_) trivial
    rw [orderOf_counted (show round' ≠ 0 by omega)]
    rcases Nat.eq_zero_or_pos round with rfl | hPos
    · rw [Rounds.orderOf_zero]
      positivity
    · rw [orderOf_counted (by omega)]
      have hLt : (round : ℚ) < round' := by exact_mod_cast h
      linarith
  | single last =>
    refine ⟨fun h => ?_, fun hShort round round' hHas hLt => orderOf_single_lt hShort hHas hLt⟩
    by_contra hLong
    rw [Rounds.Short] at hLong
    have hFirst := h 0 1 (show 1 ≤ last by omega) Nat.one_pos
    rw [Rounds.orderOf_zero, orderOf_single one_ne_zero] at hFirst
    have hMany : ((2 ^ 10 : ℕ) : ℚ) ≤ (2 ^ (last + 1 - 1) : ℕ) := by
      exact_mod_cast Nat.pow_le_pow_right (by decide) (by omega)
    norm_num at hMany hFirst
    linarith
  | double wbRounds lbRounds =>
    refine ⟨fun h => ⟨?_, ?_⟩, fun hShort round round' hHas hLt =>
      orderOf_double_lt hShort.1 hShort.2 hHas hLt⟩
    · by_contra hLong
      have hFirst := h 0 1 (show 1 ≤ wbRounds + lbRounds + 2 by omega) Nat.one_pos
      rw [Rounds.orderOf_zero, orderOf_winners one_ne_zero (by omega)] at hFirst
      have hMany : ((2 ^ 11 : ℕ) : ℚ) ≤ (2 ^ (wbRounds + 1 - 1) : ℕ) := by
        exact_mod_cast Nat.pow_le_pow_right (by decide) (by omega)
      norm_num at hMany hFirst
      linarith
    · by_contra hLong
      have hGrand := h (wbRounds + lbRounds) (wbRounds + lbRounds + 1)
        (show wbRounds + lbRounds + 1 ≤ wbRounds + lbRounds + 2 by omega) (Nat.lt_succ_self _)
      rw [orderOf_grandFinal rfl, orderOf_losers (by omega) le_rfl, Nat.add_sub_cancel_left]
        at hGrand
      have hMany : (400 : ℚ) ≤ lbRounds := by exact_mod_cast not_lt.mp hLong
      linarith

theorem Rounds.orderOf_nonneg {rounds : Rounds} {round : ℕ} (hShort : rounds.Short)
    (h : rounds.Has round) : 0 ≤ rounds.orderOf round := by
  rcases Nat.eq_zero_or_pos round with rfl | hPos
  · rw [Rounds.orderOf_zero]
  · rw [← Rounds.orderOf_zero rounds]
    exact (rounds.ordered_iff.mpr hShort 0 round h hPos).le

/-! ## The order of play -/

section Law

/-- A bout's position, written with no hyphen. -/
theorem plain_first : '-' ∉ matchSegment (.number 1) := by decide

theorem Shape.orderOf_lt {p q : RoundPlace} (hReadable : shape.Readable trimmedLower)
    (hp : shape.Has p) (hq : shape.Has q) (h : p.Before q) :
    shape.orderOf p < shape.orderOf q := by
  cases p with
  | swiss n =>
    cases q with
    | swiss n' =>
      have hLt : (n : ℚ) < n' := by exact_mod_cast h
      simpa only [Shape.orderOf, add_lt_add_iff_left] using hLt
    | bracket round =>
      have hSwiss := hReadable.swiss
      have hLt : (n : ℚ) < 1000 := by exact_mod_cast hp.2.trans_lt hSwiss
      have hNonneg := Rounds.orderOf_nonneg hReadable.bracket hq
      simp only [Shape.orderOf]
      linarith
  | bracket round =>
    cases q with
    | swiss n => exact h.elim
    | bracket round' => exact shape.rounds.ordered_iff.mpr hReadable.bracket round round' hq h

theorem Shape.Readable.law (h : shape.Readable trimmedLower) :
    shape.RoundCodeLaw trimmedLower where
  recovers place m hHas hPlain := by
    obtain ⟨token, label, hToken, hRead⟩ := Shape.read_eq h.abbr hHas hPlain
    rw [hRead, hToken]
    rfl
  ordered p q m m' hp hq hBefore hPlain hPlain' round hRound round' hRound' := by
    obtain ⟨token, label, -, hRead⟩ := Shape.read_eq h.abbr hp hPlain
    obtain ⟨token', label', -, hRead'⟩ := Shape.read_eq h.abbr hq hPlain'
    rw [hRead] at hRound
    rw [hRead'] at hRound'
    cases hRound
    cases hRound'
    exact ⟨_, rfl, _, rfl, Shape.orderOf_lt h hp hq hBefore⟩

theorem Shape.RoundCodeLaw.abbr (h : shape.RoundCodeLaw trimmedLower) :
    weaponAbbr trimmedLower shape.weapon ≠ ['B'] := by
  intro hB
  obtain ⟨token, hToken, hReads⟩ := Shape.reads_roundToken (Rounds.has_zero shape.rounds)
  have hRecovers := h.recovers (.bracket 0) (.number 1) (Rounds.has_zero _) plain_first
  rw [Shape.read_bracket hToken hReads plain_first, if_pos hB, hToken] at hRecovers
  cases hRecovers

/-- Where the law holds, the rounds of a competition are read in their order. -/
theorem Shape.RoundCodeLaw.orderOf_lt (h : shape.RoundCodeLaw trimmedLower) {p q : RoundPlace}
    (hp : shape.Has p) (hq : shape.Has q) (hBefore : p.Before q) :
    shape.orderOf p < shape.orderOf q := by
  obtain ⟨token, label, -, hRead⟩ := Shape.read_eq h.abbr hp plain_first
  obtain ⟨token', label', -, hRead'⟩ := Shape.read_eq h.abbr hq plain_first
  obtain ⟨order, hOrder, order', hOrder', hLt⟩ := h.ordered p q _ _ hp hq hBefore plain_first
    plain_first _ hRead _ hRead'
  cases hOrder
  cases hOrder'
  exact hLt

end Law

/-- A weapon of the name `B`, eight fighters. -/
def shapeB : Shape := ⟨some "B", 0, some 8, none, none⟩

/-- The name without its outer blanks, in the lower case of its letters from `A` to `Z`. -/
def trimmedLowerAscii (name : String) : String :=
  let blanksCut := (name.toList.dropWhile isSpace).reverse.dropWhile isSpace
  String.ofList (blanksCut.reverse.map Char.toLower)

end MyClash.Schedule
