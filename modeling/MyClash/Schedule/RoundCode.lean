import Mathlib.Algebra.Group.Nat.Defs
import Mathlib.Data.Nat.Log
import Mathlib.Data.Rat.Defs

/-!
# Round codes

The short code of a bout, `LSW-B-QF-M1`, and what a schedule reads back from it: the round of the
bracket, or of the Swiss system, with a label and a place in the order of the rounds.
-/

namespace MyClash.Schedule

/-! ## Writing a code -/

def WEAPON_ABBREVIATIONS : List (String × String) :=
  [("longsword", "LSW"), ("sidesword", "SDW"), ("rapier", "RAP"), ("sabre", "SBR"),
    ("sword & buckler", "SB"), ("sword and buckler", "SB")]

/-- What the table answers for a name it inherits rather than holds, as text. -/
def INHERITED : List (String × String) :=
  [("constructor", "function Object() { [native code] }"), ("__proto__", "[object Object]")]

/-- `trimmedLower` is the name without its outer blanks, in lower case. -/
def weaponAbbr (trimmedLower : String → String) (weapon : Option String) : List Char :=
  match (WEAPON_ABBREVIATIONS ++ INHERITED).lookup (trimmedLower (weapon.getD "")) with
  | some abbr => abbr.toList
  | none =>
    let letters := (((weapon.getD "").toList.filter (·.isAlpha)).take 3).map (·.toUpper)
    if letters.isEmpty then ['?', '?', '?'] else letters

inductive MatchNumber where
  | none
  | number (n : ℕ)
  | text (s : List Char)

structure RoundCodeInput where
  weapon : Option String
  poolNumber : Option ℕ
  bracketRound : Option ℕ
  swissRound : Option ℕ
  bracketSize : Option ℕ
  matchNumber : MatchNumber
  wbRounds : Option ℕ
  lbRounds : Option ℕ
  inBracket : Bool

def digits (n : ℕ) : List Char := Nat.toDigits 10 n

/-- The position of a round by the fighters left in it. Past the last round less than one fighter
would be left, here one: no name is given for either. -/
def bracketRoundLabel (round : ℕ) (bracketSize : Option ℕ) : List Char :=
  if round < 1 then []
  else
    match bracketSize with
    | none => 'B' :: digits round
    | some size =>
      if size < 2 then 'B' :: digits round
      else
        match 2 ^ (Nat.clog 2 size + 1 - round) with
        | 2 => ['F']
        | 4 => ['S', 'F']
        | 8 => ['Q', 'F']
        | fightersLeft => if fightersLeft ≥ 16 then 'R' :: digits fightersLeft else 'B' :: digits round

/-- Play-in, winners bracket, losers bracket, grand final, reset. -/
def doubleElimRoundLabel (round wbRounds lbRounds : ℕ) : List Char :=
  if round = 0 then ['P', 'I']
  else if round ≤ wbRounds then 'W' :: 'B' :: bracketRoundLabel round (some (2 ^ wbRounds))
  else if round ≤ wbRounds + lbRounds then 'L' :: 'B' :: digits (round - wbRounds)
  else if round = wbRounds + lbRounds + 1 then ['G', 'F']
  else ['G', 'F', 'R']

/-- The token of a bracket round, none for a match that has none. -/
def bracketToken (bracketRound bracketSize wbRounds lbRounds : Option ℕ) : Option (List Char) :=
  match bracketRound with
  | none => none
  | some round =>
    match wbRounds.filter (· ≠ 0), lbRounds with
    | some wbRounds, some lbRounds => some (doubleElimRoundLabel round wbRounds lbRounds)
    | _, _ =>
      if round = 0 then some ['P', 'I']
      else some (bracketRoundLabel round bracketSize) |>.filter (· ≠ [])

def isSpace (c : Char) : Bool :=
  [0x9, 0xa, 0xb, 0xc, 0xd, 0x20, 0xa0, 0x1680, 0x2028, 0x2029, 0x202f, 0x205f, 0x3000,
    0xfeff].contains c.toNat || (0x2000 ≤ c.toNat && c.toNat ≤ 0x200a)

/-- The digits after an `M` that ends the text, blanks apart. -/
def trailingNumber : List Char → Option (List Char)
  | [] => none
  | c :: rest =>
    if c = 'M' ∧ rest.takeWhile Char.isDigit ≠ [] ∧ (rest.dropWhile Char.isDigit).all isSpace then
      some (rest.takeWhile Char.isDigit)
    else trailingNumber rest

def matchSegment : MatchNumber → List Char
  | .none => []
  | .number n => 'M' :: digits n
  | .text [] => []
  | .text s => 'M' :: (trailingNumber s).getD s

def formatRoundCode (trimmedLower : String → String) (input : RoundCodeInput) : List Char :=
  let middle :=
    match input.poolNumber, input.swissRound, input.bracketRound with
    | some pool, _, _ => ['P' :: digits pool]
    | none, some swiss, _ => ['S' :: digits swiss]
    | none, none, some round =>
      [['B'], (bracketToken (some round) input.bracketSize input.wbRounds input.lbRounds).getD []]
    | none, none, none => if input.inBracket then [['B']] else []
  ['-'].intercalate
    (([weaponAbbr trimmedLower input.weapon] ++ middle ++ [matchSegment input.matchNumber]).filter
      (· ≠ []))

/-! ## Reading a code -/

structure BracketRound where
  token : List Char
  label : String
  /-- None where the source computes with what is not a number. -/
  order : Option ℚ

/-- The number a token writes after its letters, when it has that shape. -/
def numberAfter (letters token : List Char) : Option ℕ :=
  let number := token.drop letters.length
  if letters <+: token ∧ number ≠ [] ∧ number.all Char.isDigit then
    some (Nat.ofDigitChars 10 number 0)
  else none

def parseSwissToken (parts : List (List Char)) : Option BracketRound :=
  parts.findSome? fun part =>
    (numberAfter ['S'] part).map fun (n : ℕ) =>
      ⟨part, "Swiss Round " ++ toString n, some (-1000 + n)⟩

/-- The sections of a double elimination. -/
@[grind =] def parseDoubleElimToken (token : List Char) : Option BracketRound :=
  if token = ['G', 'F'] then some ⟨token, "Grand Final", some 900⟩
  else if token = ['G', 'F', 'R'] then some ⟨token, "Grand Final Reset", some 901⟩
  else
    match numberAfter ['L', 'B'] token with
    | some k => some ⟨token, "Losers Round " ++ toString k, some (500 + k)⟩
    | none =>
      match token with
      | ['W', 'B', 'F'] => some ⟨token, "Winners Final", some (100 + (1000 - 2) / 10)⟩
      | ['W', 'B', 'S', 'F'] => some ⟨token, "Winners Semi-finals", some (100 + (1000 - 4) / 10)⟩
      | ['W', 'B', 'Q', 'F'] => some ⟨token, "Winners Quarter-finals", some (100 + (1000 - 8) / 10)⟩
      | _ =>
        match numberAfter ['W', 'B', 'R'] token, numberAfter ['W', 'B', 'B'] token with
        | some k, _ => some ⟨token, "Winners Round of " ++ toString k, some (100 + (1000 - k) / 10)⟩
        | none, some _ => some ⟨token, "Winners " ++ String.ofList (token.drop 2), some 199⟩
        | none, none => none

/-- The names the table of named rounds inherits: the source takes each for a round. -/
def inheritedNames : List String :=
  ["constructor", "toString", "toLocaleString", "valueOf", "hasOwnProperty", "isPrototypeOf",
    "propertyIsEnumerable", "__proto__", "__defineGetter__", "__defineSetter__",
    "__lookupGetter__", "__lookupSetter__"]

/-- A round of a bracket by its token. -/
@[grind =] def parseRoundToken (token : List Char) : Option BracketRound :=
  if token = ['P', 'I'] then some ⟨token, "Play-ins", some 0⟩
  else
    match parseDoubleElimToken token with
    | some round => some round
    | none =>
      match token with
      | ['F'] => some ⟨token, "Final", some (1000 - 2)⟩
      | ['S', 'F'] => some ⟨token, "Semi-finals", some (1000 - 4)⟩
      | ['Q', 'F'] => some ⟨token, "Quarter-finals", some (1000 - 8)⟩
      | _ =>
        if inheritedNames.any (·.toList = token) then some ⟨token, "Quarter-finals", none⟩
        else
          match numberAfter ['R'] token, numberAfter ['B'] token with
          | some k, _ => some ⟨token, "Round of " ++ toString k, some (1000 - k)⟩
          | none, some n => some ⟨token, "Round " ++ toString n, some (1000 + n)⟩
          | none, none => none

/-- The segment after the first `B`. -/
def segmentAfterB : List (List Char) → Option (List Char)
  | [] => none
  | part :: rest => if part = ['B'] then rest.head? else segmentAfterB rest

def parseBracketRound (roundCode : Option (List Char)) : Option BracketRound :=
  match roundCode.filter (· ≠ []) with
  | none => none
  | some code =>
    match parseSwissToken (code.splitOn '-') with
    | some swiss => some swiss
    | none => (segmentAfterB (code.splitOn '-')).bind parseRoundToken

end MyClash.Schedule
