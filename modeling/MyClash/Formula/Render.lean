import MyClash.Library.Infix
import Mathlib.Data.List.Nodup

/-!
# Formulas and their text

The scoring formula as a tree, its value for a Fighter's numbers and its infix text. Beside them
a reader of such texts: words, then the usual precedence of the four operators.
-/

namespace MyClash.Formula

universe u

inductive VariableKey where
  | victories
  | ties
  | losses
  | doubleHits
  | hitsGiven
  | hitsReceived
  | pointsPerVictory
  | pointsPerTie
  | pointsPerLoss
  | doublePenalty
  deriving DecidableEq

def FORMULA_VARIABLE_KEYS : List VariableKey :=
  [.victories, .ties, .losses, .doubleHits, .hitsGiven, .hitsReceived, .pointsPerVictory,
    .pointsPerTie, .pointsPerLoss, .doublePenalty]

def VariableKey.text : VariableKey → List Char
  | .victories => "victories".toList
  | .ties => "ties".toList
  | .losses => "losses".toList
  | .doubleHits => "doubleHits".toList
  | .hitsGiven => "hitsGiven".toList
  | .hitsReceived => "hitsReceived".toList
  | .pointsPerVictory => "pointsPerVictory".toList
  | .pointsPerTie => "pointsPerTie".toList
  | .pointsPerLoss => "pointsPerLoss".toList
  | .doublePenalty => "doublePenalty".toList

inductive BinaryOperator where
  | add
  | sub
  | mul
  | div
  deriving DecidableEq

def BinaryOperator.symbol : BinaryOperator → Char
  | .add => '+'
  | .sub => '-'
  | .mul => '*'
  | .div => '/'

inductive FormulaNode (ν : Type u) where
  | literal (value : ν)
  | var (name : VariableKey)
  | binop (op : BinaryOperator) (left right : FormulaNode ν)
  deriving DecidableEq

/-! ## Numbers -/

/-- The arithmetic of the numbers, exact or rounded. -/
structure Arithmetic (ν : Type u) where
  zero : ν
  isZero : ν → Bool
  add : ν → ν → ν
  sub : ν → ν → ν
  mul : ν → ν → ν
  div : ν → ν → ν
  round : ν → ν
  powTen : ℕ → ν

/-- Whether a number's text goes on with the character: a sign stands behind the `e` only. -/
def continues (previous c : Char) : Bool :=
  c.isDigit || c == '.' || c == 'e' || ((c == '+' || c == '-') && previous == 'e')

/-- A decimal, with a minus or none: a digit first, then whatever continues it. -/
def IsDecimal (text : List Char) : Prop :=
  ∃ sign d tail, (sign = [] ∨ sign = ['-']) ∧ text = sign ++ d :: tail ∧ d.isDigit = true ∧
    List.IsChain (fun previous c => continues previous c = true) (d :: tail)

/-- The text of a finite number, which the language reads back. -/
structure NumberText (ν : Type u) where
  text : ν → List Char
  value : List Char → Option ν
  value_text : ∀ x, value (text x) = some x
  decimal : ∀ x, IsDecimal (text x)

/-- The words that name the variables, the source's keys or one label for each. -/
structure NameText where
  text : VariableKey → List Char
  injective : Function.Injective text
  ne_nil : ∀ key, text key ≠ []
  letters : ∀ key, ∀ c ∈ text key, c.isAlpha = true

theorem VariableKey.mem_keys (key : VariableKey) : key ∈ FORMULA_VARIABLE_KEYS := by
  cases key <;> decide

theorem VariableKey.text_injective : Function.Injective VariableKey.text := by
  have hNodup : (FORMULA_VARIABLE_KEYS.map VariableKey.text).Nodup := by decide +kernel
  exact fun key key' h => List.inj_on_of_nodup_map hNodup key.mem_keys key'.mem_keys h

def NameText.keys : NameText where
  text := VariableKey.text
  injective := VariableKey.text_injective
  ne_nil := by
    intro key
    cases key <;> decide
  letters key := List.all_eq_true.mp (by cases key <;> rfl)

variable {ν : Type u}

/-! ## The value -/

/-- A variable the scope lacks counts as zero. -/
abbrev FormulaScope (ν : Type u) := VariableKey → Option ν

def evaluateFormula (arith : Arithmetic ν) (scope : FormulaScope ν) : FormulaNode ν → ν
  | .literal value => value
  | .var name => (scope name).getD arith.zero
  | .binop op left right =>
    let left := evaluateFormula arith scope left
    let right := evaluateFormula arith scope right
    match op with
    | .add => arith.add left right
    | .sub => arith.sub left right
    | .mul => arith.mul left right
    | .div => if arith.isZero right then arith.zero else arith.div left right

/-! ## The text -/

structure RenderFormulaOptions (ν : Type u) where
  scope : Option (FormulaScope ν) := none
  label : Option (VariableKey → List Char) := none
  round : Option ℕ := none

def precedence : BinaryOperator → ℕ
  | .add => 1
  | .sub => 1
  | .mul => 2
  | .div => 2

def roundTo (arith : Arithmetic ν) (value : ν) (decimals : ℕ) : ν :=
  let factor := arith.powTen decimals
  arith.div (arith.round (arith.mul value factor)) factor

section Render

variable (arith : Arithmetic ν) (numbers : NumberText ν) (opts : RenderFormulaOptions ν)

def renderTerm (key : VariableKey) : List Char :=
  match opts.scope with
  | some scope =>
    let value := (scope key).getD arith.zero
    numbers.text <| match opts.round with
      | some decimals => roundTo arith value decimals
      | none => value
  | none =>
    match opts.label with
    | some label => label key
    | none => key.text

def parenthesised (text : List Char) : List Char := '(' :: text ++ [')']

/-- The operand is an operator's node that binds looser than `bound`. -/
def FormulaNode.looser (bound : ℕ) : FormulaNode ν → Bool
  | .binop op _ _ => decide (precedence op < bound)
  | _ => false

def renderFormula : FormulaNode ν → List Char
  | .literal value => numbers.text value
  | .var name => renderTerm arith numbers opts name
  | .binop op left right =>
    let leftText := renderFormula left
    let rightText := renderFormula right
    let leftP := if left.looser (precedence op) then parenthesised leftText else leftText
    -- on the right also as tight: subtraction and division associate to the left
    let rightP := if right.looser (precedence op + 1) then parenthesised rightText else rightText
    leftP ++ ' ' :: op.symbol :: ' ' :: rightP

end Render

/-! ## A reader of such texts -/

inductive Leaf (ν : Type u) where
  | literal (value : ν)
  | var (name : VariableKey)
  deriving DecidableEq

abbrev FormulaToken (ν : Type u) := Infix.Token (Leaf ν) BinaryOperator

def numberToken (numbers : NumberText ν) (word : List Char) : Option (FormulaToken ν) :=
  (numbers.value word).map fun value => .atom (.literal value)

def nameToken (names : NameText) (word : List Char) : Option (FormulaToken ν) :=
  (FORMULA_VARIABLE_KEYS.find? fun key => names.text key = word).map fun key => .atom (.var key)

/-- Between two words, and whether an operand comes next; or inside a word, its letters so far
from the last one back. -/
inductive Scan where
  | between (operandNext : Bool)
  | number (previous : Char) (letters : List Char)
  | name (letters : List Char)

/-- The word that ends here, if the scan is inside one. -/
def Scan.flush (numbers : NumberText ν) (names : NameText) : Scan → Option (List (FormulaToken ν))
  | .between _ => some []
  | .number _ letters => (numberToken numbers letters.reverse).map fun token => [token]
  | .name letters => (nameToken names letters.reverse).map fun token => [token]

/-- A character between two words. A minus where an operand comes next is a number's sign. -/
def enter (operandNext : Bool) (c : Char) : Option (List (FormulaToken ν) × Scan) :=
  if c = ' ' then some ([], .between operandNext)
  else if c = '(' then some ([.openParen], .between true)
  else if c = ')' then some ([.closeParen], .between false)
  else if c = '+' then some ([.op .add], .between true)
  else if c = '*' then some ([.op .mul], .between true)
  else if c = '/' then some ([.op .div], .between true)
  else if c = '-' then
    if operandNext then some ([], .number '-' ['-']) else some ([.op .sub], .between true)
  else if c.isDigit then some ([], .number c [c])
  else if c.isAlpha then some ([], .name [c])
  else none

/-- The scan goes on inside its word. -/
def Scan.goesOn (scan : Scan) (c : Char) : Option Scan :=
  match scan with
  | .between _ => none
  | .number previous letters =>
    if continues previous c then some (.number c (c :: letters)) else none
  | .name letters => if c.isAlpha then some (.name (c :: letters)) else none

/-- Whether an operand comes next once the word has ended. -/
def Scan.operandNext : Scan → Bool
  | .between operandNext => operandNext
  | _ => false

def lex (numbers : NumberText ν) (names : NameText) :
    Scan → List Char → Option (List (FormulaToken ν))
  | scan, [] => scan.flush numbers names
  | scan, c :: rest =>
    match scan.goesOn c with
    | some scan => lex numbers names scan rest
    | none =>
      match scan.flush numbers names, enter scan.operandNext c with
      | some ended, some (tokens, next) =>
        (lex numbers names next rest).map fun others => ended ++ tokens ++ others
      | _, _ => none

def ofTree : Infix.Tree (Leaf ν) BinaryOperator → FormulaNode ν
  | .leaf (.literal value) => .literal value
  | .leaf (.var name) => .var name
  | .node op left right => .binop op (ofTree left) (ofTree right)

/-- The tree a text stands for, by the usual precedence and left association. -/
def parseFormula (numbers : NumberText ν) (names : NameText) (text : List Char) :
    Option (FormulaNode ν) :=
  (lex numbers names (.between true) text).bind fun tokens =>
    (Infix.parse precedence tokens).map ofTree

end MyClash.Formula
