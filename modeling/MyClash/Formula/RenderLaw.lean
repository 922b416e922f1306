import Mathlib
import MyClash.Formula.Render
import MyClash.Library.JsonPlain

/-!
# A formula's text is read back

The reader takes a text apart into the tokens that the generic printer writes for the formula's
tree, so the parentheses the text has are enough.
-/

namespace MyClash.Formula

universe u

variable {ν : Type u} {numbers : NumberText ν} {names : NameText}

/-! ## Words -/

/-- A word may end here: the text is over, or a space or a closing parenthesis comes. -/
def Ends (rest : List Char) : Prop := ∀ c tail, rest = c :: tail → c = ' ' ∨ c = ')'

theorem ends_nil : Ends [] := nofun

theorem ends_space (rest : List Char) : Ends (' ' :: rest) := by
  rintro c tail ⟨⟩
  exact .inl rfl

theorem ends_closeParen (rest : List Char) : Ends (')' :: rest) := by
  rintro c tail ⟨⟩
  exact .inr rfl

/-- In front of what may end a word the text stands for these tokens. -/
def Reads (numbers : NumberText ν) (names : NameText) (text : List Char)
    (tokens : List (FormulaToken ν)) : Prop :=
  ∀ rest, Ends rest → lex numbers names (.between true) (text ++ rest) =
    (lex numbers names (.between false) rest).map (tokens ++ ·)

/-- The scan is at the end of a word with this token. -/
structure Scan.Word (numbers : NumberText ν) (names : NameText) (scan : Scan)
    (token : FormulaToken ν) : Prop where
  flush : scan.flush numbers names = some [token]
  operandNext : scan.operandNext = false
  stops : ∀ c, c = ' ' ∨ c = ')' → scan.goesOn c = none

theorem lex_word {scan : Scan} {token : FormulaToken ν} (h : scan.Word numbers names token)
    {rest : List Char} (hEnds : Ends rest) :
    lex numbers names scan rest =
      (lex numbers names (.between false) rest).map ([token] ++ ·) := by
  cases rest with
  | nil => exact h.flush
  | cons c tail =>
    have hc := hEnds c tail rfl
    obtain ⟨entered, hEnter⟩ : ∃ entered, enter (ν := ν) false c = some entered := by
      rcases hc with rfl | rfl
      · exact ⟨_, rfl⟩
      · exact ⟨_, rfl⟩
    rw [lex, lex, h.stops c hc, h.flush, h.operandNext]
    simp only [Scan.goesOn, Scan.flush, Scan.operandNext, hEnter, Option.map_map]
    rfl

/-! ## Numbers -/

theorem number_word {previous : Char} {letters : List Char} {token : FormulaToken ν}
    (h : numberToken numbers letters.reverse = some token) :
    (Scan.number previous letters).Word numbers names token where
  flush := by rw [Scan.flush, h]; rfl
  operandNext := rfl
  stops := by
    rintro c (rfl | rfl)
    · rfl
    · rfl

theorem lex_digits (numbers : NumberText ν) (names : NameText) {previous : Char}
    {tail : List Char} (h : List.IsChain (fun previous c => continues previous c = true) (previous :: tail)) :
    ∀ letters, ∃ last, ∀ rest, lex numbers names (.number previous letters) (tail ++ rest) =
      lex numbers names (.number last (tail.reverse ++ letters)) rest := by
  induction tail generalizing previous with
  | nil => exact fun letters => ⟨previous, fun rest => rfl⟩
  | cons c tail ih =>
    intro letters
    obtain ⟨hc, hTail⟩ := List.isChain_cons_cons.mp h
    obtain ⟨last, hLast⟩ := ih hTail (c :: letters)
    refine ⟨last, fun rest => ?_⟩
    have hGoes : (Scan.number previous letters).goesOn c = some (.number c (c :: letters)) :=
      if_pos hc
    rw [List.cons_append, lex, hGoes, List.reverse_cons, List.append_assoc]
    exact hLast rest

theorem ne_of_isDigit {c d : Char} (h : c.isDigit = true) (hd : d.isDigit = false) : c ≠ d := by
  rintro rfl
  exact Bool.noConfusion (h.symm.trans hd)

theorem enter_digit {operandNext : Bool} {c : Char} (h : c.isDigit = true) :
    enter (ν := ν) operandNext c = some ([], .number c [c]) := by
  rw [enter, if_neg (ne_of_isDigit h rfl), if_neg (ne_of_isDigit h rfl),
    if_neg (ne_of_isDigit h rfl), if_neg (ne_of_isDigit h rfl), if_neg (ne_of_isDigit h rfl),
    if_neg (ne_of_isDigit h rfl), if_neg (ne_of_isDigit h rfl), if_pos h]

theorem reads_number (x : ν) : Reads numbers names (numbers.text x) [.atom (.literal x)] := by
  intro rest hEnds
  obtain ⟨sign, d, tail, hSign, hText, hDigit, hTail⟩ := numbers.decimal x
  have hToken : numberToken numbers (numbers.text x) = some (.atom (.literal x)) := by
    rw [numberToken, numbers.value_text]
    rfl
  rcases hSign with rfl | rfl
  · obtain ⟨last, hLast⟩ := lex_digits numbers names hTail [d]
    rw [hText, List.nil_append, List.cons_append, lex]
    simp only [Scan.goesOn, Scan.flush, Scan.operandNext, enter_digit hDigit, List.append_nil,
      List.nil_append, Option.map_id_fun', id_eq, hLast]
    refine lex_word (number_word ?_) hEnds
    rw [List.reverse_append, List.reverse_reverse, List.reverse_singleton]
    exact hText ▸ hToken
  · have hChain : List.IsChain (fun previous c => continues previous c = true)
        ('-' :: d :: tail) := by
      refine List.isChain_cons_cons.mpr ⟨?_, hTail⟩
      rw [continues, hDigit]
      rfl
    obtain ⟨last, hLast⟩ := lex_digits numbers names hChain ['-']
    have hMinus : enter (ν := ν) true '-' = some ([], .number '-' ['-']) := rfl
    rw [hText, List.append_assoc, List.singleton_append, lex]
    simp only [Scan.goesOn, Scan.flush, Scan.operandNext, hMinus, List.append_nil,
      List.nil_append, Option.map_id_fun', id_eq, hLast]
    refine lex_word (number_word ?_) hEnds
    rw [List.reverse_append, List.reverse_reverse, List.reverse_singleton]
    exact hText ▸ hToken

/-! ## Names -/

theorem mem_FORMULA_VARIABLE_KEYS (key : VariableKey) : key ∈ FORMULA_VARIABLE_KEYS := by
  cases key <;> decide

theorem nameToken_text (names : NameText) (key : VariableKey) :
    nameToken (ν := ν) names (names.text key) = some (.atom (.var key)) := by
  cases hFind : FORMULA_VARIABLE_KEYS.find? fun other =>
      decide (names.text other = names.text key) with
  | none =>
    have hAbsent := List.find?_eq_none.mp hFind key (mem_FORMULA_VARIABLE_KEYS key)
    exact absurd (decide_eq_true rfl) hAbsent
  | some other =>
    have hFound := List.find?_some hFind
    have hSame : names.text other = names.text key := of_decide_eq_true hFound
    rw [nameToken, hFind, names.injective hSame]
    rfl

theorem name_word {letters : List Char} {token : FormulaToken ν}
    (h : nameToken names letters.reverse = some token) :
    (Scan.name letters).Word numbers names token where
  flush := by rw [Scan.flush, h]; rfl
  operandNext := rfl
  stops := by
    rintro c (rfl | rfl)
    · rfl
    · rfl

theorem lex_letters (numbers : NumberText ν) (names : NameText) {tail : List Char}
    (h : ∀ c ∈ tail, c.isAlpha = true) :
    ∀ letters rest, lex numbers names (.name letters) (tail ++ rest) =
      lex numbers names (.name (tail.reverse ++ letters)) rest := by
  induction tail with
  | nil => exact fun letters rest => rfl
  | cons c tail ih =>
    intro letters rest
    have hGoes : (Scan.name letters).goesOn c = some (.name (c :: letters)) :=
      if_pos (h c (List.mem_cons_self ..))
    rw [List.cons_append, lex, hGoes, List.reverse_cons, List.append_assoc]
    exact ih (fun c' hc' => h c' (List.mem_cons_of_mem c hc')) (c :: letters) rest

theorem isDigit_of_isAlpha {c : Char} (h : c.isAlpha = true) : c.isDigit = false := by
  have hNine : '9'.val.toNat = 57 := rfl
  have hUpper : 'A'.val.toNat = 65 := rfl
  have hLower : 'a'.val.toNat = 97 := rfl
  simp only [Char.isAlpha, Char.isUpper, Char.isLower, Char.isDigit, Bool.or_eq_true,
    Bool.and_eq_true, decide_eq_true_eq, Bool.and_eq_false_iff, decide_eq_false_iff_not,
    UInt32.le_iff_toNat_le, ge_iff_le] at h ⊢
  omega

theorem ne_of_isAlpha {c d : Char} (h : c.isAlpha = true) (hd : d.isAlpha = false) : c ≠ d := by
  rintro rfl
  exact Bool.noConfusion (h.symm.trans hd)

theorem enter_letter {operandNext : Bool} {c : Char} (h : c.isAlpha = true) :
    enter (ν := ν) operandNext c = some ([], .name [c]) := by
  rw [enter, if_neg (ne_of_isAlpha h rfl), if_neg (ne_of_isAlpha h rfl),
    if_neg (ne_of_isAlpha h rfl), if_neg (ne_of_isAlpha h rfl), if_neg (ne_of_isAlpha h rfl),
    if_neg (ne_of_isAlpha h rfl), if_neg (ne_of_isAlpha h rfl),
    if_neg (Bool.eq_false_iff.mp (isDigit_of_isAlpha h)), if_pos h]

theorem reads_name (key : VariableKey) :
    Reads numbers names (names.text key) [.atom (.var key)] := by
  intro rest hEnds
  obtain ⟨c, tail, hText⟩ := List.exists_cons_of_ne_nil (names.ne_nil key)
  have hLetters : ∀ c' ∈ c :: tail, c'.isAlpha = true := hText ▸ names.letters key
  have hTail := lex_letters numbers names
    (fun c' hc' => hLetters c' (List.mem_cons_of_mem c hc')) [c] rest
  rw [hText, List.cons_append, lex]
  simp only [Scan.goesOn, Scan.flush, Scan.operandNext,
    enter_letter (hLetters c (List.mem_cons_self ..)), List.append_nil, List.nil_append,
    Option.map_id_fun', id_eq, hTail]
  refine lex_word (name_word ?_) hEnds
  rw [List.reverse_append, List.reverse_reverse, List.reverse_singleton]
  have hToken := nameToken_text (ν := ν) names key
  rw [hText] at hToken
  exact hToken

/-! ## Formulas -/

theorem Reads.parenthesised {text : List Char} {tokens : List (FormulaToken ν)}
    (h : Reads numbers names text tokens) :
    Reads numbers names (parenthesised text) (Infix.parens tokens) := by
  intro rest hEnds
  have hOpen : ∀ following, lex numbers names (.between true) ('(' :: following) =
      (lex numbers names (.between true) following).map ([.openParen] ++ ·) := fun _ => rfl
  have hClose : lex numbers names (.between false) (')' :: rest) =
      (lex numbers names (.between false) rest).map ([.closeParen] ++ ·) := rfl
  have hText : Formula.parenthesised text ++ rest = '(' :: (text ++ ')' :: rest) := by
    simp [Formula.parenthesised]
  rw [hText, hOpen, h _ (ends_closeParen rest), hClose, Option.map_map, Option.map_map]
  congr 1
  funext others
  simp [Infix.parens]

theorem Reads.binop {left right : List Char} {leftTokens rightTokens : List (FormulaToken ν)}
    (op : BinaryOperator) (hLeft : Reads numbers names left leftTokens)
    (hRight : Reads numbers names right rightTokens) :
    Reads numbers names (left ++ ' ' :: op.symbol :: ' ' :: right)
      (leftTokens ++ .op op :: rightTokens) := by
  intro rest hEnds
  have hSpace : ∀ (operandNext : Bool) (following : List Char),
      lex numbers names (.between operandNext) (' ' :: following) =
        lex numbers names (.between operandNext) following := fun _ _ => Option.map_id'
  have hSymbol : ∀ following, lex numbers names (.between false) (op.symbol :: following) =
      (lex numbers names (.between true) following).map ([.op op] ++ ·) := by
    intro following
    cases op <;> rfl
  rw [List.append_assoc, List.cons_append, List.cons_append, List.cons_append,
    hLeft _ (ends_space _), hSpace, hSymbol, hSpace, hRight rest hEnds, Option.map_map, Option.map_map]
  congr 1
  funext others
  simp

/-- The formula's tree, with the leaf a variable's text stands for. -/
@[grind =] def treeOf (leafOf : VariableKey → Leaf ν) : FormulaNode ν → Infix.Tree (Leaf ν) BinaryOperator
  | .literal value => .leaf (.literal value)
  | .var name => .leaf (leafOf name)
  | .binop op left right => .node op (treeOf leafOf left) (treeOf leafOf right)

theorem looser_eq (leafOf : VariableKey → Leaf ν) (bound : ℕ) (node : FormulaNode ν) :
    node.looser bound = !(treeOf leafOf node).binds precedence bound := by
  cases node with
  | literal value => rfl
  | var name => rfl
  | binop op left right =>
    rw [FormulaNode.looser, treeOf, Infix.Tree.binds, ← decide_not]
    exact decide_eq_decide.mpr Nat.not_le.symm

variable {arith : Arithmetic ν} {opts : RenderFormulaOptions ν} {leafOf : VariableKey → Leaf ν}

/-- An operand has its parentheses in the text where the generic printer writes them. -/
theorem Reads.operand {node : FormulaNode ν} {text : List Char} (bound : ℕ)
    (h : Reads numbers names text (Infix.print precedence (treeOf leafOf node))) :
    Reads numbers names (if node.looser bound then Formula.parenthesised text else text)
      (if (treeOf leafOf node).binds precedence bound
        then Infix.print precedence (treeOf leafOf node)
        else Infix.parens (Infix.print precedence (treeOf leafOf node))) := by
  rw [looser_eq leafOf]
  cases (treeOf leafOf node).binds precedence bound with
  | true => exact h
  | false => exact h.parenthesised

theorem reads_renderFormula
    (hTerm : ∀ key, Reads numbers names (renderTerm arith numbers opts key) [.atom (leafOf key)])
    (node : FormulaNode ν) :
    Reads numbers names (renderFormula arith numbers opts node)
      (Infix.print precedence (treeOf leafOf node)) := by
  induction node with
  | literal value => exact reads_number value
  | var name => exact hTerm name
  | binop op left right ihLeft ihRight =>
    exact Reads.binop op (ihLeft.operand (precedence op)) (ihRight.operand (precedence op + 1))

theorem parseFormula_renderFormula
    (hTerm : ∀ key, Reads numbers names (renderTerm arith numbers opts key) [.atom (leafOf key)])
    (node : FormulaNode ν) :
    parseFormula numbers names (renderFormula arith numbers opts node) =
      some (ofTree (treeOf leafOf node)) := by
  have hRead := reads_renderFormula hTerm node [] ends_nil
  have hEnd : lex numbers names (.between false) [] = some [] := rfl
  rw [hEnd, Option.map_some, List.append_nil, List.append_nil] at hRead
  rw [parseFormula, hRead, Option.bind_some, Infix.parse_print, Option.map_some]

/-- The tree read back is worth what the formula is. -/
theorem evaluateFormula_treeOf {scope read : FormulaScope ν}
    (hLeaf : ∀ key, evaluateFormula arith read (ofTree (.leaf (leafOf key))) =
      (scope key).getD arith.zero) (node : FormulaNode ν) :
    evaluateFormula arith read (ofTree (treeOf leafOf node)) =
      evaluateFormula arith scope node := by
  induction node with
  | literal value => rfl
  | var name => exact hLeaf name
  | binop op left right ihLeft ihRight =>
    simp only [treeOf, ofTree, evaluateFormula, ihLeft, ihRight]

/-- The text reads back to a formula of the same value: under the variables' own names or any
labels, for every scope; and with a scope's numbers in their place, for that scope. -/
theorem renderFormula_reads_back (arith : Arithmetic ν) (numbers : NumberText ν)
    (node : FormulaNode ν) :
    (∃ parsed, parseFormula numbers .keys (renderFormula arith numbers {} node) = some parsed ∧
      ∀ scope, evaluateFormula arith scope parsed = evaluateFormula arith scope node) ∧
    (∀ names : NameText, ∃ parsed,
      parseFormula numbers names (renderFormula arith numbers { label := some names.text } node) =
        some parsed ∧
      ∀ scope, evaluateFormula arith scope parsed = evaluateFormula arith scope node) ∧
    ∀ (names : NameText) (scope : FormulaScope ν), ∃ parsed,
      parseFormula numbers names (renderFormula arith numbers { scope := some scope } node) =
        some parsed ∧
      ∀ other, evaluateFormula arith other parsed = evaluateFormula arith scope node := by
  refine ⟨?_, ?_, ?_⟩
  · exact ⟨_, parseFormula_renderFormula reads_name node,
      fun scope => evaluateFormula_treeOf (fun key => rfl) node⟩
  · intro names
    exact ⟨_, parseFormula_renderFormula reads_name node,
      fun scope => evaluateFormula_treeOf (fun key => rfl) node⟩
  · intro names scope
    exact ⟨_, parseFormula_renderFormula (fun key => reads_number _) node,
      fun other => evaluateFormula_treeOf (fun key => rfl) node⟩

/-! ## Integers -/

def integerValue : List Char → Option ℤ
  | '-' :: digits => some (-(Nat.ofDigitChars 10 digits 0 : ℕ))
  | digits => some (Nat.ofDigitChars 10 digits 0 : ℕ)

theorem integerValue_intText (z : ℤ) : integerValue (Json.intText z) = some z := by
  cases z with
  | ofNat n =>
    rw [Json.intText, integerValue, Nat.ofDigitChars_ten_toDigits]
    · rfl
    · exact fun digits h => Json.toDigits_ne_minus h
  | negSucc n =>
    rw [Json.intText, integerValue, Nat.ofDigitChars_ten_toDigits]
    rfl

theorem isDecimal_toDigits (n : ℕ) {sign : List Char} (hSign : sign = [] ∨ sign = ['-']) :
    IsDecimal (sign ++ Nat.toDigits 10 n) := by
  obtain ⟨d, tail, hText⟩ := List.exists_cons_of_ne_nil (Nat.toDigits_ne_nil (b := 10) (n := n))
  have hDigits : ∀ c ∈ d :: tail, c.isDigit = true := fun c hc =>
    Nat.isDigit_of_mem_toDigits (by decide) (by decide) (hText ▸ hc)
  refine ⟨sign, d, tail, hSign, by rw [hText], hDigits d (List.mem_cons_self ..), ?_⟩
  refine List.Pairwise.isChain (List.pairwise_iff_getElem.mpr fun i j _ hj _ => ?_)
  rw [continues, hDigits _ (List.getElem_mem hj)]
  rfl

/-- Integers in decimals. -/
def NumberText.integers : NumberText ℤ where
  text := Json.intText
  value := integerValue
  value_text := integerValue_intText
  decimal z := by
    cases z with
    | ofNat n => exact isDecimal_toDigits n (.inl rfl)
    | negSucc n => exact isDecimal_toDigits (n + 1) (.inr rfl)

def Arithmetic.integers : Arithmetic ℤ where
  zero := 0
  isZero z := decide (z = 0)
  add := (· + ·)
  sub := (· - ·)
  mul := (· * ·)
  div := (· / ·)
  round := id
  powTen n := 10 ^ n

/-- The parentheses on the right of a minus stay, those on its left go. -/
def difference : FormulaNode ℤ :=
  .binop .sub (.binop .sub (.var .hitsGiven) (.literal (-2)))
    (.binop .sub (.var .ties) (.binop .mul (.literal 3) (.var .losses)))

example : renderFormula Arithmetic.integers .integers {} difference =
    "hitsGiven - -2 - (ties - 3 * losses)".toList := by decide +kernel

example : parseFormula .integers .keys "hitsGiven - -2 - (ties - 3 * losses)".toList =
    some difference := by decide +kernel

end MyClash.Formula
