import Mathlib.Data.List.Forall2
import Mathlib.Data.List.TakeWhile
import MyClash.Library.Rfc4180

/-!
# The CSV files a person opens

A cell is guarded against formulas, its decimal mark is the format's, and it is quoted where RFC
4180 asks for it. Every cell of a file is read back.
-/

namespace MyClash.Exports

open Rfc4180

/-- A value as the language turns it into text. -/
inductive CellValue where
  | absent
  | object (json : List Char)
  | other (text : List Char)

def CellValue.text : CellValue → List Char
  | absent => []
  | object json => json
  | other text => text

structure CsvFormat where
  separator : Char
  decimal : Char
  oneSeparator : separator = ',' ∨ separator = ';'
  oneDecimal : decimal = '.' ∨ decimal = ','

def CSV_STANDARD : CsvFormat := ⟨',', '.', .inl rfl, .inl rfl⟩

def CSV_EXCEL_FR : CsvFormat := ⟨';', ',', .inr rfl, .inr rfl⟩

inductive CsvFormatParam where
  | excelFr
  | standard

def csvFormatFromParam : CsvFormatParam → CsvFormat
  | .excelFr => CSV_EXCEL_FR
  | .standard => CSV_STANDARD

def CsvFormat.rfc (format : CsvFormat) : Separator where
  char := format.separator
  apart := by rcases format.oneSeparator with h | h <;> rw [h] <;> decide

/-! ## One cell -/

def apostrophe : Char := '\x27'

/-- `/^[=+\-@\t\r]/` -/
def FORMULA_LEAD (text : List Char) : Bool :=
  text.head?.any fun c => decide (c ∈ ['=', '+', '-', '@', '\t', '\r'])

def unsigned : List Char → List Char
  | '+' :: text | '-' :: text => text
  | text => text

/-- `/^[+-]?\d+(\.\d+)?$/` -/
def PLAIN_NUMBER (text : List Char) : Bool :=
  let digits := unsigned text
  !(digits.takeWhile Char.isDigit).isEmpty &&
    match digits.dropWhile Char.isDigit with
    | [] => true
    | '.' :: fraction => !fraction.isEmpty && fraction.all Char.isDigit
    | _ => false

/-- `text.replace(c, d)`: the first of them only. -/
def replaceFirst (c d : Char) : List Char → List Char
  | [] => []
  | e :: text => if e = c then d :: text else e :: replaceFirst c d text

def quotedIfNeeded (value : List Char) (separator : Char) : List Char :=
  if quote ∈ value ∨ '\n' ∈ value ∨ '\r' ∈ value ∨ separator ∈ value then
    quote :: (escape value ++ [quote])
  else value

def neutralised (value : List Char) (separator : Char) : List Char :=
  if FORMULA_LEAD value && !PLAIN_NUMBER value then
    quote :: apostrophe :: (escape value ++ [quote])
  else quotedIfNeeded value separator

def cellOf (value : CellValue) (format : CsvFormat) : List Char :=
  match value with
  | .absent => []
  | .object text | .other text =>
    if format.decimal = ',' && PLAIN_NUMBER text then replaceFirst '.' ',' text
    else neutralised text format.separator

/-! ## The file -/

def csvRow (values : List CellValue) (format : CsvFormat) : List Char :=
  [format.separator].intercalate (values.map (cellOf · format))

def BYTE_ORDER_MARK : Char := '\uFEFF'

def csvFile (rows : List (List CellValue)) (format : CsvFormat) : List Char :=
  BYTE_ORDER_MARK :: (['\r', '\n'].intercalate (rows.map (csvRow · format)) ++ ['\r', '\n'])

example : csvFile [[.other "-1.5".toList, .other "=a;b".toList, .absent]] CSV_EXCEL_FR =
    '\uFEFF' :: "-1,5;\x22\x27=a;b\x22;\r\n".toList := by decide

/-! ## What a reader gets back -/

/-- A number with the format's decimal mark. -/
def CsvFormat.number (format : CsvFormat) (text : List Char) : List Char :=
  if format.decimal = ',' then replaceFirst '.' ',' text else text

/-- What a cell holds behind its quotes. -/
def contentOf (format : CsvFormat) (value : CellValue) : List Char :=
  if PLAIN_NUMBER value.text then format.number value.text
  else if FORMULA_LEAD value.text then apostrophe :: value.text
  else value.text

/-- The value is read back as it was, but for the apostrophe that guards it or its decimal mark. -/
inductive Returns (format : CsvFormat) (value : CellValue) : List Char → Prop
  | same : Returns format value value.text
  | guarded : FORMULA_LEAD value.text = true → PLAIN_NUMBER value.text = false →
      Returns format value (apostrophe :: value.text)
  | decimal : PLAIN_NUMBER value.text = true → Returns format value (format.number value.text)

/-- The table a reader gets: a row with no cell is a line with an empty one, and a file with no row
is such a line. -/
def tableOf (format : CsvFormat) (rows : List (List CellValue)) : List (List (List Char)) :=
  (if rows = [] then [[]] else rows).map fun row =>
    if row = [] then [[]] else row.map (contentOf format)

variable {format : CsvFormat} {value : CellValue} {text : List Char}

theorem returns_contentOf (format : CsvFormat) (value : CellValue) :
    Returns format value (contentOf format value) := by
  rw [contentOf]
  split_ifs with hNumber hLead
  · exact .decimal hNumber
  · exact .guarded hLead (Bool.not_eq_true _ ▸ hNumber)
  · exact .same

/-- A cell that a spreadsheet would take for a formula is a number. -/
theorem number_of_lead (h : FORMULA_LEAD (contentOf format value) = true) :
    ∃ number, PLAIN_NUMBER number = true ∧ contentOf format value = format.number number := by
  rw [contentOf] at h ⊢
  split_ifs at h ⊢ with hNumber hLead
  · exact ⟨value.text, hNumber, rfl⟩
  · cases h
  · exact absurd h hLead

theorem PLAIN_NUMBER.chars (h : PLAIN_NUMBER text = true) :
    ∀ c ∈ text, c.isDigit = true ∨ c ∈ ['+', '-', '.'] := by
  have hUnsigned : ∀ c ∈ text, c ∈ unsigned text ∨ c ∈ ['+', '-', '.'] := by
    intro c hc
    unfold unsigned
    split
    · rcases List.mem_cons.mp hc with rfl | hc
      · exact .inr (by decide)
      · exact .inl hc
    · rcases List.mem_cons.mp hc with rfl | hc
      · exact .inr (by decide)
      · exact .inl hc
    · exact .inl hc
  have hDigits : ∀ c ∈ unsigned text, c.isDigit = true ∨ c ∈ ['+', '-', '.'] := by
    intro c hc
    rw [PLAIN_NUMBER, Bool.and_eq_true] at h
    rw [← List.takeWhile_append_dropWhile (p := Char.isDigit) (l := unsigned text),
      List.mem_append] at hc
    rcases hc with hWhole | hAfter
    · exact .inl (List.mem_takeWhile_imp hWhole)
    · cases hRest : (unsigned text).dropWhile Char.isDigit with
      | nil =>
        rw [hRest] at hAfter
        cases hAfter
      | cons d fraction =>
        have hFraction := h.2
        rw [hRest] at hAfter hFraction
        by_cases hd : d = '.'
        · subst hd
          simp only [Bool.and_eq_true, List.all_eq_true] at hFraction
          rcases List.mem_cons.mp hAfter with rfl | hc
          · exact .inr (by decide)
          · exact .inl (hFraction.2 c hc)
        · simp [hd] at hFraction
  intro c hc
  rcases hUnsigned c hc with hc | hc
  · exact hDigits c hc
  · exact .inr hc

theorem mem_replaceFirst {c d e : Char} (h : e ∈ replaceFirst c d text) : e = d ∨ e ∈ text := by
  induction text with
  | nil => cases h
  | cons f text ih =>
    rw [replaceFirst] at h
    split_ifs at h
    · rcases List.mem_cons.mp h with rfl | h
      · exact .inl rfl
      · exact .inr (List.mem_cons_of_mem f h)
    · rcases List.mem_cons.mp h with rfl | h
      · exact .inr List.mem_cons_self
      · exact (ih h).imp_right (List.mem_cons_of_mem f)

/-- No number holds a quote, a line end or a semicolon. -/
theorem number_bare (h : PLAIN_NUMBER text = true) :
    ∀ c ∈ replaceFirst '.' ',' text, c ∉ special CSV_EXCEL_FR.rfc := by
  have hSigns : ∀ c ∈ special CSV_EXCEL_FR.rfc,
      c.isDigit = false ∧ c ∉ ['+', '-', '.'] ∧ c ≠ ',' := by
    intro c hc
    simp only [special, List.mem_cons, List.not_mem_nil, or_false] at hc
    rcases hc with rfl | rfl | rfl | rfl <;> decide
  intro c hc hSpecial
  obtain ⟨hDigit, hSign, hMark⟩ := hSigns c hSpecial
  rcases mem_replaceFirst hc with rfl | hc
  · exact hMark rfl
  · rcases PLAIN_NUMBER.chars h c hc with hIs | hIs
    · rw [hDigit] at hIs
      cases hIs
    · exact hSign hIs

theorem spells_quotedIfNeeded (format : CsvFormat) (text : List Char) :
    Spells format.rfc (quotedIfNeeded text format.separator) text := by
  rw [quotedIfNeeded]
  split_ifs with hNeeds
  · exact .inl rfl
  · refine .inr ⟨rfl, fun c hc hSpecial => hNeeds ?_⟩
    simp only [special, List.mem_cons, List.not_mem_nil, or_false] at hSpecial
    rcases hSpecial with rfl | rfl | rfl | rfl
    · exact .inl hc
    · exact .inr (.inl hc)
    · exact .inr (.inr (.inl hc))
    · exact .inr (.inr (.inr hc))

theorem spells_neutralised (format : CsvFormat) (text : List Char) :
    Spells format.rfc (neutralised text format.separator)
      (if FORMULA_LEAD text && !PLAIN_NUMBER text then apostrophe :: text else text) := by
  rw [neutralised]
  split_ifs with hGuard
  · exact .inl rfl
  · exact spells_quotedIfNeeded format text

theorem spells_cellOf (param : CsvFormatParam) (value : CellValue) :
    Spells (csvFormatFromParam param).rfc (cellOf value (csvFormatFromParam param))
      (contentOf (csvFormatFromParam param) value) := by
  have hText : ∀ text, Spells (csvFormatFromParam param).rfc
      (if (csvFormatFromParam param).decimal = ',' && PLAIN_NUMBER text then
        replaceFirst '.' ',' text
      else neutralised text (csvFormatFromParam param).separator)
      (contentOf (csvFormatFromParam param) (.other text)) := by
    intro text
    have hNeutral := spells_neutralised (csvFormatFromParam param) text
    rw [contentOf, CsvFormat.number, CellValue.text]
    cases hNumber : PLAIN_NUMBER text with
    | false =>
      cases hLead : FORMULA_LEAD text with
      | false => simpa [hNumber, hLead] using hNeutral
      | true => simpa [hNumber, hLead] using hNeutral
    | true =>
      cases param with
      | excelFr => exact .inr ⟨rfl, number_bare hNumber⟩
      | standard =>
        rw [hNumber, Bool.not_true, Bool.and_false] at hNeutral
        exact hNeutral
  cases value with
  | absent => exact .inr ⟨rfl, nofun⟩
  | object json => exact hText json
  | other text => exact hText text

theorem csvFile_eq_write (rows : List (List CellValue)) (format : CsvFormat) :
    csvFile rows format = BYTE_ORDER_MARK :: write format.rfc
      ((if rows = [] then [[]] else rows).map fun row => row.map (cellOf · format)) := by
  have hLines : ∀ lines : List (List Char), lines ≠ [] →
      ['\r', '\n'].intercalate lines ++ ['\r', '\n'] = lines.flatMap (· ++ ['\r', '\n']) := by
    intro lines hSome
    induction lines with
    | nil => exact absurd rfl hSome
    | cons line lines ih =>
      cases lines with
      | nil => simp [List.intercalate]
      | cons line' lines =>
        rw [List.flatMap_cons, ← ih (List.cons_ne_nil _ _)]
        simp [List.intercalate]
  rw [csvFile]
  congr 1
  by_cases hRows : rows = []
  · subst hRows
    rfl
  · rw [if_neg hRows, hLines _ (by simpa using hRows), write, List.map_map]
    rfl

/-- Of every table and either format the reader gets every cell back, and no cell begins as a
formula but a number. -/
theorem csvFile_parses (param : CsvFormatParam) (rows : List (List CellValue)) :
    ∃ body, csvFile rows (csvFormatFromParam param) = BYTE_ORDER_MARK :: body ∧
      parse (csvFormatFromParam param).rfc body =
        some (tableOf (csvFormatFromParam param) rows) ∧
      (∀ value, Returns (csvFormatFromParam param) value
        (contentOf (csvFormatFromParam param) value)) ∧
      ∀ row ∈ tableOf (csvFormatFromParam param) rows, ∀ content ∈ row,
        FORMULA_LEAD content = true → ∃ number, PLAIN_NUMBER number = true ∧
          content = (csvFormatFromParam param).number number := by
  refine ⟨_, csvFile_eq_write rows _, ?_, returns_contentOf _, ?_⟩
  · have hCells : ∀ row : List CellValue, List.Forall₂ (Spells (csvFormatFromParam param).rfc)
        (row.map (cellOf · (csvFormatFromParam param)))
        (row.map (contentOf (csvFormatFromParam param))) := by
      intro row
      rw [List.forall₂_map_left_iff, List.forall₂_map_right_iff]
      exact List.forall₂_same.mpr fun value _ => spells_cellOf param value
    have hRows : ∀ rows : List (List CellValue),
        List.Forall₂ (List.Forall₂ (Spells (csvFormatFromParam param).rfc))
          (rows.map fun row => row.map (cellOf · (csvFormatFromParam param)))
          (rows.map fun row => row.map (contentOf (csvFormatFromParam param))) := by
      intro rows
      rw [List.forall₂_map_left_iff, List.forall₂_map_right_iff]
      exact List.forall₂_same.mpr fun row _ => hCells row
    have hSome : (if rows = [] then [[]] else rows) ≠ [] := by
      split_ifs with h
      · exact List.cons_ne_nil _ _
      · exact h
    rw [parse_write (hRows _) (by simpa using hSome), tableOf, List.map_map]
    congr 1
    refine List.map_congr_left fun row _ => ?_
    rw [Function.comp_apply]
    simp only [List.map_eq_nil_iff]
  · intro row hRow content hContent hLead
    obtain ⟨values, -, rfl⟩ := List.mem_map.mp hRow
    split_ifs at hContent
    · rw [List.mem_singleton.mp hContent] at hLead
      cases hLead
    · obtain ⟨value, -, rfl⟩ := List.mem_map.mp hContent
      exact number_of_lead hLead

end MyClash.Exports
