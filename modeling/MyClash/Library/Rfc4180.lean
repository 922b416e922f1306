import Mathlib.Data.List.Basic

/-!
# Tables as separated texts

RFC 4180 with any separator: records end at a CRLF, a field with a quote, a line end or the
separator stands in quotes, and a quote inside is doubled. The reader refuses everything else.
-/

namespace Rfc4180

def quote : Char := '\x22'

/-- What may be the separator, and what a bare field may not hold. -/
structure Separator where
  char : Char
  apart : char ∉ [quote, '\n', '\r']

def special (sep : Separator) : List Char := [quote, '\n', '\r', sep.char]

/-! ## Reading -/

/-- Where the reader stands: before a field, in a bare one, in a quoted one, behind a quote of a
quoted one, within a line end. -/
inductive Mode where
  | start
  | bare
  | quoted
  | closed
  | lineEnd
  deriving DecidableEq

/-- Puts characters before the first field. -/
def prepend (text : List Char) : List (List (List Char)) → List (List (List Char))
  | (field :: fields) :: records => ((text ++ field) :: fields) :: records
  | records => records

def newField : List (List (List Char)) → List (List (List Char))
  | fields :: records => ([] :: fields) :: records
  | [] => []

def newRecord (records : List (List (List Char))) : List (List (List Char)) := [[]] :: records

def lastRecord : List (List (List Char)) := [[[]]]

/-- The records of a text. A line end behind the last one begins no other. -/
@[grind =] def read (sep : Separator) : Mode → List Char → Option (List (List (List Char)))
  | .quoted, [] | .lineEnd, [] => none
  | .start, [] | .bare, [] | .closed, [] => some lastRecord
  | .quoted, c :: text =>
    if c = quote then read sep .closed text else (read sep .quoted text).map (prepend [c])
  | .lineEnd, c :: text =>
    if c ≠ '\n' then none
    else if text = [] then some lastRecord
    else (read sep .start text).map newRecord
  | mode, c :: text =>
    if c = sep.char then (read sep .start text).map newField
    else if c = '\r' then read sep .lineEnd text
    else if c = quote then
      match mode with
      | .start => read sep .quoted text
      | .closed => (read sep .quoted text).map (prepend [quote])
      | _ => none
    else if c = '\n' ∨ mode = .closed then none
    else (read sep .bare text).map (prepend [c])

def parse (sep : Separator) (text : List Char) : Option (List (List (List Char))) :=
  read sep .start text

/-! ## Writing -/

def escape (content : List Char) : List Char :=
  content.flatMap fun c => if c = quote then [quote, quote] else [c]

def quoted (content : List Char) : List Char := quote :: (escape content ++ [quote])

/-- The two ways a field holds a content. -/
def Spells (sep : Separator) (field content : List Char) : Prop :=
  field = quoted content ∨ field = content ∧ ∀ c ∈ content, c ∉ special sep

def writeRecord (sep : Separator) (fields : List (List Char)) : List Char :=
  [sep.char].intercalate fields

/-- Every record ends with a line end. -/
def write (sep : Separator) (records : List (List (List Char))) : List Char :=
  (records.map (writeRecord sep)).flatMap (· ++ ['\r', '\n'])

/-! ## Reading what was written -/

variable {sep : Separator} {field content rest : List Char}

theorem prepend_nil : prepend [] = id := by
  funext records
  match records with
  | [] => rfl
  | [] :: _ => rfl
  | (_ :: _) :: _ => rfl

theorem prepend_comp_prepend (c : Char) (text : List Char) :
    prepend [c] ∘ prepend text = prepend (c :: text) := by
  funext records
  match records with
  | [] => rfl
  | [] :: _ => rfl
  | (_ :: _) :: _ => rfl

/-- A field is over here. -/
def Ending (sep : Separator) (rest : List Char) : Prop :=
  rest = [] ∨ (∃ text, rest = sep.char :: text) ∨ ∃ text, rest = '\r' :: text

theorem read_ending (h : Ending sep rest) : read sep .start rest = read sep .closed rest ∧
    read sep .bare rest = read sep .closed rest := by
  have hApart := sep.apart
  simp only [List.mem_cons, List.not_mem_nil, or_false, not_or] at hApart
  rcases h with rfl | ⟨text, rfl⟩ | ⟨text, rfl⟩
  · exact ⟨rfl, rfl⟩
  · simp [read]
  · simp [read]

theorem read_plain {mode : Mode} (hMode : mode = .start ∨ mode = .bare) {c : Char}
    (hc : c ∉ special sep) (text : List Char) :
    read sep mode (c :: text) = (read sep .bare text).map (prepend [c]) := by
  simp only [special, List.mem_cons, List.not_mem_nil, or_false, not_or] at hc
  rcases hMode with rfl | rfl
  · simp [read, hc]
  · simp [read, hc]

theorem read_bare (hBare : ∀ c ∈ content, c ∉ special sep) (hEnding : Ending sep rest) :
    read sep .bare (content ++ rest) = (read sep .closed rest).map (prepend content) := by
  induction content with
  | nil =>
    rw [List.nil_append, (read_ending hEnding).2, prepend_nil, Option.map_id]
    rfl
  | cons c content ih =>
    rw [List.cons_append, read_plain (.inr rfl) (hBare c List.mem_cons_self),
      ih fun d hd => hBare d (List.mem_cons_of_mem c hd), Option.map_map, prepend_comp_prepend]

theorem read_escape (content rest : List Char) :
    read sep .quoted (escape content ++ quote :: rest) =
      (read sep .closed rest).map (prepend content) := by
  induction content with
  | nil =>
    rw [prepend_nil, Option.map_id]
    rfl
  | cons c content ih =>
    rw [escape, List.flatMap_cons, ← escape]
    by_cases hQuote : c = quote
    · have hApart := sep.apart
      simp only [List.mem_cons, List.not_mem_nil, or_false, not_or] at hApart
      have hDoubled : ∀ text, read sep .quoted (quote :: quote :: text) =
          (read sep .quoted text).map (prepend [quote]) := by
        intro text
        simp [read, Ne.symm hApart.1, show quote ≠ '\r' by decide]
      rw [if_pos hQuote, List.append_assoc, List.cons_append, List.cons_append, List.nil_append,
        hDoubled, ih, Option.map_map, prepend_comp_prepend, hQuote]
    · have hKept : ∀ text, read sep .quoted (c :: text) =
          (read sep .quoted text).map (prepend [c]) := fun text => if_neg hQuote
      rw [if_neg hQuote, List.append_assoc, List.cons_append, List.nil_append, hKept, ih,
        Option.map_map, prepend_comp_prepend]

/-- However the field is written, its content is read. -/
theorem read_field (hField : Spells sep field content) (hEnding : Ending sep rest) :
    read sep .start (field ++ rest) = (read sep .closed rest).map (prepend content) := by
  rcases hField with rfl | ⟨rfl, hBare⟩
  · have hApart := sep.apart
    simp only [List.mem_cons, List.not_mem_nil, or_false, not_or] at hApart
    have hOpens : ∀ text, read sep .start (quote :: text) = read sep .quoted text := by
      intro text
      simp [read, Ne.symm hApart.1, show quote ≠ '\r' by decide]
    rw [quoted, List.cons_append, hOpens, List.append_assoc, List.singleton_append,
      read_escape content]
  · cases field with
    | nil =>
      rw [List.nil_append, (read_ending hEnding).1, prepend_nil, Option.map_id]
      rfl
    | cons c field =>
      rw [List.cons_append, read_plain (.inl rfl) (hBare c List.mem_cons_self),
        read_bare (fun d hd => hBare d (List.mem_cons_of_mem c hd)) hEnding, Option.map_map,
        prepend_comp_prepend]

/-- A line end ends the record; behind the last one nothing begins. -/
theorem read_lineEnd (rest : List Char) : read sep .closed ('\r' :: '\n' :: rest) =
    if rest = [] then some lastRecord else (read sep .start rest).map newRecord := by
  have hApart := sep.apart
  simp only [List.mem_cons, List.not_mem_nil, or_false, not_or] at hApart
  simp [read, Ne.symm hApart.2.2]

theorem read_separator (rest : List Char) :
    read sep .closed (sep.char :: rest) = (read sep .start rest).map newField := by
  simp [read]

/-- One record is read off the front, a record with no field as one with an empty field. -/
theorem read_record {fields contents : List (List Char)}
    (hFields : List.Forall₂ (Spells sep) fields contents) (rest : List Char) :
    read sep .start (writeRecord sep fields ++ '\r' :: '\n' :: rest) =
      if rest = [] then some [if contents = [] then [[]] else contents]
      else (read sep .start rest).map ((if contents = [] then [[]] else contents) :: ·) := by
  have hEnd : ∀ content, (read sep .closed ('\r' :: '\n' :: rest)).map (prepend content) =
      if rest = [] then some [[content]] else (read sep .start rest).map ([content] :: ·) := by
    intro content
    rw [read_lineEnd]
    split_ifs
    · simp [lastRecord, prepend]
    · rw [Option.map_map]
      congr 1
      funext records
      simp [newRecord, prepend]
  induction hFields with
  | nil =>
    have hEmpty : Spells sep [] [] := .inr ⟨rfl, nofun⟩
    rw [if_pos rfl, ← hEnd []]
    exact read_field hEmpty (.inr (.inr ⟨_, rfl⟩))
  | @cons field content fields contents hField hFields ih =>
    rw [if_neg (List.cons_ne_nil _ _)]
    cases hFields with
    | nil =>
      have hAlone : writeRecord sep [field] = field := by simp [writeRecord]
      rw [hAlone, ← hEnd content]
      exact read_field hField (.inr (.inr ⟨_, rfl⟩))
    | @cons field' content' fields contents hField' hFields =>
      have hSplit : writeRecord sep (field :: field' :: fields) ++ '\r' :: '\n' :: rest =
          field ++ sep.char :: (writeRecord sep (field' :: fields) ++ '\r' :: '\n' :: rest) := by
        simp [writeRecord, List.intercalate]
      rw [hSplit, read_field hField (.inr (.inl ⟨_, rfl⟩)), read_separator, ih,
        if_neg (List.cons_ne_nil _ _), Option.map_map]
      split_ifs
      · simp [newField, prepend]
      · rw [Option.map_map]
        congr 1
        funext records
        simp [newField, prepend]

/-- What is written is read: every record with the contents of its fields. -/
theorem parse_write {records contents : List (List (List Char))}
    (hRecords : List.Forall₂ (List.Forall₂ (Spells sep)) records contents)
    (hSome : records ≠ []) :
    parse sep (write sep records) = some (contents.map fun fields =>
      if fields = [] then [[]] else fields) := by
  induction hRecords with
  | nil => exact absurd rfl hSome
  | @cons fields texts records contents hFields hRecords ih =>
    have hSplit : write sep (fields :: records) =
        writeRecord sep fields ++ '\r' :: '\n' :: write sep records := by
      simp [write]
    rw [parse, hSplit, read_record hFields]
    cases hRecords with
    | nil => rfl
    | @cons fields' texts' records contents hFields' hRecords =>
      have hMore : write sep (fields' :: records) ≠ [] := by simp [write]
      have hRest := ih (List.cons_ne_nil _ _)
      rw [parse] at hRest
      rw [if_neg hMore, hRest]
      rfl

end Rfc4180
