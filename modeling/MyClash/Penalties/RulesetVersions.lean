import MyClash.Library.StableSort

/-!
# The versions of a penalty ruleset

One custom ruleset of a club, its version rows and its pins. A publish and a pin write the present
definition under a version; the unique key on it lets the first one stand.
-/

namespace MyClash.Penalties

open StableSort

universe u v

/-- What the code asks of texts and numbers that belongs to the language. -/
structure VersionText where
  trim : String → String
  /-- `String(Number.parseInt(tail, 10) + 1)`. -/
  succ : String → String

inductive AccumulationScope where
  | bout
  | phase
  | tournament
  deriving DecidableEq

inductive BlackCardEffect where
  | none
  | bout
  | tournament
  deriving DecidableEq

/-- The definition columns, the forfeit rules being JSON of type `φ`. -/
structure PenaltyColumns (φ : Type u) where
  name : String
  description : Option String
  accumulation_scope : AccumulationScope
  yellow_card_points : ℤ
  red_card_points : ℤ
  black_card_points : ℤ
  first_black_card_forfeit : BlackCardEffect
  second_black_card_forfeit : BlackCardEffect
  forfeit_rules : φ
  deriving DecidableEq

/-- A row of `penalty_ruleset_entries`. -/
structure EntryRow where
  group_number : ℤ
  ref_number : String
  short_name : String
  description : String
  sanctions : List String
  sort_order : ℤ

structure PenaltyVersionEntry where
  groupNumber : ℤ
  refNumber : String
  shortName : String
  description : String
  sanctions : List String
  sortOrder : ℤ
  deriving DecidableEq

def serializePenaltyEntries (rows : List EntryRow) : List PenaltyVersionEntry :=
  (sortWith (fun a b => compare a.sort_order b.sort_order) rows).map fun entry =>
    { groupNumber := entry.group_number
      refNumber := entry.ref_number
      shortName := entry.short_name
      description := entry.description
      sanctions := entry.sanctions
      sortOrder := entry.sort_order }

structure PenaltyRuleset (φ : Type u) where
  columns : PenaltyColumns φ
  entries : List EntryRow
  version : String

/-- The columns and the ordered entries. -/
structure PenaltyDefinition (φ : Type u) where
  columns : PenaltyColumns φ
  entries : List PenaltyVersionEntry
  deriving DecidableEq

def PenaltyRuleset.definition {φ : Type u} (ruleset : PenaltyRuleset φ) : PenaltyDefinition φ :=
  ⟨ruleset.columns, serializePenaltyEntries ruleset.entries⟩

/-- A row of `penalty_ruleset_versions`; its id is its place in the table. -/
structure VersionRow (φ : Type u) where
  version : String
  definition : PenaltyDefinition φ
  is_frozen : Bool

def buildPenaltyVersionRow {φ : Type u} (ruleset : PenaltyRuleset φ) (is_frozen : Bool) :
    VersionRow φ :=
  ⟨ruleset.version, ruleset.definition, is_frozen⟩

/-! ## The version strings -/

/-- Patch-bump a version: `1.0.0` to `1.0.1`, `2-a` to `2-a.1`. -/
def bumpPenaltyVersion (lang : VersionText) (version : String) : String :=
  let trimmed := lang.trim version
  if trimmed = "" then "1.0.1"
  else
    let parts := trimmed.toList.splitOn '.'
    let tail := parts.getLastD []
    if tail ≠ [] ∧ tail.all Char.isDigit then
      let bumped := (lang.succ (String.ofList tail)).toList
      String.ofList (['.'].intercalate (parts.dropLast ++ [bumped]))
    else trimmed ++ ".1"

/-! ## The ruleset with its version rows and pins -/

structure PenaltyBook (φ : Type u) (π : Type v) where
  ruleset : PenaltyRuleset φ
  versions : List (VersionRow φ)
  /-- The Tournaments and Events that pin the ruleset, each with its `penalty_ruleset_version`. -/
  pins : List (π × String)
  /-- A bout holds a copy of its rules that pins this ruleset. -/
  heldByBout : Bool

section Book

variable {φ : Type u} {π : Type v}

def PenaltyBook.referenced (book : PenaltyBook φ π) : Bool :=
  !book.pins.isEmpty || book.heldByBout

def PenaltyBook.snapshotExists (book : PenaltyBook φ π) (version : String) : Bool :=
  book.versions.any fun row => row.version = version

/-- The insert, skipped where the unique (ruleset, version) is met. -/
def PenaltyBook.snapshotPenaltyVersion (book : PenaltyBook φ π) : PenaltyBook φ π :=
  if book.snapshotExists book.ruleset.version then book
  else { book with versions := book.versions ++ [buildPenaltyVersionRow book.ruleset false] }

def PenaltyBook.freezePenaltyRulesetVersion (book : PenaltyBook φ π) : PenaltyBook φ π :=
  if book.snapshotExists book.ruleset.version then
    { book with versions := book.versions.map fun row =>
        if row.version = book.ruleset.version then { row with is_frozen := true } else row }
  else { book with versions := book.versions ++ [buildPenaltyVersionRow book.ruleset true] }

def PenaltyBook.setVersion (book : PenaltyBook φ π) (version : String) : PenaltyBook φ π :=
  { book with ruleset := { book.ruleset with version := version } }

/-- `guard` bumps at most. -/
def PenaltyBook.nextFreePenaltyVersion (lang : VersionText) (book : PenaltyBook φ π) :
    (guard : ℕ) → (candidate : String) → String
  | 0, candidate => candidate
  | guard + 1, candidate =>
    if book.snapshotExists candidate then
      book.nextFreePenaltyVersion lang guard (bumpPenaltyVersion lang candidate)
    else candidate

/-! ### What is publishable -/

def refCharacter (c : Char) : Bool := c.isAlphanum || c = '_' || c = '-'

/-- `/^[\w-]{1,20}$/`. -/
def validRef (ref : String) : Bool :=
  1 ≤ ref.length && ref.length ≤ 20 && ref.toList.all refCharacter

def entryErrors (lang : VersionText) (seen : List String) (entry : EntryRow) : List String :=
  let ref := lang.trim entry.ref_number
  let label := if ref = "" then "(blank)" else ref
  (if validRef ref then [] else ["REF \"" ++ label ++ "\" is invalid"]) ++
    (if ref ∈ seen then ["REF \"" ++ label ++ "\" is duplicated"] else []) ++
    (if entry.group_number ≤ 0 then
      ["entry " ++ label ++ ": group number must be a positive integer"] else []) ++
    (if entry.sanctions.isEmpty then ["entry " ++ label ++ ": needs at least one sanction card"]
    else if entry.sanctions.all (["yellow", "red", "black"].contains ·) then []
    else ["entry " ++ label ++ ": has an invalid sanction card"])

def entriesErrors (lang : VersionText) (seen : List String) : List EntryRow → List String
  | [] => []
  | entry :: entries =>
    entryErrors lang seen entry ++ entriesErrors lang (lang.trim entry.ref_number :: seen) entries

def collectPenaltyRulesetErrors (lang : VersionText) (entries : List EntryRow) : List String :=
  (if entries.isEmpty then ["a penalty ruleset must have at least one entry"] else []) ++
    entriesErrors lang [] entries

/-! ### The entries of a write -/

structure EntryDto where
  groupNumber : ℤ
  refNumber : String
  shortName : String
  description : String
  sanctions : List String

def EntryDto.row (lang : VersionText) (entry : EntryDto) (index : ℕ) : EntryRow where
  group_number := entry.groupNumber
  ref_number := lang.trim entry.refNumber
  short_name := entry.shortName
  description := entry.description
  sanctions := entry.sanctions
  sort_order := index + 1

/-- The rows of a bulk insert, after the delete of the old ones: none where a REF is refused or
met twice. -/
def replaceEntries (lang : VersionText) (entries : List EntryDto) : List EntryRow :=
  let refs := entries.map fun entry => lang.trim entry.refNumber
  if refs.all validRef ∧ refs.Nodup then entries.mapIdx fun index entry => entry.row lang index
  else []

def PenaltyVersionEntry.dto (entry : PenaltyVersionEntry) : EntryDto where
  groupNumber := entry.groupNumber
  refNumber := entry.refNumber
  shortName := entry.shortName
  description := entry.description
  sanctions := entry.sanctions

/-- A key that is absent leaves its column. -/
structure PenaltyEdit (φ : Type u) where
  name : Option String
  description : Option (Option String)
  accumulationScope : Option AccumulationScope
  yellowCardPoints : Option ℤ
  redCardPoints : Option ℤ
  blackCardPoints : Option ℤ
  firstBlackCardForfeit : Option BlackCardEffect
  secondBlackCardForfeit : Option BlackCardEffect
  forfeitRules : Option φ
  entries : Option (List EntryDto)

def PenaltyEdit.columns (lang : VersionText) (dto : PenaltyEdit φ) (columns : PenaltyColumns φ) :
    PenaltyColumns φ where
  name := (dto.name.map lang.trim).getD columns.name
  description := dto.description.getD columns.description
  accumulation_scope := dto.accumulationScope.getD columns.accumulation_scope
  yellow_card_points := dto.yellowCardPoints.getD columns.yellow_card_points
  red_card_points := dto.redCardPoints.getD columns.red_card_points
  black_card_points := dto.blackCardPoints.getD columns.black_card_points
  first_black_card_forfeit := dto.firstBlackCardForfeit.getD columns.first_black_card_forfeit
  second_black_card_forfeit := dto.secondBlackCardForfeit.getD columns.second_black_card_forfeit
  forfeit_rules := dto.forfeitRules.getD columns.forfeit_rules

/-! ### The doors -/

def PenaltyBook.updateRuleset (lang : VersionText) (book : PenaltyBook φ π) (dto : PenaltyEdit φ) :
    Option (PenaltyBook φ π) :=
  if book.referenced then none
  else
    some { book with ruleset := { book.ruleset with
      columns := dto.columns lang book.ruleset.columns
      entries := (dto.entries.map (replaceEntries lang)).getD book.ruleset.entries } }

def PenaltyBook.publishedVersion (lang : VersionText) (book : PenaltyBook φ π) : String :=
  book.nextFreePenaltyVersion lang 1000 book.ruleset.version

def PenaltyBook.publishRuleset (lang : VersionText) (book : PenaltyBook φ π)
    (nextVersion : Option String) : Option (PenaltyBook φ π) :=
  if collectPenaltyRulesetErrors lang book.ruleset.entries = [] then
    let publishedVersion := book.publishedVersion lang
    let given := if nextVersion.getD "" = "" then "" else lang.trim (nextVersion.getD "")
    let bumped := if given = "" then bumpPenaltyVersion lang publishedVersion else given
    some (((book.setVersion publishedVersion).snapshotPenaltyVersion).setVersion bumped)
  else none

def PenaltyBook.rollbackRuleset (lang : VersionText) (book : PenaltyBook φ π) (versionId : ℕ) :
    Option (PenaltyBook φ π) :=
  if book.referenced then none
  else
    book.versions[versionId]?.map fun snapshot =>
      { book with ruleset := { book.ruleset with
        columns := snapshot.definition.columns
        entries := replaceEntries lang (snapshot.definition.entries.map (·.dto)) } }

variable [DecidableEq π]

def PenaltyBook.unpin (book : PenaltyBook φ π) (pinner : π) : PenaltyBook φ π :=
  { book with pins := book.pins.filter (·.1 ≠ pinner) }

def PenaltyBook.writePin (book : PenaltyBook φ π) (pinner : π) : PenaltyBook φ π :=
  { book with pins := (pinner, book.ruleset.version) :: book.pins.filter (·.1 ≠ pinner) }

def PenaltyBook.assignRuleset (book : PenaltyBook φ π) (pinner : π) : PenaltyBook φ π :=
  (book.writePin pinner).freezePenaltyRulesetVersion

inductive BookEvent (φ : Type u) (π : Type v) where
  | edit (dto : PenaltyEdit φ)
  | publish (nextVersion : Option String)
  | rollback (versionId : ℕ)
  | pin (pinner : π)
  | unpin (pinner : π)
  /-- A bout takes a copy of its rules, or the last one lets it go. -/
  | held (byBout : Bool)

def BookEvent.apply (lang : VersionText) (book : PenaltyBook φ π) :
    BookEvent φ π → Option (PenaltyBook φ π)
  | .edit dto => book.updateRuleset lang dto
  | .publish nextVersion => book.publishRuleset lang nextVersion
  | .rollback versionId => book.rollbackRuleset lang versionId
  | .pin pinner => some (book.assignRuleset pinner)
  | .unpin pinner => some (book.unpin pinner)
  | .held byBout => some { book with heldByBout := byBout }

def bookStep (lang : VersionText) (book : PenaltyBook φ π) (event : BookEvent φ π)
    (book' : PenaltyBook φ π) : Prop :=
  event.apply lang book = some book'

end Book

end MyClash.Penalties
