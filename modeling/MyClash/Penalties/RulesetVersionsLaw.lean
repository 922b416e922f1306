import MyClash.Library.Run
import MyClash.Penalties.RulesetVersions

/-!
# What the version rows record

A row once written stays the record it is. A pin and a publish are recorded exactly where the slot
they aim at holds nothing else: an edit between two pins at one version is not.
-/

namespace MyClash.Penalties

open Runs

universe u v

variable {φ : Type u} {π : Type v} {lang : VersionText}

def VersionRow.record (row : VersionRow φ) : String × PenaltyDefinition φ :=
  (row.version, row.definition)

def PenaltyBook.slots (book : PenaltyBook φ π) : List String := book.versions.map (·.version)

def PenaltyBook.records (book : PenaltyBook φ π) : List (String × PenaltyDefinition φ) :=
  book.versions.map VersionRow.record

/-- The slot of a pin is free or holds the present definition; that of a publish is free. -/
def Slotted (lang : VersionText) (book : PenaltyBook φ π) : BookEvent φ π → Prop
  | .pin _ => ∀ row ∈ book.versions, row.version = book.ruleset.version →
      row.definition = book.ruleset.definition
  | .publish _ => ∃ bumps ≤ 1000, (bumpPenaltyVersion lang)^[bumps] book.ruleset.version ∉ book.slots
  | _ => True

structure BookLaw (moves : List (Move (PenaltyBook φ π) (BookEvent φ π))) (book : PenaltyBook φ π) :
    Prop where
  /-- The row a pin names is the definition of that pin. -/
  pinned : ∀ m ∈ moves, ∀ pinner, m.event = .pin pinner →
    (pinner, m.before.ruleset.version) ∈ m.after.pins ∧
      (m.before.ruleset.version, m.before.ruleset.definition) ∈ book.records
  /-- A publish writes a row of its own. -/
  published : ∀ m ∈ moves, ∀ nextVersion, m.event = .publish nextVersion →
    ∃ version, version ∉ m.before.slots ∧ (version, m.before.ruleset.definition) ∈ m.after.records
  kept : ∀ m ∈ moves, ∀ record ∈ m.before.records ++ m.after.records, record ∈ book.records
  unique : book.slots.Nodup

/-! ## The inserts -/

section Inserts

variable {book : PenaltyBook φ π}

theorem snapshotExists_iff {version : String} :
    book.snapshotExists version = true ↔ version ∈ book.slots := by
  simp [PenaltyBook.snapshotExists, PenaltyBook.slots]

theorem slots_eq_records (book : PenaltyBook φ π) : book.slots = book.records.map Prod.fst := by
  rw [PenaltyBook.slots, PenaltyBook.records, List.map_map]
  rfl

theorem definition_unique (hUnique : book.slots.Nodup) {version : String}
    {definition definition' : PenaltyDefinition φ} (h : (version, definition) ∈ book.records)
    (h' : (version, definition') ∈ book.records) : definition = definition' := by
  rw [slots_eq_records] at hUnique
  exact congrArg Prod.snd (List.inj_on_of_nodup_map hUnique h h' rfl)

theorem snapshot_versions_of_mem (h : book.ruleset.version ∈ book.slots) :
    book.snapshotPenaltyVersion = book := by
  rw [PenaltyBook.snapshotPenaltyVersion, if_pos (snapshotExists_iff.mpr h)]

theorem snapshot_records_of_not_mem (h : book.ruleset.version ∉ book.slots) :
    book.snapshotPenaltyVersion.records =
      book.records ++ [(book.ruleset.version, book.ruleset.definition)] := by
  rw [PenaltyBook.snapshotPenaltyVersion, if_neg (mt snapshotExists_iff.mp h),
    PenaltyBook.records, List.map_append]
  rfl

/-- The freeze of a version already written only flips its flag. -/
theorem freeze_records_of_mem (h : book.ruleset.version ∈ book.slots) :
    book.freezePenaltyRulesetVersion.records = book.records := by
  rw [PenaltyBook.freezePenaltyRulesetVersion, if_pos (snapshotExists_iff.mpr h),
    PenaltyBook.records, List.map_map]
  refine List.map_congr_left fun row _ => ?_
  rw [Function.comp_apply]
  split <;> rfl

theorem freeze_records_of_not_mem (h : book.ruleset.version ∉ book.slots) :
    book.freezePenaltyRulesetVersion.records =
      book.records ++ [(book.ruleset.version, book.ruleset.definition)] := by
  rw [PenaltyBook.freezePenaltyRulesetVersion, if_neg (mt snapshotExists_iff.mp h),
    PenaltyBook.records, List.map_append]
  rfl

/-- A free slot is found within the bumps exactly when there is one. -/
theorem nextFreePenaltyVersion_free (guard : ℕ) (candidate : String) :
    book.nextFreePenaltyVersion lang guard candidate ∉ book.slots ↔
      ∃ bumps ≤ guard, (bumpPenaltyVersion lang)^[bumps] candidate ∉ book.slots := by
  induction guard generalizing candidate with
  | zero => simp [PenaltyBook.nextFreePenaltyVersion]
  | succ guard ih =>
    rw [PenaltyBook.nextFreePenaltyVersion]
    split
    · rename_i hTaken
      rw [ih]
      constructor
      · rintro ⟨bumps, hBumps, hFree⟩
        exact ⟨bumps + 1, Nat.succ_le_succ hBumps, hFree⟩
      · rintro ⟨bumps, hBumps, hFree⟩
        cases bumps with
        | zero => exact absurd (snapshotExists_iff.mp hTaken) hFree
        | succ bumps => exact ⟨bumps, Nat.le_of_succ_le_succ hBumps, hFree⟩
    · rename_i hFree
      have hSlot : candidate ∉ book.slots := fun h => hFree (snapshotExists_iff.mpr h)
      exact iff_of_true hSlot ⟨0, Nat.zero_le _, hSlot⟩

end Inserts

instance [DecidableEq φ] (book : PenaltyBook φ π) (event : BookEvent φ π) :
    Decidable (Slotted lang book event) :=
  match event with
  | .pin _ => inferInstanceAs (Decidable (∀ row ∈ book.versions,
      row.version = book.ruleset.version → row.definition = book.ruleset.definition))
  | .publish _ => decidable_of_iff (book.publishedVersion lang ∉ book.slots)
      (nextFreePenaltyVersion_free 1000 book.ruleset.version)
  | .edit _ => inferInstanceAs (Decidable True)
  | .rollback _ => inferInstanceAs (Decidable True)
  | .unpin _ => inferInstanceAs (Decidable True)
  | .held _ => inferInstanceAs (Decidable True)

/-! ## The steps -/

section Steps

variable {book book' : PenaltyBook φ π}

/-- A write of version rows leaves the old ones, and adds at most one under a free slot. -/
inductive Grows (book book' : PenaltyBook φ π) : Prop
  | same (hRecords : book'.records = book.records)
  | one {version : String} {definition : PenaltyDefinition φ} (hFree : version ∉ book.slots)
      (hRecords : book'.records = book.records ++ [(version, definition)])

theorem Grows.kept (h : Grows book book') : ∀ record ∈ book.records, record ∈ book'.records := by
  intro record hRecord
  cases h with
  | same hRecords => rwa [hRecords]
  | one _ hRecords =>
    rw [hRecords]
    exact List.mem_append_left _ hRecord

theorem Grows.unique (h : Grows book book') (hUnique : book.slots.Nodup) : book'.slots.Nodup := by
  rw [slots_eq_records] at hUnique ⊢
  cases h with
  | same hRecords => rwa [hRecords]
  | one hFree hRecords =>
    rw [slots_eq_records] at hFree
    rw [hRecords, List.map_append, List.map_singleton]
    exact List.nodup_append.mpr ⟨hUnique, List.nodup_singleton _, by
      rintro a ha b hb rfl
      rw [List.mem_singleton.mp hb] at ha
      exact hFree ha⟩

theorem grows_snapshot (book : PenaltyBook φ π) : Grows book book.snapshotPenaltyVersion := by
  by_cases h : book.ruleset.version ∈ book.slots
  · rw [snapshot_versions_of_mem h]
    exact .same rfl
  · exact .one h (snapshot_records_of_not_mem h)

theorem grows_freeze (book : PenaltyBook φ π) : Grows book book.freezePenaltyRulesetVersion := by
  by_cases h : book.ruleset.version ∈ book.slots
  · exact .same (freeze_records_of_mem h)
  · exact .one h (freeze_records_of_not_mem h)

/-- The rows alone decide how a table grows. -/
theorem Grows.congr {other other' : PenaltyBook φ π} (h : Grows book book')
    (hBefore : other.versions = book.versions) (hAfter : other'.versions = book'.versions) :
    Grows other other' := by
  have hRecords : other.records = book.records := by rw [PenaltyBook.records, hBefore]; rfl
  have hRecords' : other'.records = book'.records := by rw [PenaltyBook.records, hAfter]; rfl
  cases h with
  | same hSame => exact .same (by rw [hRecords, hRecords', hSame])
  | one hFree hOne =>
    refine .one ?_ (by rw [hRecords, hRecords', hOne])
    rwa [slots_eq_records, hRecords, ← slots_eq_records]

variable [DecidableEq π] {event : BookEvent φ π}

theorem grows_of_step (hStep : bookStep lang book event book') : Grows book book' := by
  cases event with
  | edit dto =>
    simp only [bookStep, BookEvent.apply, PenaltyBook.updateRuleset] at hStep
    split_ifs at hStep
    obtain rfl := Option.some.inj hStep
    exact .same rfl
  | publish nextVersion =>
    simp only [bookStep, BookEvent.apply, PenaltyBook.publishRuleset] at hStep
    split_ifs at hStep
    all_goals
      obtain rfl := Option.some.inj hStep
      exact (grows_snapshot (book.setVersion (book.publishedVersion lang))).congr rfl rfl
  | rollback versionId =>
    simp only [bookStep, BookEvent.apply, PenaltyBook.rollbackRuleset] at hStep
    split_ifs at hStep
    obtain ⟨snapshot, _, rfl⟩ := Option.map_eq_some_iff.mp hStep
    exact .same rfl
  | pin pinner =>
    obtain rfl := Option.some.inj hStep
    exact (grows_freeze (book.writePin pinner)).congr rfl rfl
  | unpin pinner =>
    obtain rfl := Option.some.inj hStep
    exact .same rfl
  | held byBout =>
    obtain rfl := Option.some.inj hStep
    exact .same rfl

/-! ### A pin and a publish -/

theorem pin_pins (book : PenaltyBook φ π) (pinner : π) :
    (pinner, book.ruleset.version) ∈ (book.assignRuleset pinner).pins := by
  rw [PenaltyBook.assignRuleset, PenaltyBook.freezePenaltyRulesetVersion]
  split <;> exact List.mem_cons_self

omit [DecidableEq π] in
/-- A freeze is recorded where its slot was free or held its definition. -/
theorem freeze_recorded (hSlot : ∀ row ∈ book.versions, row.version = book.ruleset.version →
      row.definition = book.ruleset.definition) :
    (book.ruleset.version, book.ruleset.definition) ∈ book.freezePenaltyRulesetVersion.records := by
  by_cases h : book.ruleset.version ∈ book.slots
  · rw [freeze_records_of_mem h]
    obtain ⟨row, hRow, hVersion⟩ := List.mem_map.mp h
    refine List.mem_map.mpr ⟨row, hRow, ?_⟩
    rw [VersionRow.record, hSlot row hRow hVersion, hVersion]
  · rw [freeze_records_of_not_mem h]
    exact List.mem_append_right _ List.mem_cons_self

/-- A publish writes at the version it found, and only where that one is free. -/
theorem publish_records {nextVersion : Option String}
    (hStep : bookStep lang book (.publish nextVersion) book') :
    book'.records =
      if book.publishedVersion lang ∈ book.slots then book.records
      else book.records ++ [(book.publishedVersion lang, book.ruleset.definition)] := by
  have hRecords :
      book'.records = (book.setVersion (book.publishedVersion lang)).snapshotPenaltyVersion.records := by
    simp only [bookStep, BookEvent.apply, PenaltyBook.publishRuleset] at hStep
    split_ifs at hStep
    all_goals
      obtain rfl := Option.some.inj hStep
      rfl
  rw [hRecords]
  split
  · rename_i hTaken
    rw [snapshot_versions_of_mem hTaken]
    rfl
  · rename_i hFree
    exact snapshot_records_of_not_mem hFree

theorem publish_own_row {nextVersion : Option String}
    (hStep : bookStep lang book (.publish nextVersion) book') :
    (∃ version, version ∉ book.slots ∧ (version, book.ruleset.definition) ∈ book'.records) ↔
      ∃ bumps ≤ 1000, (bumpPenaltyVersion lang)^[bumps] book.ruleset.version ∉ book.slots := by
  rw [← nextFreePenaltyVersion_free, ← PenaltyBook.publishedVersion, publish_records hStep]
  constructor
  · rintro ⟨version, hFree, hRow⟩ hTaken
    rw [if_pos hTaken] at hRow
    rw [slots_eq_records] at hFree
    exact hFree (List.mem_map_of_mem (f := Prod.fst) hRow)
  · intro hFree
    refine ⟨book.publishedVersion lang, hFree, ?_⟩
    rw [if_neg hFree]
    exact List.mem_append_right _ List.mem_cons_self

end Steps

/-! ## The runs -/

section Runs

variable [DecidableEq π] {start book : PenaltyBook φ π}
  {moves : List (Move (PenaltyBook φ π) (BookEvent φ π))}

theorem unique_of_run (hRun : Run (bookStep lang) start moves book) (hStart : start.slots.Nodup) :
    book.slots.Nodup :=
  (hRun.invariant hStart fun _ _ _ hUnique hStep => (grows_of_step hStep).unique hUnique).1

/-- Every record a run has passed is there at its end. -/
theorem kept_of_run (hRun : Run (bookStep lang) start moves book) :
    ∀ m ∈ moves, ∀ record ∈ m.before.records ++ m.after.records, record ∈ book.records := by
  induction hRun with
  | start => exact fun m hm => absurd hm List.not_mem_nil
  | @move moves s s' event hRun hStep ih =>
    have hGrows := (grows_of_step hStep).kept
    intro m hm record hRecord
    rcases List.mem_append.mp hm with hm | hm
    · exact hGrows record (ih m hm record hRecord)
    · rw [List.mem_singleton.mp hm] at hRecord
      rcases List.mem_append.mp hRecord with hRecord | hRecord
      · exact hGrows record hRecord
      · exact hRecord

theorem pin_slotted (hRun : Run (bookStep lang) start moves book) (hStart : start.slots.Nodup)
    {m : Move (PenaltyBook φ π) (BookEvent φ π)} (hm : m ∈ moves)
    (hRecord : (m.before.ruleset.version, m.before.ruleset.definition) ∈ book.records) :
    ∀ row ∈ m.before.versions, row.version = m.before.ruleset.version →
      row.definition = m.before.ruleset.definition := by
  intro row hRow hVersion
  have hOld : row.record ∈ m.before.records := List.mem_map_of_mem hRow
  have hKept := kept_of_run hRun m hm row.record (List.mem_append_left _ hOld)
  rw [VersionRow.record, hVersion] at hKept
  exact definition_unique (unique_of_run hRun hStart) hKept hRecord

/-- A run records its pins and publishes exactly when each finds its slot. -/
theorem bookLaw_iff (hRun : Run (bookStep lang) start moves book) (hStart : start.slots.Nodup) :
    BookLaw moves book ↔ ∀ m ∈ moves, Slotted lang m.before m.event := by
  constructor
  · intro law m hm
    have hStep := hRun.step_of_mem m hm
    cases hEvent : m.event with
    | pin pinner => exact pin_slotted hRun hStart hm (law.pinned m hm pinner hEvent).2
    | publish nextVersion =>
      rw [hEvent] at hStep
      exact (publish_own_row hStep).mp (law.published m hm nextVersion hEvent)
    | edit _ => trivial
    | rollback _ => trivial
    | unpin _ => trivial
    | held _ => trivial
  · intro hSlotted
    refine ⟨fun m hm pinner hEvent => ?_, fun m hm nextVersion hEvent => ?_, kept_of_run hRun,
      unique_of_run hRun hStart⟩
    · have hStep := hRun.step_of_mem m hm
      have hSlot := hSlotted m hm
      rw [hEvent] at hStep hSlot
      have hAfter : m.after = m.before.assignRuleset pinner := (Option.some.inj hStep).symm
      have hRecord : (m.before.ruleset.version, m.before.ruleset.definition) ∈
          (m.before.writePin pinner).freezePenaltyRulesetVersion.records := freeze_recorded hSlot
      rw [← PenaltyBook.assignRuleset, ← hAfter] at hRecord
      refine ⟨?_, kept_of_run hRun m hm _ (List.mem_append_right _ hRecord)⟩
      rw [hAfter]
      exact pin_pins m.before pinner
    · have hStep := hRun.step_of_mem m hm
      have hSlot := hSlotted m hm
      rw [hEvent] at hStep hSlot
      exact (publish_own_row hStep).mpr hSlot

end Runs

/-! ## A first and a second pin -/

/-- The language on texts without blanks and on the number 0. -/
def plainText : VersionText := ⟨id, fun tail => if tail = "0" then "1" else "2"⟩

def houseCards : PenaltyBook Unit ℕ where
  ruleset :=
    { columns := ⟨"House cards", none, .bout, 0, -1, 0, .bout, .tournament, ()⟩
      entries := [⟨1, "R1", "Late", "Late hit", ["yellow", "red"], 1⟩]
      version := "1.0.0" }
  versions := []
  pins := []
  heldByBout := false

def renamed : PenaltyEdit Unit :=
  ⟨some "Club cards", none, none, none, none, none, none, none, none, none⟩

/-- A pin taken back, the publish that finds its slot taken, and the pin of the next version. -/
def publishedBetween : List (BookEvent Unit ℕ) :=
  [.pin 1, .unpin 1, .publish none, .edit renamed, .pin 2]

theorem bookLaw_publishedBetween : ∃ (book : PenaltyBook Unit ℕ)
    (moves : List (Move (PenaltyBook Unit ℕ) (BookEvent Unit ℕ))),
    moves.map (·.event) = publishedBetween ∧ book.slots = ["1.0.0", "1.0.1", "1.0.2"] ∧
      BookLaw moves book := by
  have hReplay : ∃ r, replay (fun book event => event.apply plainText book) houseCards
      publishedBetween = some r ∧ (∀ m ∈ r.1, Slotted plainText m.before m.event) ∧
      r.1.map (·.event) = publishedBetween ∧ r.2.slots = ["1.0.0", "1.0.1", "1.0.2"] :=
    ⟨_, rfl, by decide, rfl, rfl⟩
  obtain ⟨⟨moves, book⟩, hRun, hSlotted, hEvents, hSlots⟩ := hReplay
  have hBook : Run (bookStep plainText) houseCards moves book := run_of_replay hRun
  exact ⟨book, moves, hEvents, hSlots, (bookLaw_iff hBook List.nodup_nil).mpr hSlotted⟩

/-- The same ruleset edited between two pins of one version. -/
def editedBetween : List (BookEvent Unit ℕ) := [.pin 1, .unpin 1, .edit renamed, .pin 2]

/-- The second pin names the row of the first one's definition. -/
theorem editedBetween_unrecorded : ¬∀ (book : PenaltyBook Unit ℕ)
    (moves : List (Move (PenaltyBook Unit ℕ) (BookEvent Unit ℕ))),
    Run (bookStep plainText) houseCards moves book → BookLaw moves book := by
  have hReplay : ∃ r, replay (fun book event => event.apply plainText book) houseCards
      editedBetween = some r ∧ ∃ m ∈ r.1, m.event = .pin 2 ∧
      (m.before.ruleset.version, m.before.ruleset.definition) ∉ r.2.records :=
    ⟨_, rfl, _, List.mem_of_getElem? (i := 3) rfl, rfl, by decide⟩
  obtain ⟨⟨moves, book⟩, hRun, m, hm, hEvent, hUnrecorded⟩ := hReplay
  intro hAll
  exact hUnrecorded ((hAll book moves (run_of_replay hRun)).pinned m hm 2 hEvent).2

end MyClash.Penalties
