import MyClash.Library.NumberedQueue
import MyClash.Fighters.Status

/-!
# The registrations of a Tournament and its waiting list

The doors of the registrations service on one Tournament, over the rows the database keeps. The
database refuses a write that leaves a row against a constraint; the writes of the waiting list's
places do not look at the answer.
-/

namespace MyClash.Registrations

open NumberedQueue StableSort
open Fighters (EntryStatus Status FighterOutcome)

universe u v

deriving instance DecidableEq for EntryStatus

/-! ## The table -/

structure Registration (ι : Type u) (π : Type v) where
  id : ι
  person_id : π
  bib_number : Option ℕ
  status : Status
  entry_status : EntryStatus
  waitlist_position : Option ℤ

section Table

variable {ι : Type u} {π : Type v}

def Registration.waits (row : Registration ι π) : Bool := row.status = .waitlist

/-- The place a row waits at; read of waiting rows alone, which have one. -/
def Registration.place (row : Registration ι π) : ℤ := row.waitlist_position.getD 0

def Registration.withPlace (p : ℤ) (row : Registration ι π) : Registration ι π :=
  { row with waitlist_position := some p }

/-- `registration_waitlist_position_check` and `registrations_status_follows_entry`. -/
structure Registration.Checked (row : Registration ι π) : Prop where
  waitlist_position : if row.waits = true then ∃ p ∈ row.waitlist_position, 1 ≤ p
    else row.waitlist_position = none
  follows_entry : row.status = row.entry_status.status ∨ row.status = .withdrawn ∨
    row.status = .disqualified

instance (row : Registration ι π) : Decidable row.Checked :=
  decidable_of_iff (_ ∧ _) ⟨fun h => ⟨h.1, h.2⟩, fun h => ⟨h.1, h.2⟩⟩

/-- The rows as the database keeps them, in the order they were put in. -/
structure Constraints (rows : List (Registration ι π)) : Prop where
  key : (rows.map (·.id)).Nodup
  person_id : (rows.map (·.person_id)).Nodup
  checked : ∀ row ∈ rows, row.Checked
  waitlist_position_idx : ((rows.filter (·.waits)).map (·.waitlist_position)).Nodup

instance [DecidableEq ι] [DecidableEq π] (rows : List (Registration ι π)) :
    Decidable (Constraints rows) :=
  decidable_of_iff (_ ∧ _ ∧ _ ∧ _)
    ⟨fun h => ⟨h.1, h.2.1, h.2.2.1, h.2.2.2⟩, fun h => ⟨h.1, h.2, h.3, h.4⟩⟩

theorem Constraints.filter {rows : List (Registration ι π)} (h : Constraints rows)
    (p : Registration ι π → Bool) : Constraints (rows.filter p) where
  key := h.key.sublist (List.filter_sublist.map _)
  person_id := h.person_id.sublist (List.filter_sublist.map _)
  checked row hRow := h.checked row (List.mem_of_mem_filter hRow)
  waitlist_position_idx := h.waitlist_position_idx.sublist
    ((List.filter_sublist.filter _).map _)

structure Table (ι : Type u) (π : Type v) where
  rows : List (Registration ι π)
  constraints : Constraints rows

namespace Table

def empty : Table ι π where
  rows := []
  constraints := ⟨.nil, .nil, nofun, .nil⟩

def waitlist (t : Table ι π) : List (Registration ι π) := t.rows.filter (·.waits)

/-- Who waits, in the order they joined, and at which place. -/
def queue (t : Table ι π) : Queue ι := t.waitlist.map fun row => (row.id, row.place)

/-- The waiting list by place. -/
def byPlace (t : Table ι π) : Queue ι := sortWith (fun a b => compare a.2 b.2) t.queue

/-- The entries that hold a seat. -/
def seated (t : Table ι π) : ℕ :=
  t.rows.countP fun row => row.status = .registered || row.status = .checked_in

variable [DecidableEq ι]

def find (id : ι) (t : Table ι π) : Option (Registration ι π) := t.rows.find? (·.id = id)

def delete (id : ι) (t : Table ι π) : Table ι π where
  rows := t.rows.filter fun row => row.id ≠ id
  constraints := t.constraints.filter _

variable [DecidableEq π]

/-- The rows written, or nothing where the database refuses them. -/
def write (rows : List (Registration ι π)) : Option (Table ι π) :=
  if h : Constraints rows then some ⟨rows, h⟩ else none

def insert (row : Registration ι π) (t : Table ι π) : Option (Table ι π) := write (t.rows ++ [row])

def update (id : ι) (set : Registration ι π → Registration ι π) (t : Table ι π) :
    Option (Table ι π) := write (t.rows.map fun row => if row.id = id then set row else row)

/-- The place written, with the database's refusal passed over. -/
def setPlace (id : ι) (p : ℤ) (t : Table ι π) : Table ι π :=
  (t.update id (Registration.withPlace p)).getD t

end Table

end Table

/-! ## The doors -/

inductive RequestedStatus where
  | registered
  | checked_in
  | done
  | withdrawn
  | disqualified

/-- What a request names of the organiser's hand. -/
def RequestedStatus.entry : RequestedStatus → Option EntryStatus
  | .registered => some .registered
  | .checked_in => some .checked_in
  | .withdrawn => some .withdrawn
  | .done => none
  | .disqualified => none

def REGISTRATION_STATUS_TRANSITIONS : EntryStatus → List EntryStatus
  | .registered => [.checked_in, .withdrawn]
  | .checked_in => [.withdrawn]
  | .withdrawn => [.registered]
  | .waitlist => []

inductive Refusal (ι : Type u) where
  | notFound (id : ι)
  | entry_status_changed
  | tournament_full (registeredCount maxParticipants : ℕ)
  | waitlist_full (currentCount : ℤ) (maxWaitlist : ℕ)
  | alreadyRegistered
  | cannotTransition (entry : EntryStatus) (requested : RequestedStatus)
  | results_closed
  | notOnTheWaitlist
  | notAWaitlistEntry (id : ι)
  | everyEntryOnce (got expected : ℕ)
  | notWritten

/-- What the doors read beside the table: the caps, what holds each Fighter out under the rules in
force, whether the results of the Event are open and whether the row may be deleted. -/
structure Answers (ι : Type u) where
  max_participants : Option ℕ
  max_waitlist : Option ℕ
  held : ι → Option FighterOutcome
  resultsOpen : Bool
  deletable : Bool

inductive Door (ι : Type u) (π : Type v) where
  | create (id : ι) (person : π) (bib : Option ℕ)
  | addToWaitlist (id : ι) (person : π)
  | updateStatus (id : ι) (requested : RequestedStatus)
  | promoteFromWaitlist (id : ι) (force : Bool)
  | reorderWaitlist (ordered : List ι)
  | delete (id : ι)
  /-- Any other door that settles the Fighter. -/
  | settle (id : ι)

/-- The table a door leaves, and its refusal if it answered one. -/
abbrev Answered (ι : Type u) (π : Type v) := Table ι π × Option (Refusal ι)

section Doors

variable {ι : Type u} {π : Type v} [DecidableEq ι] [DecidableEq π] (answers : Answers ι)

def statusUnder (held : Option FighterOutcome) (entry : EntryStatus) : Status :=
  match held with
  | some .disqualified => .disqualified
  | some .withdrawn => .withdrawn
  | none => entry.status

def Registration.settled (held : Option FighterOutcome) (entry : EntryStatus) (clear : Bool)
    (row : Registration ι π) : Registration ι π :=
  { row with
    entry_status := entry
    status := statusUnder held entry
    waitlist_position := if clear then none else row.waitlist_position }

/-- The change of the organiser's hand a settle carries. -/
structure EntryChange where
  status : EntryStatus
  expected : EntryStatus
  clearWaitlist : Bool

def SEATED : EntryChange := ⟨.registered, .waitlist, true⟩

/-- `settle_fighter_status`, and how the service answers its errors. -/
def settle (id : ι) (change : Option EntryChange) (t : Table ι π) :
    Except (Refusal ι) (Table ι π) :=
  match t.find id with
  | none => .error (.notFound id)
  | some reg =>
    if change.any fun change => change.expected ≠ reg.entry_status then
      .error .entry_status_changed
    else
      let entry := (change.map (·.status)).getD reg.entry_status
      match t.update id
        (Registration.settled (answers.held id) entry (change.any (·.clearWaitlist))) with
      | none => .error .notWritten
      | some t => .ok t

/-- The refusal of a Tournament whose seats are taken. -/
def assertCapacityForCreate (t : Table ι π) : Option (Refusal ι) :=
  match answers.max_participants with
  | none => none
  | some max => if max ≤ t.seated then some (.tournament_full t.seated max) else none

/-- A row without a number comes first, and counts as zero. -/
def nextBibNumber (t : Table ι π) : ℕ :=
  let bibs := t.rows.map (·.bib_number)
  if none ∈ bibs then 1 else (bibs.map (·.getD 0)).foldl max 0 + 1

def create (id : ι) (person : π) (bib : Option ℕ) (t : Table ι π) : Answered ι π :=
  match assertCapacityForCreate answers t with
  | some refusal => (t, some refusal)
  | none =>
    let bibNumber := bib.getD (nextBibNumber t)
    match t.insert ⟨id, person, some bibNumber, .registered, .registered, none⟩ with
    | none => (t, some .alreadyRegistered)
    | some t => (t, none)

def addToWaitlist (id : ι) (person : π) (t : Table ι π) : Answered ι π :=
  let highestPosition := (t.byPlace.getLast?.map Prod.snd).getD 0
  let nextPosition := highestPosition + 1
  match answers.max_waitlist.filter fun max : ℕ => (max : ℤ) < nextPosition with
  | some max => (t, some (.waitlist_full highestPosition max))
  | none =>
    match t.insert ⟨id, person, none, .waitlist, .waitlist, some nextPosition⟩ with
    | none => (t, some .alreadyRegistered)
    | some t => (t, none)

/-- Two passes: below zero first, so as to free the places, then at the place. -/
def shiftWaitlistPositionsDown (rows : Queue ι) (t : Table ι π) : Table ι π :=
  let t := rows.foldl (fun t row => t.setPlace row.1 (-(row.2 - 1))) t
  rows.foldl (fun t row => t.setPlace row.1 (row.2 - 1)) t

def autoPromoteFirstWaitlist (t : Table ι π) : Answered ι π :=
  match t.byPlace with
  | [] => (t, none)
  | first :: behind =>
    match settle answers first.1 (some SEATED) t with
    | .error .entry_status_changed => (t, none)
    | .error refusal => (t, some refusal)
    | .ok t => (shiftWaitlistPositionsDown behind t, none)

def updateStatus (id : ι) (requested : RequestedStatus) (t : Table ι π) : Answered ι π :=
  match t.find id with
  | none => (t, some (.notFound id))
  | some reg =>
    match requested.entry.filter (· ∈ REGISTRATION_STATUS_TRANSITIONS reg.entry_status) with
    | none =>
      if requested.entry = some reg.entry_status then
        -- a retry of a change that took
        match settle answers id none t with
        | .error refusal => (t, some refusal)
        | .ok t => (t, some (.cannotTransition reg.entry_status requested))
      else (t, some (.cannotTransition reg.entry_status requested))
    | some status =>
      if status ≠ .checked_in ∧ answers.resultsOpen = false then (t, some .results_closed)
      else
        match if status = .registered then assertCapacityForCreate answers t else none with
        | some refusal => (t, some refusal)
        | none =>
          match settle answers id (some ⟨status, reg.entry_status, false⟩) t with
          | .error refusal => (t, some refusal)
          | .ok t => if status = .withdrawn then autoPromoteFirstWaitlist answers t else (t, none)

def promoteFromWaitlist (id : ι) (force : Bool) (t : Table ι π) : Answered ι π :=
  match t.find id with
  | none => (t, some (.notFound id))
  | some row =>
    match row.waitlist_position.filter fun _ => row.entry_status = .waitlist with
    | none =>
      match settle answers id none t with
      | .error refusal => (t, some refusal)
      | .ok t => (t, some .notOnTheWaitlist)
    | some place =>
      if answers.resultsOpen = false then (t, some .results_closed)
      else
        match if force then none else assertCapacityForCreate answers t with
        | some refusal => (t, some refusal)
        | none =>
          match settle answers id (some SEATED) t with
          | .error refusal => (t, some refusal)
          | .ok t =>
            (shiftWaitlistPositionsDown (t.byPlace.filter fun row => place < row.2) t, none)

/-- Every place below zero first, then each entry at its place. -/
def reorderWaitlist (ordered : List ι) (t : Table ι π) : Answered ι π :=
  let validIds := t.waitlist.map (·.id)
  match ordered.find? (· ∉ validIds) with
  | some id => (t, some (.notAWaitlistEntry id))
  | none =>
    if ordered.length ≠ validIds.length then
      (t, some (.everyEntryOnce ordered.length validIds.length))
    else
      let t := ordered.zipIdx.foldl (fun t x => t.setPlace x.1 (-(x.2 + 1))) t
      (ordered.zipIdx.foldl (fun t x => t.setPlace x.1 (x.2 + 1)) t, none)

def delete (id : ι) (t : Table ι π) : Answered ι π :=
  let existing := t.find id
  if answers.deletable = false then (t, some .notWritten)
  else
    let t := t.delete id
    match existing.bind fun row => row.waitlist_position.filter fun _ => row.waits with
    | none => (t, none)
    | some place =>
      (shiftWaitlistPositionsDown (t.byPlace.filter fun row => place < row.2) t, none)

def callDoor : Door ι π → Table ι π → Answered ι π
  | .create id person bib => create answers id person bib
  | .addToWaitlist id person => addToWaitlist answers id person
  | .updateStatus id requested => updateStatus answers id requested
  | .promoteFromWaitlist id force => promoteFromWaitlist answers id force
  | .reorderWaitlist ordered => reorderWaitlist ordered
  | .delete id => delete answers id
  | .settle id => fun t =>
    match settle answers id none t with
    | .error refusal => (t, some refusal)
    | .ok t => (t, none)

/-- A door called, with what it reads beside the table. -/
def doorStep (t : Table ι π) (event : Door ι π × Answers ι) (t' : Table ι π) : Prop :=
  (callDoor event.2 event.1 t).1 = t'

end Doors

end MyClash.Registrations
