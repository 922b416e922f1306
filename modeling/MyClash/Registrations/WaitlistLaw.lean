import MyClash.Registrations.Waitlist
import MyClash.Library.Run

/-!
# The waiting list in order

Whatever doors are called, those who wait stand in the order they joined and their places are
`1, 2, 3, …`: each door that takes one out closes the gap behind them. A place below zero is
refused by the database, so that the first pass of a reorder frees nothing and the second finds
every place taken. Where nobody is held out and no promotion is forced, the seats taken stay within
the cap.
-/

namespace MyClash.Registrations

open NumberedQueue StableSort Runs
open Fighters (EntryStatus Status FighterOutcome)

universe u v

variable {ι : Type u} {π : Type v}

/-! ## Rows -/

theorem Registration.Checked.waits_eq {row : Registration ι π} (h : row.Checked) :
    row.waits = row.waitlist_position.isSome := by
  have hPlace := h.waitlist_position
  split at hPlace
  · next hWaits =>
    obtain ⟨p, hp, -⟩ := hPlace
    rw [hWaits, Option.mem_def.mp hp, Option.isSome_some]
  · next hWaits => rw [hPlace, Bool.eq_false_iff.mpr hWaits, Option.isSome_none]

theorem Registration.Checked.place_spec {row : Registration ι π} (h : row.Checked)
    (hWaits : row.waits = true) : row.waitlist_position = some row.place ∧ 1 ≤ row.place := by
  have hPlace := h.waitlist_position
  rw [if_pos hWaits] at hPlace
  obtain ⟨p, hp, hFirst⟩ := hPlace
  rw [Option.mem_def] at hp
  rw [Registration.place, hp]
  exact ⟨rfl, hFirst⟩

namespace Table

variable {t t' : Table ι π}

theorem mem_waitlist {row : Registration ι π} :
    row ∈ t.waitlist ↔ row ∈ t.rows ∧ row.waits = true := List.mem_filter

theorem eq_of_id {row row' : Registration ι π} (hRow : row ∈ t.rows) (hRow' : row' ∈ t.rows)
    (h : row.id = row'.id) : row = row' :=
  List.inj_on_of_nodup_map t.constraints.key hRow hRow' h

theorem place_spec {row : Registration ι π} (hRow : row ∈ t.waitlist) :
    row.waitlist_position = some row.place ∧ 1 ≤ row.place :=
  (t.constraints.checked row (mem_waitlist.mp hRow).1).place_spec (mem_waitlist.mp hRow).2

/-- The queue is read off the places: the rows that have one are those that wait. -/
theorem queue_eq (t : Table ι π) :
    t.queue = t.rows.filterMap fun row => row.waitlist_position.map fun p => (row.id, p) := by
  rw [queue, waitlist, ← List.filterMap_eq_map, List.filterMap_filter]
  apply List.filterMap_congr
  intro row hRow
  have hChecked := t.constraints.checked row hRow
  split
  · next hWaits =>
    rw [(hChecked.place_spec hWaits).1]
    rfl
  · next hWaits =>
    rw [hChecked.waits_eq, Bool.not_eq_true, Option.isSome_eq_false_iff, Option.isNone_iff_eq_none]
      at hWaits
    rw [hWaits]
    rfl

theorem mem_queue {id : ι} {p : ℤ} :
    (id, p) ∈ t.queue ↔ ∃ row ∈ t.rows, row.id = id ∧ row.waitlist_position = some p := by
  rw [queue_eq, List.mem_filterMap]
  constructor
  · rintro ⟨row, hRow, hEntry⟩
    obtain ⟨q, hq, hPair⟩ := Option.map_eq_some_iff.mp hEntry
    obtain ⟨rfl, rfl⟩ := Prod.mk.inj hPair
    exact ⟨row, hRow, rfl, hq⟩
  · rintro ⟨row, hRow, rfl, hPlace⟩
    exact ⟨row, hRow, by rw [hPlace, Option.map_some]⟩

theorem map_fst_queue (t : Table ι π) : t.queue.map Prod.fst = t.waitlist.map (·.id) := by
  rw [queue, List.map_map]
  rfl

theorem nodup_keys (t : Table ι π) : (t.queue.map Prod.fst).Nodup := by
  rw [map_fst_queue]
  exact t.constraints.key.sublist (List.filter_sublist.map _)

/-- No two wait at one place. -/
theorem eq_of_place {id id' : ι} {p : ℤ} (h : (id, p) ∈ t.queue) (h' : (id', p) ∈ t.queue) :
    id = id' := by
  have hPlaces : (t.queue.map Prod.snd).Nodup := by
    have hIdx := t.constraints.waitlist_position_idx
    have hSome : t.waitlist.map (·.waitlist_position) = (t.queue.map Prod.snd).map some := by
      rw [queue, List.map_map, List.map_map]
      exact List.map_congr_left fun row hRow => (place_spec hRow).1
    rw [waitlist] at hSome
    rw [hSome] at hIdx
    exact List.Nodup.of_map _ hIdx
  exact congrArg Prod.fst (List.inj_on_of_nodup_map hPlaces h h' rfl)

theorem one_le_of_mem_queue {x : ι × ℤ} (hx : x ∈ t.queue) : 1 ≤ x.2 := by
  obtain ⟨row, hRow, rfl⟩ := List.mem_map.mp hx
  exact (place_spec hRow).2

theorem mem_byPlace {x : ι × ℤ} : x ∈ t.byPlace ↔ x ∈ t.queue := mem_sortWith

theorem byPlace_of_numbered (h : Numbered t.queue) : t.byPlace = t.queue :=
  sortWith_eq_self (h.pairwise.imp fun hLt => by
    rw [Int.compare_eq_lt.mpr hLt]
    rfl)

section Writes

variable [DecidableEq ι]

theorem queue_delete (id : ι) (t : Table ι π) :
    (t.delete id).queue = t.queue.filter (·.1 ≠ id) := by
  rw [queue, waitlist, delete, queue, waitlist, List.filter_map, List.filter_comm]
  rfl

theorem mem_of_find {id : ι} {row : Registration ι π} (h : t.find id = some row) :
    row ∈ t.rows ∧ row.id = id :=
  ⟨List.mem_of_find?_eq_some h, by simpa using List.find?_some h⟩

variable [DecidableEq π]

theorem write_eq_some {rows : List (Registration ι π)} (h : write rows = some t') :
    t'.rows = rows := by
  unfold write at h
  split at h
  · cases h
    rfl
  · cases h

theorem write_rows (t : Table ι π) : write t.rows = some t := dif_pos t.constraints

theorem queue_insert {row : Registration ι π} (h : t.insert row = some t') :
    t'.queue = t.queue ++ (row.waitlist_position.map fun p => (row.id, p)).toList := by
  rw [queue_eq, write_eq_some h, List.filterMap_append, ← queue_eq]
  cases h : row.waitlist_position <;> simp [h]

variable {id : ι} {p : ℤ} {set : Registration ι π → Registration ι π}

/-- An update that leaves the place of the row leaves the queue. -/
theorem queue_update_of_same (hId : ∀ row, (set row).id = row.id)
    (hPlace : ∀ row, (set row).waitlist_position = row.waitlist_position)
    (h : t.update id set = some t') : t'.queue = t.queue := by
  rw [queue_eq, write_eq_some h, List.filterMap_map, queue_eq]
  apply List.filterMap_congr
  intro row _
  rw [Function.comp_apply]
  split
  · rw [hPlace, hId]
  · rfl

/-- An update that takes the place of the row takes the row out of the queue. -/
theorem queue_update_of_none (hPlace : ∀ row, (set row).waitlist_position = none)
    (h : t.update id set = some t') : t'.queue = t.queue.filter (·.1 ≠ id) := by
  rw [queue_eq, write_eq_some h, List.filterMap_map, queue_eq, List.filter_filterMap]
  apply List.filterMap_congr
  intro row _
  rw [Function.comp_apply]
  split
  · next hId =>
    rw [hPlace, Option.map_none]
    cases row.waitlist_position with
    | none => rfl
    | some p => simp [Option.filter_some, hId]
  · next hId =>
    cases row.waitlist_position with
    | none => rfl
    | some p => simp [Option.filter_some, hId]

theorem rows_setPlace (h : t.update id (Registration.withPlace p) = some t') :
    t'.queue = t.queue.map fun x => if x.1 = id then (x.1, p) else x := by
  have hRows := write_eq_some h
  rw [queue_eq, hRows, List.filterMap_map, queue_eq, List.map_filterMap]
  apply List.filterMap_congr
  intro row hRow
  rw [Function.comp_apply]
  have hNew := t'.constraints.checked _ (hRows ▸ List.mem_map_of_mem hRow)
  have hOld := (t.constraints.checked row hRow).waits_eq
  split at hNew
  · next hId =>
    -- a row that does not wait takes no place
    have hSome : row.waitlist_position.isSome = true := hOld ▸ hNew.waits_eq
    obtain ⟨q, hq⟩ := Option.isSome_iff_exists.mp hSome
    simp [Registration.withPlace, hId, hq]
  · next hId =>
    cases h' : row.waitlist_position <;> simp [hId, h']

omit [DecidableEq π] in
theorem map_updated {α : Type*} (rows : List (Registration ι π))
    (set : Registration ι π → Registration ι π) (read : Registration ι π → α)
    (hSame : ∀ row, read (set row) = read row) :
    (rows.map fun row => if row.id = id then set row else row).map read = rows.map read := by
  rw [List.map_map]
  apply List.map_congr_left
  intro row _
  rw [Function.comp_apply]
  split
  · exact hSame row
  · rfl

omit [DecidableEq π] in
/-- A place that is free is written to one who waits. -/
theorem constraints_setPlace {q : ℤ} (hMem : (id, q) ∈ t.queue) (hFirst : 1 ≤ p)
    (hFree : ∀ x ∈ t.queue, x.1 ≠ id → x.2 ≠ p) :
    Constraints (t.rows.map fun row => if row.id = id then row.withPlace p else row) := by
  obtain ⟨member, hMember, rfl, hPlace⟩ := mem_queue.mp hMem
  have hWaits : member.waits = true := by
    rw [(t.constraints.checked member hMember).waits_eq, hPlace, Option.isSome_some]
  have hOther : ∀ row ∈ t.waitlist, row.id ≠ member.id → row.waitlist_position ≠ some p := by
    intro row hRow hId hTaken
    exact hFree (row.id, p) (mem_queue.mpr ⟨row, (mem_waitlist.mp hRow).1, rfl, hTaken⟩) hId rfl
  constructor
  · rw [map_updated t.rows (Registration.withPlace p) (·.id) fun _ => rfl]
    exact t.constraints.key
  · rw [map_updated t.rows (Registration.withPlace p) (·.person_id) fun _ => rfl]
    exact t.constraints.person_id
  · intro row hRow
    obtain ⟨old, hOld, rfl⟩ := List.mem_map.mp hRow
    split
    · next hId =>
      obtain rfl := eq_of_id hOld hMember hId
      constructor
      · exact (if_pos hWaits).symm ▸ ⟨p, rfl, hFirst⟩
      · exact (t.constraints.checked old hOld).follows_entry
    · exact t.constraints.checked old hOld
  · have hWaiting : (t.rows.map fun row => if row.id = member.id then row.withPlace p
        else row).filter (·.waits) =
        t.waitlist.map fun row => if row.id = member.id then row.withPlace p else row := by
      rw [List.filter_map, waitlist]
      congr 1
      apply List.filter_congr
      intro row _
      rw [Function.comp_apply]
      split <;> rfl
    rw [hWaiting, List.map_map]
    have hKeys : t.waitlist.Nodup :=
      (List.Nodup.of_map _ t.constraints.key).sublist List.filter_sublist
    apply hKeys.map_on
    intro x hx y hy hSame
    simp only [Function.comp_apply] at hSame
    split at hSame
    · next hxId =>
      split at hSame
      · next hyId =>
        exact eq_of_id (mem_waitlist.mp hx).1 (mem_waitlist.mp hy).1 (hxId.trans hyId.symm)
      · next hyId => exact absurd hSame.symm (hOther y hy hyId)
    · next hxId =>
      split at hSame
      · exact absurd hSame (hOther x hx hxId)
      · exact List.inj_on_of_nodup_map t.constraints.waitlist_position_idx hx hy hSame

/-- A place is written where it is free; the database refuses it elsewhere. -/
theorem queue_setPlace (id : ι) (p : ℤ) (t : Table ι π) :
    (t.setPlace id p).queue = place id p t.queue := by
  unfold setPlace
  cases h : t.update id (Registration.withPlace p) with
  | some t' =>
    have hQueue := rows_setPlace h
    rw [Option.getD_some, place]
    split
    · exact hQueue
    · next hTaken =>
      rw [hQueue]
      apply map_place_of_notMem
      intro hMem
      obtain ⟨⟨key, q⟩, hx, rfl⟩ := List.mem_map.mp hMem
      have hNew : (key, p) ∈ t'.queue := by
        rw [hQueue]
        exact List.mem_map.mpr ⟨_, hx, if_pos rfl⟩
      apply hTaken
      constructor
      · exact one_le_of_mem_queue hNew
      · rintro ⟨other, r⟩ hy hKey rfl
        have hOther : (other, r) ∈ t'.queue := by
          rw [hQueue]
          exact List.mem_map.mpr ⟨_, hy, if_neg hKey⟩
        exact hKey (eq_of_place hOther hNew)
  | none =>
    rw [Option.getD_none, place]
    split
    · next hFree =>
      symm
      apply map_place_of_notMem
      intro hMem
      obtain ⟨⟨key, q⟩, hx, rfl⟩ := List.mem_map.mp hMem
      rw [update, write, dif_pos (constraints_setPlace hx hFree.1 hFree.2)] at h
      cases h
    · rfl

theorem queue_foldl_setPlace (rows : Queue ι) (placeOf : ι × ℤ → ℤ) (t : Table ι π) :
    (rows.foldl (fun t row => t.setPlace row.1 (placeOf row)) t).queue =
      rows.foldl (fun queue row => place row.1 (placeOf row) queue) t.queue := by
  induction rows generalizing t with
  | nil => rfl
  | cons row rows ih => rw [List.foldl_cons, ih, queue_setPlace, List.foldl_cons]

/-- In a numbered queue no place is written: each is taken. -/
theorem setPlace_of_numbered (hNumbered : Numbered t.queue) (id : ι) {p : ℤ}
    (h : p ≤ t.queue.length) : t.setPlace id p = t := by
  unfold setPlace
  cases hUpdate : t.update id (Registration.withPlace p) with
  | none => rfl
  | some t' =>
    have hQueue := rows_setPlace hUpdate
    have hRows := write_eq_some hUpdate
    suffices hSame : t'.rows = t.rows by
      obtain ⟨rows, hConstraints⟩ := t
      obtain ⟨rows', hConstraints'⟩ := t'
      subst hSame
      rfl
    refine hRows.trans ((List.map_congr_left fun row hRow => ?_).trans (List.map_id' t.rows))
    split
    · next hId =>
      have hNew := t'.constraints.checked (row.withPlace p)
        (hRows ▸ List.mem_map.mpr ⟨row, hRow, if_pos hId⟩)
      have hSome : row.waitlist_position.isSome = true :=
        (t.constraints.checked row hRow).waits_eq ▸ hNew.waits_eq
      obtain ⟨q, hq⟩ := Option.isSome_iff_exists.mp hSome
      have hMember : (id, p) ∈ t'.queue := by
        rw [hQueue]
        exact List.mem_map.mpr ⟨(row.id, q), mem_queue.mpr ⟨row, hRow, rfl, hq⟩, by
          rw [if_pos hId, hId]⟩
      -- the place is somebody's: his own
      obtain ⟨⟨holder, r⟩, hHolder, hPlace⟩ :=
        hNumbered.exists_of_le (one_le_of_mem_queue hMember) h
      obtain rfl : r = p := hPlace
      have hOwn : holder = id := by
        by_contra hOther
        have hKept : (holder, r) ∈ t'.queue := by
          rw [hQueue]
          exact List.mem_map.mpr ⟨_, hHolder, if_neg hOther⟩
        exact hOther (eq_of_place hKept hMember)
      obtain ⟨row', hRow', hId', hPlace'⟩ := mem_queue.mp hHolder
      obtain rfl := eq_of_id hRow' hRow (hId'.trans (hOwn.trans hId.symm))
      rw [Registration.withPlace, ← hPlace']
    · rfl

end Writes

end Table

/-! ## Settles and gaps -/

section Doors

variable [DecidableEq ι] [DecidableEq π] {answers : Answers ι} {t t' : Table ι π} {id : ι}

open Table

theorem settle_ok {change : Option EntryChange} (h : settle answers id change t = .ok t') :
    ∃ reg, t.find id = some reg ∧ (∀ c ∈ change, c.expected = reg.entry_status) ∧
      t.update id (Registration.settled (answers.held id)
        ((change.map (·.status)).getD reg.entry_status)
        (change.any (·.clearWaitlist))) = some t' := by
  unfold settle at h
  split at h
  · cases h
  · next reg hFind =>
    split at h
    · cases h
    · next hExpected =>
      dsimp only at h
      split at h
      · cases h
      · next hUpdate =>
        cases h
        refine ⟨reg, hFind, fun c hc => ?_, hUpdate⟩
        rw [Option.mem_def.mp hc] at hExpected
        simpa using hExpected

theorem queue_settle {change : Option EntryChange}
    (hKeeps : change.any (·.clearWaitlist) = false)
    (h : settle answers id change t = .ok t') : t'.queue = t.queue := by
  obtain ⟨reg, -, -, hUpdate⟩ := settle_ok h
  refine queue_update_of_same (fun row => ?_) (fun row => ?_) hUpdate
  · rfl
  · rw [Registration.settled, hKeeps]
    rfl

theorem queue_seat (h : settle answers id (some SEATED) t = .ok t') :
    t'.queue = t.queue.filter (·.1 ≠ id) := by
  obtain ⟨reg, -, -, hUpdate⟩ := settle_ok h
  exact queue_update_of_none (fun _ => rfl) hUpdate

/-- The first pass of a shift frees nothing, the second moves each row up. -/
theorem queue_shift {rows : Queue ι} (hRows : ∀ x ∈ rows, 1 ≤ x.2) (t : Table ι π) :
    (shiftWaitlistPositionsDown rows t).queue = moveUp t.queue rows := by
  have hFirstPass : ∀ queue : Queue ι,
      rows.foldl (fun queue row => place row.1 (-(row.2 - 1)) queue) queue = queue := by
    induction rows with
    | nil => exact fun _ => rfl
    | cons row rows ih =>
      intro queue
      have hRow := hRows row List.mem_cons_self
      rw [List.foldl_cons, place_of_lt_one row.1 queue (by omega)]
      exact ih (fun x hx => hRows x (List.mem_cons_of_mem row hx)) queue
  rw [shiftWaitlistPositionsDown, queue_foldl_setPlace, queue_foldl_setPlace, hFirstPass]
  rfl

/-- Who waits, in the order they joined. -/
def Table.waitingIds (t : Table ι π) : List ι := t.queue.map Prod.fst

/-- One of those who wait left, and those behind moved up. -/
theorem close_gap {before behind : Queue ι} {x : ι × ℤ} (hQueue : t.queue = before ++ x :: behind)
    (hNumbered : Numbered t.queue) (hLeft : t'.queue = t.queue.filter (·.1 ≠ x.1)) :
    t'.byPlace.filter (fun row => x.2 < row.2) = behind ∧
      Numbered (shiftWaitlistPositionsDown behind t').queue ∧
      (shiftWaitlistPositionsDown behind t').waitingIds =
        before.map Prod.fst ++ behind.map Prod.fst := by
  have hKeys := nodup_keys t
  have hPairwise := hNumbered.pairwise
  rw [hQueue] at hKeys hPairwise hNumbered hLeft
  have hOther : x.1 ∉ before.map Prod.fst ++ behind.map Prod.fst := by
    rw [List.map_append, List.map_cons, List.nodup_middle, List.nodup_cons] at hKeys
    exact hKeys.1
  have hLeft' : t'.queue = before ++ behind := by
    rw [hLeft, List.filter_append, List.filter_cons_of_neg (by simp)]
    congr 1
    · apply List.filter_eq_self.mpr
      intro y hy
      refine decide_eq_true fun hKey => hOther ?_
      exact List.mem_append_left _ (hKey ▸ List.mem_map_of_mem hy)
    · apply List.filter_eq_self.mpr
      intro y hy
      refine decide_eq_true fun hKey => hOther ?_
      exact List.mem_append_right _ (hKey ▸ List.mem_map_of_mem hy)
  obtain ⟨hMoved, hClosed⟩ := hNumbered.moveUp hKeys
  have hPositive : ∀ y ∈ behind, 1 ≤ y.2 := fun y hy =>
    (hNumbered.number_mem (List.mem_append_right _ (List.mem_cons_of_mem x hy))).1
  have hShift := queue_shift hPositive t'
  rw [hLeft', hMoved] at hShift
  refine ⟨?_, hShift ▸ hClosed, ?_⟩
  · obtain ⟨hBefore, hRest, hAcross⟩ := List.pairwise_append.mp hPairwise
    obtain ⟨hBehind, hRest⟩ := List.pairwise_cons.mp hRest
    have hSorted : t'.byPlace = before ++ behind := by
      rw [byPlace, hLeft']
      apply sortWith_eq_self
      refine (hPairwise.sublist (List.sublist_cons_self x behind |>.append_left before)).imp ?_
      intro a b hLt
      rw [Int.compare_eq_lt.mpr hLt]
      rfl
    rw [hSorted, List.filter_append, List.filter_eq_nil_iff.mpr, List.nil_append]
    · exact List.filter_eq_self.mpr fun y hy => decide_eq_true (hBehind y hy)
    · intro y hy
      have hLt := hAcross y hy x List.mem_cons_self
      simp only [decide_eq_true_iff]
      omega
  · rw [waitingIds, hShift, List.map_append, List.map_map]
    rfl

/-! ## Each door -/

/-- The places are `1, 2, 3, …` still, and nobody got past another: some left, or one joined at the
end. -/
structure Follows (t t' : Table ι π) : Prop where
  numbered : Numbered t'.queue
  order : t'.waitingIds.Sublist t.waitingIds ∨ ∃ id, t'.waitingIds = t.waitingIds ++ [id]

omit [DecidableEq ι] [DecidableEq π] in
theorem follows_of_queue (hNumbered : Numbered t.queue) (h : t'.queue = t.queue) :
    Follows t t' := by
  constructor
  · rwa [h]
  · apply Or.inl
    rw [waitingIds, waitingIds, h]

theorem follows_gap {before behind : Queue ι} {x : ι × ℤ}
    (hQueue : t.queue = before ++ x :: behind) (hNumbered : Numbered t.queue)
    (hLeft : t'.queue = t.queue.filter (·.1 ≠ x.1)) :
    Follows t (shiftWaitlistPositionsDown (t'.byPlace.filter fun row => x.2 < row.2) t') := by
  obtain ⟨hBehind, hClosed, hIds⟩ := close_gap hQueue hNumbered hLeft
  rw [hBehind]
  constructor
  · exact hClosed
  · apply Or.inl
    rw [hIds, waitingIds, hQueue, List.map_append, List.map_cons]
    exact (List.sublist_cons_self x.1 _).append_left _

theorem follows_autoPromote (hNumbered : Numbered t.queue) :
    Follows t (autoPromoteFirstWaitlist answers t).1 := by
  have hSame := follows_of_queue hNumbered (rfl : t.queue = t.queue)
  unfold autoPromoteFirstWaitlist
  rw [byPlace_of_numbered hNumbered]
  cases hQueue : t.queue with
  | nil => exact hSame
  | cons first behind =>
    dsimp only
    cases hSettle : settle answers first.1 (some SEATED) t with
    | error refusal => cases refusal <;> exact hSame
    | ok t' =>
      have hLeft := queue_seat hSettle
      have hGap : t.queue = [] ++ first :: behind := hQueue
      have hFollows := follows_gap hGap hNumbered hLeft
      rw [(close_gap hGap hNumbered hLeft).1] at hFollows
      exact hFollows

theorem follows_create (hNumbered : Numbered t.queue) (person : π) (bib : Option ℕ) :
    Follows t (create answers id person bib t).1 := by
  have hSame := follows_of_queue hNumbered (rfl : t.queue = t.queue)
  unfold create
  split
  · exact hSame
  · dsimp only
    split
    · exact hSame
    · next hInsert =>
      apply follows_of_queue hNumbered
      rw [queue_insert hInsert]
      exact List.append_nil _

theorem follows_addToWaitlist (hNumbered : Numbered t.queue) (person : π) :
    Follows t (addToWaitlist answers id person t).1 := by
  have hSame := follows_of_queue hNumbered (rfl : t.queue = t.queue)
  unfold addToWaitlist
  rw [byPlace_of_numbered hNumbered, hNumbered.last]
  dsimp only
  split
  · exact hSame
  · split
    · exact hSame
    · next hInsert =>
      have hQueue := queue_insert hInsert
      rw [Option.map_some, Option.toList_some] at hQueue
      constructor
      · rw [hQueue]
        exact hNumbered.append_last id
      · apply Or.inr
        refine ⟨id, ?_⟩
        rw [waitingIds, hQueue, List.map_append]
        rfl

theorem follows_updateStatus (hNumbered : Numbered t.queue) (requested : RequestedStatus) :
    Follows t (updateStatus answers id requested t).1 := by
  have hSame := follows_of_queue hNumbered (rfl : t.queue = t.queue)
  unfold updateStatus
  split
  · exact hSame
  · split
    · split
      · split
        · exact hSame
        · next hSettle => exact follows_of_queue hNumbered (queue_settle rfl hSettle)
      · exact hSame
    · split
      · exact hSame
      · split
        · exact hSame
        · split
          · exact hSame
          · next hSettle =>
            have hQueue := queue_settle rfl hSettle
            split
            · have hPromoted : Follows _ (autoPromoteFirstWaitlist answers _).1 :=
                follows_autoPromote (hQueue ▸ hNumbered)
              have hIds : waitingIds _ = waitingIds t := congrArg (List.map Prod.fst) hQueue
              exact ⟨hPromoted.numbered, hIds ▸ hPromoted.order⟩
            · exact follows_of_queue hNumbered hQueue

theorem follows_promoteFromWaitlist (hNumbered : Numbered t.queue) (force : Bool) :
    Follows t (promoteFromWaitlist answers id force t).1 := by
  have hSame := follows_of_queue hNumbered (rfl : t.queue = t.queue)
  unfold promoteFromWaitlist
  split
  · exact hSame
  · next row hFind =>
    split
    · split
      · exact hSame
      · next hSettle => exact follows_of_queue hNumbered (queue_settle rfl hSettle)
    · next place hPlace =>
      split
      · exact hSame
      · split
        · exact hSame
        · split
          · exact hSame
          · next hSettle =>
            obtain ⟨hRow, hId⟩ := mem_of_find hFind
            have hMem : (id, place) ∈ t.queue :=
              mem_queue.mpr ⟨row, hRow, hId, (Option.filter_eq_some_iff.mp hPlace).1⟩
            obtain ⟨before, behind, hQueue⟩ := List.append_of_mem hMem
            exact follows_gap hQueue hNumbered (queue_seat hSettle)

theorem follows_delete (hNumbered : Numbered t.queue) : Follows t (delete answers id t).1 := by
  have hSame := follows_of_queue hNumbered (rfl : t.queue = t.queue)
  unfold delete
  dsimp only
  split
  · exact hSame
  · split
    · next hNone =>
      -- the row, if there is one, waits at no place
      apply follows_of_queue hNumbered
      rw [queue_delete, List.filter_eq_self]
      rintro ⟨key, p⟩ hMem
      refine decide_eq_true fun hKey => ?_
      obtain rfl : key = id := hKey
      obtain ⟨row, hRow, hId, hPlace⟩ := mem_queue.mp hMem
      have hFind : t.find key = some row := by
        cases hFound : t.find key with
        | none =>
          have hMissing := List.find?_eq_none.mp hFound row hRow
          simp [hId] at hMissing
        | some other =>
          obtain ⟨hOther, hOtherId⟩ := mem_of_find hFound
          rw [eq_of_id hOther hRow (hOtherId.trans hId.symm)]
      have hWaits : row.waits = true := by
        rw [(t.constraints.checked row hRow).waits_eq, hPlace, Option.isSome_some]
      rw [hFind, Option.bind_some, hPlace, Option.filter_some, if_pos hWaits] at hNone
      cases hNone
    · next place hPlace =>
      obtain ⟨row, hFind, hFilter⟩ := Option.bind_eq_some_iff.mp hPlace
      obtain ⟨hRow, hId⟩ := mem_of_find hFind
      have hMem : (id, place) ∈ t.queue :=
        mem_queue.mpr ⟨row, hRow, hId, (Option.filter_eq_some_iff.mp hFilter).1⟩
      obtain ⟨before, behind, hQueue⟩ := List.append_of_mem hMem
      exact follows_gap hQueue hNumbered (queue_delete id t)

theorem foldl_setPlace_of_numbered {α : Type*} (hNumbered : Numbered t.queue) (idOf : α → ι)
    (placeOf : α → ℤ) (rows : List α) (h : ∀ x ∈ rows, placeOf x ≤ t.queue.length) :
    rows.foldl (fun t x => t.setPlace (idOf x) (placeOf x)) t = t := by
  induction rows with
  | nil => rfl
  | cons x rows ih =>
    rw [List.foldl_cons, setPlace_of_numbered hNumbered (idOf x) (h x List.mem_cons_self)]
    exact ih fun y hy => h y (List.mem_cons_of_mem x hy)

/-- A reorder writes nothing: its first pass stays below zero, and in its second every place is
taken. -/
theorem reorderWaitlist_of_numbered (hNumbered : Numbered t.queue) (ordered : List ι) :
    (reorderWaitlist ordered t).1 = t := by
  unfold reorderWaitlist
  dsimp only
  split
  · rfl
  · split
    · rfl
    · next hLength =>
      have hFirst : ordered.zipIdx.foldl (fun t x => t.setPlace x.1 (-((x.2 : ℤ) + 1))) t = t := by
        apply foldl_setPlace_of_numbered hNumbered (fun x : ι × ℕ => x.1) fun x => -((x.2 : ℤ) + 1)
        intro x _
        omega
      have hEvery : ordered.length = t.queue.length := by
        rw [queue, List.length_map, Decidable.not_not.mp hLength, List.length_map]
      rw [hFirst]
      apply foldl_setPlace_of_numbered hNumbered (fun x : ι × ℕ => x.1) fun x => (x.2 : ℤ) + 1
      intro x hx
      have hIndex := List.snd_lt_of_mem_zipIdx hx
      omega

theorem follows_callDoor (hNumbered : Numbered t.queue) (door : Door ι π) :
    Follows t (callDoor answers door t).1 := by
  cases door with
  | create id person bib => exact follows_create hNumbered person bib
  | addToWaitlist id person => exact follows_addToWaitlist hNumbered person
  | updateStatus id requested => exact follows_updateStatus hNumbered requested
  | promoteFromWaitlist id force => exact follows_promoteFromWaitlist hNumbered force
  | reorderWaitlist ordered =>
    exact follows_of_queue hNumbered
      (congrArg Table.queue (reorderWaitlist_of_numbered hNumbered ordered))
  | delete id => exact follows_delete hNumbered
  | settle id =>
    unfold callDoor
    dsimp only
    split
    · exact follows_of_queue hNumbered rfl
    · next hSettle => exact follows_of_queue hNumbered (queue_settle rfl hSettle)

/-! ## Runs -/

variable {moves : List (Move (Table ι π) (Door ι π × Answers ι))}

theorem numbered_of_run (hRun : Run doorStep Table.empty moves t) :
    Numbered t.queue ∧ ∀ m ∈ moves, Numbered m.before.queue := by
  apply hRun.invariant
  · exact Numbered.nil
  · rintro s event s' hNumbered rfl
    exact (follows_callDoor hNumbered event.1).numbered

end Doors

/-- Everything is open, and nobody is held out. -/
def openDoors : Answers ℕ := ⟨none, none, fun _ => none, true, true⟩

def oneWaiting : Table ℕ ℕ := (callDoor openDoors (.addToWaitlist 1 11) Table.empty).1

def twoWaiting : Table ℕ ℕ := (callDoor openDoors (.addToWaitlist 2 12) oneWaiting).1

def joined : List (Move (Table ℕ ℕ) (Door ℕ ℕ × Answers ℕ)) :=
  [] ++ [⟨Table.empty, (.addToWaitlist 1 11, openDoors), oneWaiting⟩] ++
    [⟨oneWaiting, (.addToWaitlist 2 12, openDoors), twoWaiting⟩]

theorem run_joined : Run doorStep Table.empty joined twoWaiting := .move (.move .start rfl) rfl

def firstSeated : Table ℕ ℕ := (callDoor openDoors (.promoteFromWaitlist 1 false) twoWaiting).1

section Reorder

variable [DecidableEq ι] [DecidableEq π] {t : Table ι π}
  {moves : List (Move (Table ι π) (Door ι π × Answers ι))}

end Reorder

section Seats

open Table

variable {answers : Answers ι} {t t' : Table ι π} {id : ι}

/-- What a row's status and the organiser's hand say, row by row. -/
def Table.hands (t : Table ι π) : List (Status × EntryStatus) :=
  t.rows.map fun row => (row.status, row.entry_status)

def seats (x : Status × EntryStatus) : Bool := x.1 = .registered || x.1 = .checked_in

/-- The seats an entry takes. -/
def seatsOf (entry : EntryStatus) : ℕ := if seats (entry.status, entry) = true then 1 else 0

/-- Nobody is held out: each row says what the organiser's hand says. -/
def Own (t : Table ι π) : Prop := ∀ x ∈ t.hands, x.1 = x.2.status

theorem seated_eq (t : Table ι π) : t.seated = t.hands.countP seats := by
  rw [Table.seated, Table.hands, List.countP_map]
  rfl

theorem seated_of_split {before behind : List (Status × EntryStatus)} {entry : EntryStatus}
    (h : t.hands = before ++ (entry.status, entry) :: behind) :
    t.seated = before.countP seats + behind.countP seats + seatsOf entry := by
  rw [seated_eq, h, List.countP_append, List.countP_cons, seatsOf, Nat.add_assoc]

structure Capped (max : ℕ) (t : Table ι π) : Prop where
  own : Own t
  seated : t.seated ≤ max

theorem Capped.of_hands {max : ℕ} (h : Capped max t) (hHands : t'.hands = t.hands) :
    Capped max t' := by
  constructor
  · rw [Own, hHands]
    exact h.own
  · rw [seated_eq, hHands, ← seated_eq]
    exact h.seated

variable [DecidableEq ι] [DecidableEq π]

theorem hands_setPlace (id : ι) (p : ℤ) (t : Table ι π) : (t.setPlace id p).hands = t.hands := by
  unfold setPlace
  cases h : t.update id (Registration.withPlace p) with
  | none => rfl
  | some t' =>
    rw [Option.getD_some, Table.hands, write_eq_some h]
    exact map_updated t.rows _ _ fun _ => rfl

theorem hands_foldl {α : Type*} (idOf : α → ι) (placeOf : α → ℤ) (rows : List α)
    (t : Table ι π) :
    (rows.foldl (fun t x => t.setPlace (idOf x) (placeOf x)) t).hands = t.hands := by
  induction rows generalizing t with
  | nil => rfl
  | cons x rows ih => rw [List.foldl_cons, ih, hands_setPlace]

theorem hands_shift (rows : Queue ι) (t : Table ι π) :
    (shiftWaitlistPositionsDown rows t).hands = t.hands := by
  apply (hands_foldl (fun x : ι × ℤ => x.1) (fun x => x.2 - 1) rows _).trans
  exact hands_foldl (fun x : ι × ℤ => x.1) (fun x => -(x.2 - 1)) rows t

theorem hands_insert {row : Registration ι π} (h : t.insert row = some t') :
    t'.hands = t.hands ++ [(row.status, row.entry_status)] := by
  rw [Table.hands, write_eq_some h, List.map_append]
  rfl

/-- A settle writes one row. -/
theorem hands_settle {change : Option EntryChange} (hFree : answers.held id = none)
    (h : settle answers id change t = .ok t') :
    ∃ before x behind, t.hands = before ++ x :: behind ∧ (∀ c ∈ change, c.expected = x.2) ∧
      t'.hands = before ++ (((change.map (·.status)).getD x.2).status,
        (change.map (·.status)).getD x.2) :: behind := by
  obtain ⟨reg, hFind, hExpected, hUpdate⟩ := settle_ok h
  obtain ⟨hRow, rfl⟩ := mem_of_find hFind
  obtain ⟨before, behind, hRows⟩ := List.append_of_mem hRow
  have hKey := t.constraints.key
  rw [hRows, List.map_append, List.map_cons, List.nodup_middle, List.nodup_cons,
    List.mem_append, not_or] at hKey
  have hOthers : ∀ rows : List (Registration ι π), reg.id ∉ rows.map (·.id) →
      ∀ set : Registration ι π → Registration ι π,
        (rows.map fun row => if row.id = reg.id then set row else row) = rows := by
    intro rows hRows set
    refine (List.map_congr_left fun row hMem => if_neg fun hId => ?_).trans (List.map_id' rows)
    exact hRows (hId ▸ List.mem_map_of_mem hMem)
  refine ⟨before.map fun row => (row.status, row.entry_status), (reg.status, reg.entry_status),
    behind.map fun row => (row.status, row.entry_status), ?_, hExpected, ?_⟩
  · rw [Table.hands, hRows, List.map_append, List.map_cons]
  · rw [Table.hands, write_eq_some hUpdate, hRows, List.map_append, List.map_cons, if_pos rfl,
      hOthers before hKey.1.1, hOthers behind hKey.1.2, List.map_append, List.map_cons]
    simp only [Registration.settled, hFree, statusUnder]

theorem seated_settle {change : Option EntryChange} (hOwn : Own t)
    (hFree : answers.held id = none) (h : settle answers id change t = .ok t') :
    Own t' ∧ ∃ entry, (∀ c ∈ change, c.expected = entry) ∧
      t'.seated + seatsOf entry = t.seated + seatsOf ((change.map (·.status)).getD entry) := by
  obtain ⟨before, x, behind, hHands, hExpected, hAfter⟩ := hands_settle hFree h
  have hx : x = (x.2.status, x.2) := by
    have hMem : x ∈ t.hands := by
      rw [hHands]
      exact List.mem_append_right before List.mem_cons_self
    exact Prod.ext (hOwn x hMem) rfl
  constructor
  · intro y hy
    rw [hAfter, List.mem_append, List.mem_cons] at hy
    rcases hy with hy | rfl | hy
    · exact hOwn y (hHands ▸ List.mem_append_left _ hy)
    · rfl
    · exact hOwn y (hHands ▸ List.mem_append_right _ (List.mem_cons_of_mem x hy))
  · refine ⟨x.2, hExpected, ?_⟩
    rw [hx] at hHands
    have hBefore := seated_of_split hHands
    have hLater := seated_of_split hAfter
    omega

theorem seated_seat (hOwn : Own t) (hFree : answers.held id = none)
    (h : settle answers id (some SEATED) t = .ok t') : Own t' ∧ t'.seated = t.seated + 1 := by
  obtain ⟨hOwn', entry, hExpected, hSeated⟩ := seated_settle hOwn hFree h
  obtain rfl : EntryStatus.waitlist = entry := hExpected SEATED rfl
  exact ⟨hOwn', hSeated⟩

theorem seated_autoPromote (hOwn : Own t) (hFree : ∀ id, answers.held id = none) :
    Own (autoPromoteFirstWaitlist answers t).1 ∧
      (autoPromoteFirstWaitlist answers t).1.seated ≤ t.seated + 1 := by
  have hSame : Own t ∧ t.seated ≤ t.seated + 1 := ⟨hOwn, Nat.le_succ _⟩
  unfold autoPromoteFirstWaitlist
  split
  · exact hSame
  · next first behind _ =>
    split
    · exact hSame
    · exact hSame
    · next hSettle =>
      obtain ⟨hOwn', hSeated⟩ := seated_seat hOwn (hFree first.1) hSettle
      constructor
      · rw [Own, hands_shift]
        exact hOwn'
      · rw [seated_eq, hands_shift, ← seated_eq]
        exact Nat.le_of_eq hSeated

/-- A door called under the cap: nobody is held out, and no promotion is forced. -/
structure Unforced (max : ℕ) (event : Door ι π × Answers ι) : Prop where
  cap : event.2.max_participants = some max
  free : ∀ id, event.2.held id = none
  unforced : ∀ id, event.1 ≠ .promoteFromWaitlist id true

omit [DecidableEq ι] [DecidableEq π] in
theorem seated_lt {max : ℕ} (hCap : answers.max_participants = some max)
    (h : assertCapacityForCreate answers t = none) : t.seated < max := by
  rw [assertCapacityForCreate, hCap] at h
  dsimp only at h
  split at h
  · cases h
  · next hFull => exact Nat.lt_of_not_le hFull

variable {max : ℕ}

theorem capped_create (h : Capped max t) (hCap : answers.max_participants = some max)
    (person : π) (bib : Option ℕ) : Capped max (create answers id person bib t).1 := by
  unfold create
  split
  · exact h
  · next hRoom =>
    dsimp only
    split
    · exact h
    · next t' hInsert =>
      have hHands : t'.hands =
          t.hands ++ [(EntryStatus.registered.status, EntryStatus.registered)] :=
        hands_insert hInsert
      have hRoom := seated_lt hCap hRoom
      constructor
      · intro x hx
        rw [hHands, List.mem_append, List.mem_singleton] at hx
        rcases hx with hx | rfl
        · exact h.own x hx
        · rfl
      · have hSeated := seated_of_split hHands
        have hBefore := seated_eq t
        have hOne : seatsOf .registered = 1 := rfl
        rw [List.countP_nil] at hSeated
        dsimp only
        omega

theorem capped_addToWaitlist (h : Capped max t) (person : π) :
    Capped max (addToWaitlist answers id person t).1 := by
  unfold addToWaitlist
  dsimp only
  split
  · exact h
  · split
    · exact h
    · next t' hInsert =>
      have hHands : t'.hands = t.hands ++ [(EntryStatus.waitlist.status, EntryStatus.waitlist)] :=
        hands_insert hInsert
      constructor
      · intro x hx
        rw [hHands, List.mem_append, List.mem_singleton] at hx
        rcases hx with hx | rfl
        · exact h.own x hx
        · rfl
      · have hSeated := seated_of_split hHands
        have hBefore := seated_eq t
        have hNone : seatsOf .waitlist = 0 := rfl
        have hCap := h.seated
        rw [List.countP_nil] at hSeated
        dsimp only
        omega

/-- A settle that asks for nothing leaves the seats. -/
theorem capped_settle (h : Capped max t) (hFree : ∀ id, answers.held id = none)
    (hSettle : settle answers id none t = .ok t') : Capped max t' := by
  obtain ⟨hOwn, entry, -, hSeated⟩ := seated_settle h.own (hFree id) hSettle
  have hBefore := h.seated
  rw [Option.map_none, Option.getD_none] at hSeated
  constructor
  · exact hOwn
  · omega

theorem capped_updateStatus (h : Capped max t) (hCap : answers.max_participants = some max)
    (hFree : ∀ id, answers.held id = none) (requested : RequestedStatus) :
    Capped max (updateStatus answers id requested t).1 := by
  unfold updateStatus
  split
  · exact h
  · next reg _ =>
    split
    · split
      · split
        · exact h
        · next hSettle => exact capped_settle h hFree hSettle
      · exact h
    · next status hStatus =>
      have hAllowed : status ∈ REGISTRATION_STATUS_TRANSITIONS reg.entry_status := by
        simpa using (Option.filter_eq_some_iff.mp hStatus).2
      split
      · exact h
      · split
        · exact h
        · next hRoom =>
          split
          · exact h
          · next hSettle =>
            obtain ⟨hOwn, entry, hExpected, hSeated⟩ := seated_settle h.own (hFree id) hSettle
            obtain rfl : reg.entry_status = entry := hExpected _ rfl
            have hBefore := h.seated
            rw [Option.map_some, Option.getD_some] at hSeated
            dsimp only at hSeated
            split
            · next hWithdrawn =>
              -- the seat that went may be taken by the first who waits
              obtain ⟨hOwn', hPromoted⟩ := seated_autoPromote hOwn hFree
              have hLeft : seatsOf reg.entry_status = 1 := by
                rw [hWithdrawn] at hAllowed
                cases hEntry : reg.entry_status <;> rw [hEntry] at hAllowed <;>
                  first | rfl | exact absurd hAllowed (by decide)
              rw [hWithdrawn, hLeft] at hSeated
              have hNone : seatsOf .withdrawn = 0 := rfl
              constructor
              · exact hOwn'
              · omega
            · next hStays =>
              refine ⟨hOwn, ?_⟩
              dsimp only
              cases status with
              | registered =>
                rw [if_pos rfl] at hRoom
                have hRoom := seated_lt hCap hRoom
                have hOne : seatsOf .registered = 1 := rfl
                omega
              | checked_in =>
                have hHeld : seatsOf reg.entry_status = 1 := by
                  cases hEntry : reg.entry_status <;> rw [hEntry] at hAllowed <;>
                    first | rfl | exact absurd hAllowed (by decide)
                have hOne : seatsOf .checked_in = 1 := rfl
                omega
              | withdrawn => exact absurd rfl hStays
              | waitlist =>
                have hNone : seatsOf .waitlist = 0 := rfl
                omega

theorem capped_promoteFromWaitlist (h : Capped max t)
    (hCap : answers.max_participants = some max) (hFree : ∀ id, answers.held id = none) :
    Capped max (promoteFromWaitlist answers id false t).1 := by
  unfold promoteFromWaitlist
  split
  · exact h
  · split
    · split
      · exact h
      · next hSettle => exact capped_settle h hFree hSettle
    · split
      · exact h
      · split
        · exact h
        · next hRoom =>
          split
          · exact h
          · next hSettle =>
            obtain ⟨hOwn, hSeated⟩ := seated_seat h.own (hFree id) hSettle
            have hRoom := seated_lt hCap hRoom
            exact Capped.of_hands ⟨hOwn, by omega⟩ (hands_shift _ _)

theorem capped_delete (h : Capped max t) : Capped max (delete answers id t).1 := by
  have hDeleted : Capped max (t.delete id) := by
    have hSub : (t.delete id).hands.Sublist t.hands := List.filter_sublist.map _
    constructor
    · exact fun x hx => h.own x (hSub.subset hx)
    · have hLess := hSub.countP_le (p := seats)
      rw [← seated_eq, ← seated_eq] at hLess
      exact hLess.trans h.seated
  unfold delete
  dsimp only
  split
  · exact h
  · split
    · exact hDeleted
    · exact hDeleted.of_hands (hands_shift _ _)

theorem hands_reorder (ordered : List ι) (t : Table ι π) :
    (reorderWaitlist ordered t).1.hands = t.hands := by
  unfold reorderWaitlist
  dsimp only
  split
  · rfl
  · split
    · rfl
    · apply (hands_foldl (fun x : ι × ℕ => x.1) (fun x => (x.2 : ℤ) + 1) _ _).trans
      exact hands_foldl (fun x : ι × ℕ => x.1) (fun x => -((x.2 : ℤ) + 1)) _ t

theorem capped_callDoor {event : Door ι π × Answers ι} (h : Capped max t)
    (hEvent : Unforced max event) : Capped max (callDoor event.2 event.1 t).1 := by
  obtain ⟨door, answers⟩ := event
  obtain ⟨hCap, hFree, hUnforced⟩ := hEvent
  cases door with
  | create id person bib => exact capped_create h hCap person bib
  | addToWaitlist id person => exact capped_addToWaitlist h person
  | updateStatus id requested => exact capped_updateStatus h hCap hFree requested
  | promoteFromWaitlist id force =>
    cases force with
    | false => exact capped_promoteFromWaitlist h hCap hFree
    | true => exact absurd rfl (hUnforced id)
  | reorderWaitlist ordered => exact h.of_hands (hands_reorder ordered t)
  | delete id => exact capped_delete h
  | settle id =>
    unfold callDoor
    dsimp only
    split
    · exact h
    · next hSettle => exact capped_settle h hFree hSettle

/-- Where nobody is held out and no promotion is forced, the seats taken stay within the cap. -/
theorem seated_within_cap {moves : List (Move (Table ι π) (Door ι π × Answers ι))}
    (hRun : Run doorStep Table.empty moves t) (hUnforced : ∀ m ∈ moves, Unforced max m.event) :
    t.seated ≤ max ∧ ∀ m ∈ moves, m.before.seated ≤ max := by
  have hStart : Capped max (Table.empty : Table ι π) := ⟨nofun, Nat.zero_le max⟩
  obtain ⟨hLast, hBefore⟩ := hRun.invariant_of_allowed (fun m => Unforced max m.event) hUnforced
    hStart (by
      rintro s event s' hCapped rfl hEvent
      exact capped_callDoor hCapped hEvent)
  exact ⟨hLast.seated, fun m hm => (hBefore m hm).seated⟩

end Seats

def oneSeat : Answers ℕ := ⟨some 1, none, fun _ => none, true, true⟩

def taken : Table ℕ ℕ := (callDoor oneSeat (.create 1 11 none) Table.empty).1

def behindTaken : Table ℕ ℕ := (callDoor oneSeat (.addToWaitlist 2 12) taken).1

/-- The one seat is given up, and the first who waits has it. -/
def handedOn : Table ℕ ℕ := (callDoor oneSeat (.updateStatus 1 .withdrawn) behindTaken).1

def handover : List (Move (Table ℕ ℕ) (Door ℕ ℕ × Answers ℕ)) :=
  ([] ++ [⟨Table.empty, (.create 1 11 none, oneSeat), taken⟩] ++
    [⟨taken, (.addToWaitlist 2 12, oneSeat), behindTaken⟩]) ++
    [⟨behindTaken, (.updateStatus 1 .withdrawn, oneSeat), handedOn⟩]

theorem unforced_handover : ∀ m ∈ handover, Unforced 1 m.event := by
  intro m hm
  simp only [handover, List.nil_append, List.cons_append, List.mem_cons, List.not_mem_nil,
    or_false] at hm
  rcases hm with rfl | rfl | rfl <;> exact ⟨rfl, fun _ => rfl, fun _ => by rintro ⟨⟩⟩

theorem seated_within_cap_handover :
    behindTaken.queue = [(2, 1)] ∧ handedOn.queue = [] ∧ handedOn.seated = 1 ∧
      (handedOn.seated ≤ 1 ∧ ∀ m ∈ handover, m.before.seated ≤ 1) :=
  ⟨by decide, by decide, by decide,
    seated_within_cap (.move (.move (.move .start rfl) rfl) rfl) unforced_handover⟩

end MyClash.Registrations
