import MyClash.Library.CursorPaging
import MyClash.Library.StableSort
import Mathlib.Order.OrderDual

/-!
# The photo moderation queue

What an Event has received and what the public reported, page by page, newest first. The cursor
of the next page is the creation time of the last photo shown. Photos of one creation time come in
any order.
-/

namespace MyClash.Photos.Moderation

def PHOTO_QUEUE_PAGE : ℕ := 60

inductive PhotoStatus where
  | waiting
  | approved
  deriving DecidableEq

inductive PhotoQueueFilter where
  | waiting
  | reported
  | all

structure PhotoReport (τ : Type*) where
  comment : Option String
  updatedAt : τ

structure QueueRow (τ : Type*) where
  id : String
  eventId : String
  status : PhotoStatus
  uploaderName : Option String
  caption : Option String
  createdAt : τ
  reports : List (PhotoReport τ)

structure ModerationPhoto (τ : Type*) where
  id : String
  status : PhotoStatus
  uploaderName : Option String
  caption : Option String
  createdAt : τ
  reportCount : ℕ
  reportComments : List String
  lastReportAt : Option τ

structure PhotoQueuePage (τ : Type*) where
  photos : List (ModerationPhoto τ)
  next : Option τ

structure PhotoEventRow where
  id : String
  deletesAt : Option ℤ

variable {τ : Type*} [LinearOrder τ]

/-- Whether the Event's photos are past their deletion instant. -/
def photosExpired (event : PhotoEventRow) (now : ℤ) : Bool :=
  event.deletesAt.any fun instant => decide (now ≥ instant)

/-- The newest change of a report first. -/
def compareReports (a b : PhotoReport τ) : Ordering :=
  if a.updatedAt = b.updatedAt then .eq else if a.updatedAt < b.updatedAt then .gt else .lt

@[simps id createdAt]
def photoOf (row : QueueRow τ) : ModerationPhoto τ :=
  let reports := StableSort.sortWith compareReports row.reports
  { id := row.id
    status := row.status
    uploaderName := row.uploaderName
    caption := row.caption
    createdAt := row.createdAt
    reportCount := reports.length
    reportComments := reports.filterMap fun report => report.comment.filter (· ≠ "")
    lastReportAt := reports.head?.map (·.updatedAt) }

omit [LinearOrder τ] in
def PhotoQueueFilter.passes (row : QueueRow τ) : PhotoQueueFilter → Bool
  | .waiting => row.status = .waiting
  | .reported => !row.reports.isEmpty
  | .all => true

/-- The photos a page is asked of. -/
def queueRead (eventId : String) (filter : PhotoQueueFilter) (before : Option τ)
    (rows : List (QueueRow τ)) : List (QueueRow τ) :=
  rows.filter fun row => row.eventId = eventId && filter.passes row &&
    before.all fun cursor => decide (row.createdAt < cursor)

/-- The order of a page: the newest is the least. -/
def newest (row : QueueRow τ) : τᵒᵈ := OrderDual.toDual row.createdAt

def pageOf (data : List (QueueRow τ)) : PhotoQueuePage τ where
  photos := data.map photoOf
  next := if data.length = PHOTO_QUEUE_PAGE then data.getLast?.map (·.createdAt) else none

section Queue

variable (event : PhotoEventRow) (filter : PhotoQueueFilter) (now : ℤ) (rows : List (QueueRow τ))

/-- One page of the queue. From the deletion instant on the queue is empty. -/
inductive Lists (before : Option τ) : PhotoQueuePage τ → Prop
  | expired (h : photosExpired event now = true) : Lists before ⟨[], none⟩
  | page {data : List (QueueRow τ)} (h : photosExpired event now = false)
      (hData : CursorPaging.IsPage newest PHOTO_QUEUE_PAGE
        (queueRead event.id filter before rows) data) : Lists before (pageOf data)

/-- What is shown by following next from a page on. -/
inductive Follows : Option τ → List (ModerationPhoto τ) → Prop
  | last {before : Option τ} {page : PhotoQueuePage τ}
      (hPage : Lists event filter now rows before page) (hNext : page.next = none) :
      Follows before page.photos
  | more {before : Option τ} {page : PhotoQueuePage τ} {cursor : τ}
      {later : List (ModerationPhoto τ)} (hPage : Lists event filter now rows before page)
      (hNext : page.next = some cursor) (hLater : Follows (some cursor) later) :
      Follows before (page.photos ++ later)

/-- The photos that stand in the queue. -/
def queue : List (QueueRow τ) :=
  if photosExpired event now then [] else queueRead event.id filter none rows

/-- Following next comes to an end, and shows every photo of the queue once, newest first. -/
structure QueueLaw : Prop where
  ends : ∃ shown, Follows event filter now rows none shown
  complete : ∀ shown, Follows event filter now rows none shown →
    (shown.map (·.id)).Perm ((queue event filter now rows).map (·.id)) ∧
      shown.Pairwise fun a b => b.createdAt ≤ a.createdAt

/-- No page ends within the photos of one creation time: for every time, no multiple of the page
size lies between the photos that are newer and those that are at least as new. -/
def NoTieAcrossPages : Prop :=
  ∀ (time : τ) (k : ℕ),
    ¬((queue event filter now rows).countP (fun row => decide (time < row.createdAt)) <
        PHOTO_QUEUE_PAGE * k ∧
      PHOTO_QUEUE_PAGE * k <
        (queue event filter now rows).countP fun row => decide (time ≤ row.createdAt))

end Queue

variable {event : PhotoEventRow} {filter : PhotoQueueFilter} {now : ℤ} {rows : List (QueueRow τ)}

theorem noTieAcrossPages_iff : NoTieAcrossPages event filter now rows ↔
    CursorPaging.Separated newest PHOTO_QUEUE_PAGE (queue event filter now rows) := Iff.rfl

theorem pageOf_next_eq_none {data : List (QueueRow τ)} (h : (pageOf data).next = none) :
    data.length ≠ PHOTO_QUEUE_PAGE := by
  intro hFull
  rw [pageOf, if_pos hFull, Option.map_eq_none_iff, List.getLast?_eq_none_iff] at h
  rw [h] at hFull
  cases hFull

theorem pageOf_next_eq_some {data : List (QueueRow τ)} {cursor : τ}
    (h : (pageOf data).next = some cursor) :
    data.length = PHOTO_QUEUE_PAGE ∧ ∃ last, data.getLast? = some last ∧ last.createdAt = cursor := by
  rw [pageOf] at h
  split_ifs at h with hFull
  exact ⟨hFull, Option.map_eq_some_iff.mp h⟩

/-- What a page is asked of after a cursor that stood on the page before it. -/
theorem after_queueRead {eventId : String} {before : Option τ} {last : QueueRow τ}
    (h : last ∈ queueRead eventId filter before rows) :
    CursorPaging.after newest (newest last) (queueRead eventId filter before rows) =
      queueRead eventId filter (some last.createdAt) rows := by
  rw [queueRead, CursorPaging.after, List.filter_filter, queueRead]
  refine List.filter_congr fun row _ => ?_
  have hBefore := (List.mem_filter.mp h).2
  simp only [newest, OrderDual.toDual_lt_toDual, Option.all_some]
  by_cases hLt : row.createdAt < last.createdAt
  · have hRow : before.all (fun cursor => decide (row.createdAt < cursor)) = true := by
      cases before with
      | none => rfl
      | some cursor =>
        simp only [Bool.and_eq_true, Option.all_some, decide_eq_true_eq] at hBefore
        exact decide_eq_true (hLt.trans hBefore.2)
    simp [hLt, hRow]
  · simp [hLt]

theorem isPage_length_le {before : Option τ} {data : List (QueueRow τ)}
    (h : CursorPaging.IsPage newest PHOTO_QUEUE_PAGE (queueRead event.id filter before rows) data) :
    data.length ≤ PHOTO_QUEUE_PAGE := by
  obtain ⟨ordered, -, -, rfl⟩ := h
  exact List.length_take_le _ _

theorem mem_of_isPage {before : Option τ} {data : List (QueueRow τ)} {last : QueueRow τ}
    (h : CursorPaging.IsPage newest PHOTO_QUEUE_PAGE (queueRead event.id filter before rows) data)
    (hLast : data.getLast? = some last) : last ∈ queueRead event.id filter before rows := by
  obtain ⟨ordered, hPerm, -, rfl⟩ := h
  exact hPerm.subset (List.mem_of_mem_take (List.mem_of_getLast? hLast))

/-- Before the deletion instant, following next is following the pages by their cursor. -/
theorem Follows.pages (hOpen : photosExpired event now = false) {before : Option τ}
    {shown : List (ModerationPhoto τ)} (h : Follows event filter now rows before shown) :
    ∃ data, CursorPaging.Follows newest PHOTO_QUEUE_PAGE
      (queueRead event.id filter before rows) data ∧ shown = data.map photoOf := by
  induction h with
  | last hPage hNext =>
    cases hPage with
    | expired hExpired => simp [hOpen] at hExpired
    | page _ hData =>
      have hShort := lt_of_le_of_ne (isPage_length_le hData) (pageOf_next_eq_none hNext)
      exact ⟨_, .last hData hShort, rfl⟩
  | more hPage hNext hLater ih =>
    obtain ⟨later, hFollows, rfl⟩ := ih
    cases hPage with
    | expired hExpired => simp [hOpen] at hExpired
    | page _ hData =>
      obtain ⟨hFull, last, hLast, rfl⟩ := pageOf_next_eq_some hNext
      rw [← after_queueRead (mem_of_isPage hData hLast)] at hFollows
      exact ⟨_, .more hData hFull hLast hFollows, (List.map_append).symm⟩

theorem exists_follows (hOpen : photosExpired event now = false) {before : Option τ}
    {data : List (QueueRow τ)}
    (h : CursorPaging.Follows newest PHOTO_QUEUE_PAGE (queueRead event.id filter before rows) data) :
    Follows event filter now rows before (data.map photoOf) := by
  generalize hRead : queueRead event.id filter before rows = read at h
  induction h generalizing before with
  | last hPage hShort =>
    subst hRead
    refine .last (.page hOpen hPage) ?_
    rw [pageOf, if_neg hShort.ne]
  | @more _ page later last hPage hFull hLast hLater ih =>
    subst hRead
    rw [List.map_append]
    have hNext : (pageOf page).next = some last.createdAt := by
      rw [pageOf, if_pos hFull, hLast]
      rfl
    exact .more (.page hOpen hPage) hNext
      (ih (after_queueRead (mem_of_isPage hPage hLast)).symm)

/-- Past the deletion instant nothing is shown. -/
theorem Follows.of_expired (hExpired : photosExpired event now = true) {before : Option τ}
    {shown : List (ModerationPhoto τ)} (h : Follows event filter now rows before shown) :
    shown = [] := by
  cases h with
  | last hPage hNext =>
    cases hPage with
    | expired => rfl
    | page hOpen => simp [hExpired] at hOpen
  | more hPage hNext hLater =>
    cases hPage with
    | expired => cases hNext
    | page hOpen => simp [hExpired] at hOpen

theorem QueueLaw.separated (h : QueueLaw event filter now rows) :
    NoTieAcrossPages event filter now rows := by
  rw [noTieAcrossPages_iff]
  obtain ⟨shown, hShown⟩ := h.ends
  have hPerm := (h.complete shown hShown).1
  by_cases hExpired : photosExpired event now = true
  · rw [queue, if_pos hExpired]
    exact CursorPaging.separated_of_short (show 0 < PHOTO_QUEUE_PAGE by decide)
  · rw [queue, if_neg hExpired] at hPerm ⊢
    obtain ⟨data, hFollows, rfl⟩ := hShown.pages (Bool.not_eq_true _ ▸ hExpired)
    have hLength := hPerm.length_eq
    rw [List.length_map, List.length_map, List.length_map] at hLength
    exact hFollows.perm_iff.mp (hFollows.subperm.perm_of_length_le hLength.ge)

/-- Following next shows every photo of the queue once, newest first, just when no page ends
within the photos of one creation time. -/
theorem queueLaw_iff (event : PhotoEventRow) (filter : PhotoQueueFilter) (now : ℤ)
    (rows : List (QueueRow τ)) :
    QueueLaw event filter now rows ↔ NoTieAcrossPages event filter now rows := by
  refine ⟨QueueLaw.separated, fun h => ?_⟩
  rw [noTieAcrossPages_iff] at h
  by_cases hExpired : photosExpired event now = true
  · refine ⟨⟨[], .last (.expired hExpired) rfl⟩, fun shown hShown => ?_⟩
    rw [hShown.of_expired hExpired, queue, if_pos hExpired]
    exact ⟨.nil, .nil⟩
  · rw [queue, if_neg hExpired] at h
    rw [Bool.not_eq_true] at hExpired
    obtain ⟨data, hData⟩ := CursorPaging.exists_follows newest
      (show 0 < PHOTO_QUEUE_PAGE by decide) (queueRead event.id filter none rows)
    refine ⟨⟨_, exists_follows hExpired hData⟩, fun shown hShown => ?_⟩
    obtain ⟨data', hFollows, rfl⟩ := hShown.pages hExpired
    rw [queue, if_neg (by simp [hExpired])]
    constructor
    · rw [List.map_map]
      exact (hFollows.perm_iff.mpr h).map _
    · exact List.pairwise_map.mpr hFollows.pairwise

/-- Sixty-one photos sent at one instant. -/
def burst : List (QueueRow ℤ) :=
  (List.range 61).map fun n => ⟨toString n, "event", .waiting, none, none, 0, []⟩

/-- One of the sixty-one is on no page. -/
theorem queueLaw_burst : ¬QueueLaw ⟨"event", none⟩ .waiting 0 burst := by
  intro h
  exact h.separated 0 1 (by decide)

end MyClash.Photos.Moderation
