import MyClash.Photos.InListChunks
import Mathlib.Data.Finset.Card
import Mathlib.Data.List.Sort
import Mathlib.Data.PNat.Basic

/-!
# Reading an archived table

Every row of a table whose column holds one of some values: the values go in pieces, and each
piece is read page by page until a page comes back empty. A table keyed by `id` is read by key, each
page after the last id read, while others insert and delete rows between two pages.
-/

namespace MyClash.Exports

open Photos (inListChunks)

def READ_PAGE : ℕ := 1000

/-- The columns a read of a table is paged in, where its specification names any. -/
structure ArchiveTableSpec where
  readOrder : Option (List String)

def readOrderFor (table : ArchiveTableSpec) : List String := table.readOrder.getD ["id"]

/-- A row: its id, what it holds in the filtered column, and the rest. -/
structure ArchiveRow (ι ν δ : Type) where
  id : ι
  value : ν
  rest : δ

inductive PageAsk where
  | limit (count : ℕ)
  | range (first last : ℕ)

/-- A read asked of the server. One value is asked for with `eq`, more with `in`. -/
structure ReadChain (ι ν : Type) where
  values : List ν
  order : List String
  gt : Option ι
  ask : PageAsk

variable {ι ν δ : Type}

def readChain (order : List String) (piece : List ν) (rows : List (ArchiveRow ι ν δ)) :
    ReadChain ι ν :=
  let byId := decide (order = ["id"])
  { values := piece
    order := order
    gt := if byId then rows.getLast?.map (·.id) else none
    ask := if byId then .limit READ_PAGE else .range rows.length (rows.length + READ_PAGE - 1) }

/-- What the server answers to its `n`th read, or the message of its error. -/
abbrev Answers (ι ν δ : Type) := ℕ → ReadChain ι ν → Except String (List (ArchiveRow ι ν δ))

/-- Where the fuel lasts: the rows of a piece, after those read of it, and the number of the next
read. -/
def readPiece (answered : Answers ι ν δ) (order : List String) (piece : List ν) :
    ℕ → ℕ → List (ArchiveRow ι ν δ) → Option (Except String (List (ArchiveRow ι ν δ) × ℕ))
  | 0, _, _ => none
  | fuel + 1, n, rows =>
    match answered n (readChain order piece rows) with
    | .error message => some (.error message)
    | .ok [] => some (.ok (rows, n + 1))
    | .ok (row :: page) => readPiece answered order piece fuel (n + 1) (rows ++ row :: page)

def readPieces (answered : Answers ι ν δ) (order : List String) (fuel : ℕ) :
    List (List ν) → ℕ → Option (Except String (List (ArchiveRow ι ν δ) × ℕ))
  | [], n => some (.ok ([], n))
  | piece :: pieces, n =>
    match readPiece answered order piece fuel n [] with
    | none => none
    | some (.error message) => some (.error message)
    | some (.ok (rows, n')) =>
      match readPieces answered order fuel pieces n' with
      | some (.ok (later, n'')) => some (.ok (rows ++ later, n''))
      | other => other

/-- Each value once: two pieces naming one value would read its rows twice. -/
def readArchivedRows [DecidableEq ν] (answered : Answers ι ν δ) (table : ArchiveTableSpec)
    (values : List ν) (fuel : ℕ) : Option (Except String (List (ArchiveRow ι ν δ) × ℕ)) :=
  readPieces answered (readOrderFor table) fuel (inListChunks values.eraseDups) 0

/-! ## A table that changes between the reads -/

variable [LinearOrder ι] [DecidableEq ν]

/-- The rows that a read by key asks for. -/
def asked (chain : ReadChain ι ν) (rows : List (ArchiveRow ι ν δ)) : List (ArchiveRow ι ν δ) :=
  rows.filter fun row => decide (row.value ∈ chain.values) &&
    chain.gt.all fun last => decide (last < row.id)

/-- The table at each read, while others insert and delete rows. The id and the filtered column of
a row do not change. A page holds the rows of the smallest ids asked for, as many as the read and
the server allow, or the read fails. -/
structure Server (ι ν δ : Type) [LinearOrder ι] [DecidableEq ν] where
  rowsAt : ℕ → List (ArchiveRow ι ν δ)
  ids_nodup : ∀ n, ((rowsAt n).map (·.id)).Nodup
  value_fixed : ∀ n m, ∀ row ∈ rowsAt n, ∀ row' ∈ rowsAt m, row.id = row'.id → row.value = row'.value
  ids : Finset ι
  mem_ids : ∀ n, ∀ row ∈ rowsAt n, row.id ∈ ids
  maxRows : ℕ → PNat
  answered : Answers ι ν δ
  answers : ∀ n chain count page, chain.order = ["id"] → chain.ask = .limit count →
    answered n chain = .ok page → ∃ ordered : List (ArchiveRow ι ν δ),
      ordered.Perm (asked chain (rowsAt n)) ∧ ordered.Pairwise (fun a b => a.id ≤ b.id) ∧
        page = ordered.take (min count (maxRows n))

namespace Server

variable (server : Server ι ν δ)

/-- Under one of the values, a row of the id stands in the table at each read from the first. -/
def Stands (id : ι) (values : List ν) (first last : ℕ) : Prop :=
  ∃ value ∈ values, ∀ n, first ≤ n → n < last →
    ∃ row ∈ server.rowsAt n, row.id = id ∧ row.value = value

/-- The read ends. What it gives back has no id twice and every row that stood all the time. -/
structure ReadLaw (table : ArchiveTableSpec) (values : List ν) : Prop where
  ends : ∃ fuel result, readArchivedRows server.answered table values fuel = some result
  once : ∀ fuel rows last,
    readArchivedRows server.answered table values fuel = some (.ok (rows, last)) →
      (rows.map (·.id)).Nodup
  complete : ∀ fuel rows last,
    readArchivedRows server.answered table values fuel = some (.ok (rows, last)) →
      ∀ id, server.Stands id values 0 last → id ∈ rows.map (·.id)

end Server

/-! ## A page -/

variable {server : Server ι ν δ} {piece values : List ν} {rows page : List (ArchiveRow ι ν δ)}

omit [DecidableEq ν] in
theorem mem_asked [DecidableEq ν] {chain : ReadChain ι ν} {row : ArchiveRow ι ν δ} :
    row ∈ asked chain rows ↔
      row ∈ rows ∧ row.value ∈ chain.values ∧ ∀ last ∈ chain.gt, last < row.id := by
  cases hGt : chain.gt <;> simp [asked, hGt]

/-- A page by key: some first rows of those asked for, in the order of their ids. -/
theorem Server.page_spec {n : ℕ}
    (h : server.answered n (readChain ["id"] piece rows) = .ok page) :
    ∃ later, (page ++ later).Perm (asked (readChain ["id"] piece rows) (server.rowsAt n)) ∧
      (page ++ later).Pairwise (fun a b => a.id < b.id) ∧ (page = [] → later = []) := by
  obtain ⟨ordered, hPerm, hOrdered, rfl⟩ := server.answers n _ READ_PAGE page rfl rfl h
  refine ⟨ordered.drop (min READ_PAGE (server.maxRows n)), ?_, ?_, fun hNone => ?_⟩
  · rwa [List.take_append_drop]
  · rw [List.take_append_drop]
    have hNodup : (ordered.map (·.id)).Nodup :=
      (hPerm.map (·.id)).nodup_iff.mpr ((server.ids_nodup n).sublist (List.filter_sublist.map _))
    refine hOrdered.imp₂ (fun a b hLe hNe => lt_of_le_of_ne hLe hNe) (List.pairwise_map.mp hNodup)
  · have hPos : 0 < min READ_PAGE (server.maxRows n : ℕ) := lt_min (by decide) (server.maxRows n).pos
    rw [List.take_eq_nil_iff] at hNone
    rw [hNone.resolve_left hPos.ne', List.drop_nil]

/-! ## A piece -/

/-- What a read of a piece adds to its rows: the ids go up, and none that stood is left out. -/
structure Server.PieceRead (server : Server ι ν δ) (piece : List ν) (n last : ℕ)
    (rows new : List (ArchiveRow ι ν δ)) : Prop where
  number_lt : n < last
  ordered : (rows ++ new).Pairwise fun a b => a.id < b.id
  found : ∀ row ∈ new, row.value ∈ piece ∧ ∃ m, row ∈ server.rowsAt m
  complete : ∀ id, (∀ row ∈ rows.getLast?, row.id < id) → server.Stands id piece n last →
    id ∈ new.map (·.id)

theorem Server.readPiece_spec {fuel n last : ℕ} {all : List (ArchiveRow ι ν δ)}
    (hRows : rows.Pairwise fun a b => a.id < b.id)
    (h : readPiece server.answered ["id"] piece fuel n rows = some (.ok (all, last))) :
    ∃ new, all = rows ++ new ∧ server.PieceRead piece n last rows new := by
  induction fuel generalizing n rows with
  | zero => cases h
  | succ fuel ih =>
    rw [readPiece] at h
    split at h
    · cases h
    · rename_i hPage
      simp only [Option.some.injEq, Except.ok.injEq, Prod.mk.injEq] at h
      obtain ⟨rfl, rfl⟩ := h
      obtain ⟨later, hPerm, -, hNone⟩ := server.page_spec hPage
      refine ⟨[], (List.append_nil _).symm, Nat.lt_succ_self n, by simpa using hRows, nofun,
        fun id hAfter ⟨value, hValue, hStands⟩ => ?_⟩
      obtain ⟨row, hMem, rfl, rfl⟩ := hStands n le_rfl (Nat.lt_succ_self n)
      have hAsked : row ∈ asked (readChain ["id"] piece rows) (server.rowsAt n) := by
        refine mem_asked.mpr ⟨hMem, hValue, fun id hId => ?_⟩
        obtain ⟨row', hLast, rfl⟩ := Option.mem_map.mp hId
        exact hAfter row' hLast
      rw [← hPerm.mem_iff, hNone rfl] at hAsked
      cases hAsked
    · rename_i row page hPage
      obtain ⟨later, hPerm, hOrdered, -⟩ := server.page_spec hPage
      have hIn : ∀ row' ∈ row :: page ++ later, row'.value ∈ piece ∧
          row' ∈ server.rowsAt n ∧ ∀ end' ∈ rows.getLast?, end'.id < row'.id := by
        intro row' hMem
        obtain ⟨hTable, hValue, hGt⟩ := mem_asked.mp (hPerm.mem_iff.mp hMem)
        exact ⟨hValue, hTable, fun end' hEnd => hGt end'.id (Option.mem_map_of_mem _ hEnd)⟩
      -- The rows read so far end below the page.
      have hBelow : ∀ a ∈ rows, ∀ b ∈ row :: page, a.id < b.id := by
        intro a ha b hb
        obtain ⟨front, end', rfl⟩ :=
          (List.eq_nil_or_concat' rows).resolve_left (List.ne_nil_of_mem ha)
        have hEnd := (hIn b (List.mem_append_left later hb)).2.2 end' (by simp)
        rcases List.mem_append.mp ha with ha | ha
        · exact ((List.pairwise_append.mp hRows).2.2 a ha end' List.mem_cons_self).trans hEnd
        · rwa [List.mem_singleton.mp ha]
      have hRead : (rows ++ row :: page).Pairwise fun a b => a.id < b.id :=
        List.pairwise_append.mpr ⟨hRows, (List.pairwise_append.mp hOrdered).1, hBelow⟩
      obtain ⟨new, rfl, hNew⟩ := ih hRead h
      refine ⟨row :: page ++ new, by simp, by have := hNew.number_lt; omega, ?_, ?_, ?_⟩
      · simpa using hNew.ordered
      · intro row' hMem
        rcases List.mem_append.mp hMem with hMem | hMem
        · have hHere := hIn row' (List.mem_append_left later hMem)
          exact ⟨hHere.1, n, hHere.2.1⟩
        · exact hNew.found row' hMem
      · rintro id hAfter ⟨value, hValue, hStands⟩
        obtain ⟨row', hMem, rfl, rfl⟩ := hStands n le_rfl
          ((Nat.lt_succ_self n).trans hNew.number_lt)
        have hAsked : row' ∈ asked (readChain ["id"] piece rows) (server.rowsAt n) := by
          refine mem_asked.mpr ⟨hMem, hValue, fun id hId => ?_⟩
          obtain ⟨end', hLast, rfl⟩ := Option.mem_map.mp hId
          exact hAfter end' hLast
        rw [List.map_append]
        rcases List.mem_append.mp (hPerm.mem_iff.mpr hAsked) with hHere | hLater
        · exact List.mem_append_left _ (List.mem_map_of_mem hHere)
        · refine List.mem_append_right _ (hNew.complete _ (fun end' hEnd => ?_)
            ⟨_, hValue, fun m hFrom hTo => hStands m (by omega) hTo⟩)
          have hEnd : end' ∈ row :: page := by
            rw [List.getLast?_append_cons] at hEnd
            exact List.mem_of_getLast? hEnd
          exact (List.pairwise_append.mp hOrdered).2.2 end' hEnd row' hLater

/-- The ids that may still come after the rows read. -/
def Server.idsAfter (server : Server ι ν δ) (rows : List (ArchiveRow ι ν δ)) : Finset ι :=
  server.ids.filter fun id => ∀ row ∈ rows.getLast?, row.id < id

/-- A read of a piece ends: each page takes the ids up, and there are only so many. -/
theorem Server.readPiece_ends {fuel : ℕ} (n : ℕ) {rows : List (ArchiveRow ι ν δ)}
    (h : (server.idsAfter rows).card < fuel) :
    ∃ result, readPiece server.answered ["id"] piece fuel n rows = some result := by
  induction fuel generalizing n rows with
  | zero => cases h
  | succ fuel ih =>
    rw [readPiece]
    cases hPage : server.answered n (readChain ["id"] piece rows) with
    | error message => exact ⟨_, rfl⟩
    | ok page =>
      cases page with
      | nil => exact ⟨_, rfl⟩
      | cons row page =>
        refine ih (n + 1) (lt_of_lt_of_le (Finset.card_lt_card ?_) (Nat.le_of_lt_succ h))
        obtain ⟨later, hPerm, -, -⟩ := server.page_spec hPage
        obtain ⟨last, hLast⟩ := Option.isSome_iff_exists.mp
          (List.getLast?_isSome.mpr (List.cons_ne_nil row page))
        have hAsked := mem_asked.mp (hPerm.subset
          (List.mem_append_left later (List.mem_of_getLast? hLast)))
        have hAbove : ∀ row' ∈ rows.getLast?, row'.id < last.id := fun row' hEnd =>
          hAsked.2.2 row'.id (Option.mem_map_of_mem _ hEnd)
        have hEnd : (rows ++ row :: page).getLast? = some last := by
          rw [List.getLast?_append_cons, hLast]
        refine Finset.ssubset_iff_subset_ne.mpr ⟨fun id hId => ?_, fun hSame => ?_⟩
        · obtain ⟨hIds, hAfter⟩ := Finset.mem_filter.mp hId
          refine Finset.mem_filter.mpr ⟨hIds, fun row' hRow' => ?_⟩
          exact (hAbove row' hRow').trans (hAfter last hEnd)
        · have hMem : last.id ∈ server.idsAfter rows :=
            Finset.mem_filter.mpr ⟨server.mem_ids n last hAsked.1, hAbove⟩
          rw [← hSame] at hMem
          exact lt_irrefl _ ((Finset.mem_filter.mp hMem).2 last hEnd)

/-! ## The pieces -/

theorem Server.readPieces_ends {fuel : ℕ} (hFuel : server.ids.card < fuel)
    (pieces : List (List ν)) (n : ℕ) :
    ∃ result, readPieces server.answered ["id"] fuel pieces n = some result := by
  induction pieces generalizing n with
  | nil => exact ⟨_, rfl⟩
  | cons piece pieces ih =>
    obtain ⟨result, hPiece⟩ := @Server.readPiece_ends _ _ _ _ _ server piece fuel n []
      ((Finset.card_filter_le _ _).trans_lt hFuel)
    rw [readPieces, hPiece]
    rcases result with message | ⟨rows, n'⟩
    · exact ⟨_, rfl⟩
    · obtain ⟨result, hLater⟩ := ih n'
      dsimp only
      rw [hLater]
      rcases result with message | ⟨later, n''⟩ <;> exact ⟨_, rfl⟩

structure Server.PiecesRead (server : Server ι ν δ) (values : List ν) (n last : ℕ)
    (rows : List (ArchiveRow ι ν δ)) : Prop where
  number_le : n ≤ last
  found : ∀ row ∈ rows, row.value ∈ values ∧ ∃ m, row ∈ server.rowsAt m
  nodup : (rows.map (·.id)).Nodup
  complete : ∀ id, server.Stands id values n last → id ∈ rows.map (·.id)

omit [DecidableEq ν] in
theorem nodup_of_ordered (h : rows.Pairwise fun a b => a.id < b.id) : (rows.map (·.id)).Nodup :=
  List.pairwise_map.mpr (h.imp fun hLt => hLt.ne)

/-- A row that stands all the time stands under a value of one piece. -/
theorem Server.Stands.split {id : ι} {later : List ν} {n n' last : ℕ} (hFirst : n ≤ n')
    (hLast : n' ≤ last) (h : server.Stands id (piece ++ later) n last) :
    server.Stands id piece n n' ∨ server.Stands id later n' last := by
  obtain ⟨value, hValue, hStands⟩ := h
  rcases List.mem_append.mp hValue with hHere | hLater
  · exact Or.inl ⟨value, hHere, fun m hFrom hTo => hStands m hFrom (hTo.trans_le hLast)⟩
  · exact Or.inr ⟨value, hLater, fun m hFrom hTo => hStands m (hFirst.trans hFrom) hTo⟩

theorem Server.readPieces_spec {fuel n last : ℕ} {pieces : List (List ν)}
    (hOnce : pieces.flatten.Nodup)
    (h : readPieces server.answered ["id"] fuel pieces n = some (.ok (rows, last))) :
    server.PiecesRead pieces.flatten n last rows := by
  induction pieces generalizing n rows with
  | nil =>
    cases h
    exact ⟨le_rfl, nofun, List.nodup_nil, fun id ⟨value, hValue, _⟩ => nomatch hValue⟩
  | cons piece pieces ih =>
    rw [List.flatten_cons] at hOnce ⊢
    obtain ⟨-, hLaterOnce, hApart⟩ := List.nodup_append.mp hOnce
    rw [readPieces] at h
    split at h
    · cases h
    · cases h
    · rename_i here n' hPiece
      split at h
      · rename_i later n'' hPieces
        cases h
        obtain ⟨here, rfl, hHere⟩ := server.readPiece_spec .nil hPiece
        have hLater := ih hLaterOnce hPieces
        refine ⟨hHere.number_lt.le.trans hLater.number_le, fun row hMem => ?_, ?_,
          fun id hStands => ?_⟩
        · rcases List.mem_append.mp hMem with hMem | hMem
          · exact ⟨List.mem_append_left _ (hHere.found row hMem).1, (hHere.found row hMem).2⟩
          · exact ⟨List.mem_append_right _ (hLater.found row hMem).1, (hLater.found row hMem).2⟩
        · rw [List.map_append]
          refine List.nodup_append.mpr ⟨nodup_of_ordered hHere.ordered, hLater.nodup, ?_⟩
          -- A row has one value, and the pieces have none in common.
          rintro id hId _ hId' rfl
          obtain ⟨row, hRow, rfl⟩ := List.mem_map.mp hId
          obtain ⟨row', hRow', hSame⟩ := List.mem_map.mp hId'
          obtain ⟨hValue, m, hMem⟩ := hHere.found row hRow
          obtain ⟨hValue', m', hMem'⟩ := hLater.found row' hRow'
          have hFixed := server.value_fixed m' m row' hMem' row hMem hSame
          exact hApart row.value hValue row'.value hValue' hFixed.symm
        · rw [List.map_append]
          rcases hStands.split hHere.number_lt.le hLater.number_le with hStands | hStands
          · exact List.mem_append_left _ (hHere.complete id nofun hStands)
          · exact List.mem_append_right _ (hLater.complete id hStands)
      · rename_i hOther
        exact absurd h (hOther rows last)

theorem nodup_eraseDups (l : List ν) : l.eraseDups.Nodup := by
  induction hLength : l.length using Nat.strong_induction_on generalizing l with
  | _ n ih =>
    cases l with
    | nil => exact List.nodup_nil
    | cons a l =>
      have hShorter : (l.filter fun b => !b == a).length < n := by
        rw [← hLength, List.length_cons]
        exact Nat.lt_succ_of_le (List.length_filter_le _ _)
      rw [List.eraseDups_cons]
      refine List.nodup_cons.mpr ⟨fun hMem => ?_, ih _ hShorter _ rfl⟩
      simpa using List.mem_filter.mp (List.mem_eraseDups.mp hMem)

/-- However others insert and delete rows meanwhile, and however few rows the server answers at
once, a read of a table keyed by `id` ends, with no id twice and every row that stood throughout. -/
theorem Server.readArchivedRows_law (server : Server ι ν δ) (table : ArchiveTableSpec)
    (values : List ν) (hKey : readOrderFor table = ["id"]) : server.ReadLaw table values := by
  have hPieces : (inListChunks values.eraseDups).flatten = values.eraseDups :=
    Photos.flatten_inListChunks _
  have hOnce : (inListChunks values.eraseDups).flatten.Nodup := by
    rw [hPieces]
    exact nodup_eraseDups values
  have hSpec : ∀ fuel rows last,
      readArchivedRows server.answered table values fuel = some (.ok (rows, last)) →
        server.PiecesRead values.eraseDups 0 last rows := by
    intro fuel rows last h
    rw [readArchivedRows, hKey] at h
    exact hPieces ▸ Server.readPieces_spec hOnce h
  refine ⟨⟨server.ids.card + 1, ?_⟩, fun fuel rows last h => (hSpec fuel rows last h).nodup,
    fun fuel rows last h id hStands => (hSpec fuel rows last h).complete id ?_⟩
  · rw [readArchivedRows, hKey]
    exact Server.readPieces_ends (Nat.lt_succ_self _) _ 0
  · obtain ⟨value, hValue, hEach⟩ := hStands
    exact ⟨value, List.mem_eraseDups.mpr hValue, hEach⟩

/-- Hits of one bout, of which the first is undone and a third is scored after the first read. -/
def hits : ℕ → List (ArchiveRow ℕ String Unit)
  | 0 => [⟨1, "bout", ()⟩, ⟨2, "bout", ()⟩]
  | _ + 1 => [⟨2, "bout", ()⟩, ⟨3, "bout", ()⟩]

/-- A server that answers one row at a time. -/
def oneByOne : Server ℕ String Unit where
  rowsAt := hits
  ids_nodup
    | 0 => show [1, 2].Nodup by decide
    | _ + 1 => show [2, 3].Nodup by decide
  value_fixed n m row hRow row' hRow' _ := by
    have hBout : ∀ k, ∀ hit ∈ hits k, hit.value = "bout" := by
      intro k hit hMem
      cases k <;> simp only [hits, List.mem_cons, List.not_mem_nil, or_false] at hMem <;>
        rcases hMem with rfl | rfl <;> rfl
    rw [hBout n row hRow, hBout m row' hRow']
  ids := {1, 2, 3}
  mem_ids n row hRow := by
    cases n <;> simp only [hits, List.mem_cons, List.not_mem_nil, or_false] at hRow <;>
      rcases hRow with rfl | rfl <;> decide
  maxRows _ := 1
  answered n chain :=
    match chain.ask with
    | .limit count => .ok ((asked chain (hits n)).take (min count 1))
    | .range first last => .ok (((asked chain (hits n)).drop first).take (min (last + 1 - first) 1))
  answers n chain count page _ hAsk h := by
    simp only [hAsk, Except.ok.injEq] at h
    refine ⟨_, .refl _, List.Pairwise.sublist List.filter_sublist ?_, h.symm⟩
    cases n <;> simp [hits]

theorem Server.readArchivedRows_law_oneByOne :
    oneByOne.ReadLaw ⟨none⟩ ["bout"] ∧
      (readArchivedRows oneByOne.answered ⟨none⟩ ["bout"] 5).map (·.toOption.map fun r =>
        (r.1.map (·.id), r.2)) = some (some ([1, 2, 3], 4)) :=
  ⟨Server.readArchivedRows_law oneByOne ⟨none⟩ ["bout"] rfl, by decide⟩

end MyClash.Exports
