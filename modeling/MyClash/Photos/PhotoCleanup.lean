import MyClash.Photos.PhotoRules

/-!
# The clean-up keeps to the rules

The drain removes the objects of tombstones and forgets only those that are gone. The sweep
removes the objects of photos past their grace whose row it read and did not find.
-/

namespace MyClash.Photos

open LossyCalls

section Programs

variable {photoDeletionInstant : EventRow → Option ℤ} {o : Option Uuid} {e : World × Ledger}

/-! ## The drain -/

theorem Held.spent {e : World × Ledger} (hHeld : Held e) {key : String}
    (h : key ∈ e.1.oldestTombstones) : Spent key e := by
  obtain ⟨tombstone, hMem, rfl⟩ := List.mem_map.mp h
  exact hHeld.tombstone tombstone ((List.mem_insertionSort _).mp (List.mem_of_mem_take hMem))

theorem safe_tombstones :
    Keeps photoDeletionInstant o
      (fun r a => ∀ keys, r = .ok keys → ∀ key ∈ keys, Spent key a) tombstones e := by
  refine safe_free (C := fun _ => True) (fun _ _ _ _ _ => trivial) trivial
    (fun r a => ∀ keys : List String, r = .ok keys → ∀ key ∈ keys, Spent key a)
    (fun _ => trivial) (fun _ s g => Change.refl o (s, g)) ?_ ?_ ?_ ?_
  · rintro hint s g hHeld _ keys hKeys key hMem
    obtain rfl := Except.ok.inj hKeys
    exact hHeld.spent hMem
  · exact fun r _ a b hChange h keys hKeys key hMem =>
      (removing_spent.lasting key).keep hChange (h keys hKeys key hMem)
  · intro r a _ hSpent
    cases r with
    | error message => exact nofun
    | ok keys => exact hSpent
  · exact fun a message _ => nofun

theorem safe_forget {keys : List String} (hGone : ∀ key ∈ keys, Gone key e) :
    Keeps photoDeletionInstant o (fun _ _ => True) (forget keys) e := by
  rw [forget]
  split
  · exact trivial
  · have hLasting := Lasting.forall_mem (fun key => removing_spent.goneLasting key) keys
    refine Rules.Safe.call (c := Call.forget keys) (F := fun a => ∀ key ∈ keys, Gone key a)
      (P := fun _ _ => True) hGone (fun _ => hLasting.keep) (fun _ _ _ => trivial) ?_ ?_ ?_ ?_
    · exact fun a hint _ hThen _ => ⟨a.2, Change.forget hThen, trivial⟩
    · intro r a _ _
      cases r with
      | error message => exact trivial
      | ok _ => exact trivial
    · exact fun r a _ _ _ message => ⟨a.2, Change.refl o a, trivial⟩
    · exact fun a _ hThen message => ⟨a.2, Change.refl o a, fun _ => hThen, trivial⟩

theorem safe_drainRounds (store : Bool) (deadline : ℤ) (rounds : ℕ) (done : List String) :
    Keeps photoDeletionInstant o (fun _ _ => True)
      (drainRounds store deadline rounds done) e := by
  induction rounds generalizing done e with
  | zero => exact trivial
  | succ rounds ih =>
    refine Rules.Safe.bind safe_tombstones fun r a hSpent => ?_
    cases r with
    | error message => exact trivial
    | ok keys =>
      dsimp only
      split
      · exact trivial
      split
      · exact trivial
      split
      · exact trivial
      · refine Rules.Safe.bind (safe_removeAll removing_spent (hSpent keys rfl) (by rintro _ ⟨⟩)) ?_
        intro removal b hGone
        refine Rules.Safe.bind (safe_forget hGone) fun r c _ => ?_
        cases r with
        | error message => exact trivial
        | ok _ =>
          dsimp only
          split
          · exact trivial
          split
          · exact trivial
          · exact ih _

theorem safe_drain (store : Bool) (rounds : ℕ) :
    Keeps photoDeletionInstant o (fun _ _ => True) (drain store rounds)
      e :=
  fun _ _ _ => safe_drainRounds store _ rounds []

/-! ## The expiry -/

theorem safe_photoEvents (what : String) :
    Keeps photoDeletionInstant o (fun _ _ => True) (photoEvents what)
      e := by
  refine safe_free (C := fun _ => True) (fun _ _ _ _ _ => trivial) trivial (fun _ _ => True)
    (fun _ => trivial) (fun _ s g => Change.refl o (s, g)) (fun _ _ _ _ _ => trivial)
    (fun _ _ _ _ _ _ => trivial) ?_ fun a message _ => trivial
  intro r a _ _
  cases r with
  | error message => exact trivial
  | ok rows => exact trivial

theorem safe_expireEach (now : ℤ) (rows : List EventRow) (expired : Expired) :
    Keeps photoDeletionInstant o (fun _ _ => True)
      (expireEach photoDeletionInstant now rows expired) e := by
  induction rows generalizing expired e with
  | nil => exact trivial
  | cons row rows ih =>
    rw [expireEach]
    split
    · exact ih expired
    split
    · exact ih expired
    · refine safe_free (C := fun _ => True) (fun _ _ _ _ _ => trivial) trivial (fun _ _ => True)
        (fun _ => trivial) (fun _ s g => deletePhotos_change s _ _ g o) (fun _ _ _ _ _ => trivial)
        (fun _ _ _ _ _ _ => trivial) ?_ fun a message _ => ih _
      intro r a _ _
      cases r with
      | error message => exact ih _
      | ok gone => exact ih _

theorem safe_expire :
    Keeps photoDeletionInstant o (fun _ _ => True)
      (expire photoDeletionInstant) e := by
  intro a _ _
  change photoRules.Safe _ o _ (Prog.bind (photoEvents _) _) a
  refine Rules.Safe.bind (safe_photoEvents _) fun r b _ => ?_
  cases r with
  | error message => exact trivial
  | ok rows =>
    refine Rules.Safe.bind (safe_expireEach _ rows _) fun expired c _ => ?_
    split
    · exact trivial
    · exact trivial

/-! ## The sweep -/

def Stale (key : String) (e : World × Ledger) : Prop :=
  ∃ id, ownerOf key = some id ∧ Late id e.1

theorem stale_lasting (key : String) : Lasting (Stale key) := by
  rintro _ a b hChange ⟨id, hOwner, hLate⟩
  exact ⟨id, hOwner, hChange.late hLate⟩

theorem safe_readEvents (what : String) (chunks : List (List Uuid)) (known : List Uuid) :
    Keeps photoDeletionInstant o (fun _ _ => True)
      (readChunks what knownEvents chunks known) e := by
  induction chunks generalizing known e with
  | nil => exact trivial
  | cons chunk chunks ih =>
    refine safe_free (C := fun _ => True) (fun _ _ _ _ _ => trivial) trivial (fun _ _ => True)
      (fun _ => trivial) (fun _ s g => Change.refl o (s, g)) (fun _ _ _ _ _ => trivial)
      (fun _ _ _ _ _ _ => trivial) ?_ fun a message _ => trivial
    intro r a _ _
    cases r with
    | error message => exact trivial
    | ok ids => exact ih _

theorem noRow_of_not_known {s : World} {ids : List Uuid} {id : Uuid} (hMem : id ∈ ids)
    (hNot : id ∉ (s.photos.map (·.id)).filter ids.contains) : NoRow id s := by
  rintro row hRow rfl
  exact hNot (List.mem_filter.mpr ⟨List.mem_map_of_mem hRow, List.contains_iff_mem.mpr hMem⟩)

/-- An id that was read and not found, of a photo past its grace, never gets a row. -/
theorem safe_readPhotos (what : String) {chunks : List (List Uuid)} {known : List Uuid}
    (seen : List Uuid) (hLate : ∀ chunk ∈ chunks, ∀ id ∈ chunk, Late id e.1)
    (hSeen : ∀ id ∈ seen, id ∈ known ∨ Doomed id e) :
    Keeps photoDeletionInstant o
      (fun r a => ∀ ids, r = .ok ids → ∀ id, (id ∈ seen ∨ ∃ chunk ∈ chunks, id ∈ chunk) →
        id ∈ ids ∨ Doomed id a) (readChunks what knownPhotos chunks known) e := by
  induction chunks generalizing known seen e with
  | nil =>
    rintro ids hIds id (hMem | ⟨chunk, hChunk, _⟩)
    · obtain rfl := Except.ok.inj hIds
      exact hSeen id hMem
    · cases hChunk
  | cons chunk chunks ih =>
    have hLateLasting (id : Uuid) : Lasting fun e => Late id e.1 :=
      fun _ _ _ hChange h => hChange.late h
    have hDoomedLasting (known : List Uuid) (id : Uuid) :
        Lasting fun e => id ∈ known ∨ Doomed id e :=
      fun _ _ _ hChange h => h.imp_right hChange.doomed
    have hLasting := (Lasting.forall_mem (fun chunk => Lasting.forall_mem hLateLasting chunk)
      (chunk :: chunks)).and (Lasting.forall_mem (hDoomedLasting known) seen)
    refine safe_free hLasting ⟨hLate, hSeen⟩
      (fun r a => ∀ ids : List Uuid, r = .ok ids → ∀ id ∈ chunk, id ∈ ids ∨ Doomed id a)
      (fun _ => trivial) (fun _ s g => Change.refl o (s, g)) ?_ ?_ ?_ fun a message _ => nofun
    · rintro hint s g _ hThen ids hIds id hMem
      obtain rfl := Except.ok.inj hIds
      by_cases hKnown : id ∈ (s.photos.map (·.id)).filter chunk.contains
      · exact Or.inl hKnown
      · exact Or.inr ⟨noRow_of_not_known hMem hKnown,
          Or.inr (hThen.1 chunk List.mem_cons_self id hMem)⟩
    · exact fun r _ a b hChange h ids hIds id hMem =>
        (hDoomedLasting ids id).keep hChange (h ids hIds id hMem)
    · intro (r : Except String (List Uuid)) a hThen hFound
      cases r with
      | error message => exact nofun
      | ok found =>
        have hNext : ∀ id ∈ seen ++ chunk, id ∈ known ++ found ∨ Doomed id a := by
          intro id hMem
          rcases List.mem_append.mp hMem with hMem | hMem
          · exact (hThen.2 id hMem).imp_left (List.mem_append_left _)
          · exact (hFound found rfl id hMem).imp_left (List.mem_append_right _)
        refine (ih (seen ++ chunk) (fun c hc => hThen.1 c (List.mem_cons_of_mem _ hc)) hNext).mono ?_
        intro r b hAll ids hIds id hMem
        refine hAll ids hIds id ?_
        rcases hMem with hMem | ⟨c, hc, hMem⟩
        · exact Or.inl (List.mem_append_left _ hMem)
        · rcases List.mem_cons.mp hc with rfl | hc
          · exact Or.inl (List.mem_append_right _ hMem)
          · exact Or.inr ⟨c, hc, hMem⟩

theorem safe_orphansOf {keys : List String} (hStale : ∀ key ∈ keys, Stale key e) :
    Keeps photoDeletionInstant o
      (fun r a => ∀ orphans, r = .ok orphans → ∀ key ∈ orphans, Removable key a)
      (orphansOf keys) e := by
  have hLasting := Lasting.forall_mem stale_lasting keys
  refine Rules.Safe.bind (Rules.Safe.frame hLasting.keep (safe_readEvents _ _ _) hStale) ?_
  rintro r a ⟨-, hStale⟩
  cases r with
  | error message => rintro _ ⟨⟩
  | ok events =>
    have hOurs : ∀ p ∈ (keys.filterMap fun key => (photoKeyParts key).map fun parts =>
        (key, parts)).filter fun p => events.contains p.2.eventId,
        p.1 ∈ keys ∧ ownerOf p.1 = some p.2.photoId := by
      intro p hp
      obtain ⟨key, hKey, hParts⟩ := List.mem_filterMap.mp (List.mem_filter.mp hp).1
      obtain ⟨parts, hRead, rfl⟩ := Option.map_eq_some_iff.mp hParts
      exact ⟨hKey, by rw [ownerOf, hRead, Option.map_some]⟩
    refine Rules.Safe.bind (safe_readPhotos _ [] ?_ (by rintro _ ⟨⟩)) ?_
    · intro chunk hChunk id hMem
      obtain ⟨p, hp, rfl⟩ := List.mem_map.mp
        (List.mem_eraseDups.mp (mem_of_mem_inListChunks hChunk hMem))
      obtain ⟨hKey, hOwner⟩ := hOurs p hp
      obtain ⟨id, hId, hLate⟩ := hStale p.1 hKey
      rwa [Option.some.inj (hOwner.symm.trans hId)]
    · intro r b hFound
      cases r with
      | error message => rintro _ ⟨⟩
      | ok photos =>
        rintro orphans hOrphans key hMem
        obtain rfl := Except.ok.inj hOrphans
        obtain ⟨p, hp, rfl⟩ := List.mem_map.mp hMem
        obtain ⟨hp, hNot⟩ := List.mem_filter.mp hp
        have hIn := List.mem_eraseDups.mpr (List.mem_map_of_mem (f := (·.2.photoId)) hp)
        obtain ⟨chunk, hChunk, hId⟩ := exists_mem_inListChunks hIn
        refine ⟨p.2.photoId, (hOurs p hp).2, ?_⟩
        refine (hFound photos rfl _ (Or.inr ⟨chunk, hChunk, hId⟩)).resolve_left fun hKnown => ?_
        rw [List.contains_iff_mem.mpr hKnown] at hNot
        cases hNot

theorem Held.stale {e : World × Ledger} (hHeld : Held e) {object : PhotoObject}
    (hMem : object ∈ e.1.puts)
    (hOld : PHOTO_ORPHAN_GRACE_MS ≤ e.1.clock - object.lastModified) : Stale object.key e := by
  obtain ⟨upload, _, hNames⟩ := hHeld.sent object hMem
  exact ⟨upload.photoId, ownerOf_of_names hNames, object, hMem, ownerOf_of_names hNames, by omega⟩

theorem safe_sweepRounds (deadline : ℤ) (rounds deleted : ℕ) (next : Option String) :
    Keeps photoDeletionInstant o (fun _ _ => True)
      (sweepRounds deadline rounds deleted next) e := by
  induction rounds generalizing deleted next e with
  | zero => exact trivial
  | succ rounds ih =>
    intro a hHeld hRely
    change photoRules.Safe _ o _ (if (!decide (a.1.clock < deadline)) = true then _ else _) a
    split
    · exact trivial
    · have hPutLasting (object : PhotoObject) :
          Lasting fun e : World × Ledger => object ∈ e.1.puts :=
        fun _ _ _ hChange h => hChange.puts h
      refine safe_free (c := Call.list "events/" next) (C := fun _ => True)
        (fun _ _ _ _ _ => trivial) trivial
        (fun r a => ∀ page : PhotoPage, r = .ok page → ∀ object ∈ page.objects, object ∈ a.1.puts)
        (fun _ => trivial) (fun _ s g => Change.refl o (s, g)) ?_ ?_ ?_ fun a message _ => trivial
      · rintro hint s g hHeld _ page hPage object hMem
        obtain rfl := Except.ok.inj hPage
        exact hHeld.listed object (List.mem_filter.mp hMem).1
      · exact fun r _ a b hChange h page hPage object hMem =>
          (hPutLasting object).keep hChange (h page hPage object hMem)
      · intro (r : Except String PhotoPage) b _ hPage
        cases r with
        | error message => exact trivial
        | ok page =>
          intro c hHeld hRely
          have hPuts := (Lasting.forall_mem hPutLasting page.objects).rely hRely (hPage page rfl)
          change photoRules.Safe _ o _ (Prog.bind (orphansOf _) _) c
          refine Rules.Safe.bind (safe_orphansOf ?_) ?_
          · intro key hKey
            obtain ⟨object, hObject, rfl⟩ := List.mem_map.mp hKey
            obtain ⟨hObject, hOld⟩ := List.mem_filter.mp hObject
            exact hHeld.stale (hPuts object hObject) (of_decide_eq_true hOld)
          · intro r d hOrphans
            cases r with
            | error message => exact trivial
            | ok orphans =>
              refine Rules.Safe.bind (safe_removeAll removing_removable (hOrphans orphans rfl)
                fun _ _ => trivial) ?_
              intro removal f _
              dsimp only
              split
              · exact trivial
              split
              · exact trivial
              · exact ih _ _

theorem safe_sweep (store : Bool) (rounds : ℕ) :
    Keeps photoDeletionInstant o (fun _ _ => True) (sweep store rounds)
      e := by
  rw [sweep]
  split
  · exact trivial
  · refine Rules.Safe.bind (safe_photoEvents _) fun r a _ => ?_
    cases r with
    | error message => exact trivial
    | ok rows => exact fun b _ _ => safe_sweepRounds _ rounds 0 none

end Programs

end MyClash.Photos
