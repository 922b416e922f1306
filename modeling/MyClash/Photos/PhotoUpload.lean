import MyClash.Photos.PhotoCleanup

/-!
# The upload keeps to the rules

An upload writes its row once both images stand, and gives its photo up before it removes them.
With it every program of the photo stores keeps to the rules.
-/

namespace MyClash.Photos

open LossyCalls

section Programs

variable {photoDeletionInstant : EventRow → Option ℤ} {α : Type} {Q : α → World × Ledger → Prop}
  {e : World × Ledger}

/-! ## The upload -/

def Sending (upload : PhotoKeyParts) (e : World × Ledger) : Prop :=
  upload ∈ e.1.drawn ∧ e.2 upload.photoId = .sending

/-- An image of the photo stands, or the photo is past its grace. -/
def Safeguarded (id : Uuid) (key : String) (e : World × Ledger) : Prop :=
  Stands key e.1 ∨ Doomed id e

section Upload

variable {upload : PhotoKeyParts} {key : String}

theorem Sending.keep {o' : Option Uuid} {a b : World × Ledger}
    (hOther : o' = none ∨ o' ≠ some upload.photoId) (hChange : Change o' a b)
    (h : Sending upload a) : Sending upload b := by
  refine ⟨hChange.drawn h.1, hChange.sending ?_ h.2⟩
  rcases hOther with rfl | hOther
  · exact (Option.some_ne_none _).symm
  · exact hOther

/-- The upload that gives up never gets a row. -/
theorem Sending.fail {a : World × Ledger} (hHeld : Held a) (h : Sending upload a) :
    ∃ g, Change (some upload.photoId) a (a.1, g) ∧ g upload.photoId = .failed ∧
      Doomed upload.photoId (a.1, g) := by
  have hStage : Function.update a.2 upload.photoId .failed upload.photoId = .failed :=
    Function.update_self ..
  refine ⟨_, Change.fail h.2 ⟨upload, h.1, rfl⟩, hStage, hHeld.noRow ?_, Or.inl ?_⟩
  · rw [h.2]
    decide
  · exact fun hEq => absurd (hStage.symm.trans hEq) (by decide)

theorem safeguarded_lasting (hNames : (photoObjectKeys upload.eventId upload.photoId).Names key) :
    Lasting (Safeguarded upload.photoId key) :=
  fun _ _ _ hChange h => hChange.stands (ownerOf_of_names hNames) h

theorem removable_of_doomed {a : World × Ledger} (h : Doomed upload.photoId a) :
    ∀ key ∈ [(photoObjectKeys upload.eventId upload.photoId).originalKey,
      (photoObjectKeys upload.eventId upload.photoId).previewKey], Removable key a := by
  intro key hMem
  simp only [List.mem_cons, List.not_mem_nil, or_false] at hMem
  have hNames : (photoObjectKeys upload.eventId upload.photoId).Names key := hMem
  exact ⟨upload.photoId, ownerOf_of_names hNames, h⟩

theorem safe_put {C : World × Ledger → Prop} (hC : Lasting C) (hNow : C e)
    (hSending : Sending upload e)
    (hNames : (photoObjectKeys upload.eventId upload.photoId).Names key)
    {next : Except String Unit → Program α}
    (hOk : ∀ a, Sending upload a → C a → Safeguarded upload.photoId key a →
      Keeps photoDeletionInstant (some upload.photoId) Q (next (.ok ())) a)
    (hError : ∀ a message, Doomed upload.photoId a →
      Keeps photoDeletionInstant (some upload.photoId) Q
        (next (.error message)) a) :
    Keeps photoDeletionInstant (some upload.photoId) Q
      (.call (Call.put key) next) e := by
  have hGuard := safeguarded_lasting hNames
  refine Rules.Safe.call (F := fun a => Sending upload a ∧ C a)
    (P := fun r a => r = .ok () ∧ Sending upload a ∧ C a ∧ Safeguarded upload.photoId key a)
    ⟨hSending, hNow⟩ (fun hOther hChange h => ⟨h.1.keep hOther hChange, hC.keep hChange h.2⟩)
    (fun hOther hChange h => ⟨h.1, h.2.1.keep hOther hChange, hC.keep hChange h.2.2.1,
      hGuard.keep hChange h.2.2.2⟩) ?_ ?_ ?_ ?_
  · rintro a hint _ ⟨hSending, hThen⟩ _
    have hChange : Change (some upload.photoId) a (a.1.put key, a.2) :=
      Change.put hSending.1 hNames (by rw [hSending.2]; decide)
    refine ⟨a.2, hChange, rfl, hSending, hC.keep hChange hThen, Or.inl ?_⟩
    exact ⟨⟨key, a.1.clock⟩, List.mem_append_right _ (List.mem_singleton.mpr rfl), rfl⟩
  · rintro r a _ ⟨rfl, hSending, hThen, hGuard⟩
    exact hOk a hSending hThen hGuard
  · rintro r a hHeld ⟨-, hSending, -, -⟩ _ message
    obtain ⟨g, hChange, -, hDoomed⟩ := hSending.fail hHeld
    exact ⟨g, hChange, hError (a.1, g) message hDoomed⟩
  · rintro a hHeld ⟨hSending, -⟩ message
    obtain ⟨g, hChange, hFailed, hDoomed⟩ := hSending.fail hHeld
    exact ⟨g, hChange, fun _ => ⟨upload, hSending.1, hNames, hFailed⟩,
      hError (a.1, g) message hDoomed⟩

theorem safe_giveUp {β : Type} {a : World × Ledger} (hDoomed : Doomed upload.photoId a) (b : β)
    {Q : β → World × Ledger → Prop} (hQ : ∀ a, Q b a) :
    Keeps photoDeletionInstant (some upload.photoId) Q
      (removeQuietly [(photoObjectKeys upload.eventId upload.photoId).originalKey,
        (photoObjectKeys upload.eventId upload.photoId).previewKey] >>= fun _ => pure b) a :=
  Rules.Safe.bind (safe_removeQuietly (removable_of_doomed hDoomed)) fun _ a _ => hQ a

theorem safe_storeBoth (hSending : Sending upload e) :
    Keeps photoDeletionInstant (some upload.photoId)
      (fun r a => r = .ok () → Sending upload a ∧
        ∀ key, (photoObjectKeys upload.eventId upload.photoId).Names key →
          Safeguarded upload.photoId key a)
      (storeBoth (photoObjectKeys upload.eventId upload.photoId)) e := by
  refine safe_put (C := fun _ => True) (fun _ _ _ _ _ => trivial) trivial hSending (Or.inl rfl)
    (fun a hSending _ hOriginal => ?_) fun a message hDoomed => ?_
  · refine safe_put (safeguarded_lasting (Or.inl rfl)) hOriginal hSending (Or.inr rfl)
      (fun b hSending hOriginal hPreview _ => ⟨hSending, ?_⟩) fun b message hDoomed => ?_
    · rintro key (rfl | rfl)
      · exact hOriginal
      · exact hPreview
    · exact safe_giveUp hDoomed _ fun _ => nofun
  · exact safe_giveUp hDoomed _ fun _ => nofun

/-- The row that an upload writes. -/
def PhotoKeyParts.row (upload : PhotoKeyParts) : PhotoRow :=
  ⟨upload.photoId, upload.eventId, photoObjectKeys upload.eventId upload.photoId⟩

theorem insertPhoto_change {s : World} {g : Ledger} (hHeld : Held (s, g))
    (hSending : Sending upload (s, g))
    (hGuard : ∀ key, upload.row.keys.Names key → Safeguarded upload.photoId key (s, g))
    (hTimely : Timely (.insertPhoto upload.row) s) :
    ∃ g', Change (some upload.photoId) (s, g) ((s.insertPhoto upload.row).2, g') ∧
      ((s.insertPhoto upload.row).1.isOk ∨
        Doomed upload.photoId ((s.insertPhoto upload.row).2, g')) := by
  have hLate : ¬Late upload.photoId s := by
    rintro ⟨object, hMem, hOwner, hOld⟩
    exact absurd (hTimely object hMem hOwner) (by omega)
  obtain ⟨g', hFail, -, hDoomed⟩ := hSending.fail hHeld
  rw [World.insertPhoto]
  split
  · exact ⟨g', hFail, Or.inr hDoomed⟩
  split
  · exact ⟨g', hFail, Or.inr hDoomed⟩
  · have hInsert : Change (some upload.row.id) (s, g) ({ s with photos := s.photos ++ [upload.row] },
        Function.update g upload.row.id .written) := by
      refine Change.insert hSending.1 rfl hSending.2 hLate fun key hKey => ?_
      refine (hGuard key hKey).resolve_right fun hDoomed => ?_
      exact hDoomed.2.elim (fun hStage => hStage hSending.2) hLate
    exact ⟨_, hInsert, Or.inl rfl⟩

theorem safe_receive (hSending : Sending upload e) :
    Keeps photoDeletionInstant (some upload.photoId) (fun _ _ => True)
      (receive upload.eventId upload.photoId) e := by
  refine Rules.Safe.bind (safe_storeBoth hSending) fun r a hStored => ?_
  cases r with
  | error refusal => exact trivial
  | ok _ =>
    obtain ⟨hSending, hGuard⟩ := hStored rfl
    refine Rules.Safe.call (c := Call.insertPhoto _)
      (F := fun a => Sending upload a ∧
        ∀ key, (photoObjectKeys upload.eventId upload.photoId).Names key →
          Safeguarded upload.photoId key a)
      (P := fun r a => r.isOk ∨ Doomed upload.photoId a) ⟨hSending, hGuard⟩
      (fun hOther hChange h => ⟨h.1.keep hOther hChange, fun key hKey =>
        (safeguarded_lasting hKey).keep hChange (h.2 key hKey)⟩)
      (fun _ hChange h => h.imp_right hChange.doomed) ?_ ?_ ?_ ?_
    · exact fun b hint hHeld h hTimely => insertPhoto_change hHeld h.1 h.2 hTimely
    · intro r b _ hP
      cases r with
      | error message => exact safe_giveUp (hP.resolve_left nofun) _ fun _ => trivial
      | ok _ => exact trivial
    · intro r b _ hP hMay message
      have hDoomed := hP.resolve_left fun hOk => hMay ⟨trivial, hOk⟩
      exact ⟨b.2, Change.refl _ b, safe_giveUp hDoomed _ fun _ => trivial⟩
    · intro b hHeld h message
      obtain ⟨g, hChange, -, hDoomed⟩ := h.1.fail hHeld
      exact ⟨g, hChange, fun hNot => absurd trivial hNot, safe_giveUp hDoomed _ fun _ => trivial⟩

end Upload

/-! ## All of them together -/

theorem relied_lasting (c : Call) : Lasting (Relied c) := by
  rintro _ a b hChange h
  cases c with
  | put key =>
    obtain ⟨upload, hDrawn, hNames, hFailed⟩ := h
    exact ⟨upload, hChange.drawn hDrawn, hNames,
      (hChange.settled (by rw [hFailed]; decide)).trans hFailed⟩
  | remove key => exact (removable_lasting key).keep hChange h
  | forget keys => exact (Lasting.forall_mem removing_spent.goneLasting keys).keep hChange h
  | _ => exact trivial

theorem insertPhoto_refused {s : World} {row : PhotoRow}
    (h : (s.insertPhoto row).1.isOk = false) : (s.insertPhoto row).2 = s := by
  rw [World.insertPhoto] at h ⊢
  split
  · rfl
  next hEvent =>
  split
  · rfl
  next hNew =>
  rw [if_neg hEvent, if_neg hNew] at h
  cases h

theorem land_change {c : Call} {hint : PageHint} {s : World} {g : Ledger}
    (hRelied : Relied c (s, g)) (hClean : ¬c.IsInsert) :
    Change none (s, g) ((land c hint s).2, g) := by
  cases c with
  | put key =>
    obtain ⟨upload, hDrawn, hNames, hFailed⟩ := hRelied
    exact Change.put hDrawn hNames fun hWritten => absurd (hFailed.symm.trans hWritten) (by decide)
  | remove key =>
    obtain ⟨id, hOwner, hDoomed⟩ := hRelied
    exact Change.remove hOwner hDoomed
  | forget keys => exact Change.forget hRelied
  | insertPhoto row => exact absurd trivial hClean
  | deletePhotosOf eventId => exact deletePhotos_change s _ _ g none
  | _ => exact Change.refl none (s, g)

theorem start_change {job : Job} {s s' : World} {g : Ledger} (hHeld : Held (s, g))
    (h : job.start s = some s') : Change none (s, g) (s', g) ∧
      Keeps photoDeletionInstant job.party (fun _ _ => True)
        (job.program photoDeletionInstant) (s', g) ∧
      ∀ id, job.party = some id → (¬∃ upload ∈ s.drawn, upload.photoId = id) ∧
        ∃ upload ∈ s'.drawn, upload.photoId = id := by
  cases job with
  | upload eventId id =>
    rw [Job.start] at h
    split at h
    · cases h
    next hNew =>
    obtain rfl := Option.some.inj h
    have hFresh : ∀ upload ∈ s.drawn, upload.photoId ≠ id := by
      intro upload hMem hEq
      exact hNew (List.any_eq_true.mpr ⟨upload, hMem, decide_eq_true hEq⟩)
    have hSending : Sending ⟨eventId, id⟩ ({ s with drawn := ⟨eventId, id⟩ :: s.drawn }, g) :=
      ⟨List.mem_cons_self, hHeld.fresh id hFresh⟩
    refine ⟨Change.draw hFresh, ?_, ?_⟩
    · exact Rules.Safe.bind (safe_receive hSending) fun _ _ _ => trivial
    · intro id' hEq
      obtain rfl := Option.some.inj hEq
      exact ⟨fun ⟨upload, hMem, hId⟩ => hFresh upload hMem hId, _, List.mem_cons_self, rfl⟩
  | expire =>
    obtain rfl := Option.some.inj h
    exact ⟨Change.refl none _, Rules.Safe.bind safe_expire fun _ _ _ => trivial, nofun⟩
  | drain store rounds =>
    obtain rfl := Option.some.inj h
    exact ⟨Change.refl none _, Rules.Safe.bind (safe_drain store rounds) fun _ _ _ => trivial,
      nofun⟩
  | sweep store rounds =>
    obtain rfl := Option.some.inj h
    exact ⟨Change.refl none _, Rules.Safe.bind (safe_sweep store rounds) fun _ _ _ => trivial,
      nofun⟩

theorem photoRules_kept : photoRules.Kept (photoSystem photoDeletionInstant) where
  refl := Change.refl
  inv hHeld hChange := hHeld.change hChange
  begun := by
    rintro o id e e' ⟨upload, hDrawn, hEq⟩ hChange
    exact ⟨upload, Change.drawn hChange hDrawn, hEq⟩
  stray hRelied hChange := (relied_lasting _).keep hChange hRelied
  refused {c hint s} hClean hError := by
    cases c with
    | insertPhoto row => exact insertPhoto_refused hError
    | _ => cases hClean
  lands {c hint e} _ hRelied hClean _ := ⟨e.2, land_change hRelied hClean⟩
  elsewhere {x e s} _ h := by
    obtain rfl := Option.some.inj h
    exact ⟨e.2, elsewhere_change x e.1 e.2 none⟩
  start {j e s} hHeld h := ⟨e.2, start_change hHeld h⟩

end Programs

end MyClash.Photos
