import Mathlib

/-!
# The keys of a photo's images

A photo's two images lie in the bucket under keys that carry the ids of its Event and of the
photo, and both ids are read back from either key.
-/

namespace MyClash.Photos

def hexDigit (c : Char) : Bool :=
  c.isDigit || (decide ('a' ≤ c) && decide (c ≤ 'f'))

/-- Five groups of 8, 4, 4, 4 and 12 hexadecimal digits, joined by dashes. -/
def isUuid (text : List Char) : Bool :=
  text.length = 36 && text.zipIdx.all fun (c, i) =>
    if i = 8 ∨ i = 13 ∨ i = 18 ∨ i = 23 then c = '-' else hexDigit c

structure Uuid where
  text : List Char
  isUuid : isUuid text
  deriving DecidableEq

structure PhotoKeys where
  originalKey : String
  previewKey : String
  deriving DecidableEq

@[grind =] def imageKey (eventId photoId : Uuid) (image : String) : String :=
  "events/" ++ String.ofList eventId.text ++ "/" ++ String.ofList photoId.text ++ image

def photoObjectKeys (eventId photoId : Uuid) : PhotoKeys where
  originalKey := imageKey eventId photoId "/original.jpg"
  previewKey := imageKey eventId photoId "/preview.jpg"

structure PhotoKeyParts where
  eventId : Uuid
  photoId : Uuid

def photoKeyParts (key : String) : Option PhotoKeyParts :=
  -- the pattern ignores case, and the ids are answered in lower case
  let text := key.toList.map Char.toLower
  let eventId := (text.drop 7).take 36
  let photoId := (text.drop 44).take 36
  if h : isUuid eventId ∧ isUuid photoId then
    if text.take 7 = "events/".toList ∧ (text.drop 43).take 1 = ['/'] ∧
        (text.drop 80 = "/original.jpg".toList ∨ text.drop 80 = "/preview.jpg".toList) then
      some ⟨⟨eventId, h.1⟩, ⟨photoId, h.2⟩⟩
    else none
  else none

/-! ## What is written is read back -/

theorem Uuid.length_text (id : Uuid) : id.text.length = 36 := by
  have h := id.isUuid
  rw [Photos.isUuid, Bool.and_eq_true, decide_eq_true_eq] at h
  exact h.1

theorem toLower_eq_of_hexDigit {c : Char} (h : hexDigit c) : c.toLower = c := by
  have hNot : ¬(c.val ≥ 'A'.val ∧ c.val ≤ 'Z'.val) := by
    rintro ⟨hLow, hHigh⟩
    rw [hexDigit, Char.isDigit] at h
    simp only [Bool.or_eq_true, Bool.and_eq_true, decide_eq_true_eq, Char.le_def] at h
    simp only [ge_iff_le, UInt32.le_iff_toNat_le] at h hLow hHigh
    have hZ : ('Z' : Char).val.toNat = 90 := rfl
    have hA : ('A' : Char).val.toNat = 65 := rfl
    have h9 : ('9' : Char).val.toNat = 57 := rfl
    have ha : ('a' : Char).val.toNat = 97 := rfl
    omega
  rw [Char.toLower, dif_neg hNot]

theorem Uuid.map_toLower (id : Uuid) : id.text.map Char.toLower = id.text := by
  have h := id.isUuid
  rw [Photos.isUuid, Bool.and_eq_true, List.all_eq_true] at h
  conv_rhs => rw [← List.map_id id.text]
  refine List.map_congr_left fun c hc => ?_
  obtain ⟨i, hi, rfl⟩ := List.getElem_of_mem hc
  have hShape := h.2 (id.text[i], i) (List.mk_mem_zipIdx_iff_getElem?.mpr (by simp [hi]))
  dsimp only at hShape
  split at hShape
  · rw [of_decide_eq_true hShape]
    rfl
  · exact toLower_eq_of_hexDigit hShape

theorem toList_imageKey (eventId photoId : Uuid) (image : String) :
    (imageKey eventId photoId image).toList =
      "events/".toList ++ (eventId.text ++ (['/'] ++ (photoId.text ++ image.toList))) := by
  simp [imageKey]

theorem photoKeyParts_imageKey (eventId photoId : Uuid) {image : String}
    (hImage : image = "/original.jpg" ∨ image = "/preview.jpg") :
    photoKeyParts (imageKey eventId photoId image) = some ⟨eventId, photoId⟩ := by
  have hLower : image.toList.map Char.toLower = image.toList := by
    rcases hImage with rfl | rfl <;> decide
  have hEvent := eventId.length_text
  have hPhoto := photoId.length_text
  let text := (imageKey eventId photoId image).toList.map Char.toLower
  have hText : text =
      "events/".toList ++ (eventId.text ++ (['/'] ++ (photoId.text ++ image.toList))) := by
    simp only [text, toList_imageKey, List.map_append, Uuid.map_toLower, hLower]
    rfl
  have h7 : text.drop 7 = eventId.text ++ (['/'] ++ (photoId.text ++ image.toList)) := by
    rw [hText]
    exact List.drop_left' (by decide)
  have h43 : text.drop 43 = ['/'] ++ (photoId.text ++ image.toList) := by
    rw [show 43 = 7 + 36 from rfl, ← List.drop_drop, h7]
    exact List.drop_left' hEvent
  have h44 : text.drop 44 = photoId.text ++ image.toList := by
    rw [show 44 = 43 + 1 from rfl, ← List.drop_drop, h43]
    rfl
  have h80 : text.drop 80 = image.toList := by
    rw [show 80 = 44 + 36 from rfl, ← List.drop_drop, h44]
    exact List.drop_left' hPhoto
  have hTake : text.take 7 = "events/".toList := by
    rw [hText]
    exact List.take_left' (by decide)
  have hIds : isUuid eventId.text ∧ isUuid photoId.text := ⟨eventId.isUuid, photoId.isUuid⟩
  have hEnd : image.toList = "/original.jpg".toList ∨ image.toList = "/preview.jpg".toList :=
    hImage.imp (congrArg String.toList) (congrArg String.toList)
  simp only [photoKeyParts]
  simp only [show (imageKey eventId photoId image).toList.map Char.toLower = text from rfl, h7, h43,
    h44, h80, hTake, List.take_left' hEvent, List.take_left' hPhoto]
  rw [dif_pos hIds, if_pos ⟨trivial, by rfl, hEnd⟩]

def PhotoKeys.Names (keys : PhotoKeys) (key : String) : Prop :=
  key = keys.originalKey ∨ key = keys.previewKey

theorem photoKeyParts_of_names {eventId photoId : Uuid} {key : String}
    (h : (photoObjectKeys eventId photoId).Names key) :
    photoKeyParts key = some ⟨eventId, photoId⟩ := by
  rcases h with rfl | rfl
  · exact photoKeyParts_imageKey eventId photoId (.inl rfl)
  · exact photoKeyParts_imageKey eventId photoId (.inr rfl)

end MyClash.Photos
