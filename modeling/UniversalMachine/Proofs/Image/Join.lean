import Mathlib.Algebra.GroupWithZero.Nat
import UniversalMachine.Proofs.Image.Bytes

namespace UniversalMachine.Image

theorem toBytes_join (images : List Image) :
    (join images).toBytes = (images.map toBytes).flatten := by
  rw [toBytes, join, List.flatMap_assoc, List.flatMap_def]
  rfl

variable {parts : List (List UInt8)} {image : Image} {e : PartialWord}

theorem exists_joinBytes_iff :
    (∃ image, joinBytes parts = .ok image) ↔ ∀ part ∈ parts, part.length % 4 = 0 := by
  simp only [← exists_ofBytes_iff, ← exists_mapM_eq_ok_iff]
  exact exists_map_eq_ok_iff

theorem joinBytes_eq_error_iff :
    joinBytes parts = .error e ↔
      ∃ before part after, parts = before ++ part :: after ∧ (∀ p ∈ before, p.length % 4 = 0) ∧
        part.length % 4 ≠ 0 ∧ e = ⟨part.length⟩ := by
  rw [joinBytes, map_eq_error_iff, mapM_eq_error_iff]
  simp only [exists_ofBytes_iff, ofBytes_eq_error_iff]

theorem ofBytes_flatten (h : joinBytes parts = .ok image) : ofBytes parts.flatten = .ok image := by
  obtain ⟨images, rfl, rfl⟩ := joinBytes_eq_ok_iff.mp h
  rw [← toBytes_join, ofBytes_toBytes]

theorem length_words_of_joinBytes (h : joinBytes parts = .ok image) :
    image.words.length = (parts.map List.length).sum / 4 := by
  rw [← List.length_flatten, ofBytes_eq_ok_iff.mp (ofBytes_flatten h), length_toBytes,
    Nat.mul_div_cancel_left _ (by decide)]

theorem joinBytes_of_whole (h : ofBytes parts.flatten = .ok image)
    (hparts : ∀ part ∈ parts, part.length % 4 = 0) : joinBytes parts = .ok image := by
  obtain ⟨image', hjoin⟩ := exists_joinBytes_iff.mpr hparts
  rw [hjoin, ← ofBytes_flatten hjoin, h]

theorem joined_iff_whole (parts : List (List UInt8)) :
    ((∃ image, joinBytes parts = .ok image) ↔ ∀ part ∈ parts, part.length % 4 = 0) ∧
    (∀ image, joinBytes parts = .ok image → ofBytes parts.flatten = .ok image ∧
      image.words.length = (parts.map List.length).sum / 4) ∧
    (∀ e, joinBytes parts = .error e ↔
      ∃ before part after, parts = before ++ part :: after ∧ (∀ p ∈ before, p.length % 4 = 0) ∧
        part.length % 4 ≠ 0 ∧ e = ⟨part.length⟩) ∧
    ∀ bytes image, ofBytes bytes = .ok image → parts.flatten = bytes →
      (∀ part ∈ parts, part.length % 4 = 0) → joinBytes parts = .ok image := by
  refine ⟨exists_joinBytes_iff, fun image h => ⟨ofBytes_flatten h, length_words_of_joinBytes h⟩,
    fun e => joinBytes_eq_error_iff, ?_⟩
  rintro bytes image h rfl hparts
  exact joinBytes_of_whole h hparts

theorem joined_iff_whole_of_pieces :
    joinBytes [[], [0, 0, 0, 1], [], [0, 0, 0, 2, 0, 0, 0, 3]] = .ok ⟨[1, 2, 3]⟩ ∧
      joinBytes [[0, 0, 0, 1], [0], [0, 0, 2]] = .error ⟨1⟩ := by
  obtain ⟨-, -, -, hpieces⟩ := joined_iff_whole [[], [0, 0, 0, 1], [], [0, 0, 0, 2, 0, 0, 0, 3]]
  obtain ⟨-, -, herror, -⟩ := joined_iff_whole [[0, 0, 0, 1], [0], [0, 0, 2]]
  exact ⟨hpieces _ ⟨[1, 2, 3]⟩ rfl rfl (by decide),
    (herror ⟨1⟩).mpr ⟨[[0, 0, 0, 1]], [0], [[0, 0, 2]], rfl, by decide, by decide, rfl⟩⟩

end UniversalMachine.Image
