import Mathlib.Algebra.Group.Nat.Defs
import UniversalMachine.Proofs.Image.Codec

namespace UniversalMachine

namespace Word

theorem toBitVec_ofNat_div (w : Word) (start : Nat) :
    (UInt8.ofNat (w.toNat / 2 ^ start)).toBitVec = w.toBitVec.extractLsb' start 8 := by
  rw [← Nat.shiftRight_eq_div_pow]
  rfl

theorem getElem?_toBytes (w : Word) {j : Nat} (hj : j < 4) :
    w.toBytes[j]? = some (.ofNat (w.toNat / 2 ^ (24 - 8 * j))) := by
  match j, hj with
  | 0, _ | 1, _ | 2, _ => rfl
  | 3, _ => exact congrArg (fun n => some (UInt8.ofNat n)) (Nat.div_one w.toNat).symm

end Word

namespace Image

theorem getElem?_flatMap_toBytes (words : List Word) (i : Nat) {j : Nat} (hj : j < 4) :
    (words.flatMap Word.toBytes)[4 * i + j]? = words[i]?.bind fun w => w.toBytes[j]? := by
  induction words generalizing i with
  | nil => rfl
  | cons w words ih =>
    rw [List.flatMap_cons]
    cases i with
    | zero => rw [Nat.mul_zero, Nat.zero_add, List.getElem?_append_left hj]; rfl
    | succ i =>
      have hle : w.toBytes.length ≤ 4 * (i + 1) + j := by rw [Word.length_toBytes]; omega
      have hsub : 4 * (i + 1) + j - 4 = 4 * i + j := by omega
      rw [List.getElem?_append_right hle, Word.length_toBytes, hsub, ih, List.getElem?_cons_succ]

theorem getElem?_toBytes (image : Image) (i : Nat) {j : Nat} (hj : j < 4) :
    image.toBytes[4 * i + j]?.map UInt8.toBitVec =
      image.words[i]?.map fun w => w.toBitVec.extractLsb' (24 - 8 * j) 8 := by
  rw [toBytes, getElem?_flatMap_toBytes image.words i hj]
  cases image.words[i]? with
  | none => rfl
  | some w =>
    rw [Option.bind_some, Word.getElem?_toBytes w hj, Option.map_some, Word.toBitVec_ofNat_div,
      Option.map_some]

variable {bytes : List UInt8} {e : PartialWord}

theorem exists_ofBytes_iff : (∃ image, ofBytes bytes = .ok image) ↔ bytes.length % 4 = 0 := by
  constructor
  · rintro ⟨image, h⟩
    rw [ofBytes_eq_ok_iff.mp h, length_toBytes, Nat.mul_mod_right]
  · intro h
    exact ⟨_, if_pos h⟩

theorem ofBytes_eq_error_iff :
    ofBytes bytes = .error e ↔ bytes.length % 4 ≠ 0 ∧ e = ⟨bytes.length⟩ := by
  rw [ofBytes]
  split
  · next h =>
    constructor
    · rintro ⟨⟩
    · rintro ⟨hne, -⟩
      exact absurd h hne
  · next h =>
    constructor
    · rintro ⟨⟩
      exact ⟨h, rfl⟩
    · rintro ⟨-, rfl⟩
      rfl

theorem bytes_bijective (image : Image) (bytes : List UInt8) :
    ofBytes image.toBytes = .ok image ∧ image.toBytes.length = 4 * image.words.length ∧
    ((∃ image', ofBytes bytes = .ok image') ↔ bytes.length % 4 = 0) ∧
    (∀ e, ofBytes bytes = .error e ↔ bytes.length % 4 ≠ 0 ∧ e = ⟨bytes.length⟩) ∧
    (∀ image', ofBytes bytes = .ok image' → image'.toBytes = bytes) ∧
    ∀ i j, j < 4 → image.toBytes[4 * i + j]?.map UInt8.toBitVec =
      image.words[i]?.map fun w => w.toBitVec.extractLsb' (24 - 8 * j) 8 :=
  ⟨ofBytes_toBytes image, length_toBytes image, exists_ofBytes_iff, fun _ => ofBytes_eq_error_iff,
    fun _ h => (ofBytes_eq_ok_iff.mp h).symm, fun i _ hj => getElem?_toBytes image i hj⟩

theorem bytes_bijective_of_two_words :
    ofBytes [0x12, 0x34, 0x56, 0x78, 0xd2, 0, 0, 0x41] = .ok ⟨[0x12345678, 0xd2000041]⟩ ∧
    (Image.mk [0x12345678, 0xd2000041]).toBytes = [0x12, 0x34, 0x56, 0x78, 0xd2, 0, 0, 0x41] ∧
    3 < 4 ∧
    (Image.mk [0x12345678, 0xd2000041]).toBytes[4 * 1 + 3]?.map UInt8.toBitVec = some 0x41 := by
  have hread : ofBytes [0x12, 0x34, 0x56, 0x78, 0xd2, 0, 0, 0x41] =
      .ok ⟨[0x12345678, 0xd2000041]⟩ := rfl
  obtain ⟨-, -, -, -, hwritten, hbyte⟩ := bytes_bijective ⟨[0x12345678, 0xd2000041]⟩
    [0x12, 0x34, 0x56, 0x78, 0xd2, 0, 0, 0x41]
  exact ⟨hread, hwritten _ hread, by decide, (hbyte 1 3 (by decide)).trans rfl⟩

end Image

end UniversalMachine
