import UniversalMachine.Instruction.Codec

namespace UniversalMachine

namespace Word

theorem toNat_code (w : Word) : w.code = w.toNat / 0x10000000 := UInt32.toNat_div ..

theorem code_eq_shiftRight (w : Word) : w.code = w.toNat >>> 28 := by
  rw [toNat_code, Nat.shiftRight_eq_div_pow]

theorem le_code_iff (w : Word) : 14 ≤ w.code ↔ w.code = 14 ∨ w.code = 15 := by
  have hlt := w.toNat_lt
  rw [toNat_code]
  omega

theorem val_registerA (w : Word) : w.registerA.val = w.toNat / 64 % 8 := by
  rw [registerA, Register.val_ofField, UInt32.toNat_div]
  rfl

theorem val_registerB (w : Word) : w.registerB.val = w.toNat / 8 % 8 := by
  rw [registerB, Register.val_ofField, UInt32.toNat_div]
  rfl

theorem val_registerC (w : Word) : w.registerC.val = w.toNat % 8 := by
  rw [registerC, Register.val_ofField]

theorem val_target (w : Word) : w.target.val = w.toNat / 0x2000000 % 8 := by
  rw [target, Register.val_ofField, UInt32.toNat_div]
  rfl

theorem toNat_immediate (w : Word) : w.immediate.toNat = w.toNat % 0x2000000 := UInt32.toNat_mod ..

theorem immediate_le (w : Word) : w.immediate ≤ Instruction.immediateMax := by
  have hmax : Instruction.immediateMax.toNat = 0x1ffffff := rfl
  rw [UInt32.le_iff_toNat_le, toNat_immediate, hmax]
  omega

section Fields

variable (op : Opcode) (a b c : Register)

theorem toNat_ofFields :
    (ofFields op a b c).toNat = op.code * 0x10000000 + a.val * 64 + b.val * 8 + c.val := by
  have := op.code_lt
  rw [ofFields, UInt32.toNat_ofNat_of_lt']
  simp only [UInt32.size]
  omega

theorem code_ofFields : (ofFields op a b c).code = op.code := by
  rw [toNat_code, toNat_ofFields]
  omega

theorem registerA_ofFields : (ofFields op a b c).registerA = a := by
  apply Fin.ext
  rw [val_registerA, toNat_ofFields]
  omega

theorem registerB_ofFields : (ofFields op a b c).registerB = b := by
  apply Fin.ext
  rw [val_registerB, toNat_ofFields]
  omega

theorem registerC_ofFields : (ofFields op a b c).registerC = c := by
  apply Fin.ext
  rw [val_registerC, toNat_ofFields]
  omega

end Fields

section Immediate

variable (a : Register) {value : Word} (hvalue : value ≤ Instruction.immediateMax)
include hvalue

theorem toNat_le_immediateMax : value.toNat ≤ 0x1ffffff := UInt32.le_iff_toNat_le.mp hvalue

theorem toNat_ofImmediate :
    (ofImmediate a value).toNat = 13 * 0x10000000 + a.val * 0x2000000 + value.toNat := by
  have hle := toNat_le_immediateMax hvalue
  have hlt : Opcode.orthography.code * 0x10000000 + a.val * 0x2000000 + value.toNat
      < UInt32.size := by
    simp only [Opcode.code, UInt32.size]
    omega
  rw [ofImmediate, UInt32.toNat_ofNat_of_lt' hlt]
  rfl

theorem code_ofImmediate : (ofImmediate a value).code = Opcode.orthography.code := by
  have hle := toNat_le_immediateMax hvalue
  rw [toNat_code, toNat_ofImmediate a hvalue, Opcode.code]
  omega

theorem target_ofImmediate : (ofImmediate a value).target = a := by
  have hle := toNat_le_immediateMax hvalue
  apply Fin.ext
  rw [val_target, toNat_ofImmediate a hvalue]
  omega

theorem immediate_ofImmediate : (ofImmediate a value).immediate = value := by
  have hle := toNat_le_immediateMax hvalue
  apply UInt32.toNat_inj.mp
  rw [toNat_immediate, toNat_ofImmediate a hvalue]
  omega

end Immediate

end Word

namespace Instruction

variable {w : Word} {op : Opcode} {i : Instruction}

theorem decode_of_code (h : w.code = op.code) : decode w = .ok (ofOpcode w op) := by
  rw [decode, Word.opcode?, h, Opcode.ofCode?_code]
  rfl

theorem decode_eq_error_iff {e : UnknownOpcode} : decode w = .error e ↔ 14 ≤ w.code ∧ e = ⟨w⟩ := by
  rw [decode, Word.opcode?]
  cases h : Opcode.ofCode? w.code with
  | none =>
    have hcode := Opcode.ofCode?_eq_none_iff.mp h
    constructor
    · rintro ⟨⟩
      exact ⟨hcode, rfl⟩
    · rintro ⟨-, rfl⟩
      rfl
  | some op =>
    have hcode := Opcode.code_of_ofCode? h ▸ op.code_lt
    constructor
    · rintro ⟨⟩
    · rintro ⟨hle, -⟩
      omega

theorem decode_eq_ok_iff : decode w = .ok i ↔ ∃ op, w.code = op.code ∧ i = ofOpcode w op := by
  constructor
  · intro hdecode
    rw [decode, Word.opcode?] at hdecode
    cases h : Opcode.ofCode? w.code with
    | none => rw [h] at hdecode; cases hdecode
    | some op =>
      rw [h] at hdecode
      cases hdecode
      exact ⟨op, (Opcode.code_of_ofCode? h).symm, rfl⟩
  · rintro ⟨op, hcode, rfl⟩
    exact decode_of_code hcode

theorem encode_eq_error_iff {e : AssemblyError} :
    encode i = .error e ↔
      ∃ a value, i = .orthography a value ∧ immediateMax < value ∧ e = .immediateOutOfRange value := by
  constructor
  · intro hencode
    cases i with
    | orthography a value =>
      rw [encode] at hencode
      split at hencode
      · cases hencode
      · next hgt => cases hencode; exact ⟨a, value, rfl, UInt32.not_le.mp hgt, rfl⟩
    | _ => cases hencode
  · rintro ⟨a, value, rfl, hgt, rfl⟩
    rw [encode, if_neg (UInt32.not_le.mpr hgt)]

theorem encode_orthography (a : Register) {value : Word} (h : value ≤ immediateMax) :
    encode (.orthography a value) = .ok (.ofImmediate a value) := by
  rw [encode, if_pos h]

theorem exists_encode_iff_le :
    (∃ w, encode i = .ok w) ↔ ∀ a value, i = .orthography a value → value ≤ immediateMax := by
  constructor
  · rintro ⟨w, hencode⟩ a value rfl
    apply UInt32.not_lt.mp
    intro hgt
    rw [encode_eq_error_iff.mpr ⟨a, value, rfl, hgt, rfl⟩] at hencode
    cases hencode
  · intro hfits
    cases hencode : encode i with
    | ok w => exact ⟨w, rfl⟩
    | error e =>
      obtain ⟨a, value, rfl, hgt, -⟩ := encode_eq_error_iff.mp hencode
      exact absurd (hfits a value rfl) (UInt32.not_le.mpr hgt)

theorem decode_encode (hencode : encode i = .ok w) : decode w = .ok i := by
  cases i with
  | conditionalMove a b c | arrayIndex a b c | arrayAmendment a b c | addition a b c
  | multiplication a b c | division a b c | notAnd a b c =>
    cases hencode
    rw [decode_of_code (Word.code_ofFields ..), opcode, ofOpcode, Word.registerA_ofFields,
      Word.registerB_ofFields, Word.registerC_ofFields]
  | halt =>
    cases hencode
    rw [decode_of_code (Word.code_ofFields ..), ofOpcode]
  | allocation b c | loadProgram b c =>
    cases hencode
    rw [decode_of_code (Word.code_ofFields ..), opcode, ofOpcode, Word.registerB_ofFields,
      Word.registerC_ofFields]
  | abandonment c | output c | input c =>
    cases hencode
    rw [decode_of_code (Word.code_ofFields ..), opcode, ofOpcode, Word.registerC_ofFields]
  | orthography a value =>
    rw [encode] at hencode
    split at hencode
    · next hvalue =>
      cases hencode
      rw [decode_of_code (Word.code_ofImmediate a hvalue), ofOpcode, Word.target_ofImmediate a hvalue,
        Word.immediate_ofImmediate a hvalue]
    · cases hencode

theorem encode_inj {i' : Instruction} (h : encode i = .ok w) (h' : encode i' = .ok w) : i = i' := by
  have hdecode := (decode_encode h).symm.trans (decode_encode h')
  cases hdecode
  rfl

end Instruction

end UniversalMachine
