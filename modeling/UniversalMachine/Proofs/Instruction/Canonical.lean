import Mathlib.Algebra.Group.Nat.Defs
import UniversalMachine.Proofs.Instruction.Codec

namespace UniversalMachine

def Opcode.operandWidth : Opcode → Nat
  | conditionalMove | arrayIndex | arrayAmendment | addition | multiplication | division
  | notAnd => 9
  | halt => 0
  | allocation | loadProgram => 6
  | abandonment | output | input => 3
  | orthography => 28

def Opcode.Unused (op : Opcode) (n : Nat) : Prop := op.operandWidth ≤ n ∧ n < 28

instance (op : Opcode) (n : Nat) : Decidable (op.Unused n) := inferInstanceAs (Decidable (_ ∧ _))

def Word.canonical (w : Word) : Word :=
  ((Instruction.decode w).toOption.bind fun i => i.encode.toOption).getD w

theorem Opcode.operandWidth_le (op : Opcode) : op.operandWidth ≤ 28 := by cases op <;> decide

theorem testBit_cleared (n k : Nat) {width : Nat} (hwidth : width ≤ 28) :
    (n / 2 ^ 28 * 2 ^ 28 + n % 2 ^ width).testBit k =
      (n.testBit k && !decide (width ≤ k ∧ k < 28)) := by
  have hlt : n % 2 ^ width < 2 ^ 28 :=
    Nat.lt_of_lt_of_le (Nat.mod_lt _ (Nat.two_pow_pos _)) (Nat.pow_le_pow_right (by decide) hwidth)
  rw [Nat.mul_comm, Nat.testBit_two_pow_mul_add _ hlt]
  by_cases hk : k < 28
  · rw [if_pos hk, Nat.testBit_mod_two_pow, Bool.and_comm]
    simp only [hk, and_true, Nat.not_le, ← decide_not]
  · have hbit : 28 + (k - 28) = k := by omega
    rw [if_neg hk, Nat.testBit_div_two_pow, Nat.sub_add_cancel (Nat.not_lt.mp hk)]
    simp only [hk, and_false, decide_false, Bool.not_false, Bool.and_true]

theorem Word.eq_of_testBit {w v : Word} (h : ∀ n, w.toNat.testBit n = v.toNat.testBit n) : w = v :=
  UInt32.toNat_inj.mp (Nat.eq_of_testBit_eq h)

namespace Instruction

variable {w w' : Word} {op : Opcode} {i : Instruction}

theorem encode_ofOpcode (h : w.code = op.code) :
    ∃ w', encode (ofOpcode w op) = .ok w' ∧
      w'.toNat = w.toNat / 2 ^ 28 * 2 ^ 28 + w.toNat % 2 ^ op.operandWidth := by
  have hcode : w.toNat / 2 ^ 28 = op.code := (Word.toNat_code w).symm.trans h
  rw [hcode]
  cases op with
  | conditionalMove | arrayIndex | arrayAmendment | addition | multiplication | division | notAnd
  | halt | allocation | loadProgram | abandonment | output | input =>
    refine ⟨_, rfl, ?_⟩
    simp only [Word.toNat_ofFields, Word.val_registerA, Word.val_registerB, Word.val_registerC,
      opcode, Opcode.operandWidth, Fin.val_zero]
    omega
  | orthography =>
    refine ⟨_, encode_orthography _ w.immediate_le, ?_⟩
    rw [Word.toNat_ofImmediate _ w.immediate_le, Word.val_target, Word.toNat_immediate]
    simp only [Opcode.code, Opcode.operandWidth]
    omega

theorem encode_of_decode (hdecode : decode w = .ok i) :
    ∃ w', encode i = .ok w' ∧
      ∀ n, w'.toNat.testBit n = (w.toNat.testBit n && !decide (i.opcode.Unused n)) := by
  obtain ⟨op, hcode, rfl⟩ := decode_eq_ok_iff.mp hdecode
  obtain ⟨w', hencode, hval⟩ := encode_ofOpcode hcode
  refine ⟨w', hencode, fun n => ?_⟩
  rw [hval, opcode_ofOpcode]
  exact testBit_cleared _ _ op.operandWidth_le

theorem code_opcode_of_decode (hdecode : decode w = .ok i) : i.opcode.code = w.code := by
  obtain ⟨op, hcode, rfl⟩ := decode_eq_ok_iff.mp hdecode
  rw [opcode_ofOpcode, hcode]

theorem opcode_eq_of_code {v : Word} {j : Instruction} (hw : decode w = .ok i)
    (hv : decode v = .ok j) (hcode : w.code = v.code) : i.opcode = j.opcode := by
  apply Option.some.inj
  rw [← Opcode.ofCode?_code, ← Opcode.ofCode?_code, code_opcode_of_decode hw,
    code_opcode_of_decode hv, hcode]

theorem decode_inj_iff {v : Word} {j : Instruction} (hw : decode w = .ok i) (hv : decode v = .ok j) :
    i = j ↔ w.code = v.code ∧ ∀ n, ¬i.opcode.Unused n → w.toNat.testBit n = v.toNat.testBit n := by
  obtain ⟨w', hencode, hbits⟩ := encode_of_decode hw
  obtain ⟨v', hencode', hbits'⟩ := encode_of_decode hv
  constructor
  · rintro rfl
    refine ⟨(code_opcode_of_decode hw).symm.trans (code_opcode_of_decode hv), fun n hn => ?_⟩
    have hsame : w' = v' := Except.ok.inj (hencode.symm.trans hencode')
    have := hbits n
    rw [hsame, hbits' n, decide_eq_false hn] at this
    simpa using this.symm
  · rintro ⟨hcode, hsame⟩
    have hop := opcode_eq_of_code hw hv hcode
    have hwords : w' = v' := by
      refine Word.eq_of_testBit fun n => ?_
      rw [hbits, hbits', ← hop]
      by_cases hn : i.opcode.Unused n
      · rw [decide_eq_true hn, Bool.not_true, Bool.and_false, Bool.and_false]
      · rw [hsame n hn]
    exact encode_inj hencode (hwords ▸ hencode')

theorem exists_encode_iff :
    (∃ i, encode i = .ok w) ↔
      ∃ i, decode w = .ok i ∧ ∀ n, i.opcode.Unused n → w.toNat.testBit n = false := by
  constructor
  · rintro ⟨i, hencode⟩
    have hdecode := decode_encode hencode
    refine ⟨i, hdecode, fun n hn => ?_⟩
    obtain ⟨w', hencode', hbits⟩ := encode_of_decode hdecode
    have hsame : w' = w := Except.ok.inj (hencode'.symm.trans hencode)
    rw [← hsame, hbits, decide_eq_true hn, Bool.not_true, Bool.and_false]
  · rintro ⟨i, hdecode, hunused⟩
    obtain ⟨w', hencode, hbits⟩ := encode_of_decode hdecode
    have hsame : w' = w := by
      refine Word.eq_of_testBit fun n => ?_
      rw [hbits]
      by_cases hn : i.opcode.Unused n
      · rw [hunused n hn, Bool.false_and]
      · rw [decide_eq_false hn, Bool.not_false, Bool.and_true]
    exact ⟨i, hsame ▸ hencode⟩

end Instruction

namespace Word

open Instruction

variable {w w' : Word} {i : Instruction}

theorem canonical_of_encode (hdecode : decode w = .ok i) (hencode : encode i = .ok w') :
    w.canonical = w' := by
  rw [canonical, hdecode]
  simp only [Except.toOption, Option.bind_some, hencode, Option.getD_some]

theorem canonical_of_error {e : UnknownOpcode} (hdecode : decode w = .error e) :
    w.canonical = w := by
  rw [canonical, hdecode]
  rfl

theorem decode_canonical (w : Word) : decode w.canonical = decode w := by
  cases hdecode : decode w with
  | error e => rw [canonical_of_error hdecode, hdecode]
  | ok i =>
    obtain ⟨w', hencode, -⟩ := encode_of_decode hdecode
    rw [canonical_of_encode hdecode hencode, decode_encode hencode]

theorem canonical_canonical (w : Word) : w.canonical.canonical = w.canonical := by
  cases hdecode : decode w with
  | error e => rw [canonical_of_error hdecode, canonical_of_error hdecode]
  | ok i =>
    obtain ⟨w', hencode, -⟩ := encode_of_decode hdecode
    rw [canonical_of_encode hdecode hencode, canonical_of_encode (decode_encode hencode) hencode]

/-- Reading a word and writing it again, bit by bit: which words cannot be read, what is kept of
those that can, which of them hold the same instruction, and which of them are written. -/
theorem reencoded (w : Word) :
    (∀ e, decode w = .error e ↔
      (w.toNat >>> 28 = 14 ∨ w.toNat >>> 28 = 15) ∧ e.code = w.toNat >>> 28 ∧ e.word = w) ∧
    (∀ i, decode w = .ok i →
      i.opcode.code = w.toNat >>> 28 ∧
      (∃ w', encode i = .ok w' ∧ w.canonical = w' ∧
        ∀ n, w'.toNat.testBit n = (w.toNat.testBit n && !decide (i.opcode.Unused n))) ∧
      ∀ v j, decode v = .ok j →
        (decode w = decode v ↔ w.toNat >>> 28 = v.toNat >>> 28 ∧
          ∀ n, ¬i.opcode.Unused n → w.toNat.testBit n = v.toNat.testBit n)) ∧
    w.canonical.canonical = w.canonical ∧
    ((∃ i, encode i = .ok w) ↔
      ∃ i, decode w = .ok i ∧ ∀ n, i.opcode.Unused n → w.toNat.testBit n = false) := by
  refine ⟨fun e => ?_, fun i hdecode => ⟨?_, ?_, fun v j hdecode' => ?_⟩, w.canonical_canonical,
    exists_encode_iff⟩
  · rw [decode_eq_error_iff, le_code_iff, code_eq_shiftRight]
    constructor
    · rintro ⟨hcode, rfl⟩
      exact ⟨hcode, w.code_eq_shiftRight, rfl⟩
    · rintro ⟨hcode, -, rfl⟩
      exact ⟨hcode, rfl⟩
  · rw [code_opcode_of_decode hdecode, code_eq_shiftRight]
  · obtain ⟨w', hencode, hbits⟩ := encode_of_decode hdecode
    exact ⟨w', hencode, canonical_of_encode hdecode hencode, hbits⟩
  · rw [hdecode, hdecode', Except.ok.injEq, decode_inj_iff hdecode hdecode', code_eq_shiftRight,
      code_eq_shiftRight]

theorem reencoded_halt :
    decode 0x7fffffff = .ok .halt ∧ encode .halt = .ok (0x7fffffff : Word).canonical ∧
      ∀ n, (0x7fffffff : Word).canonical.toNat.testBit n =
        ((0x7fffffff : Word).toNat.testBit n && !decide (Opcode.halt.Unused n)) := by
  have hdecode : decode 0x7fffffff = .ok .halt := rfl
  obtain ⟨-, hread, -, -⟩ := reencoded 0x7fffffff
  obtain ⟨-, ⟨w', hencode, rfl, hbits⟩, -⟩ := hread .halt hdecode
  exact ⟨hdecode, hencode, hbits⟩

end Word

end UniversalMachine
