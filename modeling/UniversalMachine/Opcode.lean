namespace UniversalMachine

inductive Opcode
  | conditionalMove
  | arrayIndex
  | arrayAmendment
  | addition
  | multiplication
  | division
  | notAnd
  | halt
  | allocation
  | abandonment
  | output
  | input
  | loadProgram
  | orthography
  deriving DecidableEq, Repr

namespace Opcode

def all : Array Opcode :=
  #[conditionalMove, arrayIndex, arrayAmendment, addition, multiplication, division, notAnd, halt,
    allocation, abandonment, output, input, loadProgram, orthography]

def code : Opcode → Nat
  | conditionalMove => 0
  | arrayIndex => 1
  | arrayAmendment => 2
  | addition => 3
  | multiplication => 4
  | division => 5
  | notAnd => 6
  | halt => 7
  | allocation => 8
  | abandonment => 9
  | output => 10
  | input => 11
  | loadProgram => 12
  | orthography => 13

def ofCode? (code : Nat) : Option Opcode := all[code]?

def mnemonic : Opcode → String
  | conditionalMove => "CMOV"
  | arrayIndex => "INDEX"
  | arrayAmendment => "AMEND"
  | addition => "ADD"
  | multiplication => "MUL"
  | division => "DIV"
  | notAnd => "NAND"
  | halt => "HALT"
  | allocation => "ALLOC"
  | abandonment => "FREE"
  | output => "OUT"
  | input => "IN"
  | loadProgram => "LOADPROG"
  | orthography => "ORTH"

theorem code_lt (op : Opcode) : op.code < 14 := by cases op <;> decide

@[simp] theorem ofCode?_code (op : Opcode) : ofCode? op.code = some op := by cases op <;> rfl

theorem ofCode?_eq_none_iff {n : Nat} : ofCode? n = none ↔ 14 ≤ n := by
  simp [ofCode?, all]

theorem code_of_ofCode? {n : Nat} {op : Opcode} (h : ofCode? n = some op) : op.code = n := by
  have hn : n < 14 := by
    apply Nat.lt_of_not_le
    intro hle
    rw [ofCode?_eq_none_iff.mpr hle] at h
    cases h
  match n, hn with
  | 0, _ | 1, _ | 2, _ | 3, _ | 4, _ | 5, _ | 6, _ | 7, _ | 8, _ | 9, _ | 10, _ | 11, _ | 12, _
  | 13, _ => cases h; rfl

end Opcode

end UniversalMachine
