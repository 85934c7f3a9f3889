import UniversalMachine.Opcode
import UniversalMachine.Register

namespace UniversalMachine

/-- The immediate of `orthography` is any word here; only those up to `Instruction.immediateMax`
can be encoded. -/
inductive Instruction
  | conditionalMove (a b c : Register)
  | arrayIndex (a b c : Register)
  | arrayAmendment (a b c : Register)
  | addition (a b c : Register)
  | multiplication (a b c : Register)
  | division (a b c : Register)
  | notAnd (a b c : Register)
  | halt
  | allocation (b c : Register)
  | abandonment (c : Register)
  | output (c : Register)
  | input (c : Register)
  | loadProgram (b c : Register)
  | orthography (a : Register) (value : Word)
  deriving DecidableEq, Repr

inductive AssemblyError
  | registerOutOfRange (index : Nat)
  | immediateOutOfRange (value : Word)
  deriving DecidableEq, Repr

def AssemblyError.message : AssemblyError → String
  | registerOutOfRange index => "register index " ++ Nat.repr index ++ " out of range (max 7)"
  | immediateOutOfRange value =>
    "immediate " ++ Numeral.hex value.toNat ++ " does not fit in 25 bits (max 0x1ffffff)"

def Register.ofIndex (index : Nat) : Except AssemblyError Register :=
  if h : index < 8 then .ok ⟨index, h⟩ else .error (.registerOutOfRange index)

namespace Instruction

def opcode : Instruction → Opcode
  | conditionalMove .. => .conditionalMove
  | arrayIndex .. => .arrayIndex
  | arrayAmendment .. => .arrayAmendment
  | addition .. => .addition
  | multiplication .. => .multiplication
  | division .. => .division
  | notAnd .. => .notAnd
  | halt => .halt
  | allocation .. => .allocation
  | abandonment .. => .abandonment
  | output .. => .output
  | input .. => .input
  | loadProgram .. => .loadProgram
  | orthography .. => .orthography

def registers : Instruction → List Register
  | conditionalMove a b c | arrayIndex a b c | arrayAmendment a b c | addition a b c
  | multiplication a b c | division a b c | notAnd a b c => [a, b, c]
  | halt => []
  | allocation b c | loadProgram b c => [b, c]
  | abandonment c | output c | input c => [c]
  | orthography a _ => [a]

def immediateMax : Word := 0x1ffffff

def orthography? (a : Register) (value : Word) : Except AssemblyError Instruction :=
  if value ≤ immediateMax then .ok (.orthography a value) else .error (.immediateOutOfRange value)

def text (i : Instruction) : String :=
  let immediate := match i with
    | orthography _ value => [Nat.repr value.toNat]
    | _ => []
  " ".intercalate (i.opcode.mnemonic :: (i.registers.map Register.text ++ immediate))

end Instruction

end UniversalMachine
