import UniversalMachine.Instruction.Basic
/-! Instructions as words. The opcode is the top four bits; registers `a`, `b` and `c` are the
lowest nine, three each; `orthography` keeps its register below the opcode and its immediate in the
remaining 25 bits. -/

namespace UniversalMachine

structure UnknownOpcode where
  word : Word
  deriving DecidableEq, Repr

namespace Word

def code (w : Word) : Nat := (w / 0x10000000).toNat

def registerA (w : Word) : Register := .ofField (w / 64)

def registerB (w : Word) : Register := .ofField (w / 8)

def registerC (w : Word) : Register := .ofField w

def target (w : Word) : Register := .ofField (w / 0x2000000)

def immediate (w : Word) : Word := w % 0x2000000

def opcode? (w : Word) : Except UnknownOpcode Opcode :=
  match Opcode.ofCode? w.code with
  | some op => .ok op
  | none => .error ⟨w⟩

def ofFields (op : Opcode) (a b c : Register) : Word :=
  .ofNat (op.code * 0x10000000 + a.val * 64 + b.val * 8 + c.val)

def ofImmediate (a : Register) (value : Word) : Word :=
  .ofNat (Opcode.orthography.code * 0x10000000 + a.val * 0x2000000 + value.toNat)

end Word

def UnknownOpcode.code (e : UnknownOpcode) : Nat := e.word.code

def UnknownOpcode.message (e : UnknownOpcode) : String :=
  "invalid opcode " ++ Nat.repr e.code ++ " (instruction " ++ e.word.hex ++ ")"

namespace Instruction

def ofOpcode (w : Word) : Opcode → Instruction
  | .conditionalMove => conditionalMove w.registerA w.registerB w.registerC
  | .arrayIndex => arrayIndex w.registerA w.registerB w.registerC
  | .arrayAmendment => arrayAmendment w.registerA w.registerB w.registerC
  | .addition => addition w.registerA w.registerB w.registerC
  | .multiplication => multiplication w.registerA w.registerB w.registerC
  | .division => division w.registerA w.registerB w.registerC
  | .notAnd => notAnd w.registerA w.registerB w.registerC
  | .halt => halt
  | .allocation => allocation w.registerB w.registerC
  | .abandonment => abandonment w.registerC
  | .output => output w.registerC
  | .input => input w.registerC
  | .loadProgram => loadProgram w.registerB w.registerC
  | .orthography => orthography w.target w.immediate

def decode (w : Word) : Except UnknownOpcode Instruction := w.opcode?.map (ofOpcode w)

@[simp] theorem opcode_ofOpcode (w : Word) (op : Opcode) : (ofOpcode w op).opcode = op := by
  cases op <;> rfl

def encode : Instruction → Except AssemblyError Word
  | i@(conditionalMove a b c) | i@(arrayIndex a b c) | i@(arrayAmendment a b c) | i@(addition a b c)
  | i@(multiplication a b c) | i@(division a b c) | i@(notAnd a b c) => .ok (.ofFields i.opcode a b c)
  | halt => .ok (.ofFields .halt 0 0 0)
  | i@(allocation b c) | i@(loadProgram b c) => .ok (.ofFields i.opcode 0 b c)
  | i@(abandonment c) | i@(output c) | i@(input c) => .ok (.ofFields i.opcode 0 0 c)
  | orthography a value =>
    if value ≤ immediateMax then .ok (.ofImmediate a value) else .error (.immediateOutOfRange value)

end Instruction

end UniversalMachine
