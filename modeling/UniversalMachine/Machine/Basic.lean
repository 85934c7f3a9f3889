import UniversalMachine.Image
import UniversalMachine.Machine.Fault
import UniversalMachine.Memory.Basic
import UniversalMachine.Stream.Sink
import UniversalMachine.Stream.Source

universe u

namespace UniversalMachine

inductive Status
  | running
  | halted
  | failed (fault : Fault)
  deriving DecidableEq, Repr

inductive Flow
  | next (finger : Word)
  | halt
  deriving DecidableEq, Repr

structure Machine (σ : Type u) where
  registers : Registers
  memory : Memory
  finger : Word
  source : Source
  sink : σ
  status : Status
  steps : Nat

namespace Machine

variable {σ : Type u}

def load (image : Image) (source : Source) (sink : σ) : Machine σ where
  registers := .zero
  memory := .ofProgram image.words
  finger := 0
  source := source
  sink := sink
  status := .running
  steps := 0

def setLimit (m : Machine σ) (limit : Nat) : Machine σ :=
  { m with memory := m.memory.setLimit limit }

def fault (m : Machine σ) (cause : Cause) : Fault := ⟨cause, m.finger, m.registers⟩

def fetch (m : Machine σ) : Except Cause Instruction :=
  match m.memory.read 0 m.finger with
  | .error e => .error (.memory e)
  | .ok w =>
    match Instruction.decode w with
    | .error e => .error (.unknownOpcode e)
    | .ok i => .ok i

def awaitsInput (m : Machine σ) : Bool :=
  match m.fetch with
  | .ok (.input _) => m.source.bytes.isEmpty
  | _ => false

end Machine

end UniversalMachine
