import UniversalMachine.Memory.Basic

namespace UniversalMachine.Memory

inductive Op
  | allocate (capacity : Word)
  | free (h : Handle)
  | read (h : Handle) (offset : Word)
  | write (h : Handle) (offset w : Word)
  | replaceProgram (h : Handle)
  | segment (h : Handle)
  | program
  | setLimit (limit : Nat)
  deriving DecidableEq, Repr

inductive Answer
  | done
  | handle (h : Handle)
  | word (w : Word)
  | words (ws : Segment)
  deriving DecidableEq, Repr

def perform [Host] (m : Memory) : Op → Except MemoryError Answer × Memory
  | .allocate capacity =>
    let (result, m) := m.allocate capacity
    (result.map .handle, m)
  | .free h =>
    let (result, m) := m.free h
    (result.map fun _ => .done, m)
  | .read h offset => ((m.read h offset).map .word, m)
  | .write h offset w =>
    let (result, m) := m.write h offset w
    (result.map fun _ => .done, m)
  | .replaceProgram h =>
    let (result, m) := m.replaceProgram h
    (result.map fun _ => .done, m)
  | .segment h => ((m.segment h).map .words, m)
  | .program => (.ok (.words m.program), m)
  | .setLimit limit => (.ok .done, m.setLimit limit)

def performAll [Host] (m : Memory) : List Op → List (Except MemoryError Answer) × Memory
  | [] => ([], m)
  | op :: ops =>
    let (result, m) := m.perform op
    let (results, m) := m.performAll ops
    (result :: results, m)

end UniversalMachine.Memory
