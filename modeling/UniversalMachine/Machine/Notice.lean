import UniversalMachine.Log
import UniversalMachine.Machine.Run
/-! What a machine has to say about its run. Notices are read off the state before and after a step
and have no part in the step itself: a run with notices ends as the run without them. -/

universe u v

namespace UniversalMachine

inductive Notice
  | started (size : Nat)
  | allocated (h : Handle) (capacity : Word)
  | freed (h : Handle)
  | programCopied (h : Handle) (size : Nat)
  | programReplaced (h : Handle) (size : Nat) (finger : Word)
  | halted (steps live : Nat)
  | failed (steps : Nat) (fault : Fault)
  deriving DecidableEq, Repr

def Notice.entry : Notice → LogEntry
  | started size =>
    ⟨.debug, "um_vm::machine", "machine started (" ++ Nat.repr size ++ " program words)"⟩
  | allocated h capacity =>
    ⟨.trace, "um_vm::memory",
      "allocated segment " ++ Nat.repr h.toNat ++ " (" ++ Nat.repr capacity.toNat ++ " words)"⟩
  | freed h => ⟨.trace, "um_vm::memory", "freed segment " ++ Nat.repr h.toNat⟩
  | programCopied h size =>
    ⟨.trace, "um_vm::memory",
      "segment 0 replaced by copy of segment " ++ Nat.repr h.toNat ++ " (" ++ Nat.repr size ++
        " words)"⟩
  | programReplaced h size finger =>
    ⟨.debug, "um_vm::execute",
      "program replaced from segment " ++ Nat.repr h.toNat ++ " (" ++ Nat.repr size ++
        " words), finger " ++ Nat.repr finger.toNat⟩
  | halted steps live =>
    ⟨.debug, "um_vm::machine",
      "machine halted after " ++ Nat.repr steps ++ " steps (" ++ Nat.repr live ++
        " live segments)"⟩
  | failed steps fault =>
    ⟨.debug, "um_vm::machine",
      "machine failed after " ++ Nat.repr steps ++ " steps: " ++ fault.message⟩

namespace Machine

variable {σ : Type u}

def notices (instruction : Option Instruction) (registers : Registers) (result : Except Fault Flow)
    (m : Machine σ) : List Notice :=
  match result, instruction with
  | .ok (.next _), some (.allocation b c) => [.allocated (m.registers.get b) (registers.get c)]
  | .ok (.next _), some (.abandonment c) => [.freed (registers.get c)]
  | .ok (.next finger), some (.loadProgram b _) =>
    if registers.get b = 0 then []
    else
      let size := m.memory.program.size
      [.programCopied (registers.get b) size, .programReplaced (registers.get b) size finger]
  | .ok (.next _), _ => []
  | .ok .halt, _ => [.halted m.steps m.memory.live]
  | .error fault, _ => if fault.cause = .notRunning then [] else [.failed m.steps fault]

variable [Sink σ] [Host]

def stepNoticed (m : Machine σ) : (Except Fault Flow × Machine σ) × List Notice :=
  let instruction := m.fetch.toOption
  let registers := m.registers
  let (result, m) := m.step
  ((result, m), m.notices instruction registers result)

def runNoticed {β : Type v} (collect : β → Notice → β) :
    Nat → β → Machine σ → Option ((Except Fault Nat × Machine σ) × β)
  | 0, _, _ => none
  | fuel + 1, seen, m =>
    match m.stepNoticed with
    | ((.ok (.next _), m), notices) => runNoticed collect fuel (notices.foldl collect seen) m
    | ((.ok .halt, m), notices) => some ((.ok m.steps, m), notices.foldl collect seen)
    | ((.error fault, m), notices) => some ((.error fault, m), notices.foldl collect seen)

theorem map_fst_runNoticed {β : Type v} (collect : β → Notice → β) (fuel : Nat) (seen : β)
    (m : Machine σ) : (m.runNoticed collect fuel seen).map Prod.fst = m.run fuel := by
  induction fuel generalizing seen m with
  | zero => rfl
  | succ fuel ih =>
    rcases h : m.step with ⟨(_ | (_ | _)), m'⟩ <;> simp [runNoticed, stepNoticed, run, h, ih]

end Machine

end UniversalMachine
