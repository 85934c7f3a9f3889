import UniversalMachine.Proofs.Machine.Reached
/-! What an instruction learns from the memory and the streams is one word, or why it fails. The rest
of a step follows from it, from the registers and from the finger. -/

universe u v

namespace UniversalMachine

def Memory.Answer.value : Answer → Word
  | handle h => h
  | word w => w
  | done | words _ => 0

namespace Sink

variable {σ : Type u} [Sink σ] [Host]

def emit (s : σ) (b : UInt8) : Except StreamError Unit × σ :=
  match writeAll s [b] with
  | (.ok (), s) => flush s
  | (.error e, s) => (.error e, s)

end Sink

namespace Instruction

def flow (registers : Registers) (finger : Word) : Instruction → Flow
  | halt => .halt
  | loadProgram _ c => .next (registers.get c)
  | _ => .next (finger + 1)

def assigned (registers : Registers) (w : Word) : Instruction → Registers
  | conditionalMove a b c =>
    if registers.get c = 0 then registers else registers.put a (registers.get b)
  | addition a b c => registers.put a (registers.get b + registers.get c)
  | multiplication a b c => registers.put a (registers.get b * registers.get c)
  | division a b c => registers.put a (registers.get b / registers.get c)
  | notAnd a b c => registers.put a (~~~(registers.get b &&& registers.get c))
  | orthography a value => registers.put a value
  | arrayIndex a _ _ => registers.put a w
  | allocation b _ => registers.put b w
  | input c => registers.put c w
  | arrayAmendment .. | halt | abandonment _ | output _ | loadProgram .. => registers

def settle (registers : Registers) (finger : Word) (i : Instruction) :
    Except Cause Word → Except Cause Flow × Registers
  | .ok w => (.ok (i.flow registers finger), i.assigned registers w)
  | .error cause => (.error cause, registers)

end Instruction

namespace Machine

variable {σ : Type u} [Sink σ]

theorem sinkAfter_output (m : Machine σ) (c : Register) :
    m.sinkAfter (.output c) =
      if 255 < m.registers.get c then m.sink
      else (Sink.emit m.sink (m.registers.get c).toUInt8).2 := by
  rw [sinkAfter, Sink.emit]
  split
  · rfl
  · cases Sink.writeAll m.sink [(m.registers.get c).toUInt8] with
    | mk written s => cases written <;> rfl

theorem writeOutput_eq (m : Machine σ) (value : Word) :
    m.writeOutput value =
      if 255 < value then (.error (.outputOutOfRange value), m)
      else
        match m.onSink (Sink.emit · value.toUInt8) with
        | (.error e, m) => (.error e, m)
        | (.ok (), m) => m.proceed := by
  rw [writeOutput]
  split
  · rfl
  · cases hw : Sink.writeAll m.sink [value.toUInt8] with
    | mk written s =>
      cases written with
      | error e =>
        have hemit : Sink.emit m.sink value.toUInt8 = (.error e, s) := by rw [Sink.emit, hw]
        rw [onSink_of_error m hw, onSink_of_error m hemit]
      | ok u =>
        rw [onSink_of_ok m hw]
        cases hf : Sink.flush s with
        | mk flushed t =>
          have hemit : Sink.emit m.sink value.toUInt8 = (flushed, t) := by
            rw [Sink.emit, hw]
            exact hf
          cases flushed with
          | error e =>
            rw [onSink_of_error m hemit]
            simp only [onSink_of_error { m with sink := s } hf]
          | ok u =>
            rw [onSink_of_ok m hemit]
            simp only [onSink_of_ok { m with sink := s } hf]

variable [Host]

def reply (m : Machine σ) (i : Instruction) : Except Cause Word :=
  match i.operation? m.registers with
  | some op => ((m.memory.perform op).1.map Memory.Answer.value).mapError .memory
  | none =>
    match i with
    | .division _ _ c => if m.registers.get c = 0 then .error .divisionByZero else .ok 0
    | .halt => ((Sink.flush m.sink).1.map fun _ => 0).mapError .stream
    | .output c =>
      if 255 < m.registers.get c then .error (.outputOutOfRange (m.registers.get c))
      else ((Sink.emit m.sink (m.registers.get c).toUInt8).1.map fun _ => 0).mapError .stream
    | .input _ =>
      match m.source.readByte.1 with
      | .byte b => .ok b.toUInt32
      | .endOfInput => .error .endOfInput
      | .failed e => .error (.stream e)
    | _ => .ok 0

theorem execute_reply (m : Machine σ) (i : Instruction) :
    ((m.execute i).1, (m.execute i).2.registers) =
      i.settle m.registers m.finger (m.reply i) := by
  cases i with
  | conditionalMove a b c =>
    simp only [execute, reply, Instruction.operation?, Instruction.settle, Instruction.assigned]
    split <;> rfl
  | addition | multiplication | notAnd | orthography => rfl
  | division a b c =>
    simp only [execute, reply, Instruction.operation?]
    split <;> rfl
  | arrayIndex a b c =>
    simp only [execute, reply, Instruction.operation?, Memory.perform]
    cases m.memory.read (m.registers.get b) (m.registers.get c) <;> rfl
  | arrayAmendment a b c =>
    simp only [execute, onMemory_eq, reply, Instruction.operation?, Memory.perform]
    cases (m.memory.write (m.registers.get a) (m.registers.get b) (m.registers.get c)).1 <;> rfl
  | allocation b c =>
    simp only [execute, onMemory_eq, reply, Instruction.operation?, Memory.perform]
    cases (m.memory.allocate (m.registers.get c)).1 <;> rfl
  | abandonment c =>
    simp only [execute, onMemory_eq, reply, Instruction.operation?, Memory.perform]
    cases (m.memory.free (m.registers.get c)).1 <;> rfl
  | loadProgram b c =>
    simp only [execute, loadProgram, onMemory_eq, reply, Instruction.operation?, Memory.perform]
    cases (m.memory.replaceProgram (m.registers.get b)).1 <;> rfl
  | halt =>
    simp only [execute, onSink, reply, Instruction.operation?]
    cases (Sink.flush m.sink).1 <;> rfl
  | output c =>
    simp only [execute, writeOutput_eq, onSink, reply, Instruction.operation?]
    split
    · rfl
    · cases (Sink.emit m.sink (m.registers.get c).toUInt8).1 <;> rfl
  | input c =>
    simp only [execute, readInput, reply, Instruction.operation?]
    cases m.source.readByte with
    | mk read source => cases read <;> rfl

section Execute

variable {m : Machine σ} {i : Instruction}

theorem reply_of_operation {op : Memory.Op} (hop : i.operation? m.registers = some op) :
    m.reply i = ((m.memory.perform op).1.map Memory.Answer.value).mapError .memory := by
  simp only [reply, hop]

theorem memory_of_reply_error {cause : Cause} (hreply : m.reply i = .error cause) :
    (m.memory.performAll (i.operation? m.registers).toList).2 = m.memory := by
  cases hop : i.operation? m.registers with
  | none => rfl
  | some op =>
    rw [reply_of_operation hop] at hreply
    cases hp : m.memory.perform op with
    | mk result memory =>
      cases result with
      | error e =>
        cases Memory.perform_of_error hp
        simp only [Option.toList_some, Memory.performAll, hp]
      | ok a =>
        rw [hp] at hreply
        cases hreply

theorem execute_of_reply_error {cause : Cause} (hreply : m.reply i = .error cause) :
    m.execute i = (.error cause, { m with source := m.sourceAfter i, sink := m.sinkAfter i }) := by
  have hexecute := m.execute_reply i
  rw [hreply, Instruction.settle, Prod.mk.injEq] at hexecute
  apply Prod.ext hexecute.1
  rw [snd_execute, hexecute.2, memory_of_reply_error hreply]

theorem execute_of_reply_ok {w : Word} (hreply : m.reply i = .ok w) :
    m.execute i = (.ok (i.flow m.registers m.finger), { m with
      registers := i.assigned m.registers w
      memory := (m.memory.performAll (i.operation? m.registers).toList).2
      source := m.sourceAfter i
      sink := m.sinkAfter i }) := by
  have hexecute := m.execute_reply i
  rw [hreply, Instruction.settle, Prod.mk.injEq] at hexecute
  apply Prod.ext hexecute.1
  rw [snd_execute, hexecute.2]

end Execute

inductive Takes (m : Machine σ) : Except Fault Flow → Machine σ → Prop
  | stopped : m.status ≠ .running → Takes m (.error (m.fault .notRunning)) m
  | unread {cause} : m.status = .running → m.fetch = .error cause →
      Takes m (.error (m.fault cause)) { m with status := .failed (m.fault cause) }
  | fail {i cause} : m.status = .running → m.fetch = .ok i → m.reply i = .error cause →
      Takes m (.error (m.fault cause)) { m with
        source := m.sourceAfter i
        sink := m.sinkAfter i
        status := .failed (m.fault cause) }
  | next {i w finger} : m.status = .running → m.fetch = .ok i → m.reply i = .ok w →
      i.flow m.registers m.finger = .next finger →
      Takes m (.ok (.next finger)) { m with
        registers := i.assigned m.registers w
        memory := (m.memory.performAll (i.operation? m.registers).toList).2
        finger
        source := m.sourceAfter i
        sink := m.sinkAfter i
        steps := m.steps + 1 }
  | halt {w} : m.status = .running → m.fetch = .ok .halt → m.reply .halt = .ok w →
      Takes m (.ok .halt) { m with
        sink := m.sinkAfter .halt
        status := .halted
        steps := m.steps + 1 }

theorem takes_step (m : Machine σ) : m.Takes m.step.1 m.step.2 := by
  by_cases hstatus : m.status = .running
  · cases hfetch : m.fetch with
    | error cause =>
      rw [step_of_fetch_error hstatus hfetch]
      exact .unread hstatus hfetch
    | ok i =>
      rw [step_of_fetch hstatus hfetch]
      cases hreply : m.reply i with
      | error cause =>
        rw [execute_of_reply_error hreply]
        exact .fail hstatus hfetch hreply
      | ok w =>
        rw [execute_of_reply_ok hreply]
        cases hflow : i.flow m.registers m.finger with
        | next finger => exact .next hstatus hfetch hreply hflow
        | halt =>
          cases i with
          | halt => exact .halt hstatus hfetch hreply
          | _ => cases hflow
  · rw [step_of_stopped hstatus]
    exact .stopped hstatus

theorem step_of_reply_error {m : Machine σ} {i : Instruction} {cause : Cause}
    (hi : m.obeyed? = some i) (hreply : m.reply i = .error cause) :
    m.step.1 = .error (m.fault cause) := by
  obtain ⟨hstatus, hfetch⟩ := obeyed?_eq_some_iff.mp hi
  rw [step_of_fetch hstatus hfetch, execute_of_reply_error hreply]
  rfl

theorem snd_step_of_reply_error {m : Machine σ} {i : Instruction} {cause : Cause}
    (hi : m.obeyed? = some i) (hreply : m.reply i = .error cause) :
    m.step.2 = { m with
      source := m.sourceAfter i
      sink := m.sinkAfter i
      status := .failed (m.fault cause) } := by
  obtain ⟨hstatus, hfetch⟩ := obeyed?_eq_some_iff.mp hi
  rw [step_of_fetch hstatus hfetch, execute_of_reply_error hreply]
  rfl

theorem step_of_reply_ok {m : Machine σ} {i : Instruction} {w finger : Word}
    (hi : m.obeyed? = some i) (hreply : m.reply i = .ok w)
    (hflow : i.flow m.registers m.finger = .next finger) : m.step.1 = .ok (.next finger) := by
  obtain ⟨hstatus, hfetch⟩ := obeyed?_eq_some_iff.mp hi
  rw [step_of_fetch hstatus hfetch, execute_of_reply_ok hreply, hflow]
  rfl

theorem registers_step_of_reply_ok {m : Machine σ} {i : Instruction} {w : Word}
    (hi : m.obeyed? = some i) (hreply : m.reply i = .ok w) :
    m.step.2.registers = i.assigned m.registers w := by
  obtain ⟨hstatus, hfetch⟩ := obeyed?_eq_some_iff.mp hi
  rw [step_of_fetch hstatus hfetch, execute_of_reply_ok hreply]
  cases i.flow m.registers m.finger <;> rfl

theorem Takes.of_step {m m' : Machine σ} {r : Except Fault Flow} (h : m.step = (r, m')) :
    m.Takes r m' := by
  have hstep := m.takes_step
  rwa [h] at hstep

end Machine

end UniversalMachine
