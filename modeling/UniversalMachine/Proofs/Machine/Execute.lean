import UniversalMachine.Machine.Step
import UniversalMachine.Memory.Op

universe u

namespace UniversalMachine

def Instruction.operation? (registers : Registers) : Instruction → Option Memory.Op
  | arrayIndex _ b c => some (.read (registers.get b) (registers.get c))
  | arrayAmendment a b c => some (.write (registers.get a) (registers.get b) (registers.get c))
  | allocation _ c => some (.allocate (registers.get c))
  | abandonment c => some (.free (registers.get c))
  | loadProgram b _ => some (.replaceProgram (registers.get b))
  | _ => none

theorem Instruction.of_operation? {registers : Registers} {i : Instruction} {op : Memory.Op}
    (hop : i.operation? registers = some op) :
    match op with
    | .read h offset =>
      ∃ a b c, i = .arrayIndex a b c ∧ registers.get b = h ∧ registers.get c = offset
    | .write h offset w => ∃ a b c, i = .arrayAmendment a b c ∧ registers.get a = h ∧
        registers.get b = offset ∧ registers.get c = w
    | .allocate capacity => ∃ b c, i = .allocation b c ∧ registers.get c = capacity
    | .free h => ∃ c, i = .abandonment c ∧ registers.get c = h
    | .replaceProgram h => ∃ b c, i = .loadProgram b c ∧ registers.get b = h
    | .segment _ | .program | .setLimit _ => False := by
  cases i with
  | arrayIndex a b c => cases hop; exact ⟨a, b, c, rfl, rfl, rfl⟩
  | arrayAmendment a b c => cases hop; exact ⟨a, b, c, rfl, rfl, rfl, rfl⟩
  | allocation b c => cases hop; exact ⟨b, c, rfl, rfl⟩
  | abandonment c => cases hop; exact ⟨c, rfl, rfl⟩
  | loadProgram b c => cases hop; exact ⟨b, c, rfl, rfl⟩
  | _ => cases hop

namespace Machine

variable {σ : Type u}

def sourceAfter (m : Machine σ) : Instruction → Source
  | .input _ => m.source.readByte.2
  | _ => m.source

theorem onMemory_eq {α : Type} (m : Machine σ) (f : Memory → Except MemoryError α × Memory) :
    m.onMemory f = ((f m.memory).1.mapError .memory, { m with memory := (f m.memory).2 }) := rfl

theorem onSink_of_ok {α : Type} (m : Machine σ) {f : σ → Except StreamError α × σ} {a : α}
    {sink : σ} (h : f m.sink = (.ok a, sink)) : m.onSink f = (.ok a, { m with sink }) := by
  simp only [onSink, h]
  rfl

theorem onSink_of_error {α : Type} (m : Machine σ) {f : σ → Except StreamError α × σ}
    {e : StreamError} {sink : σ} (h : f m.sink = (.error e, sink)) :
    m.onSink f = (.error (.stream e), { m with sink }) := by
  simp only [onSink, h]
  rfl

variable [Sink σ]

def sinkAfter (m : Machine σ) : Instruction → σ
  | .output c =>
    if 255 < m.registers.get c then m.sink
    else
      match Sink.writeAll m.sink [(m.registers.get c).toUInt8] with
      | (.ok (), sink) => (Sink.flush sink).2
      | (.error _, sink) => sink
  | .halt => (Sink.flush m.sink).2
  | _ => m.sink

theorem snd_writeOutput (m : Machine σ) (c : Register) :
    (m.writeOutput (m.registers.get c)).2 = { m with sink := m.sinkAfter (.output c) } := by
  simp only [writeOutput, sinkAfter]
  split
  · rfl
  · cases hw : Sink.writeAll m.sink [(m.registers.get c).toUInt8] with
    | mk written s =>
      cases written with
      | error e => rw [onSink_of_error m hw]
      | ok u =>
        rw [onSink_of_ok m hw]
        cases hf : Sink.flush s with
        | mk flushed t =>
          cases flushed with
          | error e => simp only [onSink_of_error { m with sink := s } hf, hf]
          | ok u => simp only [onSink_of_ok { m with sink := s } hf, hf, proceed]

theorem snd_execute [Host] (m : Machine σ) (i : Instruction) :
    (m.execute i).2 = { m with
      registers := (m.execute i).2.registers
      memory := (m.memory.performAll (i.operation? m.registers).toList).2
      source := m.sourceAfter i
      sink := m.sinkAfter i } := by
  cases i with
  | conditionalMove a b c => simp only [execute]; split <;> rfl
  | arrayIndex a b c => simp only [execute]; split <;> rfl
  | arrayAmendment a b c =>
    simp only [execute, onMemory_eq]
    cases hw : m.memory.write (m.registers.get a) (m.registers.get b) (m.registers.get c) with
    | mk result memory =>
      simp only [Instruction.operation?, Option.toList_some, Memory.performAll, Memory.perform, hw]
      cases result <;> rfl
  | addition | multiplication | notAnd | orthography => rfl
  | division a b c => simp only [execute]; split <;> rfl
  | halt =>
    cases hf : Sink.flush m.sink with
    | mk result sink =>
      cases result with
      | error e => simp only [execute, onSink_of_error m hf, sinkAfter, hf]; rfl
      | ok u => simp only [execute, onSink_of_ok m hf, sinkAfter, hf]; rfl
  | allocation b c =>
    simp only [execute, onMemory_eq]
    cases ha : m.memory.allocate (m.registers.get c) with
    | mk result memory =>
      simp only [Instruction.operation?, Option.toList_some, Memory.performAll, Memory.perform, ha]
      cases result <;> rfl
  | abandonment c =>
    simp only [execute, onMemory_eq]
    cases hf : m.memory.free (m.registers.get c) with
    | mk result memory =>
      simp only [Instruction.operation?, Option.toList_some, Memory.performAll, Memory.perform, hf]
      cases result <;> rfl
  | loadProgram b c =>
    simp only [execute, loadProgram, onMemory_eq]
    cases hl : m.memory.replaceProgram (m.registers.get b) with
    | mk result memory =>
      simp only [Instruction.operation?, Option.toList_some, Memory.performAll, Memory.perform, hl]
      cases result <;> rfl
  | output c => simp only [execute, snd_writeOutput]; rfl
  | input c =>
    simp only [execute, readInput, sourceAfter]
    cases hr : m.source.readByte with
    | mk read source => cases read <;> rfl

end Machine

end UniversalMachine
