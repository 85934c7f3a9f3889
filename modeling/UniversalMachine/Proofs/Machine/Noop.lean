import UniversalMachine.Proofs.Instruction.Text
import UniversalMachine.Proofs.Machine.Reply

universe u

namespace UniversalMachine

namespace Operation

theorem decode_eq_instruction_iff {w : Word} {i : Instruction} :
    decode w = .instruction i ↔ Instruction.decode w = .ok i := by
  rw [decode]
  cases Instruction.decode w <;> simp

end Operation

namespace Registers

def uniform (w : Word) : Registers := Vector.replicate 8 w

@[simp] theorem get_uniform (w : Word) (r : Register) : (uniform w).get r = w := by
  simp [uniform, Vector.get]

end Registers

namespace Machine

open Registers (uniform get_uniform)

variable {σ : Type u} {m : Machine σ} {w : Word}

def alone (w : Word) (registers : Registers) (sink : σ) : Machine σ :=
  { load ⟨[w]⟩ [] sink with registers }

theorem fetch_of_read {i : Instruction} (hread : m.memory.read 0 m.finger = .ok w)
    (hi : Instruction.decode w = .ok i) : m.fetch = .ok i := by
  rw [fetch, hread]
  simp only [hi]

theorem fetch_alone_of_error {e : UnknownOpcode} (hw : Instruction.decode w = .error e)
    (registers : Registers) (sink : σ) :
    (alone w registers sink).fetch = .error (.unknownOpcode e) := by
  have hread : (alone w registers sink).memory.read 0 (alone w registers sink).finger = .ok w := rfl
  rw [fetch, hread]
  simp only [hw]

theorem obeyed?_alone {i : Instruction} (hw : Instruction.decode w = .ok i) (registers : Registers)
    (sink : σ) : (alone w registers sink).obeyed? = some i :=
  obeyed?_eq_some_iff.mpr ⟨rfl, fetch_of_read rfl hw⟩

variable [Sink σ] [Host]

/-- The next step goes on with the next word, and nothing that a program or its user could notice
changes. -/
structure Idles (m : Machine σ) : Prop where
  result : m.step.1 = .ok (.next (m.finger + 1))
  registers : m.step.2.registers = m.registers
  memory : m.step.2.memory = m.memory
  source : m.step.2.source = m.source
  sink : m.step.2.sink = m.sink

theorem idles_of_move {a c : Register} (hi : m.obeyed? = some (.conditionalMove a a c)) :
    m.Idles := by
  have hreply : m.reply (.conditionalMove a a c) = .ok 0 := rfl
  obtain ⟨hmemory, hsource, hsink⟩ := parts_step_of_obeyed hi
  refine ⟨step_of_reply_ok hi hreply rfl, ?_, hmemory, hsource, hsink⟩
  rw [registers_step_of_reply_ok hi hreply, Instruction.assigned, Registers.put_get, ite_self]

theorem Idles.of_obeyed {i : Instruction} (h : m.Idles) (hi : m.obeyed? = some i) :
    ∃ v, m.reply i = .ok v ∧ i.flow m.registers m.finger = .next (m.finger + 1) ∧
      i.assigned m.registers v = m.registers ∧
      (m.memory.performAll (i.operation? m.registers).toList).2 = m.memory := by
  obtain ⟨hresult, hregisters, hmemory, -, -⟩ := h
  have htakes := m.takes_step
  rw [hresult] at htakes
  generalize m.step.2 = m' at htakes hregisters hmemory
  cases htakes with
  | next hstatus hfetch hreply hflow =>
    cases (obeyed?_eq_some_iff.mpr ⟨hstatus, hfetch⟩).symm.trans hi
    exact ⟨_, hreply, hflow, hregisters, hmemory⟩

section Alone

variable {i : Instruction} {registers : Registers} {sink : σ}

theorem not_idles_of_refused (hw : Instruction.decode w = .ok i) (cause : Cause)
    (hreply : (alone w registers sink).reply i = .error cause) :
    ¬(alone w registers sink).Idles := by
  intro h
  obtain ⟨v, hok, -⟩ := h.of_obeyed (obeyed?_alone hw registers sink)
  cases hreply.symm.trans hok

theorem not_idles_of_assigned (hw : Instruction.decode w = .ok i) (r : Register)
    (hr : ∀ v, (i.assigned registers v).get r ≠ registers.get r) :
    ¬(alone w registers sink).Idles := by
  intro h
  obtain ⟨v, -, -, hassigned, -⟩ := h.of_obeyed (obeyed?_alone hw registers sink)
  exact hr v (congrArg (Vector.get · r) hassigned)

theorem exists_not_idles (hw : Instruction.decode w = .ok i)
    (hi : ∀ a c, i ≠ .conditionalMove a a c) (sink : σ) :
    ∃ registers, ¬(alone w registers sink).Idles := by
  cases i with
  | conditionalMove a b c =>
    have hab : b ≠ a := fun h => hi a c (by rw [h])
    have hc : ((uniform 1).put a 2).get c ≠ 0 := by
      rw [Registers.get_put, get_uniform]
      split <;> decide
    refine ⟨(uniform 1).put a 2, not_idles_of_assigned hw a fun v => ?_⟩
    rw [Instruction.assigned, if_neg hc]
    simp [Registers.get_put, hab]
  | arrayIndex a b c | arrayAmendment a b c =>
    refine ⟨uniform 1, not_idles_of_refused hw (.memory (.unallocated 1)) ?_⟩
    rw [reply_of_operation rfl]
    simp only [alone, get_uniform]
    rfl
  | addition a b c =>
    refine ⟨uniform 1, not_idles_of_assigned hw a fun v => ?_⟩
    simp [Instruction.assigned, Registers.get_put]
  | multiplication a b c =>
    refine ⟨uniform 2, not_idles_of_assigned hw a fun v => ?_⟩
    simp [Instruction.assigned, Registers.get_put]
  | division a b c =>
    refine ⟨uniform 0, not_idles_of_refused hw .divisionByZero ?_⟩
    exact if_pos (get_uniform 0 c)
  | notAnd a b c =>
    refine ⟨uniform 0, not_idles_of_assigned hw a fun v => ?_⟩
    simp [Instruction.assigned, Registers.get_put]
  | halt =>
    refine ⟨uniform 0, fun h => ?_⟩
    obtain ⟨v, -, hflow, -⟩ := h.of_obeyed (obeyed?_alone hw _ _)
    cases hflow
  | allocation b c =>
    refine ⟨uniform 0, ?_⟩
    by_cases hadmits : (Memory.ofProgram [w]).Admits 0
    · intro h
      obtain ⟨v, -, -, -, hmemory⟩ := h.of_obeyed (obeyed?_alone hw _ _)
      simp only [alone, load, Instruction.operation?, get_uniform, Option.toList_some,
        Memory.performAll, Memory.perform, Memory.allocate_eq, if_pos hadmits] at hmemory
      have hsize : 2 = 1 := congrArg (fun memory => memory.slots.size) hmemory
      cases hsize
    · refine not_idles_of_refused hw (.memory (.allocationFailed 0)) ?_
      rw [reply_of_operation rfl]
      simp only [alone, load, get_uniform, Memory.perform, Memory.allocate_eq, if_neg hadmits]
      rfl
  | abandonment c =>
    refine ⟨uniform 0, not_idles_of_refused hw (.memory .freeProgram) ?_⟩
    rw [reply_of_operation rfl]
    simp only [alone, get_uniform]
    rfl
  | output c =>
    refine ⟨uniform 256, not_idles_of_refused hw (.outputOutOfRange 256) ?_⟩
    simp [reply, alone, Instruction.operation?]
  | input c => exact ⟨uniform 0, not_idles_of_refused hw .endOfInput rfl⟩
  | loadProgram b c =>
    refine ⟨uniform 0, fun h => ?_⟩
    obtain ⟨v, -, hflow, -⟩ := h.of_obeyed (obeyed?_alone hw _ _)
    simp [Instruction.flow, alone, load] at hflow
  | orthography a value =>
    refine ⟨uniform (value + 1), not_idles_of_assigned hw a fun v => ?_⟩
    simp [Instruction.assigned, Registers.get_put]

end Alone

/-- This holds for sinks of every kind of which there is one. -/
theorem noop_iff_idles (w : Word) (sink : σ) :
    (Operation.decode w).pseudocode = "NOOP" ↔
      ∀ m : Machine σ, m.status = .running → m.memory.read 0 m.finger = .ok w → m.Idles := by
  rw [Operation.pseudocode_eq_noop_iff]
  constructor
  · rintro ⟨a, c, hdecode⟩ m hstatus hread
    have hw := Operation.decode_eq_instruction_iff.mp hdecode
    exact idles_of_move (obeyed?_eq_some_iff.mpr ⟨hstatus, fetch_of_read hread hw⟩)
  · intro hidles
    have halone (registers : Registers) : (alone w registers sink).Idles := hidles _ rfl rfl
    cases hw : Instruction.decode w with
    | error e =>
      have hfetch : (alone w .zero sink).fetch = .error (.unknownOpcode e) :=
        fetch_alone_of_error hw .zero sink
      have hresult := (halone .zero).result
      rw [step_of_fetch_error rfl hfetch] at hresult
      cases hresult
    | ok i =>
      by_contra hmove
      obtain ⟨registers, hnot⟩ := exists_not_idles hw (fun a c h =>
        hmove ⟨a, c, Operation.decode_eq_instruction_iff.mpr (h ▸ hw)⟩) sink
      exact hnot (halone registers)

/-- The word of zeros moves a register to itself. -/
example : (Operation.decode 0).pseudocode = "NOOP" := by decide

end Machine

end UniversalMachine
