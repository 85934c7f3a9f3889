import UniversalMachine.Proofs.Machine.Reply
import UniversalMachine.Proofs.Stream.Recording

universe u

namespace UniversalMachine.Machine

variable {σ : Type u} [Sink σ]

def FlushFails (m : Machine σ) (b : UInt8) : Prop :=
  ∃ c s e, m.fetch = .ok (.output c) ∧ m.registers.get c ≤ 255 ∧ b = (m.registers.get c).toUInt8 ∧
    Sink.writeAll m.sink [b] = (.ok (), s) ∧ (Sink.flush s).1 = .error e

section Streams

variable {m : Machine σ} {i : Instruction} {cause : Cause}

theorem accepted_of_flushFails (R : Sink.Recording σ) {b : UInt8} (hfetch : m.fetch = .ok i)
    (h : m.FlushFails b) : R.accepted (m.sinkAfter i) = R.accepted m.sink ++ [b] := by
  obtain ⟨c, s, e, hc, hle, rfl, hwrite, hflush⟩ := h
  cases hc.symm.trans hfetch
  rw [sinkAfter, if_neg (UInt32.not_lt.mpr hle), hwrite]
  rw [R.flush s, Sink.Recording.writeAll_byte_ok hwrite]

variable [Host]

theorem bytes_sourceAfter_of_error (hreply : m.reply i = .error cause) :
    (m.sourceAfter i).bytes = m.source.bytes := by
  cases i with
  | input c =>
    cases hread : m.source.readByte with
    | mk read source =>
      simp only [reply, Instruction.operation?, hread] at hreply
      rw [sourceAfter, hread]
      cases read with
      | byte b => cases hreply
      | endOfInput => exact Source.bytes_of_readByte_endOfInput hread
      | failed e => exact Source.bytes_of_readByte_failed hread
  | _ => rfl

theorem accepted_of_not_flushFails (R : Sink.Recording σ) (hfetch : m.fetch = .ok i)
    (hreply : m.reply i = .error cause) (h : ∀ b, ¬m.FlushFails b) :
    R.accepted (m.sinkAfter i) = R.accepted m.sink := by
  cases i with
  | halt => exact R.flush m.sink
  | output c =>
    simp only [reply, Instruction.operation?, Sink.emit] at hreply
    rw [sinkAfter]
    split
    · rfl
    · next hgt =>
      rw [if_neg hgt] at hreply
      cases hwrite : Sink.writeAll m.sink [(m.registers.get c).toUInt8] with
      | mk written s =>
        cases written with
        | error e => exact Sink.Recording.writeAll_byte_error hwrite
        | ok u =>
          rw [hwrite] at hreply
          cases hflush : Sink.flush s with
          | mk flushed t =>
            cases flushed with
            | ok u => simp only [hflush] at hreply; cases hreply
            | error e =>
              refine absurd ⟨c, s, e, hfetch, UInt32.not_lt.mp hgt, rfl, hwrite, ?_⟩
                (h (m.registers.get c).toUInt8)
              rw [hflush]
  | _ => rfl

end Streams

/-- The step fails with a fault that tells where and with which registers; the streams apart, nothing
but the status changes. -/
theorem step_atomic [Host] (R : Sink.Recording σ) {m : Machine σ} {fault : Fault}
    (hstatus : m.status = .running) (hfault : m.step.1 = .error fault) :
    ∃ source sink, m.step.2 = { m with source, sink, status := .failed fault } ∧
      fault.finger = m.finger ∧ fault.registers = m.registers ∧ source.bytes = m.source.bytes ∧
      (∀ b, m.FlushFails b → R.accepted sink = R.accepted m.sink ++ [b]) ∧
      ((∀ b, ¬m.FlushFails b) → R.accepted sink = R.accepted m.sink) := by
  have htakes := m.takes_step
  rw [hfault] at htakes
  generalize m.step.2 = m' at htakes ⊢
  cases htakes with
  | stopped hstopped => exact absurd hstatus hstopped
  | unread _ hfetch =>
    refine ⟨m.source, m.sink, rfl, rfl, rfl, rfl, ?_, fun _ => rfl⟩
    rintro b ⟨c, s, e, hc, -⟩
    cases hc.symm.trans hfetch
  | fail _ hfetch hreply =>
    exact ⟨_, _, rfl, rfl, rfl, bytes_sourceAfter_of_error hreply,
      fun b => accepted_of_flushFails R hfetch, accepted_of_not_flushFails R hfetch hreply⟩

open Host

theorem step_atomic_of_broken_pipe :
    let m := load ⟨[0xa0000000]⟩ [] (ScriptedSink.ofScripts [] [.fail .brokenPipe])
    m.status = .running ∧ m.step.1 = .error ⟨.stream .brokenPipe, 0, .zero⟩ ∧
      m.FlushFails 0 ∧ m.step.2.steps = 0 ∧ m.step.2.sink.accepted.toList = [0] := by
  intro m
  have hflush : m.FlushFails 0 := ⟨0, ⟨#[0], 0, [], [.fail .brokenPipe]⟩, .brokenPipe, by decide,
    by decide, by decide, by decide +kernel, by decide⟩
  have hfault : m.step.1 = .error ⟨.stream .brokenPipe, 0, .zero⟩ := by decide +kernel
  obtain ⟨source, sink, hm, -, -, -, haccepted, -⟩ :=
    step_atomic ScriptedSink.recording (m := m) rfl hfault
  rw [hm]
  exact ⟨rfl, hfault, hflush, rfl, haccepted 0 hflush⟩

end UniversalMachine.Machine
