import UniversalMachine.Proofs.Machine.Trace
import UniversalMachine.Stream.Script

universe u

namespace UniversalMachine

namespace Source

def Event.skipped : Event → Bool
  | .data [] | .fail .interrupted => true
  | _ => false

def next? (source : Source) : Option Event := (source.dropWhile Event.skipped).head?

section Next

variable {source : Source} {e : StreamError}

@[simp] theorem next?_nil : next? [] = none := rfl

@[simp] theorem next?_data_nil : next? (.data [] :: source) = source.next? := rfl

@[simp] theorem next?_data_cons (b : UInt8) (bytes : List UInt8) :
    next? (.data (b :: bytes) :: source) = some (.data (b :: bytes)) := rfl

@[simp] theorem next?_ended : next? (.ended :: source) = some .ended := rfl

@[simp] theorem next?_interrupted : next? (.fail .interrupted :: source) = source.next? := rfl

theorem next?_fail (he : e ≠ .interrupted) : next? (.fail e :: source) = some (.fail e) := by
  cases e with
  | interrupted => exact absurd rfl he
  | _ => rfl

theorem readByte_byte_iff {b : UInt8} :
    source.readByte.1 = .byte b ↔ ∃ bytes, source.next? = some (.data (b :: bytes)) := by
  fun_induction readByte source <;> simp_all [next?_fail]

theorem readByte_endOfInput_iff : source.readByte.1 = .endOfInput ↔
    source.next? = none ∨ source.next? = some .ended ∨
      source.next? = some (.fail .unexpectedEnd) := by
  fun_induction readByte source <;> simp_all [next?_fail]

theorem readByte_failed_iff : source.readByte.1 = .failed e ↔
    source.next? = some (.fail e) ∧ e ≠ .unexpectedEnd := by
  fun_induction readByte source <;> simp_all [next?_fail]
  rintro rfl
  assumption

theorem next?_ne_data_nil : source.next? ≠ some (.data []) := by
  fun_induction readByte source <;> simp_all [next?_fail]

end Next

end Source

def Instruction.input? : Instruction → Option Register
  | input c => some c
  | _ => none

namespace Machine

variable {σ : Type u} [Sink σ]

section

variable [Host]

def receives? (m : Machine σ) : Option Word :=
  match m.step.1 with
  | .ok (.next _) => (m.obeyed?.bind Instruction.input?).map m.step.2.registers.get
  | _ => none

def received (n : Nat) (m : Machine σ) : List Word := m.observed receives? n

section Step

variable {m : Machine σ} {i : Instruction} {c : Register}

theorem reply_input (m : Machine σ) (c : Register) : m.reply (.input c) =
    match m.source.readByte.1 with
    | .byte b => .ok b.toUInt32
    | .endOfInput => .error .endOfInput
    | .failed e => .error (.stream e) := rfl

theorem registers_step_of_input (hi : m.obeyed? = some (.input c)) {w : Word}
    (hreply : m.reply (.input c) = .ok w) : m.step.2.registers = m.registers.put c w :=
  registers_step_of_reply_ok hi hreply

theorem receives?_of_reply_ok (hi : m.obeyed? = some (.input c)) {w : Word}
    (hreply : m.reply (.input c) = .ok w) : m.receives? = some w := by
  rw [receives?, step_of_reply_ok hi hreply rfl, hi]
  change some (m.step.2.registers.get c) = some w
  rw [registers_step_of_input hi hreply, Registers.get_put, if_pos rfl]

theorem receives?_of_reply_error (hi : m.obeyed? = some i) {cause : Cause}
    (hreply : m.reply i = .error cause) : m.receives? = none := by
  rw [receives?, step_of_reply_error hi hreply]

theorem receives?_of_not_input (h : m.obeyed?.bind Instruction.input? = none) :
    m.receives? = none := by
  rw [receives?, h]
  split <;> rfl

theorem bytes_step (m : Machine σ) : ∃ taken : Option UInt8,
    m.receives? = taken.map (·.toUInt32) ∧ m.source.bytes = taken.toList ++ m.step.2.source.bytes := by
  cases hi : m.obeyed? with
  | none =>
    refine ⟨none, receives?_of_not_input (by rw [hi]; rfl), ?_⟩
    rw [(parts_step_of_idle hi).2.1]
    rfl
  | some i =>
    rw [(parts_step_of_obeyed hi).2.1]
    cases i with
    | input c =>
      have hreply := m.reply_input c
      rw [sourceAfter]
      cases hread : m.source.readByte with
      | mk read source =>
        rw [hread] at hreply
        cases read with
        | byte b =>
          exact ⟨some b, receives?_of_reply_ok hi hreply, Source.bytes_of_readByte_byte hread⟩
        | endOfInput =>
          exact ⟨none, receives?_of_reply_error hi hreply,
            (Source.bytes_of_readByte_endOfInput hread).symm⟩
        | failed e =>
          exact ⟨none, receives?_of_reply_error hi hreply,
            (Source.bytes_of_readByte_failed hread).symm⟩
    | _ => exact ⟨none, receives?_of_not_input (by rw [hi]; rfl), rfl⟩

theorem step_input (hi : m.obeyed? = some (.input c)) : m.step.1 =
    match m.source.readByte.1 with
    | .byte _ => .ok (.next (m.finger + 1))
    | .endOfInput => .error (m.fault .endOfInput)
    | .failed e => .error (m.fault (.stream e)) := by
  have hreply := m.reply_input c
  cases hread : m.source.readByte.1 with
  | byte b =>
    rw [hread] at hreply
    exact step_of_reply_ok hi hreply rfl
  | endOfInput | failed e =>
    rw [hread] at hreply
    exact step_of_reply_error hi hreply

theorem step_input_byte (hi : m.obeyed? = some (.input c)) {b : UInt8} {bytes : List UInt8}
    (hnext : m.source.next? = some (.data (b :: bytes))) :
    m.step.1 = .ok (.next (m.finger + 1)) ∧ m.step.2.registers = m.registers.put c b.toUInt32 := by
  have hread := Source.readByte_byte_iff.mpr ⟨bytes, hnext⟩
  have hreply := m.reply_input c
  rw [hread] at hreply
  exact ⟨step_of_reply_ok hi hreply rfl, registers_step_of_input hi hreply⟩

theorem input_ends_iff (hi : m.obeyed? = some (.input c)) :
    m.step.1 = .error (m.fault .endOfInput) ↔ m.source.readByte.1 = .endOfInput := by
  rw [step_input hi]
  cases m.source.readByte.1 <;> simp [fault]

theorem input_breaks_iff (hi : m.obeyed? = some (.input c)) {e : StreamError} :
    m.step.1 = .error (m.fault (.stream e)) ↔ m.source.readByte.1 = .failed e := by
  rw [step_input hi]
  cases m.source.readByte.1 <;> simp [fault]

theorem input_fails_iff (hi : m.obeyed? = some (.input c)) :
    (∃ fault, m.step.1 = .error fault) ↔ ∀ bytes, m.source.next? ≠ some (.data bytes) := by
  constructor
  · rintro ⟨fault, hfault⟩ (_ | ⟨b, bytes⟩) hnext
    · exact Source.next?_ne_data_nil hnext
    · cases hfault.symm.trans (step_input_byte hi hnext).1
  · intro hnext
    rw [step_input hi]
    cases hread : m.source.readByte.1 with
    | byte b =>
      obtain ⟨bytes, h⟩ := Source.readByte_byte_iff.mp hread
      exact absurd h (hnext _)
    | endOfInput | failed e => exact ⟨_, rfl⟩

theorem registers_step_of_input_error (hi : m.obeyed? = some (.input c)) {fault : Fault}
    (hfault : m.step.1 = .error fault) : m.step.2.registers = m.registers := by
  cases hreply : m.reply (.input c) with
  | error cause => rw [snd_step_of_reply_error hi hreply]
  | ok w => cases hfault.symm.trans (step_of_reply_ok hi hreply rfl)

end Step

theorem bytes_after (m : Machine σ) (k : Nat) : ∃ taken : List UInt8,
    m.received k = taken.map (·.toUInt32) ∧ taken ++ (m.after k).source.bytes = m.source.bytes := by
  induction k with
  | zero => exact ⟨[], rfl, rfl⟩
  | succ k ih =>
    obtain ⟨taken, hreceived, hbytes⟩ := ih
    obtain ⟨last, hlast, hrest⟩ := (m.after k).bytes_step
    refine ⟨taken ++ last.toList, ?_, ?_⟩
    · rw [received, observed_succ, ← received, hreceived, hlast, List.map_append]
      cases last <;> rfl
    · rw [after_succ, List.append_assoc, ← hrest, hbytes]

/-- The values taken in and the bytes still to be read make up the bytes of the source. An input
takes the first byte of the next event that is not passed over, or fails: with the end of input where
there is none, the source ends or ends unexpectedly, and with any other failure that it meets. Then
no register changes. -/
theorem input_conserved (image : Image) (source : Source) (sink : σ) :
    let m := load image source sink
    (∀ k, ∃ taken : List UInt8, m.received k = taken.map (·.toUInt32) ∧
      taken ++ (m.after k).source.bytes = source.bytes) ∧
    ∀ (m : Machine σ) c, m.obeyed? = some (.input c) →
      (∀ b bytes, m.source.next? = some (.data (b :: bytes)) →
        m.step.1 = .ok (.next (m.finger + 1)) ∧
        m.step.2.registers = m.registers.put c b.toUInt32) ∧
      ((∃ fault, m.step.1 = .error fault) ↔ ∀ bytes, m.source.next? ≠ some (.data bytes)) ∧
      (m.step.1 = .error (m.fault .endOfInput) ↔
        m.source.next? = none ∨ m.source.next? = some .ended ∨
          m.source.next? = some (.fail .unexpectedEnd)) ∧
      (∀ e, m.step.1 = .error (m.fault (.stream e)) ↔
        m.source.next? = some (.fail e) ∧ e ≠ .unexpectedEnd) ∧
      ∀ fault, m.step.1 = .error fault → m.step.2.registers = m.registers := by
  intro m
  refine ⟨fun k => bytes_after m k, fun m c hi => ⟨fun b bytes => step_input_byte hi,
    input_fails_iff hi, ?_, fun e => ?_, fun fault => registers_step_of_input_error hi⟩⟩
  · exact (input_ends_iff hi).trans Source.readByte_endOfInput_iff
  · exact (input_breaks_iff hi).trans Source.readByte_failed_iff

end

open Host

theorem input_conserved_of_broken_pipe :
    let source : Source := [.data [], .data [3], .data [], .fail .interrupted, .data [4],
      .fail .interrupted, .fail .brokenPipe, .data [5]]
    let m := load ⟨[0xb0000000, 0xb0000001, 0xb0000000]⟩ source ScriptedSink.plain
    m.received 3 = [3, 4] ∧ (m.after 3).source.bytes = [5] ∧
      (m.after 2).obeyed? = some (.input 0) ∧
      (m.after 2).step.1 = .error ((m.after 2).fault (.stream .brokenPipe)) ∧
      (m.after 3).registers = (m.after 2).registers := by
  intro source m
  have hrest : (m.after 3).source.bytes = [5] := by decide +kernel
  have hi : (m.after 2).obeyed? = some (.input 0) := by decide +kernel
  have hnext : (m.after 2).source.next? = some (.fail .brokenPipe) := by decide +kernel
  obtain ⟨hruns, hsteps⟩ := input_conserved ⟨[0xb0000000, 0xb0000001, 0xb0000000]⟩ source
    ScriptedSink.plain
  obtain ⟨taken, htaken, hbytes⟩ := hruns 3
  obtain ⟨-, -, -, hbreaks, hkept⟩ := hsteps (m.after 2) 0 hi
  have hfault := (hbreaks .brokenPipe).mpr ⟨hnext, nofun⟩
  rw [hrest] at hbytes
  cases List.append_cancel_right (show taken ++ [5] = [3, 4] ++ [5] from hbytes)
  exact ⟨htaken, hrest, hi, hfault, hkept _ hfault⟩

end Machine

end UniversalMachine
