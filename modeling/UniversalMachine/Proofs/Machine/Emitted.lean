import UniversalMachine.Proofs.Machine.Atomic
import UniversalMachine.Proofs.Machine.Trace

universe u

namespace UniversalMachine

def Instruction.output? (registers : Registers) : Instruction → Option Word
  | output c => some (registers.get c)
  | _ => none

namespace Machine

variable {σ : Type u} [Sink σ]

def Strands (m : Machine σ) (b : UInt8) : Prop := m.status = .running ∧ m.FlushFails b

def FailsToFlush (m : Machine σ) : Prop :=
  (∃ b, m.Strands b) ∨ m.obeyed? = some .halt ∧ ∃ e, (Sink.flush m.sink).1 = .error e

inductive Puts (m : Machine σ) (c : Register) : Except Cause Word → σ → Prop
  | refused : 255 < m.registers.get c →
      Puts m c (.error (.outputOutOfRange (m.registers.get c))) m.sink
  | unwritten {e s} : m.registers.get c ≤ 255 →
      Sink.writeAll m.sink [(m.registers.get c).toUInt8] = (.error e, s) →
      Puts m c (.error (.stream e)) s
  | unflushed {s e t} : m.registers.get c ≤ 255 →
      Sink.writeAll m.sink [(m.registers.get c).toUInt8] = (.ok (), s) →
      Sink.flush s = (.error e, t) → Puts m c (.error (.stream e)) t
  | put {s t} : m.registers.get c ≤ 255 →
      Sink.writeAll m.sink [(m.registers.get c).toUInt8] = (.ok (), s) →
      Sink.flush s = (.ok (), t) → Puts m c (.ok 0) t

section Failure

variable {m : Machine σ} {i : Instruction} {c : Register} {b : UInt8}

theorem FlushFails.unique {b' : UInt8} (h : m.FlushFails b) (h' : m.FlushFails b') : b = b' := by
  obtain ⟨c, s, e, hfetch, -, rfl, -⟩ := h
  obtain ⟨c', s', e', hfetch', -, rfl, -⟩ := h'
  cases hfetch.symm.trans hfetch'
  rfl

theorem FailsToFlush.output (h : m.FailsToFlush) (hi : m.obeyed? = some (.output c)) :
    m.registers.get c ≤ 255 ∧ ∃ s e,
      Sink.writeAll m.sink [(m.registers.get c).toUInt8] = (.ok (), s) ∧
        (Sink.flush s).1 = .error e := by
  rcases h with ⟨b, -, c', s, e, hfetch, hle, rfl, hwrite, hflush⟩ | ⟨hhalt, -⟩
  · cases hfetch.symm.trans (obeyed?_eq_some_iff.mp hi).2
    exact ⟨hle, s, e, hwrite, hflush⟩
  · cases hhalt.symm.trans hi

theorem FailsToFlush.output_or_halt (h : m.FailsToFlush) (hi : m.obeyed? = some i) :
    (∃ c, i = .output c) ∨ i = .halt := by
  rcases h with ⟨b, -, c, s, e, hfetch, -⟩ | ⟨hhalt, -⟩
  · cases hfetch.symm.trans (obeyed?_eq_some_iff.mp hi).2
    exact .inl ⟨c, rfl⟩
  · cases hhalt.symm.trans hi
    exact .inr rfl

end Failure

section

variable [Host]

def emits? (m : Machine σ) : Option Word :=
  match m.step.1 with
  | .ok (.next _) => m.obeyed?.bind (·.output? m.registers)
  | _ => none

def emitted (n : Nat) (m : Machine σ) : List Word := m.observed emits? n

def Stranded (n : Nat) (m : Machine σ) (b : UInt8) : Prop := ∃ j < n, (m.after j).Strands b

def FlushFailed (n : Nat) (m : Machine σ) : Prop := ∃ j < n, (m.after j).FailsToFlush

section Step

variable {m : Machine σ} {i : Instruction} {c : Register} {w : Word} {b : UInt8}

theorem puts_reply (m : Machine σ) (c : Register) :
    m.Puts c (m.reply (.output c)) (m.sinkAfter (.output c)) := by
  simp only [reply, Instruction.operation?, sinkAfter_output]
  split
  · next hgt => exact .refused hgt
  · next hgt =>
    have hle := UInt32.not_lt.mp hgt
    rw [Sink.emit]
    cases hwrite : Sink.writeAll m.sink [(m.registers.get c).toUInt8] with
    | mk written s =>
      cases written with
      | error e => exact .unwritten hle hwrite
      | ok u =>
        cases hflush : Sink.flush s with
        | mk flushed t =>
          cases flushed with
          | error e =>
            simp only [hflush]
            exact .unflushed hle hwrite hflush
          | ok u =>
            simp only [hflush]
            exact .put hle hwrite hflush

theorem puts_of_reply {r : Except Cause Word} (hreply : m.reply (.output c) = r) :
    m.Puts c r (m.sinkAfter (.output c)) :=
  hreply ▸ m.puts_reply c

theorem FailsToFlush.exists_reply (h : m.FailsToFlush) :
    ∃ i e, m.obeyed? = some i ∧ m.reply i = .error (.stream e) := by
  rcases h with ⟨b, hstatus, c, s, e, hfetch, hle, rfl, hwrite, hflush⟩ | ⟨hi, e, hflush⟩
  · refine ⟨.output c, e, obeyed?_eq_some_iff.mpr ⟨hstatus, hfetch⟩, ?_⟩
    simp only [reply, Instruction.operation?, if_neg (UInt32.not_lt.mpr hle), Sink.emit, hwrite,
      hflush]
    rfl
  · refine ⟨.halt, e, hi, ?_⟩
    simp only [reply, Instruction.operation?, hflush]
    rfl

theorem FailsToFlush.step (h : m.FailsToFlush) : ∃ fault, m.step.1 = .error fault := by
  obtain ⟨i, e, hi, hreply⟩ := h.exists_reply
  exact ⟨_, step_of_reply_error hi hreply⟩

theorem accepted_sinkAfter_of_ok (R : Sink.Recording σ) (hreply : m.reply i = .ok w) :
    R.accepted (m.sinkAfter i) =
      R.accepted m.sink ++ (i.output? m.registers).toList.map (·.toUInt8) := by
  cases i with
  | output c =>
    have hputs := puts_of_reply hreply
    generalize m.sinkAfter (.output c) = s at hputs
    cases hputs with
    | @put s t _ hwrite hflush =>
      have hkept := R.flush s
      rw [hflush] at hkept
      exact hkept.trans (Sink.Recording.writeAll_byte_ok hwrite)
  | halt => exact (R.flush m.sink).trans (List.append_nil _).symm
  | _ => exact (List.append_nil _).symm

theorem flushes_sinkAfter_of_ok (R : Sink.Metered σ) (hreply : m.reply i = .ok w) :
    R.flushes (m.sinkAfter i) = R.flushes m.sink + (i.output? m.registers).toList.length +
      if i = .halt then 1 else 0 := by
  cases i with
  | output c =>
    have hputs := puts_of_reply hreply
    generalize m.sinkAfter (.output c) = s at hputs
    cases hputs with
    | put _ hwrite hflush => exact R.flushes_of_written hwrite hflush
  | halt => exact R.flushes_flush m.sink
  | _ => rfl

open Classical in
theorem flushes_sinkAfter_of_error (R : Sink.Metered σ) (hi : m.obeyed? = some i) {cause : Cause}
    (hreply : m.reply i = .error cause) :
    R.flushes (m.sinkAfter i) = R.flushes m.sink + if m.FailsToFlush then 1 else 0 := by
  cases i with
  | output c =>
    have hputs := puts_of_reply hreply
    generalize m.sinkAfter (.output c) = s at hputs
    cases hputs with
    | refused hgt => rw [if_neg fun h => UInt32.not_lt.mpr (h.output hi).1 hgt, Nat.add_zero]
    | unwritten hle hwrite =>
      have hkept : ¬m.FailsToFlush := by
        intro h
        obtain ⟨-, s', e', hwrite', -⟩ := h.output hi
        cases hwrite.symm.trans hwrite'
      have hwritten := R.flushes_writeAll m.sink [(m.registers.get c).toUInt8]
      rw [hwrite] at hwritten
      rw [if_neg hkept, Nat.add_zero, hwritten]
    | @unflushed s e t hle hwrite hflush =>
      have hfails : m.FailsToFlush := by
        obtain ⟨hstatus, hfetch⟩ := obeyed?_eq_some_iff.mp hi
        exact .inl ⟨_, hstatus, c, s, e, hfetch, hle, rfl, hwrite, by rw [hflush]⟩
      rw [if_pos hfails, R.flushes_of_written hwrite hflush]
  | halt =>
    have hfails : m.FailsToFlush := by
      simp only [reply, Instruction.operation?] at hreply
      cases hflush : (Sink.flush m.sink).1 with
      | error e => exact .inr ⟨hi, e, hflush⟩
      | ok u => rw [hflush] at hreply; cases hreply
    rw [if_pos hfails]
    exact R.flushes_flush m.sink
  | _ =>
    rw [if_neg fun h => by simpa using h.output_or_halt hi]
    rfl

theorem sink_step_of_quiet (houtput : ∀ c, m.obeyed? = some (.output c) → 255 < m.registers.get c)
    (hhalt : m.obeyed? ≠ some .halt) : m.step.2.sink = m.sink := by
  cases hi : m.obeyed? with
  | none => exact (parts_step_of_idle hi).2.2
  | some i =>
    rw [(parts_step_of_obeyed hi).2.2]
    cases i with
    | output c => rw [sinkAfter_output, if_pos (houtput c hi)]
    | halt => exact absurd hi hhalt
    | _ => rfl

theorem emits?_of_error {fault : Fault} (h : m.step.1 = .error fault) : m.emits? = none := by
  rw [emits?, h]

theorem emits?_of_idle (hi : m.obeyed? = none) : m.emits? = none := by
  rw [emits?, hi]
  split <;> rfl

theorem emits?_of_reply_ok (hi : m.obeyed? = some i) (hreply : m.reply i = .ok w) :
    m.emits? = i.output? m.registers := by
  cases i with
  | output c =>
    rw [emits?, step_of_reply_ok hi hreply rfl, hi]
    rfl
  | _ =>
    rw [emits?, hi]
    split <;> rfl

theorem le_of_emits? (h : m.emits? = some w) : w ≤ 255 := by
  cases hi : m.obeyed? with
  | none => cases (emits?_of_idle hi).symm.trans h
  | some i =>
    cases hreply : m.reply i with
    | error cause => cases (emits?_of_error (step_of_reply_error hi hreply)).symm.trans h
    | ok v =>
      rw [emits?_of_reply_ok hi hreply] at h
      cases i with
      | output c =>
        cases h
        cases puts_of_reply hreply with
        | put hle => exact hle
      | _ => cases h

theorem accepted_step (R : Sink.Recording σ) (m : Machine σ) : ∃ extra : Option UInt8,
    R.accepted m.step.2.sink =
      R.accepted m.sink ++ m.emits?.toList.map (·.toUInt8) ++ extra.toList ∧
    ∀ b, extra = some b ↔ m.Strands b := by
  cases hi : m.obeyed? with
  | none =>
    refine ⟨none, ?_, fun b => iff_of_false nofun fun h => ?_⟩
    · rw [(parts_step_of_idle hi).2.2, emits?_of_idle hi]
      simp
    · obtain ⟨i, e, hi', -⟩ := FailsToFlush.exists_reply (.inl ⟨b, h⟩)
      cases hi.symm.trans hi'
  | some i =>
    obtain ⟨hstatus, hfetch⟩ := obeyed?_eq_some_iff.mp hi
    rw [(parts_step_of_obeyed hi).2.2]
    cases hreply : m.reply i with
    | error cause =>
      rw [emits?_of_error (step_of_reply_error hi hreply)]
      by_cases hfails : ∃ b, m.FlushFails b
      · obtain ⟨b, hb⟩ := hfails
        refine ⟨some b, ?_, fun b' => ⟨?_, fun h => congrArg some (hb.unique h.2)⟩⟩
        · rw [accepted_of_flushFails R hfetch hb]
          simp
        · rintro ⟨⟩
          exact ⟨hstatus, hb⟩
      · refine ⟨none, ?_, fun b => iff_of_false nofun fun h => hfails ⟨b, h.2⟩⟩
        rw [accepted_of_not_flushFails R hfetch hreply fun b hb => hfails ⟨b, hb⟩]
        simp
    | ok w =>
      refine ⟨none, ?_, fun b => iff_of_false nofun fun h => ?_⟩
      · rw [accepted_sinkAfter_of_ok R hreply, emits?_of_reply_ok hi hreply]
        simp
      · obtain ⟨i', e, hi', hreply'⟩ := FailsToFlush.exists_reply (.inl ⟨b, h⟩)
        cases hi.symm.trans hi'
        cases hreply.symm.trans hreply'

open Classical in
theorem flushes_step (R : Sink.Metered σ) (hstatus : m.status = .running) :
    R.flushes m.step.2.sink = R.flushes m.sink + m.emits?.toList.length +
      (if m.step.2.status = .halted then 1 else 0) + if m.FailsToFlush then 1 else 0 := by
  have hkept {flow : Flow} (hok : m.step.1 = .ok flow) : ¬m.FailsToFlush := by
    intro h
    obtain ⟨fault, hfault⟩ := h.step
    cases hok.symm.trans hfault
  have htakes := m.takes_step
  generalize hr : m.step.1 = r, m.step.2 = m' at htakes
  cases htakes with
  | stopped h => exact absurd hstatus h
  | unread _ hfetch =>
    have hquiet : ¬m.FailsToFlush := by
      intro h
      obtain ⟨i, e, hi, -⟩ := h.exists_reply
      cases hfetch.symm.trans (obeyed?_eq_some_iff.mp hi).2
    rw [emits?_of_error hr, if_neg nofun, if_neg hquiet]
    rfl
  | @fail i cause _ hfetch hreply =>
    have hi := obeyed?_eq_some_iff.mpr ⟨hstatus, hfetch⟩
    have hfailed : Status.failed (m.fault cause) ≠ .halted := nofun
    rw [flushes_sinkAfter_of_error R hi hreply, emits?_of_error hr, if_neg hfailed]
    rfl
  | @next i w finger _ hfetch hreply hflow =>
    have hi := obeyed?_eq_some_iff.mpr ⟨hstatus, hfetch⟩
    have hrunning : m.status ≠ .halted := by simp [hstatus]
    have hhalt : i ≠ .halt := by rintro rfl; cases hflow
    rw [flushes_sinkAfter_of_ok R hreply, emits?_of_reply_ok hi hreply, if_neg (hkept hr),
      if_neg hrunning, if_neg hhalt]
  | halt _ hfetch hreply =>
    have hi := obeyed?_eq_some_iff.mpr ⟨hstatus, hfetch⟩
    rw [flushes_sinkAfter_of_ok R hreply, emits?_of_reply_ok hi hreply, if_neg (hkept hr),
      if_pos rfl, if_pos rfl]

end Step

section Run

variable {m : Machine σ}

theorem emitted_succ (n : Nat) (m : Machine σ) :
    m.emitted (n + 1) = m.emitted n ++ (m.after n).emits?.toList :=
  observed_succ emits? n m

theorem stranded_succ {n : Nat} {b : UInt8} :
    m.Stranded (n + 1) b ↔ m.Stranded n b ∨ (m.after n).Strands b :=
  Nat.exists_lt_succ_right

theorem flushFailed_succ {n : Nat} :
    m.FlushFailed (n + 1) ↔ m.FlushFailed n ∨ (m.after n).FailsToFlush :=
  Nat.exists_lt_succ_right

theorem Stranded.flushFailed {n : Nat} {b : UInt8} (h : m.Stranded n b) : m.FlushFailed n := by
  obtain ⟨j, hj, hb⟩ := h
  exact ⟨j, hj, .inl ⟨b, hb⟩⟩

theorem le_of_mem_emitted {n : Nat} {w : Word} (h : w ∈ m.emitted n) : w ≤ 255 := by
  obtain ⟨j, -, hw⟩ := mem_observed_iff.mp h
  exact le_of_emits? hw

theorem after_of_failsToFlush {j k : Nat} (hj : j < k) (h : (m.after j).FailsToFlush) :
    ∃ e, (m.after k).status = .failed ((m.after j).fault (.stream e)) := by
  obtain ⟨i, e, hi, hreply⟩ := h.exists_reply
  obtain ⟨d, rfl⟩ := Nat.exists_eq_add_of_le hj
  have hfailed : (m.after (j + 1)).status = .failed ((m.after j).fault (.stream e)) := by
    rw [after_succ, snd_step_of_reply_error hi hreply]
  refine ⟨e, ?_⟩
  rw [after_add, after_of_stopped (by rw [hfailed]; nofun), hfailed]

theorem not_flushFailed_of_running {k : Nat} (hstatus : (m.after k).status = .running) :
    ¬m.FlushFailed k := by
  rintro ⟨j, hj, h⟩
  obtain ⟨e, hfailed⟩ := after_of_failsToFlush hj h
  cases hstatus.symm.trans hfailed

theorem accepted_after (R : Sink.Recording σ) (m : Machine σ) (k : Nat) : ∃ extra : Option UInt8,
    R.accepted (m.after k).sink =
      R.accepted m.sink ++ (m.emitted k).map (·.toUInt8) ++ extra.toList ∧
    ∀ b, extra = some b ↔ m.Stranded k b := by
  induction k with
  | zero => exact ⟨none, by simp [emitted, observed, after], by simp [Stranded]⟩
  | succ k ih =>
    obtain ⟨extra, haccepted, hextra⟩ := ih
    obtain ⟨extra', hstep, hextra'⟩ := accepted_step R (m.after k)
    rw [after_succ, hstep, haccepted, emitted_succ]
    -- A byte left behind has stopped the machine, so that either the first `k` steps or the last may
    -- have left one, but not both.
    by_cases hstatus : (m.after k).status = .running
    · have hearlier (b : UInt8) : ¬m.Stranded k b :=
        fun hb => not_flushFailed_of_running hstatus hb.flushFailed
      have hnone : extra = none :=
        Option.eq_none_iff_forall_ne_some.mpr fun b hb => hearlier b ((hextra b).mp hb)
      refine ⟨extra', by simp [hnone], fun b => ?_⟩
      rw [hextra', stranded_succ, or_iff_right (hearlier b)]
    · have hlast (b : UInt8) : ¬(m.after k).Strands b := fun hb => hstatus hb.1
      have hnone : extra' = none :=
        Option.eq_none_iff_forall_ne_some.mpr fun b hb => hlast b ((hextra' b).mp hb)
      refine ⟨extra, ?_, fun b => ?_⟩
      · rw [emits?_of_idle (obeyed?_of_stopped hstatus), hnone]
        simp
      · rw [hextra, stranded_succ, or_iff_left (hlast b)]

open Classical in
theorem flushes_after (R : Sink.Metered σ) (hm : m.status = .running) (k : Nat) :
    R.flushes (m.after k).sink = R.flushes m.sink + (m.emitted k).length +
      (if (m.after k).status = .halted then 1 else 0) +
      if m.FlushFailed k then 1 else 0 := by
  induction k with
  | zero => simp [emitted, observed, after, hm, FlushFailed]
  | succ k ih =>
    rw [emitted_succ, List.length_append, flushFailed_succ, after_succ]
    by_cases hstatus : (m.after k).status = .running
    · have hhalted : (m.after k).status ≠ .halted := by simp [hstatus]
      have hearlier := not_flushFailed_of_running hstatus
      rw [if_neg hhalted, if_neg hearlier] at ih
      rw [flushes_step R hstatus, ih, or_iff_right hearlier]
      simp only [Nat.add_zero, Nat.add_assoc]
    · have hlast : ¬(m.after k).FailsToFlush := by
        intro h
        obtain ⟨i, e, hi, -⟩ := h.exists_reply
        exact hstatus (obeyed?_eq_some_iff.mp hi).1
      rw [step_of_stopped hstatus, ih, emits?_of_idle (obeyed?_of_stopped hstatus),
        or_iff_left hlast]
      rfl

end Run

open Classical in
/-- At all times the sink has accepted the values that were put out, each of them a byte, in order,
and one more byte just if the machine failed after it, for want of a flush. There was one flush for
each value, one if the machine has halted, and the one that failed. Other steps leave the sink as it
is: whatever it may count, they do not call it. -/
theorem output_conserved (R : Sink.Metered σ) (image : Image) (source : Source) (sink : σ) :
    let m := load image source sink
    (∀ k,
      (∀ w ∈ m.emitted k, w ≤ 255) ∧
      (∃ extra : Option UInt8,
        R.accepted (m.after k).sink =
          R.accepted sink ++ (m.emitted k).map (·.toUInt8) ++ extra.toList ∧
        ∀ b, extra = some b ↔ m.Stranded k b) ∧
      R.flushes (m.after k).sink = R.flushes sink + (m.emitted k).length +
        (if (m.after k).status = .halted then 1 else 0) +
        (if m.FlushFailed k then 1 else 0) ∧
      ∀ j < k, (m.after j).FailsToFlush →
        ∃ e, (m.after k).status = .failed ((m.after j).fault (.stream e))) ∧
    ∀ m : Machine σ, (∀ c, m.obeyed? = some (.output c) → 255 < m.registers.get c) →
      m.obeyed? ≠ some .halt → m.step.2.sink = m.sink := by
  intro m
  refine ⟨fun k => ⟨fun w => le_of_mem_emitted, accepted_after R.toRecording m k,
    flushes_after R rfl k, fun j hj => after_of_failsToFlush hj⟩, fun m => sink_step_of_quiet⟩

end

open Host

theorem output_conserved_of_interrupted :
    let m := load ⟨[0xd0000003, 0xa0000000, 0xa0000000, 0x70000000]⟩ []
      (ScriptedSink.ofScripts [.fail .interrupted, .accept] [.succeed, .fail .interrupted])
    m.emitted 3 = [3] ∧ m.Stranded 3 3 ∧ (m.after 3).sink.accepted.toList = [3, 3] ∧
      (m.after 3).sink.flushes = 2 ∧
      (∃ e, (m.after 3).status = .failed ⟨.stream e, 2, Registers.zero.put 0 3⟩) ∧
      m.step.2.sink = m.sink := by
  intro m
  have hemitted : m.emitted 3 = [3] := by decide +kernel
  have hstrands : (m.after 2).Strands 3 := ⟨by decide +kernel, 0,
    ⟨#[3, 3], 1, [], [.fail .interrupted]⟩, .interrupted, by decide +kernel, by decide +kernel,
    by decide +kernel, by decide +kernel, by decide +kernel⟩
  have hstranded : m.Stranded 3 3 := ⟨2, by decide, hstrands⟩
  have hobeyed : m.obeyed? = some (.orthography 0 3) := by decide +kernel
  have hfault (e : StreamError) : (m.after 2).fault (.stream e) =
      ⟨.stream e, 2, Registers.zero.put 0 3⟩ := by
    rw [fault, Fault.mk.injEq]
    exact ⟨rfl, by decide +kernel, by decide +kernel⟩
  obtain ⟨hruns, hquiet⟩ := output_conserved ScriptedSink.metered
    ⟨[0xd0000003, 0xa0000000, 0xa0000000, 0x70000000]⟩ []
    (ScriptedSink.ofScripts [.fail .interrupted, .accept] [.succeed, .fail .interrupted])
  obtain ⟨-, ⟨extra, haccepted, hextra⟩, hflushes, hfailed⟩ := hruns 3
  rw [(hextra 3).mpr hstranded, hemitted] at haccepted
  obtain ⟨e, hstatus⟩ := hfailed 2 (by decide) (.inl ⟨3, hstrands⟩)
  rw [hemitted, hstatus, if_neg nofun, if_pos hstranded.flushFailed] at hflushes
  refine ⟨hemitted, hstranded, haccepted, hflushes, ⟨e, hstatus.trans (by rw [hfault])⟩, ?_⟩
  exact hquiet m (fun c hc => nomatch hobeyed.symm.trans hc) fun h => nomatch hobeyed.symm.trans h

end Machine

end UniversalMachine
