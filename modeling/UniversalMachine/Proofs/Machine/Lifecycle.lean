import UniversalMachine.Proofs.Machine.Run

universe u

namespace UniversalMachine.Machine

inductive Call
  | step
  | run
  deriving DecidableEq, Repr

inductive Return
  | flow (flow : Flow)
  | steps (n : Nat)
  deriving DecidableEq, Repr

variable {σ : Type u} [Sink σ]

section

variable [Host]

def executed : Nat → Machine σ → List (Except Fault Flow)
  | 0, _ => []
  | fuel + 1, m =>
    match m.step with
    | (.ok (.next finger), m) => .ok (.next finger) :: executed fuel m
    | (result, _) => [result]

/-- `m.Answers call answer results m'`: the call returns with this answer and leaves `m'`. The results
are those of all steps made on the way. -/
inductive Answers (m : Machine σ) :
    Call → Except Fault Return → List (Except Fault Flow) → Machine σ → Prop
  | step : Answers m .step (m.step.1.map .flow) [m.step.1] m.step.2
  | run {fuel r m'} : m.run fuel = some (r, m') →
      Answers m .run (r.map .steps) (m.executed fuel) m'

inductive Serves : Machine σ → List Call → List (Except Fault Return) →
    List (Except Fault Flow) → Machine σ → Prop
  | nil {m} : Serves m [] [] [] m
  | cons {m call answer results m₁ calls answers later m'} : Answers m call answer results m₁ →
      Serves m₁ calls answers later m' →
      Serves m (call :: calls) (answer :: answers) (results ++ later) m'

section Results

variable {m m' : Machine σ}

theorem executed_succ_of_next {fuel : Nat} {finger : Word} (h : m.step.1 = .ok (.next finger)) :
    m.executed (fuel + 1) = m.step.1 :: m.step.2.executed fuel := by
  rw [executed]
  cases hstep : m.step with
  | mk result m₁ =>
    rw [hstep] at h
    cases h
    rfl

theorem executed_succ_of_ends {fuel : Nat} {r : Except Fault Nat} (h : Ends m.steps m.step.1 r) :
    m.executed (fuel + 1) = [m.step.1] := by
  rw [executed]
  cases hstep : m.step with
  | mk result m₁ =>
    rw [hstep] at h
    cases h <;> rfl

theorem executed_of_run {fuel : Nat} {r : Except Fault Nat} (hrun : m.run fuel = some (r, m')) :
    ∃ n, m.executed fuel = m.results n ∧ m' = m.after n := by
  induction fuel generalizing m with
  | zero => cases hrun
  | succ fuel ih =>
    rcases m.next_or_ends with ⟨finger, hnext⟩ | ⟨r', hends⟩
    · rw [run_succ_of_next hnext] at hrun
      obtain ⟨n, hresults, hlast⟩ := ih hrun
      exact ⟨n + 1, by rw [executed_succ_of_next hnext, hresults, results], hlast⟩
    · rw [run_succ_of_ends hends] at hrun
      cases hrun
      exact ⟨1, executed_succ_of_ends hends, rfl⟩

theorem Answers.exists_after {call : Call} {answer : Except Fault Return}
    {made : List (Except Fault Flow)} (h : m.Answers call answer made m') :
    ∃ n, made = m.results n ∧ m' = m.after n := by
  cases h with
  | step => exact ⟨1, rfl, rfl⟩
  | run hrun => exact executed_of_run hrun

theorem Serves.exists_after {calls : List Call} {answers : List (Except Fault Return)}
    {made : List (Except Fault Flow)} (h : m.Serves calls answers made m') :
    ∃ n, made = m.results n ∧ m' = m.after n := by
  induction h with
  | nil => exact ⟨0, rfl, rfl⟩
  | @cons m _ _ _ m₁ _ _ _ m' hcall _ ih =>
    obtain ⟨i, rfl, rfl⟩ := hcall.exists_after
    obtain ⟨j, rfl, rfl⟩ := ih
    exact ⟨i + j, (results_add i j m).symm, (after_add i j m).symm⟩

theorem steps_step (m : Machine σ) :
    m.step.2.steps = m.steps + if m.step.1.isOk then 1 else 0 := by
  cases hresult : m.step.1 with
  | ok flow => exact steps_step_of_ok hresult
  | error fault =>
    have htakes := m.takes_step
    rw [hresult] at htakes
    generalize m.step.2 = m' at htakes
    cases htakes <;> rfl

theorem steps_after (n : Nat) (m : Machine σ) :
    (m.after n).steps = m.steps + (m.results n).countP Except.isOk := by
  induction n generalizing m with
  | zero => rfl
  | succ n ih =>
    rw [after, ih, steps_step, results, List.countP_cons, Nat.add_right_comm, Nat.add_assoc]

end Results

structure Settled (m : Machine σ) : Prop where
  halted : m.status = .halted → m.fetch = .ok .halt
  failed : ∀ {fault}, m.status = .failed fault → ∃ cause, cause ≠ .notRunning ∧ fault = m.fault cause

section Settled

variable {m : Machine σ}

omit [Sink σ] [Host] in
theorem exists_of_fetch {i : Instruction} (h : m.fetch = .ok i) :
    ∃ w, m.memory.read 0 m.finger = .ok w ∧ Instruction.decode w = .ok i := by
  rw [fetch] at h
  cases hread : m.memory.read 0 m.finger with
  | error e => simp [hread] at h
  | ok w =>
    rw [hread] at h
    cases hdecode : Instruction.decode w with
    | error e => simp [hdecode] at h
    | ok i' => simp_all

omit [Sink σ] [Host] in
theorem fetch_ne_notRunning (m : Machine σ) : m.fetch ≠ .error .notRunning := by
  rw [fetch]
  cases m.memory.read 0 m.finger with
  | error e => simp
  | ok w => cases hdecode : Instruction.decode w <;> simp [hdecode]

theorem reply_ne_notRunning (m : Machine σ) (i : Instruction) : m.reply i ≠ .error .notRunning := by
  intro h
  cases hop : i.operation? m.registers with
  | some op =>
    rw [reply_of_operation hop] at h
    cases hresult : (m.memory.perform op).1 <;> rw [hresult] at h <;> cases h
  | none =>
    simp only [reply, hop] at h
    cases i with
    | division a b c =>
      dsimp only at h
      split at h <;> cases h
    | halt => cases hflush : (Sink.flush m.sink).1 <;> rw [hflush] at h <;> cases h
    | output c =>
      dsimp only at h
      split at h
      · cases h
      · cases hemit : (Sink.emit m.sink (m.registers.get c).toUInt8).1 <;> rw [hemit] at h <;> cases h
    | input c => cases hread : m.source.readByte.1 <;> simp [hread] at h
    | _ => cases h

theorem Settled.step (h : m.Settled) : m.step.2.Settled := by
  have htakes := m.takes_step
  generalize m.step.1 = r, m.step.2 = m' at htakes
  cases htakes with
  | stopped => exact h
  | @unread cause _ hfetch =>
    have hcause : cause ≠ .notRunning := fun hc => m.fetch_ne_notRunning (hc ▸ hfetch)
    exact ⟨nofun, fun hfailed => ⟨cause, hcause, (Status.failed.inj hfailed).symm⟩⟩
  | @fail i cause _ _ hreply =>
    have hcause : cause ≠ .notRunning := fun hc => m.reply_ne_notRunning i (hc ▸ hreply)
    exact ⟨nofun, fun hfailed => ⟨cause, hcause, (Status.failed.inj hfailed).symm⟩⟩
  | next hstatus =>
    exact ⟨fun hhalted => (nomatch hstatus.symm.trans hhalted),
      fun hfailed => nomatch hstatus.symm.trans hfailed⟩
  | halt _ hfetch => exact ⟨fun _ => hfetch, nofun⟩

theorem Settled.after (h : m.Settled) (n : Nat) : (m.after n).Settled := by
  induction n generalizing m with
  | zero => exact h
  | succ n ih => exact ih h.step

omit [Sink σ] [Host] in
theorem settled_load (image : Image) (source : Source) (sink : σ) :
    (load image source sink).Settled :=
  ⟨nofun, nofun⟩

end Settled

section Stopped

variable {m : Machine σ} (hstatus : m.status ≠ .running)
include hstatus

theorem ends_of_stopped : Ends m.steps m.step.1 (.error (m.fault .notRunning)) := by
  rw [step_of_stopped hstatus]
  exact .fail

theorem run_of_stopped (fuel : Nat) : m.run (fuel + 1) = some (.error (m.fault .notRunning), m) := by
  rw [run_succ_of_ends (ends_of_stopped hstatus), step_of_stopped hstatus]

theorem executed_of_stopped (fuel : Nat) : m.executed (fuel + 1) = [.error (m.fault .notRunning)] := by
  rw [executed_succ_of_ends (ends_of_stopped hstatus), step_of_stopped hstatus]

theorem answers_iff_of_stopped {call : Call} {answer : Except Fault Return}
    {made : List (Except Fault Flow)} {m' : Machine σ} :
    m.Answers call answer made m' ↔
      answer = .error (m.fault .notRunning) ∧ made = [.error (m.fault .notRunning)] ∧ m' = m := by
  constructor
  · rintro (_ | @⟨_ | fuel, r, _, hrun⟩)
    · rw [step_of_stopped hstatus]
      exact ⟨rfl, rfl, rfl⟩
    · cases hrun
    · cases (run_of_stopped hstatus fuel).symm.trans hrun
      exact ⟨rfl, executed_of_stopped hstatus fuel, rfl⟩
  · rintro ⟨rfl, rfl, rfl⟩
    cases call with
    | step =>
      have hstep : m'.Answers .step _ _ _ := .step
      rwa [step_of_stopped hstatus] at hstep
    | run =>
      have hrun := Answers.run (run_of_stopped hstatus 0)
      rwa [executed_of_stopped hstatus] at hrun

theorem serves_iff_of_stopped {calls : List Call} {answers : List (Except Fault Return)}
    {made : List (Except Fault Flow)} {m' : Machine σ} :
    m.Serves calls answers made m' ↔
      answers = List.replicate calls.length (.error (m.fault .notRunning)) ∧
        made = List.replicate calls.length (.error (m.fault .notRunning)) ∧ m' = m := by
  induction calls generalizing answers made with
  | nil =>
    constructor
    · rintro ⟨⟩
      exact ⟨rfl, rfl, rfl⟩
    · rintro ⟨rfl, rfl, rfl⟩
      exact .nil
  | cons call calls ih =>
    rw [List.length_cons, List.replicate_succ, List.replicate_succ]
    constructor
    · intro h
      cases h with
      | cons hcall hlater =>
        obtain ⟨rfl, rfl, rfl⟩ := (answers_iff_of_stopped hstatus).mp hcall
        obtain ⟨rfl, rfl, rfl⟩ := ih.mp hlater
        exact ⟨rfl, rfl, rfl⟩
    · rintro ⟨rfl, rfl, rfl⟩
      exact .cons ((answers_iff_of_stopped hstatus).mpr ⟨rfl, rfl, rfl⟩) (ih.mpr ⟨rfl, rfl, rfl⟩)

end Stopped

/-- Whatever calls were made: a machine that has halted is at a `halt`, and one that failed tells
where, with which registers and why. Once it has stopped, all calls return the same fault and leave
it as it is. It counts the steps that went on or halted. -/
theorem life_cycle {image : Image} {source : Source} {sink : σ} {calls : List Call}
    {answers : List (Except Fault Return)} {made : List (Except Fault Flow)} {m : Machine σ}
    (h : (load image source sink).Serves calls answers made m) :
    (m.status = .halted →
      ∃ w, m.memory.read 0 m.finger = .ok w ∧ Instruction.decode w = .ok .halt) ∧
    (∀ fault, m.status = .failed fault →
      fault.finger = m.finger ∧ fault.registers = m.registers ∧ fault.cause ≠ .notRunning) ∧
    (m.status ≠ .running → ∀ later answers' made' m',
      m.Serves later answers' made' m' ↔
        answers' = List.replicate later.length (.error ⟨.notRunning, m.finger, m.registers⟩) ∧
        made' = List.replicate later.length (.error ⟨.notRunning, m.finger, m.registers⟩) ∧
        m' = m) ∧
    m.steps = made.countP Except.isOk := by
  obtain ⟨n, rfl, rfl⟩ := h.exists_after
  obtain ⟨hhalted, hfailed⟩ := (settled_load image source sink).after n
  refine ⟨fun hstatus => exists_of_fetch (hhalted hstatus), fun fault hstatus => ?_,
    fun hstatus _ _ _ _ => serves_iff_of_stopped hstatus, ?_⟩
  · obtain ⟨cause, hcause, rfl⟩ := hfailed hstatus
    exact ⟨rfl, rfl, hcause⟩
  · rw [steps_after]
    exact Nat.zero_add _

end

open Host

theorem life_cycle_of_division :
    let m := load ⟨[0xd0000003, 0x50000001]⟩ [] ScriptedSink.plain
    let m' := load ⟨[0x70000000]⟩ [] ScriptedSink.plain
    let fault (cause : Cause) : Fault := ⟨cause, 1, Registers.zero.put 0 3⟩
    m.Serves [.step, .run] [.ok (.flow (.next 1)), .error (fault .divisionByZero)]
      [.ok (.next 1), .error (fault .divisionByZero)] (m.after 2) ∧
    (m.after 2).status = .failed (fault .divisionByZero) ∧ (m.after 2).steps = 1 ∧
    (m.after 2).Serves [.run, .step, .run] (List.replicate 3 (.error (fault .notRunning)))
      (List.replicate 3 (.error (fault .notRunning))) (m.after 2) ∧
    m'.Serves [.run] [.ok (.steps 1)] [.ok .halt] (m'.after 1) ∧ (m'.after 1).status = .halted ∧
    ∃ w, (m'.after 1).memory.read 0 (m'.after 1).finger = .ok w ∧
      Instruction.decode w = .ok .halt := by
  intro m m' fault
  have hfirst : m.step.1 = .ok (.next 1) := by decide +kernel
  have hsecond : (m.after 1).step.1 = .error (fault .divisionByZero) := by decide +kernel
  have hexecuted : m.step.2.executed 1 = [.error (fault .divisionByZero)] := by decide +kernel
  have hrun : (m.after 1).run 1 = some (.error (fault .divisionByZero), m.after 2) :=
    run_succ_of_ends (hsecond ▸ .fail)
  have hserves : m.Serves [.step, .run] _ _ (m.after 2) := .cons .step (.cons (.run hrun) .nil)
  rw [hfirst, hexecuted] at hserves
  have hhalt : m'.step.1 = .ok .halt := by decide +kernel
  have hexecuted' : m'.executed 1 = [.ok .halt] := by decide +kernel
  have hrun' : m'.run 1 = some (.ok 1, m'.after 1) := run_succ_of_ends (hhalt ▸ .halt)
  have hserves' : m'.Serves [.run] _ _ (m'.after 1) := .cons (.run hrun') .nil
  rw [hexecuted'] at hserves'
  have hfailed : (m.after 2).status = .failed (fault .divisionByZero) := by decide +kernel
  have hhalted : (m'.after 1).status = .halted := by decide +kernel
  obtain ⟨-, hfault, hstopped, hsteps⟩ := life_cycle hserves
  have hrefused : Fault.mk .notRunning (m.after 2).finger (m.after 2).registers =
      fault .notRunning := by
    obtain ⟨hfinger, hregisters, -⟩ := hfault _ hfailed
    rw [← hfinger, ← hregisters]
  refine ⟨hserves, hfailed, hsteps, ?_, hserves', hhalted, (life_cycle hserves').1 hhalted⟩
  refine (hstopped (by rw [hfailed]; nofun) _ _ _ _).mpr ⟨?_, ?_, rfl⟩
  · rw [hrefused]
    rfl
  · rw [hrefused]
    rfl

end UniversalMachine.Machine
