import UniversalMachine.Machine.Run
import UniversalMachine.Proofs.Machine.Execute
import UniversalMachine.Proofs.Memory.Live

universe u

namespace UniversalMachine.Machine

variable {σ : Type u}

def conclude : Effect σ Flow → Except Fault Flow × Machine σ
  | (.ok (.next finger), m) => (.ok (.next finger), { m with finger, steps := m.steps + 1 })
  | (.ok .halt, m) => (.ok .halt, { m with status := .halted, steps := m.steps + 1 })
  | (.error cause, m) => m.fail cause

@[simp] theorem memory_conclude (r : Effect σ Flow) : (conclude r).2.memory = r.2.memory := by
  obtain ⟨_ | (_ | _), m⟩ := r <;> rfl

@[simp] theorem source_conclude (r : Effect σ Flow) : (conclude r).2.source = r.2.source := by
  obtain ⟨_ | (_ | _), m⟩ := r <;> rfl

@[simp] theorem sink_conclude (r : Effect σ Flow) : (conclude r).2.sink = r.2.sink := by
  obtain ⟨_ | (_ | _), m⟩ := r <;> rfl

def operations (m : Machine σ) : List Memory.Op :=
  if m.status = .running then
    .read 0 m.finger ::
      match m.fetch with
      | .ok i => (i.operation? m.registers).toList
      | .error _ => []
  else []

def obeyed? (m : Machine σ) : Option Instruction :=
  if m.status = .running then m.fetch.toOption else none

variable {m : Machine σ}

theorem setLimit_not_mem_operations (m : Machine σ) (limit : Nat) :
    .setLimit limit ∉ m.operations := by
  have hnone (i : Instruction) : i.operation? m.registers ≠ some (.setLimit limit) := by
    cases i <;> simp [Instruction.operation?]
  rw [operations]
  split
  · cases m.fetch with
    | error cause => simp
    | ok i => simpa using hnone i
  · exact List.not_mem_nil

theorem obeyed?_eq_some_iff {i : Instruction} :
    m.obeyed? = some i ↔ m.status = .running ∧ m.fetch = .ok i := by
  rw [obeyed?]
  split
  · cases m.fetch <;> simp_all [Except.toOption]
  · simp_all

theorem obeyed?_of_stopped (hstatus : m.status ≠ .running) : m.obeyed? = none := if_neg hstatus

variable [Sink σ] [Host]

theorem step_of_stopped (hstatus : m.status ≠ .running) :
    m.step = (.error (m.fault .notRunning), m) := by
  rw [step, if_neg hstatus]

theorem step_of_fetch_error {cause : Cause} (hstatus : m.status = .running)
    (hfetch : m.fetch = .error cause) : m.step = m.fail cause := by
  rw [step, if_pos hstatus, hfetch]

theorem step_of_fetch {i : Instruction} (hstatus : m.status = .running)
    (hfetch : m.fetch = .ok i) : m.step = conclude (m.execute i) := by
  rw [step, if_pos hstatus, hfetch]
  dsimp only
  cases m.execute i with
  | mk result m' => rcases result with _ | (_ | _) <;> rfl

theorem memory_step (m : Machine σ) :
    m.step.2.memory = (m.memory.performAll m.operations).2 := by
  by_cases hstatus : m.status = .running
  · cases hfetch : m.fetch with
    | error cause =>
      rw [step_of_fetch_error hstatus hfetch, operations, if_pos hstatus, hfetch]
      rfl
    | ok i =>
      rw [step_of_fetch hstatus hfetch, operations, if_pos hstatus, hfetch, memory_conclude,
        snd_execute]
      rfl
  · rw [step_of_stopped hstatus, operations, if_neg hstatus]
    rfl

theorem limit_step (m : Machine σ) : m.step.2.memory.limit = m.memory.limit := by
  rw [memory_step]
  exact Memory.limit_performAll m.memory m.setLimit_not_mem_operations

theorem limit_after (n : Nat) (m : Machine σ) : (m.after n).memory.limit = m.memory.limit := by
  induction n generalizing m with
  | zero => rfl
  | succ n ih => exact (ih m.step.2).trans m.limit_step

theorem size_le_step (m : Machine σ) : m.memory.slots.size ≤ m.step.2.memory.slots.size := by
  rw [memory_step]
  exact Memory.size_le_performAll m.memory m.operations

theorem size_le_after (n : Nat) (m : Machine σ) :
    m.memory.slots.size ≤ (m.after n).memory.slots.size := by
  induction n generalizing m with
  | zero => exact Nat.le_refl _
  | succ n ih => exact Nat.le_trans m.size_le_step (ih _)

theorem consistent_step (hm : m.memory.Consistent) : m.step.2.memory.Consistent := by
  rw [memory_step]
  exact hm.performAll m.operations

theorem consistent_after (hm : m.memory.Consistent) (n : Nat) :
    (m.after n).memory.Consistent := by
  induction n generalizing m with
  | zero => exact hm
  | succ n ih => exact ih (consistent_step hm)

theorem parts_step_of_obeyed {i : Instruction} (hi : m.obeyed? = some i) :
    m.step.2.memory = (m.memory.performAll (i.operation? m.registers).toList).2 ∧
      m.step.2.source = m.sourceAfter i ∧ m.step.2.sink = m.sinkAfter i := by
  obtain ⟨hstatus, hfetch⟩ := obeyed?_eq_some_iff.mp hi
  rw [step_of_fetch hstatus hfetch, memory_conclude, source_conclude, sink_conclude, snd_execute]
  exact ⟨rfl, rfl, rfl⟩

theorem parts_step_of_idle (hi : m.obeyed? = none) :
    m.step.2.memory = m.memory ∧ m.step.2.source = m.source ∧ m.step.2.sink = m.sink := by
  by_cases hstatus : m.status = .running
  · cases hfetch : m.fetch with
    | error cause =>
      rw [step_of_fetch_error hstatus hfetch]
      exact ⟨rfl, rfl, rfl⟩
    | ok i =>
      rw [obeyed?_eq_some_iff.mpr ⟨hstatus, hfetch⟩] at hi
      cases hi
  · rw [step_of_stopped hstatus]
    exact ⟨rfl, rfl, rfl⟩

/-- `Reached image source sink ops m`: steps from the start of a program lead to `m`, with any limits
set on the way, and `ops` are the operations on the memory in all of this. -/
inductive Reached (image : Image) (source : Source) (sink : σ) : List Memory.Op → Machine σ → Prop
  | load : Reached image source sink [] (load image source sink)
  | setLimit {ops m} (limit : Nat) : Reached image source sink ops m →
      Reached image source sink (ops ++ [.setLimit limit]) (m.setLimit limit)
  | step {ops m} : Reached image source sink ops m →
      Reached image source sink (ops ++ m.operations) m.step.2

theorem Reached.memory_eq {image : Image} {source : Source} {sink : σ} {ops : List Memory.Op}
    (h : Reached image source sink ops m) : m.memory = Memory.after image.words ops := by
  induction h with
  | load => rfl
  | setLimit limit _ ih =>
    rw [Memory.after, Memory.performAll_append, ← Memory.after, ← ih]
    rfl
  | step _ ih => rw [Memory.after, Memory.performAll_append, ← Memory.after, ← ih, memory_step]

end UniversalMachine.Machine
