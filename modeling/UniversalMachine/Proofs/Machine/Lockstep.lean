import UniversalMachine.Proofs.Machine.Trace
/-! Two machines side by side. They stay in step as long as their memories and streams give the same
answers. -/

universe u v

namespace UniversalMachine.Machine

variable {σ : Type u} {τ : Type v}

structure InStep (m : Machine σ) (m' : Machine τ) : Prop where
  registers : m'.registers = m.registers
  finger : m'.finger = m.finger
  status : m'.status = m.status
  steps : m'.steps = m.steps

namespace InStep

section Fault

variable {m : Machine σ} {m' : Machine τ}

theorem fault (h : InStep m m') (cause : Cause) : m'.fault cause = m.fault cause := by
  rw [Machine.fault, Machine.fault, h.finger, h.registers]

theorem fail (h : InStep m m') (cause : Cause) :
    (m'.fail cause).1 = (m.fail cause).1 ∧ InStep (m.fail cause).2 (m'.fail cause).2 :=
  ⟨congrArg Except.error (h.fault cause),
    h.registers, h.finger, congrArg Status.failed (h.fault cause), h.steps⟩

theorem fetch (h : InStep m m') (hread : m'.memory.read 0 m.finger = m.memory.read 0 m.finger) :
    m'.fetch = m.fetch := by
  rw [Machine.fetch, Machine.fetch, h.finger, hread]

theorem obeyed? (h : InStep m m') (hfetch : m.status = .running → m'.fetch = m.fetch) :
    m'.obeyed? = m.obeyed? := by
  rw [Machine.obeyed?, Machine.obeyed?, h.status]
  split
  · next hstatus => rw [hfetch hstatus]
  · rfl

theorem eq_of_parts {m m' : Machine σ} (h : InStep m m') (hmemory : m'.memory = m.memory)
    (hsource : m'.source = m.source) (hsink : m'.sink = m.sink) : m' = m := by
  obtain ⟨hregisters, hfinger, hstatus, hsteps⟩ := h
  cases m
  cases m'
  simp_all

theorem conclude {r : Effect σ Flow} {r' : Effect τ Flow} (hresult : r'.1 = r.1)
    (h : InStep r.2 r'.2) :
    (Machine.conclude r').1 = (Machine.conclude r).1 ∧
      InStep (Machine.conclude r).2 (Machine.conclude r').2 := by
  obtain ⟨result, m⟩ := r
  obtain ⟨result', m'⟩ := r'
  cases hresult
  rcases result with cause | (finger | _)
  · exact h.fail cause
  · exact ⟨rfl, h.registers, rfl, h.status, congrArg (· + 1) h.steps⟩
  · exact ⟨rfl, h.registers, h.finger, rfl, congrArg (· + 1) h.steps⟩

end Fault

variable [Sink σ] [Sink τ] [Host] {m : Machine σ} {m' : Machine τ}

theorem execute (h : InStep m m') {i : Instruction} (hreply : m'.reply i = m.reply i) :
    (m'.execute i).1 = (m.execute i).1 ∧ InStep (m.execute i).2 (m'.execute i).2 := by
  cases hr : m.reply i with
  | error cause =>
    rw [execute_of_reply_error hr, execute_of_reply_error (hreply.trans hr)]
    exact ⟨rfl, h.registers, h.finger, h.status, h.steps⟩
  | ok w =>
    rw [execute_of_reply_ok hr, execute_of_reply_ok (hreply.trans hr), h.registers, h.finger]
    exact ⟨rfl, rfl, rfl, h.status, h.steps⟩

theorem step (h : InStep m m') (hfetch : m.status = .running → m'.fetch = m.fetch)
    (hreply : ∀ i, m.obeyed? = some i → m'.reply i = m.reply i) :
    m'.step.1 = m.step.1 ∧ InStep m.step.2 m'.step.2 := by
  by_cases hstatus : m.status = .running
  · have hstatus' := h.status.trans hstatus
    have hfetch := hfetch hstatus
    cases hf : m.fetch with
    | error cause =>
      rw [step_of_fetch_error hstatus hf, step_of_fetch_error hstatus' (hfetch.trans hf)]
      exact h.fail cause
    | ok i =>
      rw [step_of_fetch hstatus hf, step_of_fetch hstatus' (hfetch.trans hf)]
      have hexecute := h.execute (hreply i (obeyed?_eq_some_iff.mpr ⟨hstatus, hf⟩))
      exact conclude hexecute.1 hexecute.2
  · rw [step_of_stopped hstatus, step_of_stopped (h.status ▸ hstatus)]
    exact ⟨congrArg Except.error (h.fault .notRunning), h⟩

end InStep

structure Alike (M : Memory → Memory → Prop) (I : Source → Source → Prop) (O : σ → τ → Prop)
    (m : Machine σ) (m' : Machine τ) : Prop extends InStep m m' where
  memory : M m.memory m'.memory
  source : I m.source m'.source
  sink : O m.sink m'.sink

def Agree {α : Type} {β : Type u} {γ : Type v} (R : β → γ → Prop) (r : α × β) (r' : α × γ) : Prop :=
  r'.1 = r.1 ∧ R r.2 r'.2

variable [Sink σ] [Sink τ] [Host] {M : Memory → Memory → Prop} {I : Source → Source → Prop}
  {O : σ → τ → Prop} {m : Machine σ} {m' : Machine τ}

structure Obliges (M : Memory → Memory → Prop) (I : Source → Source → Prop) (O : σ → τ → Prop)
    (m : Machine σ) (m' : Machine τ) : Prop where
  operation : ∀ {i op}, m.obeyed? = some i → i.operation? m.registers = some op →
    Agree M (m.memory.perform op) (m'.memory.perform op)
  input : ∀ {c}, m.obeyed? = some (.input c) → Agree I m.source.readByte m'.source.readByte
  flush : m.obeyed? = some .halt → Agree O (Sink.flush m.sink) (Sink.flush m'.sink)
  emit : ∀ {c}, m.obeyed? = some (.output c) →
    Agree O (Sink.emit m.sink (m.registers.get c).toUInt8)
      (Sink.emit m'.sink (m.registers.get c).toUInt8)

structure Agreement (M : Memory → Memory → Prop) (I : Source → Source → Prop) (O : σ → τ → Prop)
    (m : Machine σ) (m' : Machine τ) : Prop extends Obliges M I O m m' where
  read : m.status = .running → m'.memory.read 0 m.finger = m.memory.read 0 m.finger

namespace Alike

theorem reply (h : Alike M I O m m') (hc : Obliges M I O m m') {i : Instruction}
    (hi : m.obeyed? = some i) : m'.reply i = m.reply i := by
  unfold Machine.reply
  rw [h.registers]
  cases hop : i.operation? m.registers with
  | some op => simp only [(hc.operation hi hop).1]
  | none =>
    cases i with
    | input c => simp only [(hc.input hi).1]
    | halt => simp only [(hc.flush hi).1]
    | output c => simp only [(hc.emit hi).1]
    | _ => rfl

theorem memoryAfter (h : Alike M I O m m') (hc : Obliges M I O m m') {i : Instruction}
    (hi : m.obeyed? = some i) :
    M (m.memory.performAll (i.operation? m.registers).toList).2
      (m'.memory.performAll (i.operation? m'.registers).toList).2 := by
  rw [h.registers]
  cases hop : i.operation? m.registers with
  | none => exact h.memory
  | some op => exact (hc.operation hi hop).2

theorem sourceAfter (h : Alike M I O m m') (hc : Obliges M I O m m') {i : Instruction}
    (hi : m.obeyed? = some i) : I (m.sourceAfter i) (m'.sourceAfter i) := by
  cases i with
  | input c => exact (hc.input hi).2
  | _ => exact h.source

theorem sinkAfter (h : Alike M I O m m') (hc : Obliges M I O m m') {i : Instruction}
    (hi : m.obeyed? = some i) : O (m.sinkAfter i) (m'.sinkAfter i) := by
  cases i with
  | halt => exact (hc.flush hi).2
  | output c =>
    rw [sinkAfter_output, sinkAfter_output, h.registers]
    split
    · exact h.sink
    · exact (hc.emit hi).2
  | _ => exact h.sink

theorem step_of_fetch (h : Alike M I O m m') (hfetch : m.status = .running → m'.fetch = m.fetch)
    (hc : Obliges M I O m m') :
    m'.step.1 = m.step.1 ∧ Alike M I O m.step.2 m'.step.2 := by
  obtain ⟨hresult, hnext⟩ := h.toInStep.step hfetch fun i => h.reply hc
  have hobeyed := h.obeyed? hfetch
  have hparts : M m.step.2.memory m'.step.2.memory ∧ I m.step.2.source m'.step.2.source ∧
      O m.step.2.sink m'.step.2.sink := by
    cases hi : m.obeyed? with
    | none =>
      obtain ⟨hmemory, hsource, hsink⟩ := parts_step_of_idle hi
      obtain ⟨hmemory', hsource', hsink'⟩ := parts_step_of_idle (hobeyed.trans hi)
      rw [hmemory, hsource, hsink, hmemory', hsource', hsink']
      exact ⟨h.memory, h.source, h.sink⟩
    | some i =>
      obtain ⟨hmemory, hsource, hsink⟩ := parts_step_of_obeyed hi
      obtain ⟨hmemory', hsource', hsink'⟩ := parts_step_of_obeyed (hobeyed.trans hi)
      rw [hmemory, hsource, hsink, hmemory', hsource', hsink']
      exact ⟨h.memoryAfter hc hi, h.sourceAfter hc hi, h.sinkAfter hc hi⟩
  exact ⟨hresult, hnext, hparts.1, hparts.2.1, hparts.2.2⟩

theorem step (h : Alike M I O m m') (hc : Agreement M I O m m') :
    m'.step.1 = m.step.1 ∧ Alike M I O m.step.2 m'.step.2 :=
  h.step_of_fetch (fun hstatus => h.fetch (hc.read hstatus)) hc.toObliges

end Alike

/-- Machines that are related give the same result and stay related, until the first of them comes to
a step that `escape` excludes. -/
structure Simulation (escape : Machine σ → Prop) (related : Machine σ → Machine τ → Prop) :
    Prop where
  steps : ∀ {m m'}, related m m' → m'.steps = m.steps
  step : ∀ {m m'}, related m m' → ¬escape m →
    m'.step.1 = m.step.1 ∧ related m.step.2 m'.step.2

namespace Simulation

variable {escape : Machine σ → Prop} {related : Machine σ → Machine τ → Prop}

theorem after (h : Simulation escape related) (hm : related m m') (n : Nat)
    (hstay : ∀ j < n, ¬escape (m.after j)) :
    m'.results n = m.results n ∧ related (m.after n) (m'.after n) := by
  induction n generalizing m m' with
  | zero => exact ⟨rfl, hm⟩
  | succ n ih =>
    obtain ⟨hresult, hnext⟩ := h.step hm (hstay 0 (Nat.succ_pos n))
    obtain ⟨hresults, hlast⟩ := ih hnext fun j hj => hstay (j + 1) (Nat.succ_lt_succ hj)
    exact ⟨by rw [results, results, hresult, hresults], hlast⟩

theorem run (h : Simulation escape related) (hm : related m m') (fuel : Nat)
    (hstay : ∀ j < fuel, ¬escape (m.after j)) :
    m'.run fuel = (m.run fuel).map fun r => (r.1, m'.after fuel) :=
  run_congr (h.steps hm) (h.after hm fuel hstay).1

end Simulation

end UniversalMachine.Machine
