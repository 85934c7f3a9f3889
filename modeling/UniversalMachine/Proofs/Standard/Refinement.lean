import Mathlib.Logic.Function.Iterate
import UniversalMachine.Proofs.Instruction.Codec
import UniversalMachine.Proofs.Machine.Reached
import UniversalMachine.Proofs.Standard.Machine
import UniversalMachine.Proofs.Stream.Steady

universe u

namespace UniversalMachine.Machine

open Standard

variable {σ : Type u} [Sink σ]

def state (R : Sink.Reliable σ) (m : Machine σ) : State where
  registers r := m.registers.get r
  store := m.memory.store
  finger := m.finger
  input := m.source.upcoming
  output := R.accepted m.sink

def configuration (R : Sink.Reliable σ) (m : Machine σ) : Configuration :=
  match m.status with
  | .running => .running (m.state R)
  | .halted => .halted (m.state R)
  | .failed fault => (m.state R).fail fault.cause

structure Ready (R : Sink.Reliable σ) (m : Machine σ) : Prop where
  memory : m.memory.Consistent
  source : m.source.Steady
  sink : R.Steady m.sink

omit [Sink σ] in
theorem onMemory_cases {α : Type} (m : Machine σ) (f : Memory → Except MemoryError α × Memory)
    (hf : ∀ e, (f m.memory).1 = .error e → (f m.memory).2 = m.memory) :
    (∃ e, m.onMemory f = (.error (.memory e), m) ∧ Memory.outcome (f m.memory) = .error e) ∨
      ∃ a memory, m.onMemory f = (.ok a, { m with memory }) ∧
        Memory.outcome (f m.memory) = .ok (a, memory.store) := by
  rw [onMemory_eq]
  cases hresult : f m.memory with
  | mk result memory =>
    rw [hresult] at hf
    cases result with
    | error e =>
      cases hf e rfl
      exact .inl ⟨e, rfl, rfl⟩
    | ok a => exact .inr ⟨a, memory, rfl, rfl⟩

section Effects

variable (R : Sink.Reliable σ) (m : Machine σ)

theorem configuration_next (hstatus : m.status = .running) (finger : Word) :
    (conclude (.ok (.next finger), m)).2.configuration R =
      .running { m.state R with finger } := by
  simp only [conclude, configuration, hstatus]
  rfl

theorem configuration_proceed (hstatus : m.status = .running) :
    (conclude m.proceed).2.configuration R = (m.state R).proceed := by
  rw [proceed, configuration_next R m hstatus, State.proceed, sum_eq]
  rfl

theorem state_assign (r : Register) (w : Word) :
    state R { m with registers := m.registers.put r w } =
      { m.state R with registers := Function.update (m.state R).registers r w } := by
  rw [state, State.mk.injEq]
  refine ⟨?_, rfl, rfl, rfl, rfl⟩
  funext r'
  rw [Function.update_apply]
  exact Registers.get_put m.registers r w r'

theorem configuration_assign (hstatus : m.status = .running) (r : Register) (w : Word) :
    (conclude (m.assign r w)).2.configuration R = (m.state R).assign r w := by
  rw [State.assign, ← state_assign]
  exact configuration_proceed R _ hstatus

variable [Host]

theorem configuration_arrayAmendment (hstatus : m.status = .running) (a b c : Register) :
    (conclude (m.execute (.arrayAmendment a b c))).2.configuration R =
      match m.memory.store.write (m.registers.get a) (m.registers.get b) (m.registers.get c) with
      | .ok ((), store) => State.proceed { m.state R with store }
      | .error e => (m.state R).fail (.memory e) := by
  rw [Memory.write_store]
  rcases m.onMemory_cases (·.write (m.registers.get a) (m.registers.get b) (m.registers.get c))
    fun _ => Memory.write_of_error with ⟨e, hm, houtcome⟩ | ⟨_, memory, hm, houtcome⟩
  · simp only [execute, hm, houtcome]
    rfl
  · simp only [execute, hm, houtcome]
    exact configuration_proceed R { m with memory } hstatus

theorem configuration_abandonment (hstatus : m.status = .running) (c : Register) :
    (conclude (m.execute (.abandonment c))).2.configuration R =
      match m.memory.store.free (m.registers.get c) with
      | .ok ((), store) => State.proceed { m.state R with store }
      | .error e => (m.state R).fail (.memory e) := by
  rw [Memory.free_store]
  rcases m.onMemory_cases (·.free (m.registers.get c))
    fun _ => Memory.free_of_error with ⟨e, hm, houtcome⟩ | ⟨_, memory, hm, houtcome⟩
  · simp only [execute, hm, houtcome]
    rfl
  · simp only [execute, hm, houtcome]
    exact configuration_proceed R { m with memory } hstatus

theorem configuration_allocation (hm : m.memory.Consistent)
    (hbacked : Memory.BackedUpTo m.memory.limit) (hstatus : m.status = .running)
    (b c : Register) (hsize : (m.memory.allocate (m.registers.get c)).2.slots.size ≤ 2 ^ 32) :
    (conclude (m.execute (.allocation b c))).2.configuration R =
      match m.memory.store.allocate m.memory.limit (m.registers.get c) with
      | .ok (h, store) => State.assign { m.state R with store } b h
      | .error e => (m.state R).fail (.memory e) := by
  rw [Memory.allocate_store hm hbacked _ hsize]
  rcases m.onMemory_cases (·.allocate (m.registers.get c))
    fun _ => Memory.allocate_of_error with ⟨e, hm, houtcome⟩ | ⟨h, memory, hm, houtcome⟩
  · simp only [execute, hm, houtcome]
    rfl
  · simp only [execute, hm, houtcome]
    exact configuration_assign R { m with memory } hstatus b h

theorem configuration_loadProgram (hm : m.memory.Consistent) (hstatus : m.status = .running)
    (b c : Register) :
    (conclude (m.execute (.loadProgram b c))).2.configuration R =
      match m.memory.store.load (m.registers.get b) with
      | .ok ((), store) => .running { m.state R with store, finger := m.registers.get c }
      | .error e => (m.state R).fail (.memory e) := by
  rw [Memory.load_store hm]
  rcases m.onMemory_cases (·.replaceProgram (m.registers.get b))
    fun _ => Memory.replaceProgram_of_error with ⟨e, hm, houtcome⟩ | ⟨_, memory, hm, houtcome⟩
  · simp only [execute, loadProgram, hm, houtcome]
    rfl
  · simp only [execute, loadProgram, hm, houtcome]
    exact configuration_next R { m with memory } hstatus (m.registers.get c)

theorem configuration_arrayIndex (hstatus : m.status = .running) (a b c : Register) :
    (conclude (m.execute (.arrayIndex a b c))).2.configuration R =
      match m.memory.store.read (m.registers.get b) (m.registers.get c) with
      | .ok v => (m.state R).assign a v
      | .error e => (m.state R).fail (.memory e) := by
  rw [Memory.read_store, execute]
  cases m.memory.read (m.registers.get b) (m.registers.get c) with
  | error e => rfl
  | ok v => exact configuration_assign R m hstatus a v

theorem configuration_conditionalMove (hstatus : m.status = .running) (a b c : Register) :
    (conclude (m.execute (.conditionalMove a b c))).2.configuration R =
      if m.registers.get c ≠ 0 then (m.state R).assign a (m.registers.get b)
      else (m.state R).proceed := by
  rw [ite_not, execute]
  split
  · exact configuration_proceed R m hstatus
  · exact configuration_assign R m hstatus a (m.registers.get b)

theorem configuration_division (hstatus : m.status = .running) (a b c : Register) :
    (conclude (m.execute (.division a b c))).2.configuration R =
      if m.registers.get c ≠ 0 then
        (m.state R).assign a (quotient (m.registers.get b) (m.registers.get c))
      else (m.state R).fail .divisionByZero := by
  rw [ite_not, execute, quotient_eq]
  split
  · rfl
  · exact configuration_assign R m hstatus a _

theorem configuration_halt (hsink : R.Steady m.sink) :
    (conclude (m.execute .halt)).2.configuration R = .halted (m.state R) := by
  obtain ⟨sink, hflush, hkept, -⟩ := R.flush hsink
  simp only [execute, onSink_of_ok m hflush, conclude, configuration, state, hkept]

theorem configuration_output (hstatus : m.status = .running) (hsink : R.Steady m.sink)
    (c : Register) :
    (conclude (m.execute (.output c))).2.configuration R =
      if (m.registers.get c).toNat ≤ 255 then
        State.proceed { m.state R with
          output := (m.state R).output ++ [.ofNat (m.registers.get c).toNat] }
      else (m.state R).fail (.outputOutOfRange (m.registers.get c)) := by
  simp only [execute, writeOutput]
  by_cases hle : (m.registers.get c).toNat ≤ 255
  · obtain ⟨s, hwrite, haccepted, hs⟩ := R.writeAll hsink [(m.registers.get c).toUInt8]
    obtain ⟨sink, hflush, hkept, -⟩ := R.flush hs
    have hgt : ¬255 < m.registers.get c := Nat.not_lt.mpr hle
    have hstate : state R { m with sink } =
        { m.state R with output := (m.state R).output ++ [.ofNat (m.registers.get c).toNat] } := by
      simp only [state, hkept, haccepted]
      rfl
    rw [if_pos hle, if_neg hgt, ← hstate]
    have hfirst := onSink_of_ok m (f := (Sink.writeAll · [(m.registers.get c).toUInt8])) hwrite
    simp only [hfirst, onSink_of_ok { m with sink := s } hflush]
    exact configuration_proceed R { m with sink } hstatus
  · have hgt : 255 < m.registers.get c := Nat.lt_of_not_le hle
    rw [if_neg hle, if_pos hgt]
    rfl

theorem configuration_input (hstatus : m.status = .running) (hsource : m.source.Steady)
    (c : Register) :
    (conclude (m.execute (.input c))).2.configuration R =
      match m.source.upcoming with
      | byte :: input => State.assign { m.state R with input } c (.ofNat byte.toNat)
      | [] => (m.state R).fail .endOfInput := by
  have hread := hsource.readByte_eq
  simp only [execute, readInput]
  cases hr : m.source.readByte with
  | mk read source =>
    rw [hr] at hread
    cases hinput : m.source.upcoming with
    | nil =>
      rw [hinput] at hread
      cases hread
      rfl
    | cons byte input =>
      rw [hinput] at hread
      obtain ⟨hbyte, hupcoming⟩ := hread
      cases hbyte
      cases hupcoming
      simp only [UInt32.ofNat_uInt8ToNat]
      exact configuration_assign R { m with source } hstatus c byte.toUInt32

end Effects

section Streams

variable {R : Sink.Reliable σ} {m : Machine σ}

omit [Sink σ] in
theorem steady_sourceAfter (h : m.source.Steady) (i : Instruction) : (m.sourceAfter i).Steady := by
  cases i with
  | input c => exact h.readByte
  | _ => exact h

theorem steady_sinkAfter (h : R.Steady m.sink) (i : Instruction) : R.Steady (m.sinkAfter i) := by
  cases i with
  | halt =>
    obtain ⟨sink, hflush, -, hs⟩ := R.flush h
    simp only [sinkAfter, hflush]
    exact hs
  | output c =>
    rw [sinkAfter]
    split
    · exact h
    · obtain ⟨s, hwrite, -, hs⟩ := R.writeAll h [(m.registers.get c).toUInt8]
      obtain ⟨sink, hflush, -, hs'⟩ := R.flush hs
      simp only [hwrite, hflush]
      exact hs'
  | _ => exact h

end Streams

namespace Ready

variable {R : Sink.Reliable σ} {m : Machine σ}

theorem load (image : Image) {source : Source} {sink : σ} (hsource : source.Steady)
    (hsink : R.Steady sink) : (load image source sink).Ready R :=
  ⟨.ofProgram image.words, hsource, hsink⟩

theorem setLimit (hm : m.Ready R) (limit : Nat) : (m.setLimit limit).Ready R :=
  ⟨hm.memory.setLimit limit, hm.source, hm.sink⟩

variable [Host]

theorem configuration_execute (hm : m.Ready R) (hbacked : Memory.BackedUpTo m.memory.limit)
    (hstatus : m.status = .running) {w : Word} {op : Opcode} (hop : number w = op.code)
    (hsize : (m.execute (.ofOpcode w op)).2.memory.slots.size ≤ 2 ^ 32) :
    (conclude (m.execute (.ofOpcode w op))).2.configuration R =
      (m.state R).obey m.memory.limit w := by
  cases op <;>
    simp only [State.obey, hop, field_a, field_b, field_c, field_target, Opcode.code,
      Instruction.ofOpcode]
  case conditionalMove => exact configuration_conditionalMove R m hstatus _ _ _
  case arrayIndex => exact configuration_arrayIndex R m hstatus _ _ _
  case arrayAmendment => exact configuration_arrayAmendment R m hstatus _ _ _
  case addition =>
    rw [sum_eq]
    exact configuration_assign R m hstatus _ _
  case multiplication =>
    rw [product_eq]
    exact configuration_assign R m hstatus _ _
  case division => exact configuration_division R m hstatus _ _ _
  case notAnd =>
    rw [nand_eq]
    exact configuration_assign R m hstatus _ _
  case halt => exact configuration_halt R m hm.sink
  case allocation =>
    rw [snd_execute] at hsize
    exact configuration_allocation R m hm.memory hbacked hstatus _ _ hsize
  case abandonment => exact configuration_abandonment R m hstatus _
  case output => exact configuration_output R m hstatus hm.sink _
  case input => exact configuration_input R m hstatus hm.source _
  case loadProgram => exact configuration_loadProgram R m hm.memory hstatus _ _
  case orthography =>
    rw [immediate_eq]
    exact configuration_assign R m hstatus _ _

theorem configuration_step_of_running (hm : m.Ready R)
    (hbacked : Memory.BackedUpTo m.memory.limit) (hstatus : m.status = .running)
    (hsize : m.step.2.memory.slots.size ≤ 2 ^ 32) :
    m.step.2.configuration R = (m.state R).step m.memory.limit := by
  have hread : (m.state R).store.read 0 (m.state R).finger = m.memory.read 0 m.finger :=
    Memory.read_store m.memory 0 m.finger
  rw [State.step, hread]
  -- Both machines fetch the same word; the cases are those in which they cannot go on with it.
  cases hw : m.memory.read 0 m.finger with
  | error e =>
    have hfetch : m.fetch = .error (.memory e) := by rw [fetch, hw]
    rw [step_of_fetch_error hstatus hfetch]
    rfl
  | ok w =>
    cases hdecode : Instruction.decode w with
    | error e =>
      obtain ⟨hcode, rfl⟩ := Instruction.decode_eq_error_iff.mp hdecode
      have hfetch : m.fetch = .error (.unknownOpcode ⟨w⟩) := by simp only [fetch, hw, hdecode]
      rw [step_of_fetch_error hstatus hfetch]
      exact (State.obey_unknown m.memory.limit (m.state R) hcode).symm
    | ok i =>
      obtain ⟨op, hcode, rfl⟩ := Instruction.decode_eq_ok_iff.mp hdecode
      have hfetch : m.fetch = .ok (.ofOpcode w op) := by simp only [fetch, hw, hdecode]
      rw [step_of_fetch hstatus hfetch] at hsize ⊢
      rw [memory_conclude] at hsize
      exact hm.configuration_execute hbacked hstatus hcode hsize

theorem configuration_step (hm : m.Ready R) (hbacked : Memory.BackedUpTo m.memory.limit)
    (hsize : m.step.2.memory.slots.size ≤ 2 ^ 32) :
    m.step.2.configuration R = (m.configuration R).step m.memory.limit := by
  cases hstatus : m.status with
  | running =>
    rw [hm.configuration_step_of_running hbacked hstatus hsize, configuration, hstatus]
    rfl
  | halted | failed =>
    rw [step_of_stopped (by simp [hstatus])]
    simp only [configuration, hstatus]
    rfl

theorem step (hm : m.Ready R) : m.step.2.Ready R := by
  constructor
  · rw [memory_step]
    exact hm.memory.performAll m.operations
  · cases hi : m.obeyed? with
    | none => exact (parts_step_of_idle hi).2.1 ▸ hm.source
    | some i => exact (parts_step_of_obeyed hi).2.1 ▸ steady_sourceAfter hm.source i
  · cases hi : m.obeyed? with
    | none => exact (parts_step_of_idle hi).2.2 ▸ hm.sink
    | some i => exact (parts_step_of_obeyed hi).2.2 ▸ steady_sinkAfter hm.sink i

theorem configuration_after (hm : m.Ready R) (hbacked : Memory.BackedUpTo m.memory.limit)
    (n : Nat) (hsize : (m.after n).memory.slots.size ≤ 2 ^ 32) :
    (m.after n).configuration R =
      (Configuration.step m.memory.limit)^[n] (m.configuration R) := by
  induction n generalizing m with
  | zero => rfl
  | succ n ih =>
    have hstep : m.step.2.memory.slots.size ≤ 2 ^ 32 :=
      Nat.le_trans (size_le_after n m.step.2) hsize
    rw [Function.iterate_succ_apply, ← hm.configuration_step hbacked hstep, ← limit_step]
    exact ih hm.step (m.limit_step.symm ▸ hbacked) hsize

end Ready

theorem Reached.ready [Host] {R : Sink.Reliable σ} {m : Machine σ} {image : Image} {source : Source}
    {sink : σ} {ops : List Memory.Op} (h : Reached image source sink ops m)
    (hsource : source.Steady) (hsink : R.Steady sink) : m.Ready R := by
  induction h with
  | load => exact .load image hsource hsink
  | setLimit limit _ ih => exact ih.setLimit limit
  | step _ ih => exact ih.step

theorem configuration_load (R : Sink.Reliable σ) (image : Image) (source : Source) (sink : σ) :
    (load image source sink).configuration R =
      .running (.start image.words source.upcoming (R.accepted sink)) := by
  change Configuration.running ((load image source sink).state R) = _
  rw [State.start, state, Configuration.running.injEq, State.mk.injEq]
  exact ⟨funext Registers.get_zero, Memory.store_ofProgram image.words, rfl, rfl, rfl⟩

/-- Whole runs: the machine that `n` steps make of a program stands for what `n` steps of the standard
machine make of it. -/
theorem configuration_after_load [Host] (R : Sink.Reliable σ) (image : Image) {source : Source}
    {sink : σ} (hsource : source.Steady) (hsink : R.Steady sink)
    (hbacked : Memory.BackedUpTo Memory.noLimit) (n : Nat)
    (hminted : ((load image source sink).after n).memory.minted < 2 ^ 32) :
    ((load image source sink).after n).configuration R =
      (Configuration.step Memory.noLimit)^[n]
        (.running (.start image.words source.upcoming (R.accepted sink))) := by
  rw [← configuration_load]
  exact (Ready.load image hsource hsink).configuration_after hbacked n
    (Memory.size_le_of_minted hminted)

/-- A step of any machine that steps lead to is the step of the standard machine that it stands for,
if the streams do not fail, the host backs what the limit allows and there are words enough for the
handles that were minted. -/
theorem step_refines [Host] (R : Sink.Reliable σ) {image : Image} {source : Source} {sink : σ}
    {ops : List Memory.Op} {m : Machine σ} (hsource : source.Steady) (hsink : R.Steady sink)
    (hm : Reached image source sink ops m) (hbacked : Memory.BackedUpTo m.memory.limit)
    (hminted : m.step.2.memory.minted < 2 ^ 32) :
    m.step.2.configuration R = (m.configuration R).step m.memory.limit :=
  (hm.ready hsource hsink).configuration_step hbacked (Memory.size_le_of_minted hminted)

open Host

theorem step_refines_of_doubling :
    let start := load ⟨[0xb0000000, 0x30000000]⟩ (.ofBytes [3]) ScriptedSink.plain
    let m := (start.setLimit 256).step.2
    m.step.2.registers.get 0 = 6 ∧
      m.step.2.configuration ScriptedSink.reliable =
        (m.configuration ScriptedSink.reliable).step 256 := by
  intro start m
  have hm : Reached _ _ _ _ m := .step (.setLimit 256 .load)
  have hlimit : m.memory.limit = 256 := limit_step (start.setLimit 256)
  have hbacked : Memory.BackedUpTo m.memory.limit := by
    rw [hlimit]
    exact Memory.backedUpTo_modest (by decide)
  have hstep := step_refines ScriptedSink.reliable (Source.steady_ofBytes [3])
    ScriptedSink.steady_plain hm hbacked (by decide)
  rw [hlimit] at hstep
  exact ⟨by decide, hstep⟩

end UniversalMachine.Machine
