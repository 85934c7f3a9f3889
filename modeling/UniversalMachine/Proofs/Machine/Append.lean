import UniversalMachine.Proofs.Machine.Lockstep
import UniversalMachine.Proofs.Memory.Append
import UniversalMachine.Stream.Script

universe u

namespace UniversalMachine

theorem Memory.Consistent.perform_append [Host] {m : Memory} {q : Segment} {op : Op} (hm : Consistent m)
    {i : Instruction} {registers : Registers} (hop : i.operation? registers = some op)
    (hin : ∀ offset size, (m.perform op).1 ≠ .error (.outOfBounds 0 offset size))
    (hkept : ¬m.Replaces op) :
    (m.append q).perform op = ((m.perform op).1, (m.perform op).2.append q) := by
  by_cases hspares : m.Spares op
  · exact hm.perform_append_of_spares hspares
  have hresult {α : Type} {f : α → Answer} {r : Except MemoryError α}
      (h : (m.perform op).1 = r.map f) {offset size} : r ≠ .error (.outOfBounds 0 offset size) := by
    rintro rfl
    exact hin _ _ h
  cases i with
  | arrayIndex a b c =>
    cases hop
    have h0 : registers.get b = 0 := by_contra hspares
    rw [h0] at hresult ⊢
    simp only [Memory.perform, hm.read_append_zero fun _ => hresult rfl]
  | arrayAmendment a b c =>
    cases hop
    have h0 : registers.get a = 0 := by_contra hspares
    rw [h0] at hresult ⊢
    simp only [Memory.perform, hm.write_append_zero fun _ => hresult rfl]
  | loadProgram b c =>
    cases hop
    simp only [Spares, not_or, Option.ne_none_iff_exists'] at hspares
    exact absurd hspares hkept
  | allocation b c | abandonment c =>
    cases hop
    exact absurd trivial hspares
  | _ => cases hop

namespace Machine

variable {σ : Type u}

def extend (q : List Word) (m : Machine σ) : Machine σ :=
  { m with memory := m.memory.append q.toArray }

theorem load_append (p q : List Word) (source : Source) (sink : σ) (limit : Nat) :
    (load ⟨p ++ q⟩ source sink).setLimit limit =
      ((load ⟨p⟩ source sink).setLimit limit).extend q := by
  simp only [load, setLimit, extend, Memory.ofProgram_append, Memory.append_setLimit]

def operation? (m : Machine σ) : Option Memory.Op := m.obeyed?.bind (·.operation? m.registers)

variable [Sink σ] {m : Machine σ}

section

variable [Host]

def Overruns (m : Machine σ) : Prop :=
  ∃ fault, m.step.1 = .error fault ∧
    ∃ offset size, fault.cause = .memory (.outOfBounds 0 offset size)

def ReplacesProgram (m : Machine σ) : Prop :=
  ∃ b c finger, m.fetch = .ok (.loadProgram b c) ∧ m.registers.get b ≠ 0 ∧
    m.step.1 = .ok (.next finger)

def Replaced (n : Nat) (m : Machine σ) : Prop := ∃ j < n, (m.after j).ReplacesProgram

theorem replaced_succ {n : Nat} :
    Replaced (n + 1) m ↔ m.ReplacesProgram ∨ Replaced n m.step.2 :=
  Nat.exists_lt_succ_left

section Step

theorem memory_step_eq (m : Machine σ) :
    m.step.2.memory = (m.memory.performAll m.operation?.toList).2 := by
  cases hi : m.obeyed? with
  | none =>
    rw [operation?, hi, (parts_step_of_idle hi).1]
    rfl
  | some i =>
    rw [operation?, hi, (parts_step_of_obeyed hi).1]
    rfl

theorem reply_loadProgram {b : Register} (c : Register) (h0 : m.registers.get b ≠ 0) :
    m.reply (.loadProgram b c) =
      match m.memory.segment? (m.registers.get b) with
      | none => .error (.memory (.unallocated (m.registers.get b)))
      | some _ => .ok 0 := by
  rw [reply_of_operation (i := .loadProgram b c) rfl]
  simp only [Memory.perform, Memory.replaceProgram_eq, if_neg h0]
  cases m.memory.segment? (m.registers.get b) <;> rfl

theorem replacesProgram_iff :
    m.ReplacesProgram ↔ ∃ op, m.operation? = some op ∧ m.memory.Replaces op := by
  constructor
  · rintro ⟨b, c, finger, hfetch, h0, hstep⟩
    have hstatus : m.status = .running := by
      by_contra hstatus
      rw [step_of_stopped hstatus] at hstep
      cases hstep
    have hi := obeyed?_eq_some_iff.mpr ⟨hstatus, hfetch⟩
    refine ⟨.replaceProgram (m.registers.get b), by rw [operation?, hi]; rfl, h0, ?_⟩
    cases hs : m.memory.segment? (m.registers.get b) with
    | none =>
      have hreply := reply_loadProgram c h0
      rw [hs] at hreply
      rw [step_of_reply_error hi hreply] at hstep
      cases hstep
    | some s => exact ⟨s, rfl⟩
  · rintro ⟨op, hop, hreplaces⟩
    obtain ⟨i, hi, hop⟩ := Option.bind_eq_some_iff.mp hop
    cases i with
    | loadProgram b c =>
      cases hop
      obtain ⟨h0, s, hs⟩ := hreplaces
      have hreply := reply_loadProgram c h0
      rw [hs] at hreply
      exact ⟨b, c, _, (obeyed?_eq_some_iff.mp hi).2, h0, step_of_reply_ok hi hreply rfl⟩
    | arrayIndex | arrayAmendment | allocation | abandonment => cases hop; exact hreplaces.elim
    | _ => cases hop

theorem ReplacesProgram.not_overruns (h : m.ReplacesProgram) : ¬m.Overruns := by
  rintro ⟨fault, hfault, -⟩
  obtain ⟨b, c, finger, -, -, hstep⟩ := h
  cases hfault.symm.trans hstep

theorem inside_of_not_overruns (hin : ¬m.Overruns) {i : Instruction} {op : Memory.Op}
    (hi : m.obeyed? = some i) (hop : i.operation? m.registers = some op) (offset : Word)
    (size : Nat) : (m.memory.perform op).1 ≠ .error (.outOfBounds 0 offset size) := by
  intro herror
  have hreply := reply_of_operation hop
  rw [herror] at hreply
  exact hin ⟨_, step_of_reply_error hi hreply, offset, size, rfl⟩

variable (hm : m.memory.Consistent)
include hm

theorem agreement_extend (q : List Word) (hin : ¬m.Overruns) :
    Agreement (fun _ _ => True) (fun s s' => s' = s) (fun s s' => s' = s) m (m.extend q) where
  read hstatus := by
    refine hm.read_append_zero fun size hread => hin ⟨m.fault _, ?_, m.finger, size, rfl⟩
    have hfetch : m.fetch = .error (.memory (.outOfBounds 0 m.finger size)) := by rw [fetch, hread]
    rw [step_of_fetch_error hstatus hfetch]
    rfl
  operation {i op} hi hop := by
    refine ⟨?_, trivial⟩
    rw [extend]
    by_cases hreplaces : m.memory.Replaces op
    · rw [hm.perform_append_of_replaces hreplaces]
    · rw [hm.perform_append hop (inside_of_not_overruns hin hi hop) hreplaces]
  input _ := ⟨rfl, rfl⟩
  flush _ := ⟨rfl, rfl⟩
  emit _ := ⟨rfl, rfl⟩

theorem alike_step_extend (q : List Word) (hin : ¬m.Overruns) :
    (m.extend q).operation? = m.operation? ∧ (m.extend q).step.1 = m.step.1 ∧
      Alike (fun _ _ => True) (fun s s' => s' = s) (fun s s' => s' = s) m.step.2
        (m.extend q).step.2 := by
  have hc := agreement_extend hm q hin
  have hparts : InStep m (m.extend q) := ⟨rfl, rfl, rfl, rfl⟩
  have hobeyed := hparts.obeyed? fun hstatus => hparts.fetch (hc.read hstatus)
  refine ⟨?_, Alike.step ⟨hparts, trivial, rfl, rfl⟩ hc⟩
  rw [operation?, operation?, hobeyed]
  rfl

theorem step_extend_of_replaces (q : List Word) (hreplaces : m.ReplacesProgram) :
    (m.extend q).step = m.step := by
  obtain ⟨hop', hresult, h⟩ := alike_step_extend hm q hreplaces.not_overruns
  obtain ⟨op, hop, hreplaces⟩ := replacesProgram_iff.mp hreplaces
  have hmemory : (m.extend q).step.2.memory = m.step.2.memory := by
    rw [memory_step_eq, memory_step_eq, hop', hop, extend]
    simp only [Option.toList_some, Memory.performAll, hm.perform_append_of_replaces hreplaces]
  exact Prod.ext hresult (InStep.eq_of_parts h.toInStep hmemory h.source h.sink)

theorem step_extend (q : List Word) (hin : ¬m.Overruns) (hkept : ¬m.ReplacesProgram) :
    (m.extend q).step = (m.step.1, m.step.2.extend q) := by
  obtain ⟨hop', hresult, h⟩ := alike_step_extend hm q hin
  have hmemory : (m.extend q).step.2.memory = m.step.2.memory.append q.toArray := by
    rw [memory_step_eq, memory_step_eq, hop']
    cases hop : m.operation? with
    | none => rfl
    | some op =>
      obtain ⟨i, hi, hiop⟩ := Option.bind_eq_some_iff.mp hop
      have hinside := inside_of_not_overruns hin hi hiop
      have hop_kept : ¬m.memory.Replaces op := fun h => hkept (replacesProgram_iff.mpr ⟨op, hop, h⟩)
      simp only [extend, Option.toList_some, Memory.performAll,
        hm.perform_append hiop hinside hop_kept]
  exact Prod.ext hresult (InStep.eq_of_parts ⟨h.registers, h.finger, h.status, h.steps⟩ hmemory
    h.source h.sink)

theorem size_program_step (hkept : ¬m.ReplacesProgram) :
    (m.step.2.memory.segment? 0).map Array.size = (m.memory.segment? 0).map Array.size := by
  rw [memory_step_eq]
  cases hop : m.operation? with
  | none => rfl
  | some op =>
    exact hm.size_program_perform fun h => hkept (replacesProgram_iff.mpr ⟨op, hop, h⟩)

end Step

section Run

variable (hm : m.memory.Consistent)
include hm

theorem size_program_after {n : Nat} (hkept : ¬m.Replaced n) :
    ((m.after n).memory.segment? 0).map Array.size = (m.memory.segment? 0).map Array.size := by
  induction n generalizing m with
  | zero => rfl
  | succ n ih =>
    rw [replaced_succ, not_or] at hkept
    exact (ih (consistent_step hm) hkept.2).trans (size_program_step hm hkept.1)

theorem after_extend (q : List Word) (n : Nat) (hin : ∀ j < n, ¬(m.after j).Overruns) :
    (m.extend q).results n = m.results n ∧
      (m.Replaced n → (m.extend q).after n = m.after n) ∧
      (¬m.Replaced n → (m.extend q).after n = (m.after n).extend q) := by
  induction n generalizing m with
  | zero => exact ⟨rfl, fun ⟨j, hj, _⟩ => absurd hj (Nat.not_lt_zero j), fun _ => rfl⟩
  | succ n ih =>
    rw [results, results, after, after, replaced_succ]
    by_cases hreplaces : m.ReplacesProgram
    · rw [step_extend_of_replaces hm q hreplaces]
      exact ⟨rfl, fun _ => rfl, fun h => absurd (.inl hreplaces) h⟩
    · rw [step_extend hm q (hin 0 n.succ_pos) hreplaces, or_iff_right hreplaces]
      obtain ⟨hresults, hafter⟩ :=
        ih (consistent_step hm) fun j hj => hin (j + 1) (Nat.succ_lt_succ hj)
      exact ⟨by rw [hresults], hafter⟩

theorem program_after_extend (q : List Word) {n : Nat} (hin : ∀ j < n, ¬(m.after j).Overruns)
    (hkept : ¬m.Replaced n) :
    ∃ s, (m.after n).memory.segment? 0 = some s ∧
      some s.size = (m.memory.segment? 0).map Array.size ∧
      (m.extend q).after n = { m.after n with
        memory := (m.after n).memory.put 0 (some (s ++ q.toArray)) } := by
  obtain ⟨s, hs⟩ := (consistent_after hm n).program
  have hsize := size_program_after hm hkept
  rw [hs] at hsize
  refine ⟨s, hs, hsize, ?_⟩
  rw [(after_extend hm q n hin).2.2 hkept, extend, Memory.append, hs]
  rfl

theorem step_after_extend (q : List Word) (n : Nat) (hin : ∀ j < n, ¬(m.after j).Overruns)
    (hnext : ¬(m.after n).Overruns) :
    ((m.extend q).after n).step.1 = (m.after n).step.1 := by
  obtain ⟨-, hreplaced, hkept⟩ := after_extend hm q n hin
  by_cases h : m.Replaced n
  · rw [hreplaced h]
  · rw [hkept h]
    exact (alike_step_extend (consistent_after hm n) q hnext).2.1

theorem run_extend (q : List Word) (fuel : Nat) (hin : ∀ j < fuel, ¬(m.after j).Overruns) :
    (m.extend q).run fuel = (m.run fuel).map fun r => (r.1, (m.extend q).after fuel) :=
  run_congr rfl (after_extend hm q fuel hin).1

theorem streams_after_extend (q : List Word) (n : Nat) (hin : ∀ j < n, ¬(m.after j).Overruns) :
    ((m.extend q).after n).source = (m.after n).source ∧
      ((m.extend q).after n).sink = (m.after n).sink := by
  obtain ⟨-, hreplaced, hkept⟩ := after_extend hm q n hin
  by_cases h : m.Replaced n
  · rw [hreplaced h]
    exact ⟨rfl, rfl⟩
  · rw [hkept h]
    exact ⟨rfl, rfl⟩

end Run

/-- As long as a program does not reach past its end, it runs in the same way with the words `q`
after it. The machines differ in those words alone, and not at all once the program is replaced. A
program that runs off its end comes to the first word of `q`. -/
theorem append_undisturbed (p q : List Word) (source : Source) (sink : σ) (limit : Nat) :
    let m := (load ⟨p⟩ source sink).setLimit limit
    let m' := (load ⟨p ++ q⟩ source sink).setLimit limit
    (∀ n, (∀ r ∈ m.results n, ∃ finger, r = .ok (.next finger)) →
      m'.results n = m.results n ∧
      (m.Replaced n → m'.after n = m.after n) ∧
      (¬m.Replaced n → ∃ s, (m.after n).memory.segment? 0 = some s ∧
        m'.after n = { m.after n with
          memory := (m.after n).memory.put 0 (some (s ++ q.toArray)) } ∧
        ∀ w ∈ q.head?, (m.after n).finger.toNat = p.length →
          (m'.after n).memory.read 0 (m'.after n).finger = .ok w) ∧
      (¬(m.after n).Overruns → (m'.after n).step.1 = (m.after n).step.1)) ∧
    ∀ fuel r m₁, m.run fuel = some (r, m₁) →
      (∀ fault offset size, r = .error fault → fault.cause ≠ .memory (.outOfBounds 0 offset size)) →
      ∃ m₂, m'.run fuel = some (r, m₂) ∧ m₂.source = m₁.source ∧ m₂.sink = m₁.sink := by
  intro m m'
  have hm : m.memory.Consistent := (Memory.Consistent.ofProgram p).setLimit limit
  have hm' : m' = m.extend q := load_append p q source sink limit
  rw [hm']
  constructor
  · intro n hgoes
    have hin : ∀ j < n, ¬(m.after j).Overruns := by
      rintro j hj ⟨fault, hfault, -⟩
      obtain ⟨finger, hnext⟩ := hgoes _ (mem_results_iff.mpr ⟨j, hj, hfault⟩)
      cases hnext
    obtain ⟨hresults, hreplaced, hkept⟩ := after_extend hm q n hin
    refine ⟨hresults, hreplaced, fun h => ?_, step_after_extend hm q n hin⟩
    obtain ⟨s, hs, hsize, hafter⟩ := program_after_extend hm q hin h
    refine ⟨s, hs, hafter, fun w hw hfinger => ?_⟩
    rw [hafter]
    exact Memory.read_added hs hw (hfinger.trans (Option.some.inj hsize).symm)
  · intro fuel r m₁ hrun hr
    have hin : ∀ j < fuel, ¬(m.after j).Overruns := not_fault_of_run hrun
      (P := fun cause => ∃ offset size, cause = .memory (.outOfBounds 0 offset size)) (by simp)
      fun fault hfault ⟨offset, size, h⟩ => hr fault offset size hfault h
    have hrun' := run_extend hm q fuel hin
    rw [hrun] at hrun'
    exact ⟨_, hrun', after_of_run hrun ▸ streams_after_extend hm q fuel hin⟩

end

open Host

theorem append_undisturbed_of_halt :
    let start (words : List Word) := (load ⟨words⟩ (.ofBytes []) ScriptedSink.plain).setLimit 1
    let short : List Word := [0xd0000003, 0xa0000000]
    let loader : List Word := [0xd2000001, 0x80000011, 0xc0000010]
    let halt : List Word := [0x70000000]
    (start short).results 2 = [.ok (.next 1), .ok (.next 2)] ∧ ¬(start short).Replaced 2 ∧
      ((start (short ++ halt)).after 2).memory.read 0 ((start (short ++ halt)).after 2).finger =
        .ok 0x70000000 ∧
      (start loader).results 3 = [.ok (.next 1), .ok (.next 2), .ok (.next 0)] ∧
      (start loader).Replaced 3 ∧ (start (loader ++ halt)).after 3 = (start loader).after 3 ∧
      (start halt).run 1 = some (.ok 1, (start halt).after 1) ∧
      (start (halt ++ short)).step.1 = .ok .halt ∧
      ∃ m, (start (halt ++ short)).run 1 = some (.ok 1, m) := by
  intro start short loader halt
  have hshort : (start short).results 2 = [.ok (.next 1), .ok (.next 2)] := by decide +kernel
  have hkept : ¬(start short).Replaced 2 := by
    have hfirst : (start short).fetch = .ok (.orthography 0 3) := by decide
    have hsecond : ((start short).after 1).fetch = .ok (.output 0) := by decide
    rintro ⟨_ | _ | j, hj, b, c, finger, hfetch, -⟩
    · cases hfirst.symm.trans hfetch
    · cases hsecond.symm.trans hfetch
    · omega
  have hloader : (start loader).results 3 = [.ok (.next 1), .ok (.next 2), .ok (.next 0)] := by
    decide +kernel
  have hreplaced : (start loader).Replaced 3 :=
    ⟨2, by decide, 2, 0, 0, by decide +kernel, by decide +kernel, by decide +kernel⟩
  have hhalt : (start halt).step.1 = .ok .halt := by decide +kernel
  have hinside : ¬((start halt).after 0).Overruns := fun ⟨_, hfault, _⟩ =>
    nomatch hhalt.symm.trans hfault
  have hrun : (start halt).run 1 = some (.ok 1, (start halt).after 1) := by
    have houtcome : outcome (start halt).steps ((start halt).results 1) = some (.ok 1) := by
      decide +kernel
    rw [run_eq, houtcome]
    rfl
  have hgoes : ∀ r ∈ (start short).results 2, ∃ finger, r = .ok (.next finger) := by simp [hshort]
  have hgoes' : ∀ r ∈ (start loader).results 3, ∃ finger, r = .ok (.next finger) := by
    simp [hloader]
  obtain ⟨s, -, -, hread⟩ :=
    ((append_undisturbed short halt (.ofBytes []) ScriptedSink.plain 1).1 2 hgoes).2.2.1 hkept
  obtain ⟨-, hsame, -⟩ :=
    (append_undisturbed loader halt (.ofBytes []) ScriptedSink.plain 1).1 3 hgoes'
  obtain ⟨hhalts, hruns⟩ := append_undisturbed halt short (.ofBytes []) ScriptedSink.plain 1
  obtain ⟨m, hm, -⟩ := hruns 1 _ _ hrun nofun
  exact ⟨hshort, hkept, hread 0x70000000 rfl (by decide +kernel), hloader, hreplaced,
    hsame hreplaced, hrun, ((hhalts 0 nofun).2.2.2 hinside).trans hhalt, m, hm⟩

end Machine

end UniversalMachine
