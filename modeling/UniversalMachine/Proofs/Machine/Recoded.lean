import UniversalMachine.Proofs.Machine.Lockstep
import UniversalMachine.Proofs.Memory.Recoded
import UniversalMachine.Stream.Script

universe u

namespace UniversalMachine.Machine

variable {σ : Type u}

structure Recoded (m m' : Machine σ) : Prop extends
    Alike Memory.Recoded (fun s s' => s' = s) (fun s s' => s' = s) m m' where
  consistent : m.memory.Consistent

theorem recoded_load (p : List Word) (source : Source) (sink : σ) (limit : Nat) :
    Recoded ((load ⟨p⟩ source sink).setLimit limit)
      ((load ⟨p.map Word.canonical⟩ source sink).setLimit limit) where
  registers := rfl
  finger := rfl
  status := rfl
  steps := rfl
  memory := (Memory.recoded_ofProgram p).setLimit limit
  source := rfl
  sink := rfl
  consistent := (Memory.Consistent.ofProgram p).setLimit limit

def ReadsProgram (m : Machine σ) : Prop :=
  ∃ a b c, m.obeyed? = some (.arrayIndex a b c) ∧ m.registers.get b = 0

namespace Recoded

variable {m m' : Machine σ}

theorem exists_eq (h : Recoded m m') :
    ∃ s s', m.memory.segment? 0 = some s ∧ Segment.Recoded s s' ∧
      m' = { m with memory := m.memory.put 0 (some s') } := by
  obtain ⟨s, s', hs, hwords, hmemory⟩ := h.memory
  exact ⟨s, s', hs, hwords, InStep.eq_of_parts
    ⟨h.registers, h.finger, h.status, h.steps⟩ hmemory h.source h.sink⟩

theorem fetch (h : Recoded m m') : m'.fetch = m.fetch := by
  rw [Machine.fetch, Machine.fetch, h.finger]
  obtain hread | hread := h.memory.read_zero h.consistent m.finger
  · rw [hread]
  · rw [hread]
    cases m.memory.read 0 m.finger with
    | error e => rfl
    | ok w => simp only [Except.map, w.decode_canonical]

theorem obliges [Sink σ] [Host] (h : Recoded m m') (hstay : ¬m.ReadsProgram) :
    Obliges Memory.Recoded (fun s s' => s' = s) (fun s s' => s' = s) m m' where
  operation {i op} hi hop := by
    refine h.memory.perform h.consistent fun hreads => hstay ?_
    cases i with
    | arrayIndex a b c =>
      cases hop
      exact ⟨a, b, c, hi, hreads⟩
    | arrayAmendment | allocation | abandonment | loadProgram => cases hop; exact hreads.elim
    | _ => cases hop
  input _ := by rw [h.source]; exact ⟨rfl, rfl⟩
  flush _ := by rw [h.sink]; exact ⟨rfl, rfl⟩
  emit _ := by rw [h.sink]; exact ⟨rfl, rfl⟩

end Recoded

variable [Sink σ]

section

variable [Host]

theorem simulation_recoded : Simulation (σ := σ) ReadsProgram Recoded where
  steps h := h.steps
  step h hstay := by
    obtain ⟨hresult, hnext⟩ := h.step_of_fetch (fun _ => h.fetch) (h.obliges hstay)
    exact ⟨hresult, hnext, consistent_step h.consistent⟩

/-- As long as a machine reads no word of segment 0 as data, its program may have been put into
canonical form before: all steps have the same results, and the machines differ at most in the form of
words of segment 0. -/
theorem after_canonical (p : List Word) (source : Source) (sink : σ) (limit n : Nat) :
    let m := (load ⟨p⟩ source sink).setLimit limit
    let m' := (load ⟨p.map Word.canonical⟩ source sink).setLimit limit
    (∀ j < n, ¬(m.after j).ReadsProgram) →
      m'.results n = m.results n ∧
      ∃ s s', (m.after n).memory.segment? 0 = some s ∧ Segment.Recoded s s' ∧
        m'.after n = { m.after n with memory := (m.after n).memory.put 0 (some s') } := by
  intro m m' hstay
  have hm : Recoded m m' := recoded_load p source sink limit
  obtain ⟨hresults, hafter⟩ := simulation_recoded.after hm n hstay
  exact ⟨hresults, hafter.exists_eq⟩

end

open Host

theorem after_canonical_of_amendment :
    let p : List Word := [0xd2000004, 0xd5000005, 0x2ffffe0a, 0xcfffffc1, 0xefffffff, 0x7fffffff]
    let q : List Word := [0xd2000004, 0xd5000005, 0x2000000a, 0xc0000001, 0xefffffff, 0x70000000]
    let m := (load ⟨p⟩ [] ScriptedSink.plain).setLimit 0
    let m' := (load ⟨q⟩ [] ScriptedSink.plain).setLimit 0
    (∀ j < 6, ¬(m.after j).ReadsProgram) ∧
      m.results 6 = [.ok (.next 1), .ok (.next 2), .ok (.next 3), .ok (.next 4), .ok (.next 5),
        .ok .halt] ∧
      m'.results 6 = m.results 6 ∧ (m'.after 6).registers = (m.after 6).registers ∧
      (m'.after 6).memory.read 0 4 = .ok 0x1000005 := by
  intro p q m m'
  have hq : p.map Word.canonical = q := by decide +kernel
  have hobeyed : m.observed obeyed? 6 = [.orthography 1 4, .orthography 2 0x1000005,
      .arrayAmendment 0 1 2, .loadProgram 0 1, .conditionalMove 0 0 5, .halt] := by
    decide +kernel
  have hstay : ∀ j < 6, ¬(m.after j).ReadsProgram := by
    rintro j hj ⟨a, b, c, hi, -⟩
    have hmem := mem_observed_iff.mpr ⟨j, hj, hi⟩
    rw [hobeyed] at hmem
    simp at hmem
  obtain ⟨hresults, s, s', -, -, hafter⟩ := after_canonical p [] ScriptedSink.plain 0 6 hstay
  rw [hq] at hresults hafter
  have hregisters := congrArg registers hafter
  exact ⟨hstay, by decide +kernel, hresults, hregisters, by decide +kernel⟩

end UniversalMachine.Machine
