import UniversalMachine.Proofs.Machine.Lockstep
import UniversalMachine.Stream.Script

universe u

namespace UniversalMachine

def Source.Extends (more : List UInt8) (source source' : Source) : Prop :=
  ∃ rest, source = .ofBytes rest ∧ source' = .ofBytes (rest ++ more)

namespace Machine

variable {σ : Type u}

abbrev Fed (more : List UInt8) : Machine σ → Machine σ → Prop :=
  Alike (fun s s' => s' = s) (Source.Extends more) (fun s s' => s' = s)

theorem fed_load (image : Image) (limit : Nat) (sink : σ) (u v : List UInt8) :
    Fed v ((load image (.ofBytes u) sink).setLimit limit)
      ((load image (.ofBytes (u ++ v)) sink).setLimit limit) :=
  ⟨⟨rfl, rfl, rfl, rfl⟩, rfl, ⟨u, rfl, rfl⟩, rfl⟩

theorem Fed.exists_eq {more : List UInt8} {m m' : Machine σ} (h : Fed more m m') :
    ∃ rest, m.source = .ofBytes rest ∧ m' = { m with source := .ofBytes (rest ++ more) } := by
  obtain ⟨rest, hsource, hsource'⟩ := h.source
  exact ⟨rest, hsource, InStep.eq_of_parts
    ⟨h.registers, h.finger, h.status, h.steps⟩ h.memory hsource' h.sink⟩

variable [Sink σ]

section

variable [Host]

def Starves (m : Machine σ) : Prop :=
  ∃ fault, m.step.1 = .error fault ∧ fault.cause = .endOfInput

theorem Fed.agreement {more : List UInt8} {m m' : Machine σ} (h : Fed more m m')
    (hstay : ¬m.Starves) :
    Agreement (fun s s' => s' = s) (Source.Extends more) (fun s s' => s' = s) m m' where
  read _ := by rw [h.memory]
  operation _ _ := by rw [h.memory]; exact ⟨rfl, rfl⟩
  flush _ := by rw [h.sink]; exact ⟨rfl, rfl⟩
  emit _ := by rw [h.sink]; exact ⟨rfl, rfl⟩
  input {c} hi := by
    obtain ⟨_ | ⟨b, rest⟩, hsource, hsource'⟩ := h.source
    · have hreply : m.reply (.input c) = .error .endOfInput := by
        simp only [reply, Instruction.operation?, hsource]
        rfl
      exact absurd ⟨_, step_of_reply_error hi hreply, rfl⟩ hstay
    · rw [hsource, hsource']
      exact ⟨rfl, rest, rfl, rfl⟩

theorem simulation_fed (more : List UInt8) : Simulation (σ := σ) Starves (Fed more) :=
  ⟨fun h => h.steps, fun h hstay => h.step (h.agreement hstay)⟩

/-- With the bytes `v` after the input `u`, a run that ends, but not for want of input, ends in the
same way, and all steps before the first one that finds no input are the same. -/
theorem unread_input (image : Image) (limit : Nat) (sink : σ) (u v : List UInt8) :
    let m := (load image (.ofBytes u) sink).setLimit limit
    let m' := (load image (.ofBytes (u ++ v)) sink).setLimit limit
    (∀ fuel r m₁, m.run fuel = some (r, m₁) →
      (∀ fault, r = .error fault → fault.cause ≠ .endOfInput) →
      ∃ rest, m₁.source = .ofBytes rest ∧
        m'.run fuel = some (r, { m₁ with source := .ofBytes (rest ++ v) })) ∧
    ∀ n, (∀ j < n, ¬(m.after j).Starves) →
      m'.results n = m.results n ∧ ∃ rest, (m.after n).source = .ofBytes rest ∧
        m'.after n = { m.after n with source := .ofBytes (rest ++ v) } := by
  intro m m'
  have hm : Fed v m m' := fed_load image limit sink u v
  constructor
  · intro fuel r m₁ hrun hr
    have hstay : ∀ j < fuel, ¬(m.after j).Starves :=
      not_fault_of_run (P := (· = .endOfInput)) hrun nofun hr
    obtain ⟨rest, hsource, heq⟩ := ((simulation_fed v).after hm fuel hstay).2.exists_eq
    rw [after_of_run hrun] at hsource heq
    refine ⟨rest, hsource, ?_⟩
    rw [(simulation_fed v).run hm fuel hstay, hrun, heq]
    rfl
  · intro n hstay
    obtain ⟨hresults, hafter⟩ := (simulation_fed v).after hm n hstay
    exact ⟨hresults, hafter.exists_eq⟩

end

open Host

theorem unread_input_of_echo :
    let image : Image := ⟨[0xb0000000, 0xa0000000, 0x70000000]⟩
    let m := (load image (.ofBytes [3]) ScriptedSink.plain).setLimit 0
    let m' := (load image (.ofBytes [3, 9]) ScriptedSink.plain).setLimit 0
    m.run 3 = some (.ok 3, m.after 3) ∧ (m.after 3).sink.accepted.toList = [3] ∧
      m'.run 3 = some (.ok 3, { m.after 3 with source := .ofBytes [9] }) := by
  intro image m m'
  have hrun : m.run 3 = some (.ok 3, m.after 3) := by
    have houtcome : outcome m.steps (m.results 3) = some (.ok 3) := by decide +kernel
    rw [run_eq, houtcome]
    rfl
  have hread : (m.after 3).source = .ofBytes [] := by decide +kernel
  obtain ⟨rest, hsource, hrun'⟩ :=
    (unread_input image 0 ScriptedSink.plain [3] [9]).1 3 (.ok 3) _ hrun nofun
  cases hread.symm.trans hsource
  exact ⟨hrun, by decide +kernel, hrun'⟩

end Machine

end UniversalMachine
