import UniversalMachine.Proofs.Machine.Faults
import UniversalMachine.Proofs.Machine.Lockstep
import UniversalMachine.Proofs.Memory.Limit
import UniversalMachine.Stream.Script

universe u

namespace UniversalMachine.Machine

variable {σ : Type u}

abbrev Roomier (limit : Nat) : Machine σ → Machine σ → Prop :=
  Alike (fun s s' => s.limit ≤ limit ∧ s' = s.setLimit limit)
    (fun s s' => s' = s) (fun s s' => s' = s)

theorem roomier_load (image : Image) (source : Source) (sink : σ) {limit limit' : Nat}
    (hle : limit ≤ limit') :
    Roomier limit' ((load image source sink).setLimit limit)
      ((load image source sink).setLimit limit') :=
  ⟨⟨rfl, rfl, rfl, rfl⟩, ⟨hle, rfl⟩, rfl, rfl⟩

theorem Roomier.eq_setLimit {limit : Nat} {m m' : Machine σ} (h : Roomier limit m m') :
    m' = m.setLimit limit :=
  InStep.eq_of_parts ⟨h.registers, h.finger, h.status, h.steps⟩ h.memory.2 h.source h.sink

variable [Sink σ] {m m' : Machine σ} {limit : Nat} {capacity : Word}

section

variable [Host]

def Exceeds (m : Machine σ) (capacity : Word) : Prop :=
  ∃ fault, m.step.1 = .error fault ∧ fault.cause = .memory (.allocationFailed capacity)

theorem exceeds_iff :
    m.Exceeds capacity ↔ ∃ b c, m.obeyed? = some (.allocation b c) ∧
      m.registers.get c = capacity ∧ ¬m.memory.Admits capacity := by
  by_cases hstatus : m.status = .running
  · simp only [Exceeds, step_eq_error_iff hstatus, obeyed?_eq_some_iff, hstatus, true_and]
    rw [← fails_allocationFailed_iff]
    constructor
    · rintro ⟨fault, ⟨-, -, hfails⟩, hcause⟩
      rwa [hcause] at hfails
    · intro hfails
      exact ⟨m.fault _, ⟨rfl, rfl, hfails⟩, rfl⟩
  · rw [Exceeds, step_of_stopped hstatus, obeyed?_of_stopped hstatus]
    constructor
    · rintro ⟨fault, hfault, hcause⟩
      cases hfault
      cases hcause
    · rintro ⟨b, c, hi, -⟩
      cases hi

theorem Roomier.agreement (h : Roomier limit m m') (hstay : ¬∃ capacity, m.Exceeds capacity) :
    Agreement (fun s s' => s.limit ≤ limit ∧ s' = s.setLimit limit)
      (fun s s' => s' = s) (fun s s' => s' = s) m m' where
  read _ := by rw [h.memory.2]; rfl
  input _ := by rw [h.source]; exact ⟨rfl, rfl⟩
  flush _ := by rw [h.sink]; exact ⟨rfl, rfl⟩
  emit _ := by rw [h.sink]; exact ⟨rfl, rfl⟩
  operation {i op} hi hop := by
    have hset : ∀ limit', op ≠ .setLimit limit' := by
      rintro limit' rfl
      exact Instruction.of_operation? hop
    have hin : ∀ capacity, (m.memory.perform op).1 ≠ .error (.allocationFailed capacity) := by
      intro capacity herror
      have hreply := reply_of_operation hop
      rw [herror] at hreply
      exact hstay ⟨capacity, _, step_of_reply_error hi hreply, rfl⟩
    rw [h.memory.2, Memory.perform_setLimit hset h.memory.1 hin]
    exact ⟨rfl, (Memory.limit_perform m.memory hset).symm ▸ h.memory.1, rfl⟩

theorem simulation_roomier (limit : Nat) :
    Simulation (σ := σ) (fun m => ∃ capacity, m.Exceeds capacity) (Roomier limit) :=
  ⟨fun h => h.steps, fun h hstay => h.step (h.agreement hstay)⟩

theorem Exceeds.not_before {n : Nat} (h : (m.after n).Exceeds capacity) :
    ∀ j < n, ¬∃ capacity, (m.after j).Exceeds capacity := by
  rintro j hj ⟨_, fault, hfault, -⟩
  obtain ⟨b, c, hi, -⟩ := exceeds_iff.mp h
  exact stopped_after_of_error hj hfault (obeyed?_eq_some_iff.mp hi).1

theorem after_setLimit_load (image : Image) (source : Source) (sink : σ) {limit limit' : Nat}
    (hle : limit ≤ limit') (n : Nat)
    (hstay : ∀ j < n, ¬∃ capacity,
      (((load image source sink).setLimit limit).after j).Exceeds capacity) :
    ((load image source sink).setLimit limit').results n =
        ((load image source sink).setLimit limit).results n ∧
      ((load image source sink).setLimit limit').after n =
        (((load image source sink).setLimit limit).after n).setLimit limit' := by
  obtain ⟨hresults, hafter⟩ :=
    (simulation_roomier limit').after (roomier_load image source sink hle) n hstay
  exact ⟨hresults, hafter.eq_setLimit⟩

/-- Under a larger limit the steps of a program have the same results and leave the same machine, but
for the limit, as long as no allocation fails. If segments within the limit can be made, one fails
just if it is of more words than the limit allows; all steps before it are as under the larger
limit. -/
theorem limit_cuts_short (image : Image) (source : Source) (sink : σ) {limit limit' : Nat}
    (hle : limit ≤ limit') :
    let m := (load image source sink).setLimit limit
    let m' := (load image source sink).setLimit limit'
    (∀ n, (∀ j < n, ¬∃ capacity, (m.after j).Exceeds capacity) →
      m'.results n = m.results n ∧ m'.after n = (m.after n).setLimit limit') ∧
    ∀ n capacity,
      (Memory.BackedUpTo limit →
        ((m.after n).Exceeds capacity ↔
          ∃ b c, (m.after n).obeyed? = some (.allocation b c) ∧
            (m.after n).registers.get c = capacity ∧ limit < capacity.toNat)) ∧
      ((m.after n).Exceeds capacity →
        m'.results n = m.results n ∧ m'.after n = (m.after n).setLimit limit') := by
  intro m m'
  refine ⟨fun n => after_setLimit_load image source sink hle n, fun n capacity => ⟨?_, ?_⟩⟩
  · intro hbacked
    have hlimit : (m.after n).memory.limit = limit := limit_after n m
    have hadmits : (m.after n).memory.Admits capacity ↔ capacity.toNat ≤ limit :=
      hlimit ▸ Memory.admits_iff (hlimit.symm ▸ hbacked)
    rw [exceeds_iff, hadmits, Nat.not_le]
  · intro hexceeds
    exact after_setLimit_load image source sink hle n hexceeds.not_before

end

open Host

theorem limit_cuts_short_of_two_words :
    let start (limit : Nat) :=
      (load ⟨[0xd0000002, 0x80000008, 0x70000000]⟩ [] ScriptedSink.plain).setLimit limit
    1 ≤ 4 ∧ ((start 1).after 1).Exceeds 2 ∧
      (Memory.BackedUpTo 1 ∧ ∃ b c, ((start 1).after 1).obeyed? = some (.allocation b c) ∧
        ((start 1).after 1).registers.get c = 2 ∧ 1 < (2 : Word).toNat) ∧
      (start 4).results 1 = (start 1).results 1 ∧
      (start 4).after 1 = ((start 1).after 1).setLimit 4 ∧
      (start 2).results 3 = [.ok (.next 1), .ok (.next 2), .ok .halt] ∧
      (start 4).results 3 = (start 2).results 3 ∧
      (start 4).after 3 = ((start 2).after 3).setLimit 4 := by
  intro start
  have hexceeds : ((start 1).after 1).Exceeds 2 :=
    ⟨⟨.memory (.allocationFailed 2), 1, Registers.zero.put 0 2⟩, by decide +kernel, rfl⟩
  have hresults : (start 2).results 3 = [.ok (.next 1), .ok (.next 2), .ok .halt] := by
    decide +kernel
  have hstay : ∀ j < 3, ¬∃ capacity, ((start 2).after j).Exceeds capacity := by
    rintro j hj ⟨_, fault, hfault, -⟩
    have hmem := mem_results_iff.mpr ⟨j, hj, hfault⟩
    rw [hresults] at hmem
    simp at hmem
  obtain ⟨-, hcut⟩ := limit_cuts_short ⟨[0xd0000002, 0x80000008, 0x70000000]⟩ []
    ScriptedSink.plain (show 1 ≤ 4 by decide)
  obtain ⟨hsame, -⟩ := limit_cuts_short ⟨[0xd0000002, 0x80000008, 0x70000000]⟩ []
    ScriptedSink.plain (show 2 ≤ 4 by decide)
  have hbacked : Memory.BackedUpTo 1 := Memory.backedUpTo_modest (by decide)
  have hlarge := ((hcut 1 2).1 hbacked).mp hexceeds
  obtain ⟨hbefore, hafter⟩ := (hcut 1 2).2 hexceeds
  obtain ⟨hlonger, hlast⟩ := hsame 3 hstay
  exact ⟨by decide, hexceeds, ⟨hbacked, hlarge⟩, hbefore, hafter, hresults, hlonger, hlast⟩

end UniversalMachine.Machine
