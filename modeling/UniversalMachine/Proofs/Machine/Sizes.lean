import UniversalMachine.Proofs.Machine.Append
import UniversalMachine.Proofs.Memory.Sizes

universe u

namespace UniversalMachine.Machine

variable {σ : Type u} [Sink σ] {m : Machine σ} {i : Nat}

section

variable [Host]

def Frees (m : Machine σ) (i : Nat) : Prop :=
  ∃ c finger, m.obeyed? = some (.abandonment c) ∧ (m.registers.get c).toNat = i ∧
    m.step.1 = .ok (.next finger)

def Allots (m : Machine σ) (i : Nat) (capacity : Word) : Prop :=
  ∃ b c finger, m.obeyed? = some (.allocation b c) ∧ m.registers.get c = capacity ∧
    m.step.1 = .ok (.next finger) ∧ m.step.2.registers.get b = .ofNat i

inductive Resizes (m : Machine σ) (i : Nat) : Prop
  | keep : m.step.2.memory.size? i = m.memory.size? i → Resizes m i
  | free : m.Frees i → m.step.2.memory.size? i = none → Resizes m i
  | allot {capacity} : m.Allots i capacity → capacity.toNat ≤ m.memory.limit →
      m.memory.size? i = none → m.step.2.memory.size? i = some capacity.toNat → Resizes m i

section Step

theorem memory_step_of_operation {op : Memory.Op} (hop : m.operation? = some op) :
    m.step.2.memory = (m.memory.perform op).2 := by
  rw [memory_step_eq, hop]
  rfl

theorem performs_step (m : Machine σ) :
    m.step.2.memory = m.memory ∨
      ∃ i op a, m.obeyed? = some i ∧ i.operation? m.registers = some op ∧
        m.reply i = .ok a.value ∧ m.memory.Performs op a m.step.2.memory := by
  cases hop : m.operation? with
  | none =>
    rw [memory_step_eq, hop]
    exact .inl rfl
  | some op =>
    obtain ⟨i, hi, hiop⟩ := Option.bind_eq_some_iff.mp hop
    have hmemory := memory_step_of_operation hop
    have hreply := reply_of_operation hiop
    cases hp : m.memory.perform op with
    | mk result memory =>
      rw [hp] at hmemory hreply
      cases result with
      | error e => exact .inl (hmemory.trans (Memory.perform_of_error hp))
      | ok a =>
        refine .inr ⟨i, op, a, hi, hiop, hreply, ?_⟩
        rw [show m.step.2.memory = memory from hmemory]
        exact Memory.performs_of_ok hp

theorem resizes_step (hm : m.memory.Consistent) (hne : i ≠ 0) : m.Resizes i := by
  rcases m.performs_step with heq | ⟨instruction, op, a, hi, hop, hreply, hperforms⟩
  · exact .keep (by rw [heq])
  · cases hperforms.resizes hm hne with
    | keep hsize => exact .keep hsize
    | free hh hsize =>
      obtain ⟨c, rfl, rfl⟩ := Instruction.of_operation? hop
      exact .free ⟨c, _, hi, hh, step_of_reply_ok hi hreply rfl⟩ hsize
    | allocate hle hnone hsize =>
      obtain ⟨b, c, rfl, rfl⟩ := Instruction.of_operation? hop
      refine .allot ⟨b, c, _, hi, rfl, step_of_reply_ok hi hreply rfl, ?_⟩ hle hnone hsize
      rw [registers_step_of_reply_ok hi hreply]
      exact (Registers.get_put ..).trans (if_pos rfl)

theorem size?_step_of_frees (h : m.Frees i) : m.step.2.memory.size? i = none := by
  obtain ⟨c, finger, hi, rfl, hstep⟩ := h
  have hop : m.operation? = some (.free (m.registers.get c)) := by rw [operation?, hi]; rfl
  cases hp : m.memory.perform (.free (m.registers.get c)) with
  | mk result memory =>
    cases result with
    | error e =>
      have hreply := reply_of_operation (m := m) (i := .abandonment c) rfl
      rw [hp] at hreply
      cases hstep.symm.trans (step_of_reply_error hi hreply)
    | ok a =>
      rw [memory_step_of_operation hop, hp]
      cases Memory.performs_of_ok hp with
      | free _ hs => exact Memory.size?_put_self (Memory.lt_size_of_segment? hs) none

theorem size?_program_step (hm : m.memory.Consistent) (hkept : ¬m.ReplacesProgram) :
    m.step.2.memory.size? 0 = m.memory.size? 0 := size_program_step hm hkept

theorem memory_step_of_replaces (h : m.ReplacesProgram) :
    ∃ h s, h ≠ 0 ∧ m.memory.segment? h = some s ∧ m.step.2.memory = m.memory.put 0 (some s) := by
  obtain ⟨op, hop, hreplaces⟩ := replacesProgram_iff.mp h
  cases op with
  | replaceProgram h =>
    obtain ⟨h0, s, hs⟩ := hreplaces
    refine ⟨h, s, h0, hs, ?_⟩
    rw [memory_step_of_operation hop]
    simp only [Memory.perform, Memory.replaceProgram_eq, if_neg h0, hs]
  | _ => exact hreplaces.elim

end Step

section Run

variable (hm : m.memory.Consistent)
include hm

theorem size?_after_of_not_frees (hne : i ≠ 0) {size n : Nat} (hsize : m.memory.size? i = some size)
    (hkept : ∀ j < n, ¬(m.after j).Frees i) : (m.after n).memory.size? i = some size := by
  induction n with
  | zero => exact hsize
  | succ n ih =>
    have hn := ih fun j hj => hkept j (Nat.lt_succ_of_lt hj)
    rw [after_succ]
    cases resizes_step (consistent_after hm n) hne with
    | keep h => exact h.trans hn
    | free h _ => exact absurd h (hkept n n.lt_succ_self)
    | allot _ _ hnone _ => cases hn.symm.trans hnone

theorem exists_allots_of_size? (hne : i ≠ 0) (hstart : m.memory.size? i = none) {size n : Nat}
    (hsize : (m.after n).memory.size? i = some size) :
    ∃ j < n, ∃ capacity, (m.after j).Allots i capacity ∧ capacity.toNat = size ∧
      size ≤ m.memory.limit ∧ (m.after j).memory.size? i = none ∧
      ∀ k, j < k → k ≤ n → (m.after k).memory.size? i = some size := by
  induction n with
  | zero => cases hstart.symm.trans hsize
  | succ n ih =>
    have hlast := hsize
    rw [after_succ] at hsize
    cases resizes_step (consistent_after hm n) hne with
    | keep h =>
      obtain ⟨j, hj, capacity, hallots, hcapacity, hle, hnone, hkept⟩ := ih (h.symm.trans hsize)
      refine ⟨j, Nat.lt_succ_of_lt hj, capacity, hallots, hcapacity, hle, hnone, fun k hjk hk => ?_⟩
      rcases Nat.le_succ_iff.mp hk with hk | rfl
      · exact hkept k hjk hk
      · exact hlast
    | free _ hnone => cases hsize.symm.trans hnone
    | @allot capacity hallots hle hnone h =>
      cases hsize.symm.trans h
      rw [limit_after] at hle
      refine ⟨n, n.lt_succ_self, capacity, hallots, rfl, hle, hnone, fun k hnk hk => ?_⟩
      rwa [Nat.le_antisymm hk hnk]

theorem size?_program_after_of_replaced (hstart : ∀ i ≠ 0, m.memory.size? i = none) {n : Nat}
    (h : m.Replaced n) : ∃ size, (m.after n).memory.size? 0 = some size ∧ size ≤ m.memory.limit := by
  induction n with
  | zero =>
    obtain ⟨j, hj, -⟩ := h
    cases hj
  | succ n ih =>
    rw [after_succ]
    by_cases hreplaces : (m.after n).ReplacesProgram
    · obtain ⟨h, s, h0, hs, hmemory⟩ := memory_step_of_replaces hreplaces
      have hne : h.toNat ≠ 0 := fun h' => h0 (UInt32.toNat_inj.mp h')
      obtain ⟨_, _, _, _, _, hle, -⟩ := exists_allots_of_size? hm hne (hstart _ hne)
        (Memory.size?_of_segment? hs)
      rw [hmemory]
      exact ⟨s.size, Memory.size?_put_self (h := 0) (consistent_after hm n).size_pos _, hle⟩
    · have hearlier : m.Replaced n := (Nat.exists_lt_succ_right.mp h).resolve_right hreplaces
      rw [size?_program_step (consistent_after hm n) hreplaces]
      exact ih hearlier

end Run

omit [Sink σ] [Host] in
theorem size?_load (program : List Word) (source : Source) (sink : σ) (limit i : Nat) :
    ((load ⟨program⟩ source sink).setLimit limit).memory.size? i =
      if i = 0 then some program.length else none := by
  cases i with
  | zero => rfl
  | succ i => simp [load, setLimit, Memory.ofProgram, Memory.setLimit, Memory.size?]

/-- Every segment but segment 0 has at most as many words as the limit allows. A step allocated it
with that many, and it keeps them until a step frees it. Segment 0 has as many words as the program,
or as the limit allows once the program is replaced, and changes its size in no other step. -/
theorem sizes_bounded_and_fixed (program : List Word) (source : Source) (sink : σ) (limit : Nat) :
    let m := (load ⟨program⟩ source sink).setLimit limit
    (∀ n i size, i ≠ 0 → (m.after n).memory.size? i = some size →
      size ≤ limit ∧
      (∃ j < n, ∃ capacity, (m.after j).Allots i capacity ∧ capacity.toNat = size ∧
        (m.after j).memory.size? i = none ∧
        ∀ k, j < k → k ≤ n → (m.after k).memory.size? i = some size) ∧
      (∀ k, n ≤ k → (∀ j, n ≤ j → j < k → ¬(m.after j).Frees i) →
        (m.after k).memory.size? i = some size) ∧
      ((m.after n).Frees i → (m.after (n + 1)).memory.size? i = none)) ∧
    ∀ n,
      (¬m.Replaced n → (m.after n).memory.size? 0 = some program.length) ∧
      (m.Replaced n → ∃ size, (m.after n).memory.size? 0 = some size ∧ size ≤ limit) ∧
      (¬(m.after n).ReplacesProgram →
        (m.after (n + 1)).memory.size? 0 = (m.after n).memory.size? 0) := by
  intro m
  have hm : m.memory.Consistent := (Memory.Consistent.ofProgram program).setLimit limit
  have hstart : ∀ i ≠ 0, m.memory.size? i = none := fun i hi =>
    (size?_load ..).trans (if_neg hi)
  constructor
  · intro n i size hi hsize
    obtain ⟨j, hj, capacity, hallots, hcapacity, hle, hnone, hkept⟩ :=
      exists_allots_of_size? hm hi (hstart i hi) hsize
    refine ⟨hle, ⟨j, hj, capacity, hallots, hcapacity, hnone, hkept⟩,
      fun k hk hfrees => ?_, fun hfrees => ?_⟩
    · obtain ⟨d, rfl⟩ := Nat.exists_eq_add_of_le hk
      rw [after_add]
      refine size?_after_of_not_frees (consistent_after hm n) hi hsize fun j hj => ?_
      rw [← after_add]
      exact hfrees (n + j) (Nat.le_add_right n j) (Nat.add_lt_add_left hj n)
    · rw [after_succ]
      exact size?_step_of_frees hfrees
  · intro n
    refine ⟨fun hkept => ?_, fun hreplaced => ?_, fun hkept => ?_⟩
    · exact (size_program_after hm hkept).trans ((size?_load ..).trans (if_pos rfl))
    · exact size?_program_after_of_replaced hm hstart hreplaced
    · rw [after_succ]
      exact size?_program_step (consistent_after hm n) hkept

end

open Host

theorem sizes_bounded_and_fixed_of_loader :
    let m := (load ⟨[0xd0000002, 0x80000008, 0x80000010, 0x90000002, 0xc000000b]⟩ []
      ScriptedSink.plain).setLimit 2
    (m.after 3).memory.size? 2 = some 2 ∧
      (∃ j < 3, ∃ capacity, (m.after j).Allots 2 capacity ∧ capacity.toNat = 2) ∧
      (m.after 4).memory.size? 2 = none ∧ (m.after 4).memory.size? 1 = some 2 ∧
      (m.after 4).memory.size? 0 = some 5 ∧
      ∃ size, (m.after 5).memory.size? 0 = some size ∧ size ≤ 2 := by
  intro m
  obtain ⟨hsegments, hprogram⟩ := sizes_bounded_and_fixed
    [0xd0000002, 0x80000008, 0x80000010, 0x90000002, 0xc000000b] [] ScriptedSink.plain 2
  have hfirst : (m.after 3).memory.size? 1 = some 2 := by decide +kernel
  have hsecond : (m.after 3).memory.size? 2 = some 2 := by decide +kernel
  have hfrees : (m.after 3).Frees 2 := ⟨2, 4, by decide +kernel, by decide +kernel, by decide +kernel⟩
  have hreplaces : (m.after 4).ReplacesProgram :=
    ⟨1, 3, 0, by decide +kernel, by decide +kernel, by decide +kernel⟩
  obtain ⟨-, ⟨j, hj, capacity, hallots, hcapacity, -⟩, -, hgone⟩ := hsegments 3 2 2 nofun hsecond
  obtain ⟨-, -, hkept, -⟩ := hsegments 3 1 2 nofun hfirst
  refine ⟨hsecond, ⟨j, hj, capacity, hallots, hcapacity⟩, hgone hfrees, ?_, ?_,
    (hprogram 5).2.1 ⟨4, by decide, hreplaces⟩⟩
  · refine hkept 4 (by decide) ?_
    rintro j hj hj' ⟨c, finger, hi, hc, -⟩
    have hlast : (m.after 3).obeyed? = some (.abandonment 2) := by decide +kernel
    obtain rfl : j = 3 := by omega
    cases hi.symm.trans hlast
    exact absurd hc (by decide +kernel)
  · refine (hprogram 4).1 ?_
    rintro ⟨j, hj, b, c, finger, hfetch, -⟩
    have hopcodes : ∀ j < 4, (m.after j).fetch.map Instruction.opcode ≠ .ok .loadProgram := by
      decide +kernel
    exact hopcodes j hj (by rw [hfetch]; rfl)

end UniversalMachine.Machine
