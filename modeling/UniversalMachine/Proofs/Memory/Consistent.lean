import Mathlib.Data.List.Nodup
import UniversalMachine.Proofs.Memory.History
/-! The arena and the pool agree at all times: the empty slots are those of the freed handles. -/

namespace UniversalMachine.Memory

structure Consistent (m : Memory) : Prop where
  program : ∃ s, m.segment? 0 = some s
  nodup : m.pool.toList.Nodup
  zero_not_mem : 0 ∉ m.pool.toList
  empty_iff : ∀ i, m.slots[i]? = some none ↔ ∃ h ∈ m.pool.toList, h.toNat = i

namespace Consistent

variable {m m' : Memory} {h : Handle} {s : Segment}

theorem ofProgram (program : List Word) : Consistent (Memory.ofProgram program) where
  program := ⟨program.toArray, rfl⟩
  nodup := List.nodup_nil
  zero_not_mem := List.not_mem_nil
  empty_iff i := by
    cases i with
    | zero => simp [Memory.ofProgram]
    | succ i => simp [Memory.ofProgram]

theorem getElem?_of_mem (hm : Consistent m) (hh : h ∈ m.pool.toList) :
    m.slots[h.toNat]? = some none :=
  (hm.empty_iff h.toNat).mpr ⟨h, hh, rfl⟩

theorem lt_size_of_mem (hm : Consistent m) (hh : h ∈ m.pool.toList) : h.toNat < m.slots.size :=
  (Array.getElem?_eq_some_iff.mp (hm.getElem?_of_mem hh)).1

theorem segment?_of_mem (hm : Consistent m) (hh : h ∈ m.pool.toList) : m.segment? h = none := by
  simp [segment?, hm.getElem?_of_mem hh]

theorem mem_of_segment? (hm : Consistent m) (hnone : m.segment? h = none)
    (hlt : h.toNat < m.slots.size) : h ∈ m.pool.toList := by
  have hslot : m.slots[h.toNat]? = some none := by
    rw [Array.getElem?_eq_getElem hlt, Option.some.injEq]
    simpa [segment?, Array.getElem?_eq_getElem hlt] using hnone
  obtain ⟨h', hmem, heq⟩ := (hm.empty_iff h.toNat).mp hslot
  rwa [← UInt32.toNat_inj.mp heq]

theorem not_mem_of_segment? (hm : Consistent m) (hs : m.segment? h = some s) :
    h ∉ m.pool.toList := by
  intro hh
  rw [hm.segment?_of_mem hh] at hs
  cases hs

theorem ne_zero_of_mem (hm : Consistent m) (hh : h ∈ m.pool.toList) : h ≠ 0 :=
  fun h0 => hm.zero_not_mem (h0 ▸ hh)

theorem ne_zero_of_segment? (hm : Consistent m) (hnone : m.segment? h = none) : h ≠ 0 := by
  obtain ⟨s, hs⟩ := hm.program
  rintro rfl
  cases hs.symm.trans hnone

theorem size_pos (hm : Consistent m) : 0 < m.slots.size := by
  obtain ⟨s, hs⟩ := hm.program
  exact lt_size_of_segment? hs

theorem put_live (hm : Consistent m) (hs : m.segment? h = some s) (s' : Segment) :
    Consistent (m.put h (some s')) where
  program := by
    rw [segment?_put (lt_size_of_segment? hs)]
    split
    · exact ⟨s', rfl⟩
    · exact hm.program
  nodup := hm.nodup
  zero_not_mem := hm.zero_not_mem
  empty_iff i := by
    rw [getElem?_put (lt_size_of_segment? hs), pool_put, ← hm.empty_iff]
    split
    · next hi => simp [hi, segment?_eq_some_iff.mp hs]
    · rfl

theorem reuse (hm : Consistent m) {pool : Fifo Handle} (hp : m.pool.pop? = some (h, pool)) (s : Segment) :
    Consistent ((m.put h (some s)).setPool pool) := by
  have hpool := Fifo.toList_of_pop? hp
  have hmem : h ∈ m.pool.toList := hpool ▸ List.mem_cons_self
  have hlt := hm.lt_size_of_mem hmem
  have hnodup := hpool ▸ hm.nodup
  have hzero := hpool ▸ hm.zero_not_mem
  rw [List.nodup_cons] at hnodup
  rw [List.mem_cons, not_or] at hzero
  constructor
  · rw [segment?_setPool, segment?_put hlt, if_neg hzero.1]
    exact hm.program
  · exact hnodup.2
  · exact hzero.2
  · intro i
    have hold := hm.empty_iff i
    rw [hpool] at hold
    simp only [slots_setPool, pool_setPool, getElem?_put hlt]
    split
    · next hi =>
      subst hi
      simp only [UInt32.toNat_inj, exists_eq_right]
      simp [hnodup.1]
    · next hi =>
      rw [hold]
      simp [Ne.symm hi]

theorem grow (hm : Consistent m) (s : Segment) : Consistent (m.grow s) where
  program := by
    obtain ⟨s₀, hs₀⟩ := hm.program
    have hlt := lt_size_of_segment? hs₀
    rw [segment?_grow, if_neg (Nat.ne_of_lt hlt)]
    exact ⟨s₀, hs₀⟩
  nodup := hm.nodup
  zero_not_mem := hm.zero_not_mem
  empty_iff i := by
    rw [getElem?_grow, pool_grow, ← hm.empty_iff]
    split
    · next hi => simp [hi]
    · rfl

theorem free (hm : Consistent m) (h0 : h ≠ 0) (hs : m.segment? h = some s) :
    Consistent ((m.put h none).setPool (m.pool.push h)) := by
  have hlt := lt_size_of_segment? hs
  have hmem := hm.not_mem_of_segment? hs
  constructor
  · rw [segment?_setPool, segment?_put hlt, if_neg h0.symm]
    exact hm.program
  · rw [pool_setPool, Fifo.toList_push, List.nodup_append_comm]
    exact List.nodup_cons.mpr ⟨hmem, hm.nodup⟩
  · simp [hm.zero_not_mem, h0.symm]
  · intro i
    simp only [slots_setPool, pool_setPool, getElem?_put hlt, Fifo.toList_push]
    split
    · next hi => simp [hi]
    · next hi =>
      rw [hm.empty_iff]
      simp [or_and_right, exists_or, Ne.symm hi]

theorem setLimit (hm : Consistent m) (limit : Nat) : Consistent (m.setLimit limit) :=
  ⟨hm.program, hm.nodup, hm.zero_not_mem, hm.empty_iff⟩

variable [Host]

theorem performs {op : Op} {a : Answer} (hm : Consistent m) (h : m.Performs op a m') :
    Consistent m' := by
  cases h with
  | reuse _ hp => exact hm.reuse hp _
  | mint => exact hm.grow _
  | free h0 hs => exact hm.free h0 hs
  | write hs _ => exact hm.put_live hs _
  | copy _ _ =>
    obtain ⟨s₀, hs₀⟩ := hm.program
    exact hm.put_live hs₀ _
  | setLimit limit => exact hm.setLimit limit
  | keep | read | segment | program => exact hm

theorem perform (hm : Consistent m) (op : Op) : Consistent (m.perform op).2 := by
  cases hp : m.perform op with
  | mk result m' =>
    cases result with
    | error e => exact perform_of_error hp ▸ hm
    | ok a => exact hm.performs (performs_of_ok hp)

theorem performAll (hm : Consistent m) (ops : List Op) : Consistent (m.performAll ops).2 := by
  induction ops generalizing m with
  | nil => exact hm
  | cons op ops ih => exact ih (hm.perform op)

end Consistent

variable [Host]

section Allocation

variable {m m' : Memory} {capacity : Word} {h : Handle}

theorem Performs.handle_ne_zero (hp : m.Performs (.allocate capacity) (.handle h) m')
    (hm : Consistent m) (hsize : m'.slots.size ≤ 2 ^ 32) : h ≠ 0 := by
  cases hp with
  | reuse _ hpop => exact hm.ne_zero_of_mem (Fifo.toList_of_pop? hpop ▸ List.mem_cons_self)
  | mint =>
    rw [size_grow] at hsize
    rw [ne_eq, ← UInt32.toNat_inj, UInt32.toNat_ofNat_of_lt' hsize]
    exact Nat.ne_of_gt hm.size_pos

theorem Performs.segment?_handle (hp : m.Performs (.allocate capacity) (.handle h) m')
    (hm : Consistent m) (hsize : m'.slots.size ≤ 2 ^ 32) : m.segment? h = none := by
  cases hp with
  | reuse _ hpop => exact hm.segment?_of_mem (Fifo.toList_of_pop? hpop ▸ List.mem_cons_self)
  | mint =>
    rw [size_grow] at hsize
    simp [segment?, UInt32.toNat_ofNat_of_lt' hsize]

theorem Performs.segment?_allocate (hp : m.Performs (.allocate capacity) (.handle h) m')
    (hm : Consistent m) (hsize : m'.slots.size ≤ 2 ^ 32) (h' : Handle) :
    m'.segment? h' = if h' = h then some (zeros capacity) else m.segment? h' := by
  cases hp with
  | reuse _ hpop =>
    have hlt := hm.lt_size_of_mem (Fifo.toList_of_pop? hpop ▸ List.mem_cons_self)
    rw [segment?_setPool, segment?_put hlt]
  | mint =>
    rw [size_grow] at hsize
    simp only [segment?_grow, ← UInt32.toNat_inj, UInt32.toNat_ofNat_of_lt' hsize]

end Allocation

theorem History.consistent {program : List Word} {past : List Moment} {m : Memory}
    (h : History program past m) : Consistent m := by
  induction h with
  | start => exact .ofProgram program
  | refuse _ _ ih => exact ih
  | perform _ hp ih => exact ih.performs hp

end UniversalMachine.Memory
