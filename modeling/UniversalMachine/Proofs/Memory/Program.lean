import UniversalMachine.Proofs.Memory.Consistent

namespace UniversalMachine.Memory

def Spares (m : Memory) : Op → Prop
  | .read h _ | .write h _ _ | .segment h => h ≠ 0
  | .replaceProgram h => h = 0 ∨ m.segment? h = none
  | .allocate _ | .free _ | .setLimit _ => True
  | .program => False

variable {m : Memory} {h : Handle}

@[simp] theorem put_put (m : Memory) (h : Handle) (s s' : Option Segment) :
    (m.put h s).put h s' = m.put h s' := by
  simp only [put, Array.setIfInBounds_setIfInBounds]

theorem put_comm (m : Memory) {h h' : Handle} (hne : h ≠ h') (s s' : Option Segment) :
    (m.put h s).put h' s' = (m.put h' s').put h s := by
  simp only [put, Array.setIfInBounds_comm s s' (mt UInt32.toNat_inj.mp hne)]

theorem put_grow (hlt : h.toNat < m.slots.size) (s : Option Segment) (s' : Segment) :
    (m.put h s).grow s' = (m.grow s').put h s := by
  simp only [put, grow, mk.injEq, and_true]
  apply Array.ext_getElem?
  intro i
  simp only [Array.getElem?_push, Array.getElem?_setIfInBounds, Array.size_setIfInBounds,
    Array.size_push]
  grind

theorem put_segment? {s : Segment} (hs : m.segment? h = some s) : m.put h (some s) = m := by
  simp only [put]
  congr 1
  apply Array.ext_getElem?
  intro i
  rw [Array.getElem?_setIfInBounds]
  split
  · next hi =>
    subst hi
    rw [segment?_eq_some_iff.mp hs, if_pos (lt_size_of_segment? hs)]
  · rfl

namespace Consistent

variable (hm : Consistent m)
include hm

theorem segment?_put_zero (s : Option Segment) (h : Handle) :
    (m.put 0 s).segment? h = if h = 0 then s else m.segment? h :=
  segment?_put (h := 0) hm.size_pos s h

theorem segment?_zero_put_zero (s : Option Segment) : (m.put 0 s).segment? 0 = s := by
  rw [hm.segment?_put_zero, if_pos rfl]

variable (s : Option Segment)

theorem write_put_zero (h0 : h ≠ 0) (offset w : Word) :
    (m.put 0 s).write h offset w = ((m.write h offset w).1, (m.write h offset w).2.put 0 s) := by
  rw [write_eq, write_eq, hm.segment?_put_zero, if_neg h0]
  cases hs : m.segment? h with
  | none => rfl
  | some s' =>
    dsimp only
    split
    · rw [put_comm m h0.symm]
    · rfl

theorem free_put_zero (h : Handle) :
    (m.put 0 s).free h = ((m.free h).1, (m.free h).2.put 0 s) := by
  rw [free_eq, free_eq, hm.segment?_put_zero, pool_put, size_put]
  by_cases h0 : h = 0
  · rw [if_pos h0, if_pos h0]
  · rw [if_neg h0, if_neg h0, if_neg h0]
    cases hs : m.segment? h with
    | none =>
      dsimp only
      split <;> rfl
    | some s' =>
      simp only [put_comm m (Ne.symm h0)]
      rfl

theorem replaceProgram_put_zero (hop : h = 0 ∨ m.segment? h = none) :
    (m.put 0 s).replaceProgram h =
      ((m.replaceProgram h).1, (m.replaceProgram h).2.put 0 s) := by
  rw [replaceProgram_eq, replaceProgram_eq, hm.segment?_put_zero]
  by_cases h0 : h = 0
  · rw [if_pos h0, if_pos h0]
  · rw [if_neg h0, if_neg h0, if_neg h0, hop.resolve_left h0]

theorem read_put_zero (h0 : h ≠ 0) (offset : Word) : (m.put 0 s).read h offset = m.read h offset := by
  rw [read, read, hm.segment?_put_zero, if_neg h0]

variable [Host]

theorem allocate_put_zero (capacity : Word) :
    (m.put 0 s).allocate capacity =
      ((m.allocate capacity).1, (m.allocate capacity).2.put 0 s) := by
  have hadmits : (m.put 0 s).Admits capacity ↔ m.Admits capacity := Iff.rfl
  simp only [allocate_eq, hadmits, pool_put, size_put]
  split
  · cases hp : m.pool.pop? with
    | none => simp only [put_grow (h := 0) hm.size_pos]
    | some popped =>
      have hmem : popped.1 ∈ m.pool.toList := Fifo.toList_of_pop? hp ▸ List.mem_cons_self
      simp only [put_comm m (hm.ne_zero_of_mem hmem).symm]
      rfl
  · rfl

theorem perform_put_zero {op : Op} (hop : m.Spares op) :
    (m.put 0 s).perform op = ((m.perform op).1, (m.perform op).2.put 0 s) := by
  cases op with
  | allocate capacity => simp only [Memory.perform, hm.allocate_put_zero]
  | free h => simp only [Memory.perform, hm.free_put_zero]
  | read h offset => simp only [Memory.perform, hm.read_put_zero s hop]
  | write h offset w => simp only [Memory.perform, hm.write_put_zero s hop]
  | replaceProgram h => simp only [Memory.perform, hm.replaceProgram_put_zero s hop]
  | segment h =>
    have h0 : h ≠ 0 := hop
    simp only [Memory.perform, segment, hm.segment?_put_zero, if_neg h0]
  | program => exact hop.elim
  | setLimit limit => rfl

theorem segment?_zero_perform {op : Op} (hop : m.Spares op) :
    (m.perform op).2.segment? 0 = m.segment? 0 := by
  obtain ⟨s, hs⟩ := hm.program
  have hput := congrArg Prod.snd (hm.perform_put_zero (some s) hop)
  rw [put_segment? hs] at hput
  rw [hput, (hm.perform op).segment?_zero_put_zero, hs]

end Consistent

end UniversalMachine.Memory
