import UniversalMachine.Proofs.Memory.Consistent

namespace UniversalMachine.Memory

section Allocation

variable {m m' : Memory} {capacity : Word} {h : Handle}

theorem Consistent.exists_segment? (hm : Consistent m) (hempty : m.pool.toList = [])
    (hlt : h.toNat < m.slots.size) : ∃ s, m.segment? h = some s := by
  cases hs : m.segment? h with
  | some s => exact ⟨s, rfl⟩
  | none =>
    have hmem := hm.mem_of_segment? hs hlt
    rw [hempty] at hmem
    cases hmem

@[simp] theorem minted_grow (m : Memory) (s : Segment) : (m.grow s).minted = m.slots.size := by
  rw [minted, size_grow, Nat.add_sub_cancel]

variable [Host]

theorem Performs.new_handle (hp : m.Performs (.allocate capacity) (.handle h) m')
    (hm : Consistent m) (hroom : m.pool.toList ≠ [] ∨ m'.minted < 2 ^ 32) :
    h ≠ 0 ∧ m.segment? h = none ∧ m'.segment? h = some (zeros capacity) := by
  cases hp with
  | reuse _ hpop =>
    have hmem : h ∈ m.pool.toList := Fifo.toList_of_pop? hpop ▸ List.mem_cons_self
    refine ⟨hm.ne_zero_of_mem hmem, hm.segment?_of_mem hmem, ?_⟩
    rw [segment?_setPool, segment?_put (hm.lt_size_of_mem hmem), if_pos rfl]
  | mint hadmits hpop =>
    have hsize := size_le_of_minted (hroom.resolve_left (not_not.mpr (Fifo.pop?_eq_none_iff.mp hpop)))
    have hmint := Performs.mint hadmits hpop
    refine ⟨hmint.handle_ne_zero hm hsize, hmint.segment?_handle hm hsize, ?_⟩
    rw [hmint.segment?_allocate hm hsize, if_pos rfl]

theorem Performs.old_handle (hp : m.Performs (.allocate capacity) (.handle h) m')
    (hm : Consistent m) (hempty : m.pool.toList = []) (hfull : 2 ^ 32 ≤ m'.minted) :
    ∃ s, m.segment? h = some s ∧ m'.segment? h = some s := by
  cases hp with
  | reuse _ hpop =>
    rw [Fifo.toList_of_pop? hpop] at hempty
    cases hempty
  | mint =>
    rw [minted_grow] at hfull
    have hlt : (UInt32.ofNat m.slots.size).toNat < m.slots.size :=
      Nat.lt_of_lt_of_le (UInt32.toNat_lt _) hfull
    obtain ⟨s, hs⟩ := hm.exists_segment? hempty hlt
    exact ⟨s, hs, by rw [segment?_grow, if_neg (Nat.ne_of_lt hlt), hs]⟩

end Allocation

section Exhaustion

variable [Host] {m : Memory} {capacity : Word}

def allocated (m : Memory) (capacity : Word) (n : Nat) : Memory :=
  (m.performAll (List.replicate n (.allocate capacity))).2

theorem allocated_succ (m : Memory) (capacity : Word) (n : Nat) :
    m.allocated capacity (n + 1) = ((m.allocated capacity n).allocate capacity).2 := by
  rw [allocated, List.replicate_succ', performAll_append]
  rfl

theorem allocate_of_pop?_eq_none (hadmits : m.Admits capacity) (hpop : m.pool.pop? = none) :
    m.allocate capacity = (.ok (.ofNat m.slots.size), m.grow (zeros capacity)) := by
  rw [allocate_eq, if_pos hadmits, hpop]

variable (hadmits : m.Admits capacity) (hpop : m.pool.pop? = none) (n : Nat)
include hadmits hpop

theorem allocated_eq :
    m.allocated capacity n =
      { m with slots := m.slots ++ Array.replicate n (some (zeros capacity)) } := by
  induction n with
  | zero => simp [allocated, performAll]
  | succ n ih =>
    have hnext := allocate_of_pop?_eq_none (m := m.allocated capacity n) (by rwa [ih]) (by rwa [ih])
    rw [allocated_succ, hnext, ih, grow, Array.replicate_succ, Array.append_push]

theorem allocate_allocated :
    (m.allocated capacity n).allocate capacity =
      (.ok (.ofNat (n + m.slots.size)), m.allocated capacity (n + 1)) := by
  have heq := allocated_eq hadmits hpop n
  have hnext := allocate_of_pop?_eq_none (m := m.allocated capacity n) (by rwa [heq]) (by rwa [heq])
  have hsize : (m.allocated capacity n).slots.size = n + m.slots.size := by
    rw [heq, Array.size_append, Array.size_replicate, Nat.add_comm]
  rw [allocated_succ, hnext, hsize]

theorem segment?_allocated {h : Handle} (hlt : h.toNat < m.slots.size) :
    (m.allocated capacity n).segment? h = m.segment? h := by
  rw [segment?, allocated_eq hadmits hpop, Array.getElem?_append_left hlt, segment?]

end Exhaustion

theorem handle_new_iff [Host] (program : List Word) (ops : List Op) {capacity : Word} {h : Handle}
    {m' : Memory} (hallocate : (after program ops).allocate capacity = (.ok h, m')) :
    (h ≠ 0 ∧ (after program ops).segment? h = none ∧ m'.segment h = .ok (zeros capacity) ↔
      (after program ops).pool.toList ≠ [] ∨ m'.minted < 2 ^ 32) ∧
    ((after program ops).pool.toList = [] → 2 ^ 32 ≤ m'.minted →
      ∃ s, (after program ops).segment h = .ok s ∧ m'.segment h = .ok s) := by
  have hm := (history program ops).consistent
  have hp : (after program ops).Performs (.allocate capacity) (.handle h) m' :=
    performs_of_ok (by rw [perform, hallocate]; rfl)
  simp only [segment_eq_ok_iff]
  refine ⟨⟨?_, hp.new_handle hm⟩, hp.old_handle hm⟩
  rintro ⟨-, hnone, -⟩
  by_contra hfull
  rw [not_or, not_not, Nat.not_lt] at hfull
  obtain ⟨s, hs, -⟩ := hp.old_handle hm hfull.1 hfull.2
  rw [hnone] at hs
  cases hs

open Host

theorem handle_new_iff_of_release :
    (after [7] [.allocate 2, .allocate 3, .free 1]).pool.toList ≠ [] ∧
      ((after [7] [.allocate 2, .allocate 3, .free 1]).allocate 4).1 = .ok 1 ∧
      ((after [7] [.allocate 2, .allocate 3, .free 1]).allocate 4).2.segment 1 =
        .ok #[0, 0, 0, 0] := by
  have hleft : (after [7] [.allocate 2, .allocate 3, .free 1]).pool.toList ≠ [] := by decide
  have hallocate : (after [7] [.allocate 2, .allocate 3, .free 1]).allocate 4 =
      (.ok 1, ((after [7] [.allocate 2, .allocate 3, .free 1]).allocate 4).2) := rfl
  obtain ⟨-, -, hnew⟩ := (handle_new_iff [7] _ hallocate).1.mpr (.inl hleft)
  exact ⟨hleft, rfl, hnew⟩

theorem handle_zero_of_exhaustion :
    ((after [7] (List.replicate (2 ^ 32 - 1) (.allocate 0))).allocate 0).1 = .ok 0 ∧
      (after [7] (List.replicate (2 ^ 32 - 1) (.allocate 0))).segment 0 = .ok #[7] ∧
      ((after [7] (List.replicate (2 ^ 32 - 1) (.allocate 0))).allocate 0).2.segment 0 =
        .ok #[7] := by
  have hadmits : (ofProgram [7]).Admits 0 := by decide
  have hpop : (ofProgram [7]).pool.pop? = none := rfl
  have hmemory : after [7] (List.replicate (2 ^ 32 - 1) (.allocate 0)) =
      (ofProgram [7]).allocated 0 (2 ^ 32 - 1) := rfl
  have hlt : (0 : Handle).toNat < (ofProgram [7]).slots.size := Nat.one_pos
  simp only [hmemory, allocate_allocated hadmits hpop, segment_eq_ok_iff,
    segment?_allocated hadmits hpop _ hlt]
  exact ⟨rfl, rfl, rfl⟩

end UniversalMachine.Memory
