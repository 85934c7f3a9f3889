import Mathlib.Logic.Function.Basic
import UniversalMachine.Proofs.Memory.Consistent

namespace UniversalMachine.Standard

structure Store where
  arrays : Handle → Option (List Word)
  freed : List Handle
  next : Nat

namespace Store

def start (program : List Word) : Store where
  arrays := Function.update (fun _ => none) 0 (some program)
  freed := []
  next := 1

def read (s : Store) (h : Handle) (offset : Word) : Except MemoryError Word :=
  match s.arrays h with
  | none => .error (.unallocated h)
  | some ws =>
    match ws[offset.toNat]? with
    | some w => .ok w
    | none => .error (.outOfBounds h offset ws.length)

def write (s : Store) (h : Handle) (offset w : Word) : Except MemoryError (Unit × Store) :=
  match s.arrays h with
  | none => .error (.unallocated h)
  | some ws =>
    if offset.toNat < ws.length then
      .ok ((), { s with arrays := Function.update s.arrays h (some (ws.set offset.toNat w)) })
    else .error (.outOfBounds h offset ws.length)

def allocate (s : Store) (limit : Nat) (capacity : Word) : Except MemoryError (Handle × Store) :=
  let zeros := List.replicate capacity.toNat 0
  if capacity.toNat ≤ limit then
    match s.freed with
    | h :: freed => .ok (h, { s with arrays := Function.update s.arrays h (some zeros), freed })
    | [] =>
      let h := .ofNat s.next
      .ok (h, { s with arrays := Function.update s.arrays h (some zeros), next := s.next + 1 })
  else .error (.allocationFailed capacity)

def free (s : Store) (h : Handle) : Except MemoryError (Unit × Store) :=
  if h = 0 then .error .freeProgram
  else
    match s.arrays h with
    | some _ =>
      .ok ((), { s with arrays := Function.update s.arrays h none, freed := s.freed ++ [h] })
    | none => .error (if h.toNat < s.next then .alreadyFree h else .neverAllocated h)

def load (s : Store) (h : Handle) : Except MemoryError (Unit × Store) :=
  if h = 0 then .ok ((), s)
  else
    match s.arrays h with
    | none => .error (.unallocated h)
    | some ws => .ok ((), { s with arrays := Function.update s.arrays 0 (some ws) })

end Store

end UniversalMachine.Standard

namespace UniversalMachine.Memory

open Standard

def store (m : Memory) : Store where
  arrays h := (m.segment? h).map Array.toList
  freed := m.pool.toList
  next := m.slots.size

def outcome {α : Type} (r : Except MemoryError α × Memory) : Except MemoryError (α × Store) :=
  r.1.map fun a => (a, r.2.store)

theorem store_ofProgram (program : List Word) : (ofProgram program).store = .start program := by
  rw [store, Store.start, Store.mk.injEq]
  refine ⟨?_, rfl, rfl⟩
  funext h
  rw [Function.update_apply]
  by_cases h0 : h = 0
  · rw [if_pos h0, h0, segment?_ofProgram, Option.map_some]
  · have hlt : (ofProgram program).slots.size ≤ h.toNat :=
      Nat.pos_of_ne_zero fun hz => h0 (UInt32.toNat_inj.mp hz)
    rw [if_neg h0, segment?, Array.getElem?_eq_none hlt]
    rfl

section Squares

variable {m : Memory} {h : Handle} {s : Segment}

theorem arrays_of_some (hs : m.segment? h = some s) : m.store.arrays h = some s.toList := by
  simp [store, hs]

theorem arrays_of_none (hs : m.segment? h = none) : m.store.arrays h = none := by
  simp [store, hs]

theorem store_put (hlt : h.toNat < m.slots.size) (s : Option Segment) :
    (m.put h s).store = { m.store with
      arrays := Function.update m.store.arrays h (s.map Array.toList) } := by
  rw [store, Store.mk.injEq]
  refine ⟨?_, rfl, size_put m h s⟩
  funext h'
  simp only [segment?_put hlt, Function.update_apply]
  split <;> rfl

theorem store_setPool (m : Memory) (pool : Fifo Handle) :
    (m.setPool pool).store = { m.store with freed := pool.toList } := rfl

theorem store_grow (hsize : m.slots.size < 2 ^ 32) (s : Segment) :
    (m.grow s).store = { m.store with
      arrays := Function.update m.store.arrays (.ofNat m.store.next) (some s.toList)
      next := m.store.next + 1 } := by
  rw [store, Store.mk.injEq]
  refine ⟨?_, rfl, size_grow m s⟩
  funext h'
  have hnext : (UInt32.ofNat m.store.next).toNat = m.slots.size :=
    UInt32.toNat_ofNat_of_lt' hsize
  simp only [segment?_grow, Function.update_apply, ← UInt32.toNat_inj, hnext]
  split <;> rfl

theorem read_store (m : Memory) (h : Handle) (offset : Word) :
    m.store.read h offset = m.read h offset := by
  cases hs : m.segment? h with
  | none => simp only [Store.read, read, arrays_of_none hs, hs]
  | some s =>
    cases hw : s[offset.toNat]? with
    | none =>
      simp only [Store.read, read, arrays_of_some hs, hs, Array.getElem?_toList, hw,
        Array.length_toList]
    | some w => simp only [Store.read, read, arrays_of_some hs, hs, Array.getElem?_toList, hw]

theorem write_store (m : Memory) (h : Handle) (offset w : Word) :
    m.store.write h offset w = outcome (m.write h offset w) := by
  rw [write_eq, Store.write]
  cases hs : m.segment? h with
  | none => rw [arrays_of_none hs]; rfl
  | some s =>
    simp only [arrays_of_some hs, Array.length_toList]
    split
    · rw [outcome, Except.map, store_put (lt_size_of_segment? hs), Option.map_some,
        Array.toList_setIfInBounds]
    · rfl

theorem free_store (m : Memory) (h : Handle) : m.store.free h = outcome (m.free h) := by
  rw [free_eq, Store.free]
  split
  · rfl
  · cases hs : m.segment? h with
    | none =>
      simp only [arrays_of_none hs]
      by_cases hlt : h.toNat < m.slots.size
      · rw [if_pos hlt, if_pos (show h.toNat < m.store.next from hlt)]
        rfl
      · rw [if_neg hlt, if_neg (show ¬h.toNat < m.store.next from hlt)]
        rfl
    | some s =>
      simp only [arrays_of_some hs]
      rw [outcome, Except.map, store_setPool, store_put (lt_size_of_segment? hs), Fifo.toList_push]
      rfl

theorem load_store (hm : Consistent m) (h : Handle) :
    m.store.load h = outcome (m.replaceProgram h) := by
  rw [replaceProgram_eq, Store.load]
  split
  · rfl
  · cases hs : m.segment? h with
    | none => simp only [arrays_of_none hs]; rfl
    | some s =>
      have hzero : (0 : Handle).toNat < m.slots.size := hm.size_pos
      simp only [arrays_of_some hs]
      rw [outcome, Except.map, store_put hzero]
      rfl

theorem allocate_store [Host] (hm : Consistent m) (hbacked : BackedUpTo m.limit) (capacity : Word)
    (hsize : (m.allocate capacity).2.slots.size ≤ 2 ^ 32) :
    m.store.allocate m.limit capacity = outcome (m.allocate capacity) := by
  simp only [allocate_eq, admits_iff hbacked] at hsize ⊢
  rw [Store.allocate]
  split
  · next hle =>
    rw [if_pos hle] at hsize
    cases hpop : m.pool.pop? with
    | none =>
      have hfreed : m.store.freed = [] := Fifo.pop?_eq_none_iff.mp hpop
      rw [hpop, size_grow] at hsize
      simp only [hfreed]
      rw [outcome, Except.map, store_grow hsize, zeros, Array.toList_replicate, ← hfreed]
      rfl
    | some popped =>
      have hpool := Fifo.toList_of_pop? hpop
      have hfreed : m.store.freed = popped.1 :: popped.2.toList := hpool
      have hlt := hm.lt_size_of_mem (hpool ▸ List.mem_cons_self)
      simp only [hfreed]
      rw [outcome, Except.map, store_setPool, store_put hlt, zeros, Option.map_some,
        Array.toList_replicate]
  · rfl

end Squares

end UniversalMachine.Memory
