import UniversalMachine.Proofs.Memory.Consistent

namespace UniversalMachine.Memory

def size? (m : Memory) (i : Nat) : Option Nat := m.slots[i]?.join.map Array.size

variable {m m' : Memory} {h : Handle} {s : Segment} {i : Nat}

theorem size?_toNat (m : Memory) (h : Handle) :
    m.size? h.toNat = (m.segment? h).map Array.size := rfl

theorem size?_of_segment? (hs : m.segment? h = some s) : m.size? h.toNat = some s.size := by
  rw [size?_toNat, hs, Option.map_some]

theorem size?_put_self (hlt : h.toNat < m.slots.size) (s : Option Segment) :
    (m.put h s).size? h.toNat = s.map Array.size := by
  rw [size?, getElem?_put hlt, if_pos rfl]
  rfl

theorem size?_put_of_ne (hne : i ≠ h.toNat) (s : Option Segment) :
    (m.put h s).size? i = m.size? i := by
  simp only [size?, put, Array.getElem?_setIfInBounds_ne hne.symm]

theorem size?_grow_self (m : Memory) (s : Segment) :
    (m.grow s).size? m.slots.size = some s.size := by
  rw [size?, getElem?_grow, if_pos rfl]
  rfl

theorem size?_grow_of_ne (hne : i ≠ m.slots.size) (s : Segment) :
    (m.grow s).size? i = m.size? i := by
  rw [size?, getElem?_grow, if_neg hne, size?]

@[simp] theorem size_zeros (capacity : Word) : (zeros capacity).size = capacity.toNat :=
  Array.size_replicate

inductive Resizes (m : Memory) (i : Nat) (m' : Memory) : Op → Answer → Prop
  | keep {op a} : m'.size? i = m.size? i → Resizes m i m' op a
  | free {h a} : h.toNat = i → m'.size? i = none → Resizes m i m' (.free h) a
  | allocate {capacity} : capacity.toNat ≤ m.limit → m.size? i = none →
      m'.size? i = some capacity.toNat → Resizes m i m' (.allocate capacity) (.handle (.ofNat i))

theorem Performs.resizes [Host] {op : Op} {a : Answer} (hp : m.Performs op a m') (hm : Consistent m)
    (hi : i ≠ 0) : m.Resizes i m' op a := by
  cases hp with
  | @reuse capacity h pool hadmits hpop =>
    have hmem : h ∈ m.pool.toList := Fifo.toList_of_pop? hpop ▸ List.mem_cons_self
    obtain rfl | hne := eq_or_ne i h.toNat
    · have hnone : m.size? h.toNat = none := by rw [size?_toNat, hm.segment?_of_mem hmem]; rfl
      have hsize := size?_put_self (hm.lt_size_of_mem hmem) (some (zeros capacity))
      rw [Option.map_some, size_zeros] at hsize
      have hresizes : m.Resizes h.toNat ((m.put h (some (zeros capacity))).setPool pool)
          (.allocate capacity) (.handle (.ofNat h.toNat)) := .allocate hadmits.1 hnone hsize
      rwa [UInt32.ofNat_toNat] at hresizes
    · exact .keep (size?_put_of_ne hne _)
  | @mint capacity hadmits _ =>
    obtain rfl | hne := eq_or_ne i m.slots.size
    · have hnone : m.size? m.slots.size = none := by simp [size?]
      exact .allocate hadmits.1 hnone ((size?_grow_self m _).trans (by rw [size_zeros]))
    · exact .keep (size?_grow_of_ne hne _)
  | @free h s _ hs =>
    obtain rfl | hne := eq_or_ne i h.toNat
    · exact .free rfl (size?_put_self (lt_size_of_segment? hs) none)
    · exact .keep (size?_put_of_ne hne _)
  | @write h offset w s hs _ =>
    obtain rfl | hne := eq_or_ne i h.toNat
    · refine .keep ((size?_put_self (lt_size_of_segment? hs) _).trans ?_)
      rw [size?_of_segment? hs, Option.map_some, Array.size_setIfInBounds]
    · exact .keep (size?_put_of_ne hne _)
  | copy => exact .keep (size?_put_of_ne hi _)
  | keep | setLimit | read | segment | program => exact .keep rfl

end UniversalMachine.Memory
