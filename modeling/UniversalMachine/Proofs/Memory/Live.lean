import UniversalMachine.Proofs.Memory.Consistent

namespace UniversalMachine.Memory

variable {m m' : Memory} {h : Handle} {s : Segment}

theorem live_fill (he : m.slots[h.toNat]? = some none) (s : Segment) :
    (m.put h (some s)).live = m.live + 1 := by
  obtain ⟨hlt, hslot⟩ := Array.getElem?_eq_some_iff.mp he
  simp [live, put, Array.setIfInBounds, hlt, Array.countP_set, hslot]

theorem live_replace (hs : m.segment? h = some s) (s' : Option Segment) :
    (m.put h s').live + 1 = m.live + if s'.isSome then 1 else 0 := by
  obtain ⟨hlt, hslot⟩ := Array.getElem?_eq_some_iff.mp (segment?_eq_some_iff.mp hs)
  have hpos : 0 < m.slots.countP Option.isSome :=
    Array.countP_pos_iff.mpr ⟨some s, Array.mem_of_getElem hslot, rfl⟩
  simp only [live, put, Array.setIfInBounds, hlt, dif_pos, Array.countP_set, hslot]
  simp only [Option.isSome_some, if_true]
  omega

theorem live_put (hs : m.segment? h = some s) (s' : Segment) :
    (m.put h (some s')).live = m.live := by
  simpa using live_replace hs (some s')

theorem live_clear (hs : m.segment? h = some s) : (m.put h none).live + 1 = m.live := by
  simpa using live_replace hs none

@[simp] theorem live_grow (m : Memory) (s : Segment) : (m.grow s).live = m.live + 1 := by
  simp [live, grow]

@[simp] theorem live_setPool (m : Memory) (pool : Fifo Handle) : (m.setPool pool).live = m.live := rfl

variable [Host]

theorem Performs.live_slots {op : Op} {a : Answer} (hp : m.Performs op a m') (hm : Consistent m)
    (hl : m.live + m.pool.toList.length = m.slots.size) :
    m'.live + m'.pool.toList.length = m'.slots.size := by
  cases hp with
  | reuse _ hpop =>
    have hpool := Fifo.toList_of_pop? hpop
    have hempty := hm.getElem?_of_mem (hpool ▸ List.mem_cons_self)
    rw [hpool, List.length_cons] at hl
    rw [live_setPool, live_fill hempty, pool_setPool, slots_setPool, size_put]
    omega
  | mint =>
    rw [live_grow, pool_grow, size_grow]
    omega
  | free _ hs =>
    have hclear := live_clear hs
    rw [live_setPool, pool_setPool, Fifo.toList_push, List.length_append, List.length_singleton,
      slots_setPool, size_put]
    omega
  | write hs _ =>
    rw [live_put hs, pool_put, size_put]
    exact hl
  | copy _ _ =>
    obtain ⟨s₀, hs₀⟩ := hm.program
    rw [live_put hs₀, pool_put, size_put]
    exact hl
  | keep | setLimit | read | segment | program => exact hl

theorem Performs.live_count {op : Op} {a : Answer} (hp : m.Performs op a m') (hm : Consistent m) :
    m'.live + (Moment.mk m op (.ok a)).freed?.toList.length =
      m.live + (Moment.mk m op (.ok a)).handed?.toList.length := by
  cases hp with
  | reuse _ hpop =>
    have hpool := Fifo.toList_of_pop? hpop
    have hempty := hm.getElem?_of_mem (hpool ▸ List.mem_cons_self)
    rw [live_setPool, live_fill hempty]
    rfl
  | mint => rw [live_grow]; rfl
  | free _ hs => exact live_clear hs
  | write hs _ => rw [live_put hs]; rfl
  | copy _ _ =>
    obtain ⟨s₀, hs₀⟩ := hm.program
    rw [live_put hs₀]
    rfl
  | keep | setLimit | read | segment | program => rfl

theorem History.live_slots {program : List Word} {past : List Moment}
    (h : History program past m) : m.live + m.pool.toList.length = m.slots.size := by
  induction h with
  | start => rfl
  | refuse _ _ ih => exact ih
  | perform h hp ih => exact hp.live_slots h.consistent ih

theorem History.live_count {program : List Word} {past : List Moment}
    (h : History program past m) :
    m.live + (freed past).length = 1 + (handed past).length := by
  induction h with
  | start => rfl
  | refuse _ _ ih => simpa using ih
  | perform h hp ih =>
    have hstep := hp.live_count h.consistent
    rw [handed_cons, freed_cons, List.length_append, List.length_append]
    omega

end UniversalMachine.Memory
