import UniversalMachine.Proofs.Memory.Consistent

namespace UniversalMachine.Memory

def reused : List Moment → List Handle
  | [] => []
  | r :: past => reused past ++ (r.handed?.filter (· ∈ handed past)).toList

def fresh : List Moment → List Handle
  | [] => []
  | r :: past => fresh past ++ (r.handed?.filter (· ∉ handed past)).toList

structure Ordered (past : List Moment) (m : Memory) : Prop where
  mem_handed_iff : ∀ h, h ∈ handed past ↔ h ≠ 0 ∧ h.toNat < m.slots.size
  freed_eq : freed past = reused past ++ m.pool.toList
  fresh_eq : (fresh past).map UInt32.toNat = List.range' 1 m.minted

namespace Ordered

variable {past : List Moment} {m m' : Memory}

theorem start (program : List Word) : Ordered [] (ofProgram program) where
  mem_handed_iff h := by
    have hsize : (ofProgram program).slots.size = 1 := rfl
    rw [hsize, Nat.lt_one_iff, ne_eq, ← UInt32.toNat_inj]
    simp
  freed_eq := rfl
  fresh_eq := rfl

theorem quiet {r : Moment} (ho : Ordered past m) (hhanded : r.handed? = none)
    (hfreed : r.freed? = none) (hpool : m'.pool = m.pool) (hsize : m'.slots.size = m.slots.size) :
    Ordered (r :: past) m' where
  mem_handed_iff h := by
    rw [handed_cons, hhanded, hsize, ← ho.mem_handed_iff]
    simp
  freed_eq := by
    rw [freed_cons, hfreed, reused, hhanded, hpool]
    simpa using ho.freed_eq
  fresh_eq := by
    rw [fresh, hhanded, minted, hsize]
    simpa [minted] using ho.fresh_eq

theorem reuse {capacity : Word} {h : Handle} {pool : Fifo Handle} (ho : Ordered past m)
    (hm : Consistent m) (hpop : m.pool.pop? = some (h, pool)) (s : Segment) :
    Ordered (⟨m, .allocate capacity, .ok (.handle h)⟩ :: past) ((m.put h (some s)).setPool pool) := by
  have hpool := Fifo.toList_of_pop? hpop
  have hmem : h ∈ m.pool.toList := hpool ▸ List.mem_cons_self
  have h0 := hm.ne_zero_of_mem hmem
  have hlt := hm.lt_size_of_mem hmem
  have hhanded : h ∈ handed past := (ho.mem_handed_iff h).mpr ⟨h0, hlt⟩
  constructor
  · intro h'
    rw [handed_cons, List.mem_append, ho.mem_handed_iff, slots_setPool, size_put]
    constructor
    · rintro (hold | hnew)
      · exact hold
      · obtain rfl : h' = h := by simpa [Moment.handed?] using hnew
        exact ⟨h0, hlt⟩
    · exact .inl
  · rw [freed_cons, reused, ho.freed_eq, hpool]
    simp [Moment.handed?, Moment.freed?, Option.filter_some, hhanded]
  · rw [fresh]
    simpa [Moment.handed?, Option.filter_some, hhanded, minted] using ho.fresh_eq

theorem mint {capacity : Word} (ho : Ordered past m) (hm : Consistent m)
    (hsize : m.slots.size < 2 ^ 32) (s : Segment) :
    Ordered (⟨m, .allocate capacity, .ok (.handle (.ofNat m.slots.size))⟩ :: past) (m.grow s) := by
  have hpos := hm.size_pos
  have htoNat : (UInt32.ofNat m.slots.size).toNat = m.slots.size :=
    UInt32.toNat_ofNat_of_lt' hsize
  have hnew : UInt32.ofNat m.slots.size ∉ handed past := by
    rw [ho.mem_handed_iff, htoNat]
    exact fun h => Nat.lt_irrefl _ h.2
  constructor
  · intro h
    rw [handed_cons, List.mem_append, ho.mem_handed_iff, size_grow]
    simp only [Moment.handed?, Option.toList_some, List.mem_singleton, ← UInt32.toNat_inj, htoNat,
      ne_eq, UInt32.toNat_zero]
    omega
  · rw [freed_cons, reused, ho.freed_eq]
    simp [Moment.handed?, Moment.freed?, Option.filter_some, hnew]
  · rw [fresh, List.map_append, ho.fresh_eq, minted, minted, size_grow]
    have hsucc : m.slots.size + 1 - 1 = (m.slots.size - 1) + 1 := by omega
    rw [hsucc, List.range'_1_concat]
    simp [Moment.handed?, Option.filter_some, hnew, htoNat]
    omega

theorem free {h : Handle} (ho : Ordered past m) :
    Ordered (⟨m, .free h, .ok .done⟩ :: past) ((m.put h none).setPool (m.pool.push h)) where
  mem_handed_iff h' := by
    rw [handed_cons]
    simpa [Moment.handed?] using ho.mem_handed_iff h'
  freed_eq := by
    rw [freed_cons, reused, ho.freed_eq]
    simp [Moment.handed?, Moment.freed?]
  fresh_eq := by
    rw [fresh]
    simpa [Moment.handed?, minted] using ho.fresh_eq

theorem performs [Host] {op : Op} {a : Answer} (ho : Ordered past m) (hm : Consistent m)
    (hp : m.Performs op a m') (hsize : m'.slots.size ≤ 2 ^ 32) :
    Ordered (⟨m, op, .ok a⟩ :: past) m' := by
  cases hp with
  | reuse _ hpop => exact ho.reuse hm hpop _
  | mint => exact ho.mint hm (by rwa [size_grow] at hsize) _
  | free => exact ho.free
  | write | copy => exact ho.quiet rfl rfl rfl (size_put ..)
  | keep | setLimit | read | segment | program => exact ho.quiet rfl rfl rfl rfl

end Ordered

theorem History.ordered [Host] {program : List Word} {past : List Moment} {m : Memory}
    (h : History program past m) (hsize : m.slots.size ≤ 2 ^ 32) : Ordered past m := by
  induction h with
  | start => exact .start program
  | refuse e _ ih => exact (ih hsize).quiet (handed?_error ..) (freed?_error ..) rfl rfl
  | perform h hp ih => exact (ih (Nat.le_trans hp.size_le hsize)).performs h.consistent hp hsize

theorem Ordered.length_fresh {past : List Moment} {m : Memory} (ho : Ordered past m) :
    (fresh past).length = m.minted := by
  simpa using congrArg List.length ho.fresh_eq

theorem Performs.handle_eq [Host] {past : List Moment} {m m' : Memory} {capacity : Word} {h : Handle}
    (hp : m.Performs (.allocate capacity) (.handle h) m') (ho : Ordered past m)
    (hm : Consistent m) (hsize : m'.slots.size ≤ 2 ^ 32) :
    (h ∈ handed past ∧ (freed past)[(reused past).length]? = some h) ∨
      freed past = reused past ∧ h.toNat = 1 + (fresh past).length := by
  cases hp with
  | reuse _ hpop =>
    left
    have hpool := Fifo.toList_of_pop? hpop
    have hmem : h ∈ m.pool.toList := hpool ▸ List.mem_cons_self
    have hlt := hm.lt_size_of_mem hmem
    refine ⟨(ho.mem_handed_iff h).mpr ⟨hm.ne_zero_of_mem hmem, hlt⟩, ?_⟩
    rw [ho.freed_eq, hpool]
    simp
  | mint _ hpop =>
    right
    have hpos := hm.size_pos
    rw [size_grow] at hsize
    rw [ho.freed_eq, Fifo.pop?_eq_none_iff.mp hpop, ho.length_fresh, minted,
      UInt32.toNat_ofNat_of_lt' hsize]
    exact ⟨List.append_nil _, by omega⟩

theorem handle_order [Host] (program : List Word) (ops : List Op)
    (hminted : (after program ops).minted < 2 ^ 32) :
    reused (past program ops) <+: freed (past program ops) ∧
    (fresh (past program ops)).map UInt32.toNat =
      List.range' 1 (fresh (past program ops)).length ∧
    (fresh (past program ops)).length = (after program ops).minted ∧
    ∀ capacity h m', (after program ops).allocate capacity = (.ok h, m') → m'.minted < 2 ^ 32 →
      (∀ hr : (reused (past program ops)).length < (freed (past program ops)).length,
        h = (freed (past program ops))[(reused (past program ops)).length]) ∧
      ((freed (past program ops)).length ≤ (reused (past program ops)).length →
        h.toNat = 1 + (fresh (past program ops)).length) ∧
      (h ∉ handed (past program ops) → reused (past program ops) = freed (past program ops)) ∧
      h ≠ 0 ∧ (after program ops).segment? h = none := by
  have hhistory := history program ops
  have ho := hhistory.ordered (size_le_of_minted hminted)
  have hm := hhistory.consistent
  refine ⟨?_, ?_, ho.length_fresh, ?_⟩
  · rw [ho.freed_eq]
    exact List.prefix_append _ _
  · rw [ho.length_fresh]
    exact ho.fresh_eq
  · intro capacity h m' hallocate hminted'
    have hsize := size_le_of_minted hminted'
    have hp : (after program ops).Performs (.allocate capacity) (.handle h) m' :=
      performs_of_ok (by rw [perform, hallocate]; rfl)
    have h0 := hp.handle_ne_zero hm hsize
    have hnone := hp.segment?_handle hm hsize
    rcases hp.handle_eq ho hm hsize with ⟨hhanded, hold⟩ | ⟨heq, hnew⟩
    · refine ⟨?_, ?_, fun hnew => absurd hhanded hnew, h0, hnone⟩
      · intro hr
        rw [List.getElem?_eq_getElem hr] at hold
        exact (Option.some.inj hold).symm
      · intro hr
        rw [List.getElem?_eq_none hr] at hold
        cases hold
    · refine ⟨?_, fun _ => hnew, fun _ => heq.symm, h0, hnone⟩
      intro hr
      exact absurd hr (by simp [heq])

open Host

theorem handle_order_of_two_frees :
    (after [7] [.allocate 1, .allocate 1, .free 2, .free 2, .free 1]).minted < 2 ^ 32 ∧
      ((after [7] [.allocate 1, .allocate 1, .free 2, .free 2, .free 1]).allocate 4).1 = .ok 2 ∧
      (2 : Handle) ≠ 0 := by
  refine ⟨by decide, by decide, ?_⟩
  exact ((handle_order [7] [.allocate 1, .allocate 1, .free 2, .free 2, .free 1] (by decide)).2.2.2
    4 2 _ rfl (by decide)).2.2.2.1

end UniversalMachine.Memory
