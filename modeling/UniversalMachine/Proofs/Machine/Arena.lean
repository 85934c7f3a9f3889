import UniversalMachine.Proofs.Machine.Reached
import UniversalMachine.Stream.Script

universe u

namespace UniversalMachine

open Memory

/-- The arena and the pool agree, and the live segments are as many as the slots less the freed
handles, and as the allocations less the releases, with one more for segment 0. Both counts are
sums, so that no difference is cut off at zero. -/
structure Memory.Accounted (past : List Moment) (m : Memory) : Prop extends Consistent m where
  freed_lt : ∀ h ∈ m.pool.toList, h.toNat < m.slots.size
  live_slots : m.live + m.pool.toList.length = m.slots.size
  live_count : m.live + (freed past).length = 1 + (handed past).length

theorem Memory.History.accounted [Host] {program : List Word} {past : List Moment} {m : Memory}
    (h : History program past m) : Accounted past m where
  toConsistent := h.consistent
  freed_lt _ hh := h.consistent.lt_size_of_mem hh
  live_slots := h.live_slots
  live_count := h.live_count

/-- The arena invariant holds after every history of a memory, and in every machine that steps lead
to, however many handles were minted. -/
theorem arena_accounted {σ : Type u} [Sink σ] [Host] :
    (∀ program ops, Accounted (past program ops) (after program ops)) ∧
    ∀ (image : Image) (source : Source) (sink : σ) (ops : List Memory.Op) (m : Machine σ),
      Machine.Reached image source sink ops m → Accounted (past image.words ops) m.memory := by
  constructor
  · intro program ops
    exact (history program ops).accounted
  · intro image source sink ops m hm
    rw [hm.memory_eq]
    exact (history image.words ops).accounted

open Host

theorem arena_accounted_of_release :
    Machine.Reached ⟨[0x80000008, 0x90000001]⟩ [] ScriptedSink.plain
      [.read 0 0, .allocate 0, .read 0 1, .free 1]
      (Machine.load ⟨[0x80000008, 0x90000001]⟩ [] ScriptedSink.plain).step.2.step.2 ∧
    (Machine.load ⟨[0x80000008, 0x90000001]⟩ []
      ScriptedSink.plain).step.2.step.2.memory.pool.toList = [1] ∧
    (Machine.load ⟨[0x80000008, 0x90000001]⟩ []
      ScriptedSink.plain).step.2.step.2.memory.slots[1]? = some none := by
  have hm : Machine.Reached ⟨[0x80000008, 0x90000001]⟩ [] ScriptedSink.plain
      [.read 0 0, .allocate 0, .read 0 1, .free 1]
      (Machine.load ⟨[0x80000008, 0x90000001]⟩ [] ScriptedSink.plain).step.2.step.2 :=
    .step (.step .load)
  refine ⟨hm, by decide, ?_⟩
  exact ((arena_accounted.2 _ _ _ _ _ hm).empty_iff 1).mpr ⟨1, by decide, rfl⟩

end UniversalMachine
