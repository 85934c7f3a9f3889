import UniversalMachine.Proofs.Memory.Program

namespace UniversalMachine.Memory

def append (m : Memory) (q : Segment) : Memory := m.put 0 ((m.segment? 0).map (· ++ q))

variable {m : Memory} {q : Segment} {h : Handle}

@[simp] theorem append_setLimit (m : Memory) (q : Segment) (limit : Nat) :
    (m.append q).setLimit limit = (m.setLimit limit).append q := rfl

theorem append_put_zero (m : Memory) (q : Segment) (s : Option Segment) :
    (m.append q).put 0 s = m.put 0 s := put_put m 0 _ s

theorem read_added {s : Segment} (hs : m.segment? 0 = some s) {q : List Word} {w offset : Word}
    (hw : w ∈ q.head?) (hoffset : offset.toNat = s.size) :
    (m.put 0 (some (s ++ q.toArray))).read 0 offset = .ok w := by
  have hget : (s ++ q.toArray)[s.size]? = some w := by
    rw [Array.getElem?_append_right (Nat.le_refl _), Nat.sub_self, List.getElem?_toArray,
      ← List.head?_eq_getElem?]
    exact hw
  rw [read, segment?_put (lt_size_of_segment? hs), if_pos rfl]
  simp only [hoffset, hget]

theorem ofProgram_append (p q : List Word) :
    ofProgram (p ++ q) = (ofProgram p).append q.toArray := by
  simp [ofProgram, append, put, segment?]

namespace Consistent

variable (hm : Consistent m)
include hm

theorem segment?_append (q : Segment) (h : Handle) :
    (m.append q).segment? h = if h = 0 then (m.segment? 0).map (· ++ q) else m.segment? h :=
  hm.segment?_put_zero _ h

theorem perform_append_of_spares [Host] {op : Op} (hop : m.Spares op) :
    (m.append q).perform op = ((m.perform op).1, (m.perform op).2.append q) := by
  rw [append, hm.perform_put_zero _ hop, append, hm.segment?_zero_perform hop]

theorem read_append_zero {offset : Word}
    (hin : ∀ size, m.read 0 offset ≠ .error (.outOfBounds 0 offset size)) :
    (m.append q).read 0 offset = m.read 0 offset := by
  obtain ⟨s, hs⟩ := hm.program
  unfold read at hin ⊢
  simp only [hm.segment?_append, hs, if_true, Option.map_some] at hin ⊢
  cases hw : s[offset.toNat]? with
  | none => simp [hw] at hin
  | some w => rw [Array.getElem?_append_left (Array.getElem?_eq_some_iff.mp hw).1, hw]

theorem write_append_zero {offset w : Word}
    (hin : ∀ size, (m.write 0 offset w).1 ≠ .error (.outOfBounds 0 offset size)) :
    (m.append q).write 0 offset w =
      ((m.write 0 offset w).1, (m.write 0 offset w).2.append q) := by
  obtain ⟨s, hs⟩ := hm.program
  rw [write_eq] at hin
  rw [write_eq, write_eq, hm.segment?_append]
  simp only [hs, if_true, Option.map_some] at hin ⊢
  by_cases hlt : offset.toNat < s.size
  · have hlt' : offset.toNat < (s ++ q).size := by
      rw [Array.size_append]
      omega
    rw [if_pos hlt, if_pos hlt', append_put_zero, Array.setIfInBounds_append_left hlt]
    simp only [append, hm.segment?_zero_put_zero, Option.map_some, put_put]
  · simp [hlt] at hin

theorem replaceProgram_append {s : Segment} (h0 : h ≠ 0) (hs : m.segment? h = some s) :
    (m.append q).replaceProgram h = m.replaceProgram h := by
  simp only [replaceProgram_eq, if_neg h0, hm.segment?_append, hs, append_put_zero]

end Consistent

def Replaces (m : Memory) : Op → Prop
  | .replaceProgram h => h ≠ 0 ∧ ∃ s, m.segment? h = some s
  | _ => False

variable [Host] {op : Op}

theorem Consistent.perform_append_of_replaces (hm : Consistent m) (hop : m.Replaces op) :
    (m.append q).perform op = m.perform op := by
  cases op with
  | replaceProgram h =>
    obtain ⟨h0, s, hs⟩ := hop
    simp only [Memory.perform, hm.replaceProgram_append h0 hs]
  | _ => exact hop.elim

theorem Performs.size_program {m' : Memory} {a : Answer} (hp : m.Performs op a m')
    (hm : Consistent m) (hkept : ¬m.Replaces op) :
    (m'.segment? 0).map Array.size = (m.segment? 0).map Array.size := by
  cases hp with
  | reuse _ hpop =>
    have hmem := Fifo.toList_of_pop? hpop ▸ List.mem_cons_self
    rw [segment?_setPool, segment?_put (hm.lt_size_of_mem hmem),
      if_neg (hm.ne_zero_of_mem hmem).symm]
  | mint =>
    have h0 : (0 : Handle).toNat ≠ m.slots.size := Nat.ne_of_lt hm.size_pos
    rw [segment?_grow, if_neg h0]
  | free h0 hs => rw [segment?_setPool, segment?_put (lt_size_of_segment? hs), if_neg h0.symm]
  | write hs _ =>
    rw [segment?_put (lt_size_of_segment? hs)]
    split
    · next h0 => simp [h0, hs]
    · rfl
  | copy h0 hs => exact absurd ⟨h0, _, hs⟩ hkept
  | keep | setLimit | read | segment | program => rfl

theorem Consistent.size_program_perform (hm : Consistent m) (hkept : ¬m.Replaces op) :
    ((m.perform op).2.segment? 0).map Array.size = (m.segment? 0).map Array.size := by
  cases hp : m.perform op with
  | mk result m' =>
    cases result with
    | error e => rw [perform_of_error hp]
    | ok a => exact (performs_of_ok hp).size_program hm hkept

end UniversalMachine.Memory
