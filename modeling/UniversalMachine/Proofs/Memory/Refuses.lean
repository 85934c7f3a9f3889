import UniversalMachine.Proofs.Memory.Performs
/-! Why an operation on the memory fails. `Refuses` lists the reasons as `Performs` lists the ways to
succeed, and an operation has an error exactly if there is such a reason for it. Main statement: the
operations that fail may be left out of a history. -/

namespace UniversalMachine.Memory

inductive Refuses [Host] (m : Memory) : Op → MemoryError → Prop
  | allocate {capacity} : ¬m.Admits capacity →
      Refuses m (.allocate capacity) (.allocationFailed capacity)
  | freeProgram {h} : h = 0 → Refuses m (.free h) .freeProgram
  | freeEmpty {h} : h ≠ 0 → m.segment? h = none → h.toNat < m.slots.size →
      Refuses m (.free h) (.alreadyFree h)
  | freeBeyond {h} : h ≠ 0 → m.slots.size ≤ h.toNat → Refuses m (.free h) (.neverAllocated h)
  | read {h offset} : m.segment? h = none → Refuses m (.read h offset) (.unallocated h)
  | readBeyond {h offset s} : m.segment? h = some s → s.size ≤ offset.toNat →
      Refuses m (.read h offset) (.outOfBounds h offset s.size)
  | write {h offset w} : m.segment? h = none → Refuses m (.write h offset w) (.unallocated h)
  | writeBeyond {h offset w s} : m.segment? h = some s → s.size ≤ offset.toNat →
      Refuses m (.write h offset w) (.outOfBounds h offset s.size)
  | replaceProgram {h} : h ≠ 0 → m.segment? h = none →
      Refuses m (.replaceProgram h) (.unallocated h)
  | segment {h} : m.segment? h = none → Refuses m (.segment h) (.unallocated h)

variable {m : Memory} {op : Op} {e : MemoryError}

theorem segment?_of_size_le {h : Handle} (hle : m.slots.size ≤ h.toNat) : m.segment? h = none := by
  rw [segment?, Array.getElem?_eq_none hle]
  rfl

section Reasons

variable [Host]

theorem refuses_read {h : Handle} {offset : Word} (he : m.read h offset = .error e) :
    m.Refuses (.read h offset) e := by
  rw [Memory.read] at he
  cases hs : m.segment? h with
  | none =>
    simp only [hs] at he
    cases he
    exact .read hs
  | some s =>
    cases hw : s[offset.toNat]? with
    | some w => simp [hs, hw] at he
    | none =>
      simp only [hs, hw] at he
      cases he
      exact .readBeyond hs (Array.getElem?_eq_none_iff.mp hw)

theorem refuses_write {h : Handle} {offset w : Word} (he : (m.write h offset w).1 = .error e) :
    m.Refuses (.write h offset w) e := by
  rw [write_eq] at he
  cases hs : m.segment? h with
  | none =>
    simp only [hs] at he
    cases he
    exact .write hs
  | some s =>
    simp only [hs] at he
    split at he
    · cases he
    · next hge =>
      cases he
      exact .writeBeyond hs (Nat.not_lt.mp hge)

theorem refuses_free {h : Handle} (he : (m.free h).1 = .error e) : m.Refuses (.free h) e := by
  rw [free_eq] at he
  split at he
  · next h0 =>
    cases he
    exact .freeProgram h0
  · next h0 =>
    cases hs : m.segment? h with
    | some s => simp [hs] at he
    | none =>
      simp only [hs] at he
      split at he
      · next hlt =>
        cases he
        exact .freeEmpty h0 hs hlt
      · next hge =>
        cases he
        exact .freeBeyond h0 (Nat.not_lt.mp hge)

theorem refuses_allocate {capacity : Word} (he : (m.allocate capacity).1 = .error e) :
    m.Refuses (.allocate capacity) e := by
  rw [allocate_eq] at he
  split at he
  · cases hp : m.pool.pop? <;> simp [hp] at he
  · next hrefused =>
    cases he
    exact .allocate hrefused

theorem refuses_replaceProgram {h : Handle} (he : (m.replaceProgram h).1 = .error e) :
    m.Refuses (.replaceProgram h) e := by
  rw [replaceProgram_eq] at he
  split at he
  · cases he
  · next h0 =>
    cases hs : m.segment? h with
    | some s => simp [hs] at he
    | none =>
      simp only [hs] at he
      cases he
      exact .replaceProgram h0 hs

theorem refuses_segment {h : Handle} (he : m.segment h = .error e) : m.Refuses (.segment h) e := by
  rw [Memory.segment] at he
  cases hs : m.segment? h with
  | some s => simp [hs] at he
  | none =>
    simp only [hs] at he
    cases he
    exact .segment hs

theorem refuses_of_error (he : (m.perform op).1 = .error e) : m.Refuses op e := by
  cases op with
  | allocate capacity => exact refuses_allocate (error_of_map he)
  | free h => exact refuses_free (error_of_map he)
  | read h offset => exact refuses_read (error_of_map he)
  | write h offset w => exact refuses_write (error_of_map he)
  | replaceProgram h => exact refuses_replaceProgram (error_of_map he)
  | segment h => exact refuses_segment (error_of_map he)
  | program | setLimit => cases he

theorem Refuses.perform (h : m.Refuses op e) : (m.perform op).1 = .error e := by
  cases h with
  | allocate hrefused => simp only [Memory.perform, allocate_eq, if_neg hrefused, Except.map]
  | freeProgram h0 => simp only [Memory.perform, free_eq, if_pos h0, Except.map]
  | freeEmpty h0 hs hlt => simp only [Memory.perform, free_eq, if_neg h0, hs, if_pos hlt, Except.map]
  | freeBeyond h0 hle =>
    simp only [Memory.perform, free_eq, if_neg h0, segment?_of_size_le hle,
      if_neg (Nat.not_lt.mpr hle), Except.map]
  | read hs => simp only [Memory.perform, Memory.read, hs, Except.map]
  | readBeyond hs hle =>
    simp only [Memory.perform, Memory.read, hs, Array.getElem?_eq_none hle, Except.map]
  | write hs => simp only [Memory.perform, write_eq, hs, Except.map]
  | writeBeyond hs hle =>
    simp only [Memory.perform, write_eq, hs, if_neg (Nat.not_lt.mpr hle), Except.map]
  | replaceProgram h0 hs =>
    simp only [Memory.perform, replaceProgram_eq, if_neg h0, hs, Except.map]
  | segment hs => simp only [Memory.perform, Memory.segment, hs, Except.map]

end Reasons

section Successes

variable [Host] {m' : Memory} {a : Answer}

def successes (m : Memory) (ops : List Op) : List (Op × Except MemoryError Answer) :=
  (ops.zip (m.performAll ops).1).filter fun p => p.2.isOk

theorem length_results (m : Memory) (ops : List Op) : (m.performAll ops).1.length = ops.length := by
  induction ops generalizing m with
  | nil => rfl
  | cons op ops ih => simp only [performAll, List.length_cons, ih]

theorem performAll_cons (m : Memory) (op : Op) (ops : List Op) :
    m.performAll (op :: ops) =
      ((m.perform op).1 :: ((m.perform op).2.performAll ops).1,
        ((m.perform op).2.performAll ops).2) := rfl

theorem successes_of_error (h : m.perform op = (.error e, m')) (ops : List Op) :
    m.successes (op :: ops) = m.successes ops := by
  rw [successes, performAll_cons, h, perform_of_error h]
  rfl

theorem successes_of_ok (h : m.perform op = (.ok a, m')) (ops : List Op) :
    m.successes (op :: ops) = (op, .ok a) :: m'.successes ops := by
  rw [successes, performAll_cons, h]
  rfl

/-- Each operation has its result, and those that fail may be left out: the others then have the
results that they had with them, and make the same memory. -/
theorem performAll_successes (m : Memory) (ops : List Op) :
    (m.performAll ops).1.length = ops.length ∧
      m.performAll ((m.successes ops).map Prod.fst) =
        ((m.successes ops).map Prod.snd, (m.performAll ops).2) := by
  refine ⟨length_results m ops, ?_⟩
  induction ops generalizing m with
  | nil => rfl
  | cons op ops ih =>
    cases hp : m.perform op with
    | mk result m' =>
      cases result with
      | error e => rw [successes_of_error hp, ih, performAll_cons, hp, perform_of_error hp]
      | ok a =>
        rw [successes_of_ok hp, List.map_cons, List.map_cons, performAll_cons, performAll_cons, hp,
          ih]

end Successes

open Host

/-- Refusals of all kinds among operations that succeed, some while a freed handle waits to be
given out again. -/
example :
    let ops : List Op := [.setLimit 4, .allocate 3, .allocate 5, .write 1 3 7, .write 1 2 7, .free 2,
      .free 1, .free 1, .allocate 9, .free 0, .replaceProgram 1, .allocate 2, .read 1 2, .read 1 1]
    ((ofProgram []).successes ops).map Prod.fst = [.setLimit 4, .allocate 3, .write 1 2 7, .free 1,
      .allocate 2, .read 1 1] := by
  decide +kernel

end UniversalMachine.Memory
