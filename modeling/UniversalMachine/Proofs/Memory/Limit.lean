import UniversalMachine.Proofs.Memory.Refuses

namespace UniversalMachine.Memory

variable {m : Memory} {limit : Nat}

theorem write_setLimit (m : Memory) (limit : Nat) (h : Handle) (offset w : Word) :
    (m.setLimit limit).write h offset w =
      ((m.write h offset w).1, (m.write h offset w).2.setLimit limit) := by
  rw [write_eq, write_eq, segment?_setLimit]
  cases m.segment? h with
  | none => rfl
  | some s =>
    dsimp only
    split <;> rfl

theorem free_setLimit (m : Memory) (limit : Nat) (h : Handle) :
    (m.setLimit limit).free h = ((m.free h).1, (m.free h).2.setLimit limit) := by
  have hpool : (m.setLimit limit).pool = m.pool := rfl
  have hslots : (m.setLimit limit).slots = m.slots := rfl
  rw [free_eq, free_eq, segment?_setLimit, hpool, hslots]
  split
  · rfl
  · cases m.segment? h with
    | some s => rfl
    | none =>
      dsimp only
      split <;> rfl

theorem replaceProgram_setLimit (m : Memory) (limit : Nat) (h : Handle) :
    (m.setLimit limit).replaceProgram h =
      ((m.replaceProgram h).1, (m.replaceProgram h).2.setLimit limit) := by
  rw [replaceProgram_eq, replaceProgram_eq, segment?_setLimit]
  split
  · rfl
  · cases m.segment? h <;> rfl

variable [Host]

theorem Admits.setLimit {capacity : Word} (hm : m.Admits capacity) (hle : m.limit ≤ limit) :
    (m.setLimit limit).Admits capacity :=
  ⟨Nat.le_trans hm.1 hle, hm.2⟩

theorem allocate_setLimit {capacity : Word} (hm : m.Admits capacity) (hle : m.limit ≤ limit) :
    (m.setLimit limit).allocate capacity =
      ((m.allocate capacity).1, (m.allocate capacity).2.setLimit limit) := by
  have hpool : (m.setLimit limit).pool = m.pool := rfl
  rw [allocate_eq, allocate_eq, if_pos (hm.setLimit hle), if_pos hm, hpool]
  cases m.pool.pop? <;> rfl

theorem perform_setLimit {op : Op} (hop : ∀ limit', op ≠ .setLimit limit')
    (hle : m.limit ≤ limit)
    (hin : ∀ capacity, (m.perform op).1 ≠ .error (.allocationFailed capacity)) :
    (m.setLimit limit).perform op = ((m.perform op).1, (m.perform op).2.setLimit limit) := by
  cases op with
  | allocate capacity =>
    have hm : m.Admits capacity :=
      Decidable.byContradiction fun hrefused => hin capacity (Refuses.allocate hrefused).perform
    simp only [perform, allocate_setLimit hm hle]
  | free h => simp only [perform, free_setLimit]
  | write h offset w => simp only [perform, write_setLimit]
  | replaceProgram h => simp only [perform, replaceProgram_setLimit]
  | read | segment | program => rfl
  | setLimit limit' => exact absurd rfl (hop limit')

end UniversalMachine.Memory
