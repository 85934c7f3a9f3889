import UniversalMachine.Word

namespace UniversalMachine

abbrev Register := Fin 8

namespace Register

def ofField (w : Word) : Register :=
  ⟨(w % 8).toNat, by have := w.toNat_lt; simp only [UInt32.toNat_mod]; exact Nat.mod_lt _ (by decide)⟩

@[simp] theorem val_ofField (w : Word) : (ofField w).val = w.toNat % 8 := rfl

def text (r : Register) : String := "R" ++ Nat.repr r.val

end Register

abbrev Registers := Vector Word 8

def Registers.zero : Registers := Vector.replicate 8 0

def Registers.put (registers : Registers) (r : Register) (w : Word) : Registers :=
  registers.setIfInBounds r w

@[simp] theorem Registers.get_zero (r : Register) : Registers.zero.get r = 0 := by
  simp [Registers.zero, Vector.get]

theorem Registers.get_put (registers : Registers) (r : Register) (w : Word) (r' : Register) :
    (registers.put r w).get r' = if r' = r then w else registers.get r' := by
  change (registers.setIfInBounds r w)[r'.val] = if r' = r then w else registers[r'.val]
  rw [Vector.getElem_setIfInBounds r'.isLt]
  simp only [Fin.ext_iff, eq_comm]

theorem Registers.put_get (registers : Registers) (r : Register) :
    registers.put r (registers.get r) = registers := by
  apply Vector.ext
  intro i hi
  have h := registers.get_put r (registers.get r) ⟨i, hi⟩
  split at h
  · next hr => rw [← hr] at h ⊢; exact h
  · exact h

end UniversalMachine
