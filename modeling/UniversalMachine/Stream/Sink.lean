import UniversalMachine.Stream.Error
/-! Sinks of bytes. A sink may accept a part of what it is offered, or fail; `writeAll` offers the
rest again until all is accepted or the sink fails for good. -/

universe u

namespace UniversalMachine

class Outlet (σ : Type u) where
  write : σ → List UInt8 → Except StreamError Nat × σ
  flush : σ → Except StreamError Unit × σ
  write_le : ∀ (s : σ) (bytes : List UInt8) (n : Nat), (write s bytes).1 = .ok n → n ≤ bytes.length

/-- An outlet that is not interrupted forever: `patience` bounds the interruptions still to come, so
that repeating an interrupted attempt ends. -/
class Sink (σ : Type u) extends Outlet σ where
  patience : σ → Nat
  patience_write_le : ∀ (s : σ) (bytes : List UInt8), patience (write s bytes).2 ≤ patience s
  patience_write_lt : ∀ (s : σ) (bytes : List UInt8),
    (write s bytes).1 = .error .interrupted → patience (write s bytes).2 < patience s
  patience_flush_le : ∀ s : σ, patience (flush s).2 ≤ patience s
  patience_flush_lt : ∀ s : σ,
    (flush s).1 = .error .interrupted → patience (flush s).2 < patience s

namespace Sink

export Outlet (write flush write_le)

variable {σ : Type u} [Sink σ]

def writeAll (s : σ) (bytes : List UInt8) : Except StreamError Unit × σ :=
  if bytes = [] then (.ok (), s)
  else
    match _h : write s bytes with
    | (.ok n, s') => if n = 0 then (.error .writeZero, s') else writeAll s' (bytes.drop n)
    | (.error e, s') => if e = .interrupted then writeAll s' bytes else (.error e, s')
termination_by patience s + bytes.length
decreasing_by
  · have hle := patience_write_le s bytes
    have hlt := List.length_pos_iff.mpr ‹bytes ≠ []›
    simp only [_h] at hle
    simp only [List.length_drop]
    omega
  · have hlt := patience_write_lt s bytes
    simp_all

end Sink

end UniversalMachine
