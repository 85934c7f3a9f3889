import Mathlib.Data.Nat.Init
import UniversalMachine.Stream.Script

universe u

namespace UniversalMachine

structure Sink.Recording (σ : Type u) [Outlet σ] where
  accepted : σ → List UInt8
  write_ok : ∀ {s s' : σ} {bytes : List UInt8} {n : Nat}, Sink.write s bytes = (.ok n, s') →
    accepted s' = accepted s ++ bytes.take n
  write_error : ∀ {s s' : σ} {bytes : List UInt8} {e : StreamError},
    Sink.write s bytes = (.error e, s') → accepted s' = accepted s
  flush : ∀ s : σ, accepted (Sink.flush s).2 = accepted s

theorem Sink.Recording.accepted_of_flush {σ : Type u} [Outlet σ] (R : Recording σ) {s s' : σ}
    {flushed : Except StreamError Unit} (hf : Sink.flush s = (flushed, s')) :
    R.accepted s' = R.accepted s := by
  rw [← R.flush s, hf]

namespace Sink.Recording

variable {σ : Type u} [Sink σ] (R : Recording σ)

theorem writeAll (s : σ) (bytes : List UInt8) :
    ∃ n ≤ bytes.length, R.accepted (Sink.writeAll s bytes).2 = R.accepted s ++ bytes.take n ∧
      ((Sink.writeAll s bytes).1 = .ok () ↔ n = bytes.length) := by
  fun_induction Sink.writeAll s bytes with
  | case1 s => exact ⟨0, Nat.le_refl 0, by simp, by simp⟩
  | case2 s bytes hne s' hw =>
    have hpos : 0 ≠ bytes.length := Ne.symm (mt List.length_eq_zero_iff.mp hne)
    exact ⟨0, Nat.zero_le _, R.write_ok hw, iff_of_false nofun hpos⟩
  | case3 s bytes hne n s' hw hn ih =>
    obtain ⟨k, hk, haccepted, hok⟩ := ih
    have hle := Sink.write_le s bytes n (by rw [hw])
    rw [List.length_drop] at hk hok
    refine ⟨n + k, by omega, ?_, by rw [hok]; omega⟩
    rw [haccepted, R.write_ok hw, List.append_assoc, List.take_add]
  | case4 s bytes hne s' hw ih =>
    rw [← R.write_error hw]
    exact ih
  | case5 s bytes hne e s' hw he =>
    have hpos : 0 ≠ bytes.length := Ne.symm (mt List.length_eq_zero_iff.mp hne)
    refine ⟨0, Nat.zero_le _, ?_, iff_of_false nofun hpos⟩
    rw [List.take_zero, List.append_nil]
    exact R.write_error hw

variable {R} {s s' : σ} {b : UInt8}

theorem writeAll_byte_ok (hw : Sink.writeAll s [b] = (.ok (), s')) :
    R.accepted s' = R.accepted s ++ [b] := by
  obtain ⟨n, -, haccepted, hok⟩ := R.writeAll s [b]
  rw [hw] at haccepted hok
  rw [haccepted, hok.mp rfl, List.take_length]

theorem writeAll_byte_error {e : StreamError} (hw : Sink.writeAll s [b] = (.error e, s')) :
    R.accepted s' = R.accepted s := by
  obtain ⟨n, hn, haccepted, hok⟩ := R.writeAll s [b]
  rw [hw] at haccepted hok
  have hlt : n < 1 := Nat.lt_of_le_of_ne hn fun h => nomatch hok.mpr h
  rw [haccepted, Nat.lt_one_iff.mp hlt, List.take_zero, List.append_nil]

end Sink.Recording

structure Sink.Metered (σ : Type u) [Outlet σ] extends Recording σ where
  flushes : σ → Nat
  flushes_write : ∀ (s : σ) (bytes : List UInt8), flushes (Sink.write s bytes).2 = flushes s
  flushes_flush : ∀ s : σ, flushes (Sink.flush s).2 = flushes s + 1

namespace Sink.Metered

section Outlet

variable {σ : Type u} [Outlet σ] (R : Metered σ) {s s' : σ}

theorem flushes_of_write {bytes : List UInt8} {written : Except StreamError Nat}
    (hw : Sink.write s bytes = (written, s')) : R.flushes s' = R.flushes s := by
  rw [← R.flushes_write s bytes, hw]

theorem flushes_of_flush {flushed : Except StreamError Unit}
    (hf : Sink.flush s = (flushed, s')) : R.flushes s' = R.flushes s + 1 := by
  rw [← R.flushes_flush s, hf]

end Outlet

variable {σ : Type u} [Sink σ] (R : Metered σ)

theorem flushes_writeAll (s : σ) (bytes : List UInt8) :
    R.flushes (Sink.writeAll s bytes).2 = R.flushes s := by
  fun_induction Sink.writeAll s bytes with
  | case1 s => rfl
  | case2 s bytes hne s' hw | case5 s bytes hne e s' hw he => exact R.flushes_of_write hw
  | case3 s bytes hne n s' hw hn ih | case4 s bytes hne s' hw ih =>
    exact ih.trans (R.flushes_of_write hw)

theorem flushes_of_written {s s' t : σ} {bytes : List UInt8}
    {written flushed : Except StreamError Unit} (hwrite : Sink.writeAll s bytes = (written, s'))
    (hflush : Sink.flush s' = (flushed, t)) :
    R.flushes t = R.flushes s + 1 := by
  have hwritten := R.flushes_writeAll s bytes
  rw [hwrite] at hwritten
  rw [R.flushes_of_flush hflush, hwritten]

end Sink.Metered

structure Outlet.Logged (σ : Type u) where
  outlet : σ
  accepted : List UInt8
  flushes : Nat

namespace Outlet.Logged

variable {σ : Type u} [Outlet σ]

def write (s : Logged σ) (bytes : List UInt8) : Except StreamError Nat × Logged σ :=
  match Outlet.write s.outlet bytes with
  | (.ok n, outlet) => (.ok n, { s with outlet, accepted := s.accepted ++ bytes.take n })
  | (.error e, outlet) => (.error e, { s with outlet })

def flush (s : Logged σ) : Except StreamError Unit × Logged σ :=
  let (result, outlet) := Outlet.flush s.outlet
  (result, { s with outlet, flushes := s.flushes + 1 })

theorem write_eq (s : Logged σ) (bytes : List UInt8) :
    ((s.write bytes).1, (s.write bytes).2.outlet) = Outlet.write s.outlet bytes := by
  rw [write]
  cases Outlet.write s.outlet bytes with
  | mk result outlet => cases result <;> rfl

instance : Outlet (Logged σ) where
  write := write
  flush := flush
  write_le s bytes n h := Outlet.write_le s.outlet bytes n (by rw [← write_eq, h])

def metered : Sink.Metered (Logged σ) where
  accepted s := s.accepted
  flushes s := s.flushes
  write_ok {s s' bytes n} hw := by
    change s.write bytes = _ at hw
    rw [write] at hw
    split at hw <;> cases hw
    rfl
  write_error {s s' bytes e} hw := by
    change s.write bytes = _ at hw
    rw [write] at hw
    split at hw <;> cases hw
    rfl
  flush _ := rfl
  flushes_write s bytes := by
    change (s.write bytes).2.flushes = s.flushes
    rw [write]
    split <;> rfl
  flushes_flush _ := rfl

end Outlet.Logged

namespace ScriptedSink

def recording : Sink.Recording ScriptedSink where
  accepted s := s.accepted.toList
  write_ok {s s' bytes n} hw := by
    obtain ⟨accepted, flushes, writes, flushScript⟩ := s
    rcases writes with _ | ⟨_ | m | e, writes⟩
    · cases hw
      simp
    · cases hw
      simp
    · cases hw
      rw [← List.take_eq_take_min]
      exact Array.toList_appendList
    · cases hw
  write_error {s s' bytes e} hw := by
    obtain ⟨accepted, flushes, writes, flushScript⟩ := s
    rcases writes with _ | ⟨_ | m | e', writes⟩ <;> cases hw
    rfl
  flush s := by
    obtain ⟨accepted, flushes, writes, _ | ⟨_ | e, flushScript⟩⟩ := s <;> rfl

def metered : Sink.Metered ScriptedSink where
  toRecording := recording
  flushes s := s.flushes
  flushes_write s bytes := by
    obtain ⟨accepted, flushes, _ | ⟨_ | n | e, writes⟩, flushScript⟩ := s <;> rfl
  flushes_flush s := by
    obtain ⟨accepted, flushes, writes, _ | ⟨_ | e, flushScript⟩⟩ := s <;> rfl

end ScriptedSink

end UniversalMachine
