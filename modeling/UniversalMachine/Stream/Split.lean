import UniversalMachine.Stream.Sink

universe u v

namespace UniversalMachine

structure Split (σ : Type u) (τ : Type v) where
  remaining : Nat
  first : σ
  second : τ
  deriving DecidableEq, Repr

namespace Split

variable {σ : Type u} {τ : Type v}

section Outlet

variable [Outlet σ] [Outlet τ]

/-- One write goes to one sink. The write that brings `first` its last byte also flushes it, and
reports a failure of that flush, although its bytes were accepted. -/
def write (s : Split σ τ) (bytes : List UInt8) : Except StreamError Nat × Split σ τ :=
  let ⟨remaining, first, second⟩ := s
  if remaining = 0 then
    let (result, second) := Sink.write second bytes
    (result, ⟨remaining, first, second⟩)
  else
    match Sink.write first (bytes.take remaining) with
    | (.error e, first) => (.error e, ⟨remaining, first, second⟩)
    | (.ok n, first) =>
      if remaining - n = 0 then
        match Sink.flush first with
        | (.ok (), first) => (.ok n, ⟨0, first, second⟩)
        | (.error e, first) => (.error e, ⟨0, first, second⟩)
      else (.ok n, ⟨remaining - n, first, second⟩)

def flush (s : Split σ τ) : Except StreamError Unit × Split σ τ :=
  let ⟨remaining, first, second⟩ := s
  match Sink.flush first with
  | (.error e, first) => (.error e, ⟨remaining, first, second⟩)
  | (.ok (), first) =>
    let (result, second) := Sink.flush second
    (result, ⟨remaining, first, second⟩)

theorem write_le (s : Split σ τ) (bytes : List UInt8) (n : Nat) (h : (s.write bytes).1 = .ok n) :
    n ≤ bytes.length := by
  obtain ⟨remaining, first, second⟩ := s
  have hsecond := Sink.write_le second bytes n
  have hfirst := Sink.write_le first (bytes.take remaining) n
  unfold write at h
  rcases hw : Sink.write first (bytes.take remaining) with ⟨_ | m, first'⟩ <;>
    simp only [hw, List.length_take] at h hfirst
  · split at h <;> simp_all
  · rcases hf : Sink.flush first' with ⟨_ | _, first''⟩ <;> simp only [hf] at h <;>
      grind

instance : Outlet (Split σ τ) where
  write := write
  flush := flush
  write_le := write_le

end Outlet

variable [Sink σ] [Sink τ]

def patience (s : Split σ τ) : Nat := Sink.patience s.first + Sink.patience s.second

theorem patience_write_le (s : Split σ τ) (bytes : List UInt8) :
    (s.write bytes).2.patience ≤ s.patience := by
  obtain ⟨remaining, first, second⟩ := s
  have hsecond := Sink.patience_write_le second bytes
  have hfirst := Sink.patience_write_le first (bytes.take remaining)
  have hflush := Sink.patience_flush_le (Sink.write first (bytes.take remaining)).2
  unfold write patience
  grind

theorem patience_write_lt (s : Split σ τ) (bytes : List UInt8)
    (h : (s.write bytes).1 = .error .interrupted) : (s.write bytes).2.patience < s.patience := by
  obtain ⟨remaining, first, second⟩ := s
  have hsecond := Sink.patience_write_lt second bytes
  have hfirst := Sink.patience_write_lt first (bytes.take remaining)
  have hfirst' := Sink.patience_write_le first (bytes.take remaining)
  have hflush := Sink.patience_flush_lt (Sink.write first (bytes.take remaining)).2
  unfold write patience at *
  grind

theorem patience_flush_le (s : Split σ τ) : s.flush.2.patience ≤ s.patience := by
  obtain ⟨remaining, first, second⟩ := s
  have hfirst := Sink.patience_flush_le first
  have hsecond := Sink.patience_flush_le second
  unfold flush patience
  grind

theorem patience_flush_lt (s : Split σ τ) (h : s.flush.1 = .error .interrupted) :
    s.flush.2.patience < s.patience := by
  obtain ⟨remaining, first, second⟩ := s
  have hfirst := Sink.patience_flush_lt first
  have hfirst' := Sink.patience_flush_le first
  have hsecond := Sink.patience_flush_lt second
  unfold flush patience at *
  grind

instance : Sink (Split σ τ) where
  patience := patience
  patience_write_le := patience_write_le
  patience_write_lt := patience_write_lt
  patience_flush_le := patience_flush_le
  patience_flush_lt := patience_flush_lt

end Split

end UniversalMachine
