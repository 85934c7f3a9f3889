import UniversalMachine.Proofs.Stream.Steady
import UniversalMachine.Stream.Split

universe u v

namespace UniversalMachine.Split

variable {σ : Type u} {τ : Type v} [Sink σ] [Sink τ]

structure Steady (R : Sink.Reliable σ) (S : Sink.Reliable τ) (n : Nat) (s : Split σ τ) : Prop where
  first : R.Steady s.first
  second : S.Steady s.second
  count : (R.accepted s.first).length + s.remaining = n
  waits : s.remaining ≠ 0 → S.accepted s.second = []

variable {R : Sink.Reliable σ} {S : Sink.Reliable τ} {n : Nat} {s : Split σ τ}

def accepted (R : Sink.Reliable σ) (S : Sink.Reliable τ) (s : Split σ τ) : List UInt8 :=
  R.accepted s.first ++ S.accepted s.second

namespace Steady

theorem write_second {first : σ} {second : τ} (h : Steady R S n ⟨0, first, second⟩)
    {bytes : List UInt8} (hne : bytes ≠ []) :
    Sink.Wrote (Split.accepted R S) ⟨0, first, second⟩ bytes (Split.write ⟨0, first, second⟩ bytes) ∧
      Steady R S n (Split.write ⟨0, first, second⟩ bytes).2 := by
  obtain ⟨hwrote, hsteady⟩ := S.write h.second hne
  simp only [Split.write, if_true]
  cases hw : Sink.write second bytes with
  | mk result second' =>
    rw [hw] at hwrote hsteady
    refine ⟨?_, h.first, hsteady, h.count, fun hzero => absurd rfl hzero⟩
    cases hwrote with
    | accept hpos haccepted =>
      refine .accept hpos ?_
      rw [Split.accepted, Split.accepted, haccepted, List.append_assoc]
    | interrupted haccepted =>
      refine .interrupted ?_
      rw [Split.accepted, Split.accepted, haccepted]

theorem fill {remaining : Nat} {first first' : σ} {second : τ}
    (h : Steady R S n ⟨remaining, first, second⟩) (hremaining : remaining ≠ 0)
    (hsteady : R.Steady first') {bytes : List UInt8} {k : Nat}
    (hk : k ≤ remaining ∧ k ≤ bytes.length)
    (haccepted : R.accepted first' = R.accepted first ++ bytes.take k) :
    Split.accepted R S ⟨remaining - k, first', second⟩ =
        Split.accepted R S ⟨remaining, first, second⟩ ++ bytes.take k ∧
      Steady R S n ⟨remaining - k, first', second⟩ := by
  have hnone := h.waits hremaining
  have hcount := h.count
  have hlength : (R.accepted first').length = (R.accepted first).length + k := by
    rw [haccepted, List.length_append, List.length_take, Nat.min_eq_left hk.2]
  refine ⟨?_, hsteady, h.second, ?_, fun _ => hnone⟩
  · rw [Split.accepted, Split.accepted, haccepted, hnone, List.append_nil, List.append_nil]
  · simp only [hlength] at hcount ⊢
    omega

theorem write_first {remaining : Nat} {first : σ} {second : τ}
    (h : Steady R S n ⟨remaining, first, second⟩) (hremaining : remaining ≠ 0)
    {bytes : List UInt8} (hne : bytes ≠ []) :
    Sink.Wrote (Split.accepted R S) ⟨remaining, first, second⟩ bytes
        (Split.write ⟨remaining, first, second⟩ bytes) ∧
      Steady R S n (Split.write ⟨remaining, first, second⟩ bytes).2 := by
  have hoffered : bytes.take remaining ≠ [] := by simp [hremaining, hne]
  obtain ⟨hwrote, hsteady⟩ := R.write h.first hoffered
  have hle := Sink.write_le first (bytes.take remaining)
  simp only [Split.write, if_neg hremaining]
  cases hw : Sink.write first (bytes.take remaining) with
  | mk result first' =>
    rw [hw] at hwrote hsteady hle
    cases hwrote with
    | interrupted haccepted =>
      refine ⟨.interrupted ?_, hsteady, h.second, ?_, h.waits⟩
      · rw [Split.accepted, Split.accepted, haccepted]
      · rw [haccepted]
        exact h.count
    | @accept k _ hpos haccepted =>
      have hk := hle k rfl
      rw [List.length_take, Nat.le_min] at hk
      rw [List.take_take, Nat.min_eq_left hk.1] at haccepted
      by_cases hlast : remaining - k = 0
      · obtain ⟨first'', hflush, hkept, hflushed⟩ := R.flush hsteady
        have hfilled := h.fill hremaining hflushed hk (hkept.trans haccepted)
        rw [hlast] at hfilled
        simp only [if_pos hlast, hflush]
        exact ⟨.accept hpos hfilled.1, hfilled.2⟩
      · have hfilled := h.fill hremaining hsteady hk haccepted
        simp only [if_neg hlast]
        exact ⟨.accept hpos hfilled.1, hfilled.2⟩

theorem write (h : Steady R S n s) {bytes : List UInt8} (hne : bytes ≠ []) :
    Sink.Wrote (Split.accepted R S) s bytes (Split.write s bytes) ∧
      Steady R S n (Split.write s bytes).2 := by
  obtain ⟨remaining, first, second⟩ := s
  by_cases hremaining : remaining = 0
  · subst hremaining
    exact h.write_second hne
  · exact h.write_first hremaining hne

theorem flush (h : Steady R S n s) :
    ∃ s', Split.flush s = (.ok (), s') ∧ Split.accepted R S s' = Split.accepted R S s ∧
      Steady R S n s' := by
  obtain ⟨remaining, first, second⟩ := s
  obtain ⟨first', hfirst, hfirstKept, hfirstSteady⟩ := R.flush h.first
  obtain ⟨second', hsecond, hsecondKept, hsecondSteady⟩ := S.flush h.second
  refine ⟨⟨remaining, first', second'⟩, ?_, ?_, hfirstSteady, hsecondSteady, ?_, ?_⟩
  · simp only [Split.flush, hfirst, hsecond]
  · rw [Split.accepted, Split.accepted, hfirstKept, hsecondKept]
  · rw [hfirstKept]
    exact h.count
  · rw [hsecondKept]
    exact h.waits

theorem accepted_first (h : Steady R S n s) :
    R.accepted s.first = (Split.accepted R S s).take n := by
  have hcount := h.count
  rw [Split.accepted]
  by_cases hremaining : s.remaining = 0
  · rw [List.take_left' (by omega)]
  · rw [h.waits hremaining, List.append_nil, List.take_of_length_le (by omega)]

theorem accepted_second (h : Steady R S n s) :
    S.accepted s.second = (Split.accepted R S s).drop n := by
  have hcount := h.count
  rw [Split.accepted]
  by_cases hremaining : s.remaining = 0
  · rw [List.drop_left' (by omega)]
  · rw [h.waits hremaining, List.append_nil, List.drop_of_length_le (by omega)]

end Steady

def reliable (R : Sink.Reliable σ) (S : Sink.Reliable τ) (n : Nat) :
    Sink.Reliable (Split σ τ) where
  Steady := Steady R S n
  accepted := accepted R S
  write h hne := h.write hne
  flush h := h.flush

end UniversalMachine.Split
