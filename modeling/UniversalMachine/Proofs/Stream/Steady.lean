import UniversalMachine.Stream.Script
import UniversalMachine.Stream.Source
/-! Streams that never fail but for interruptions, after which an attempt is repeated. A steady source
is known by the bytes that it will serve, and a steady sink by the bytes that it has accepted. -/

universe u

namespace UniversalMachine

namespace Source

def Steady (source : Source) : Prop := ∀ e, Event.fail e ∈ source → e = .interrupted

def upcoming : Source → List UInt8
  | .data bs :: source => bs ++ upcoming source
  | .fail _ :: source => upcoming source
  | .ended :: _ | [] => []

theorem Steady.tail {e : Event} {source : Source} (h : Steady (e :: source)) : source.Steady :=
  fun e' he' => h e' (List.mem_cons_of_mem e he')

theorem Steady.data {source : Source} (h : source.Steady) (bytes : List UInt8) :
    Steady (.data bytes :: source) := by
  intro e he
  rcases List.mem_cons.mp he with he | he
  · cases he
  · exact h e he

theorem steady_ofBytes (bytes : List UInt8) : (ofBytes bytes).Steady :=
  Steady.data (fun _ he => absurd he List.not_mem_nil) bytes

theorem Steady.readByte {source : Source} (h : source.Steady) : source.readByte.2.Steady := by
  fun_induction Source.readByte source with
  | case1 => exact h
  | case2 source ih | case5 source ih => exact ih h.tail
  | case3 b bytes source => exact h.tail.data bytes
  | case4 | case6 | case7 => exact h.tail

theorem Steady.readByte_eq {source : Source} (h : source.Steady) :
    match source.upcoming with
    | [] => source.readByte.1 = .endOfInput
    | b :: bytes => source.readByte.1 = .byte b ∧ source.readByte.2.upcoming = bytes := by
  fun_induction Source.readByte source with
  | case1 => rfl
  | case2 source ih | case5 source ih => exact ih h.tail
  | case3 b bytes source => exact ⟨rfl, rfl⟩
  | case4 source => rfl
  | case6 source he | case7 e source he => exact absurd (h _ List.mem_cons_self) he

end Source

inductive Sink.Wrote {σ : Type u} (accepted : σ → List UInt8) (s : σ) (bytes : List UInt8) :
    Except StreamError Nat × σ → Prop
  | accept {n s'} : 0 < n → accepted s' = accepted s ++ bytes.take n →
      Wrote accepted s bytes (.ok n, s')
  | interrupted {s'} : accepted s' = accepted s → Wrote accepted s bytes (.error .interrupted, s')

/-- A kind of sinks with the states from which no attempt fails other than by an interruption of a
write and no write accepts nothing, and the bytes that were accepted. -/
structure Sink.Reliable (σ : Type u) [Sink σ] where
  Steady : σ → Prop
  accepted : σ → List UInt8
  write : ∀ {s : σ} {bytes : List UInt8}, Steady s → bytes ≠ [] →
    Wrote accepted s bytes (Sink.write s bytes) ∧ Steady (Sink.write s bytes).2
  flush : ∀ {s : σ}, Steady s →
    ∃ s', Sink.flush s = (.ok (), s') ∧ accepted s' = accepted s ∧ Steady s'

structure Sink.Reliable.Fresh {σ : Type u} [Sink σ] (R : Reliable σ) (s : σ) : Prop where
  steady : R.Steady s
  accepted : R.accepted s = []

theorem Sink.Reliable.writeAll {σ : Type u} [Sink σ] (R : Reliable σ) {s : σ} (hs : R.Steady s)
    (bytes : List UInt8) :
    ∃ s', Sink.writeAll s bytes = (.ok (), s') ∧ R.accepted s' = R.accepted s ++ bytes ∧
      R.Steady s' := by
  fun_induction Sink.writeAll s bytes with
  | case1 s => exact ⟨s, rfl, by simp, hs⟩
  | case2 s bytes hne s' hw =>
    have hwrite := (R.write hs hne).1
    rw [hw] at hwrite
    cases hwrite with
    | accept hpos => exact absurd hpos (Nat.lt_irrefl 0)
  | case3 s bytes hne n s' hw hn ih =>
    obtain ⟨hwrite, hs'⟩ := R.write hs hne
    rw [hw] at hwrite hs'
    obtain ⟨t, ht, haccepted, hsteady⟩ := ih hs'
    cases hwrite with
    | accept _ hwrite =>
      refine ⟨t, ht, ?_, hsteady⟩
      rw [haccepted, hwrite, List.append_assoc, List.take_append_drop]
  | case4 s bytes hne s' hw ih =>
    obtain ⟨hwrite, hs'⟩ := R.write hs hne
    rw [hw] at hwrite hs'
    obtain ⟨t, ht, haccepted, hsteady⟩ := ih hs'
    cases hwrite with
    | interrupted hwrite => exact ⟨t, ht, by rw [haccepted, hwrite], hsteady⟩
  | case5 s bytes hne e s' hw he =>
    have hwrite := (R.write hs hne).1
    rw [hw] at hwrite
    cases hwrite with
    | interrupted => exact absurd rfl he

inductive WriteEvent.Steady : WriteEvent → Prop
  | accept : Steady .accept
  | acceptAtMost {n : Nat} : 0 < n → Steady (.acceptAtMost n)
  | interrupted : Steady (.fail .interrupted)

namespace ScriptedSink

structure Steady (s : ScriptedSink) : Prop where
  writes : ∀ w ∈ s.writeScript, WriteEvent.Steady w
  flushes : ∀ f ∈ s.flushScript, f = .succeed

theorem Steady.write {s : ScriptedSink} (h : s.Steady) {bytes : List UInt8} (hne : bytes ≠ []) :
    Sink.Wrote (·.accepted.toList) s bytes (s.write bytes) ∧ (s.write bytes).2.Steady := by
  obtain ⟨accepted, flushes, writes, flushScript⟩ := s
  have hpos : 0 < bytes.length := List.length_pos_iff.mpr hne
  cases writes with
  | nil => exact ⟨.accept hpos (by simp), h.writes, h.flushes⟩
  | cons w writes =>
    have htail : ∀ w' ∈ writes, WriteEvent.Steady w' :=
      fun w' hw' => h.writes w' (List.mem_cons_of_mem w hw')
    cases h.writes w List.mem_cons_self with
    | accept => exact ⟨.accept hpos (by simp), htail, h.flushes⟩
    | acceptAtMost hn =>
      refine ⟨.accept (Nat.lt_min.mpr ⟨hn, hpos⟩) ?_, htail, h.flushes⟩
      rw [← List.take_eq_take_min]
      exact Array.toList_appendList
    | interrupted => exact ⟨.interrupted rfl, htail, h.flushes⟩

theorem Steady.flush {s : ScriptedSink} (h : s.Steady) :
    ∃ s', s.flush = (.ok (), s') ∧ s'.accepted.toList = s.accepted.toList ∧ s'.Steady := by
  obtain ⟨accepted, flushes, writes, flushScript⟩ := s
  cases flushScript with
  | nil => exact ⟨_, rfl, rfl, h.writes, h.flushes⟩
  | cons f flushScript =>
    cases h.flushes f List.mem_cons_self
    exact ⟨_, rfl, rfl, h.writes, fun f hf => h.flushes f (List.mem_cons_of_mem _ hf)⟩

def reliable : Sink.Reliable ScriptedSink where
  Steady := Steady
  accepted s := s.accepted.toList
  write h hne := h.write hne
  flush h := h.flush

theorem steady_plain : plain.Steady where
  writes _ hw := absurd hw List.not_mem_nil
  flushes _ hf := absurd hf List.not_mem_nil

end ScriptedSink

end UniversalMachine
