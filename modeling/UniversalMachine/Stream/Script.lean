import UniversalMachine.Stream.Sink

namespace UniversalMachine

inductive WriteEvent
  | accept
  | acceptAtMost (n : Nat)
  | fail (e : StreamError)
  deriving DecidableEq, Repr

inductive FlushEvent
  | succeed
  | fail (e : StreamError)
  deriving DecidableEq, Repr

structure ScriptedSink where
  accepted : Array UInt8
  flushes : Nat
  writeScript : List WriteEvent
  flushScript : List FlushEvent
  deriving DecidableEq, Repr

namespace ScriptedSink

def ofScripts (writeScript : List WriteEvent) (flushScript : List FlushEvent) : ScriptedSink :=
  ⟨#[], 0, writeScript, flushScript⟩

def plain : ScriptedSink := ofScripts [] []

def write (s : ScriptedSink) (bytes : List UInt8) : Except StreamError Nat × ScriptedSink :=
  match s with
  | ⟨accepted, flushes, [], flushScript⟩ =>
    (.ok bytes.length, ⟨accepted ++ bytes, flushes, [], flushScript⟩)
  | ⟨accepted, flushes, .accept :: script, flushScript⟩ =>
    (.ok bytes.length, ⟨accepted ++ bytes, flushes, script, flushScript⟩)
  | ⟨accepted, flushes, .acceptAtMost n :: script, flushScript⟩ =>
    (.ok (min n bytes.length), ⟨accepted ++ bytes.take n, flushes, script, flushScript⟩)
  | ⟨accepted, flushes, .fail e :: script, flushScript⟩ =>
    (.error e, ⟨accepted, flushes, script, flushScript⟩)

def flush (s : ScriptedSink) : Except StreamError Unit × ScriptedSink :=
  match s with
  | ⟨accepted, flushes, writeScript, []⟩ => (.ok (), ⟨accepted, flushes + 1, writeScript, []⟩)
  | ⟨accepted, flushes, writeScript, .succeed :: script⟩ =>
    (.ok (), ⟨accepted, flushes + 1, writeScript, script⟩)
  | ⟨accepted, flushes, writeScript, .fail e :: script⟩ =>
    (.error e, ⟨accepted, flushes + 1, writeScript, script⟩)

instance : Sink ScriptedSink where
  write := write
  flush := flush
  patience s := s.writeScript.length + s.flushScript.length
  write_le s bytes n h := by
    unfold write at h
    split at h <;> simp_all
    omega
  patience_write_le s bytes := by unfold write; split <;> simp
  patience_write_lt s bytes h := by unfold write at h ⊢; split <;> simp_all
  patience_flush_le s := by unfold flush; split <;> simp
  patience_flush_lt s h := by unfold flush at h ⊢; split <;> simp_all

end ScriptedSink

end UniversalMachine
