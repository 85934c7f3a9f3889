import UniversalMachine.Proofs.Machine.Lockstep
import UniversalMachine.Proofs.Stream.Split

universe u v w

namespace UniversalMachine

section Sinks

variable {σ : Type u} {τ : Type v} [Sink σ] [Sink τ]

theorem Sink.Reliable.emit (R : Reliable σ) {s : σ} (hs : R.Steady s) (b : UInt8) :
    ∃ s', Sink.emit s b = (.ok (), s') ∧ R.accepted s' = R.accepted s ++ [b] ∧ R.Steady s' := by
  obtain ⟨t, hwrite, haccepted, ht⟩ := R.writeAll hs [b]
  obtain ⟨s', hflush, hkept, hs'⟩ := R.flush ht
  exact ⟨s', by simp only [Sink.emit, hwrite, hflush], hkept.trans haccepted, hs'⟩

structure Sink.Level (R : Reliable σ) (S : Reliable τ) (s : σ) (t : τ) : Prop where
  left : R.Steady s
  right : S.Steady t
  accepted : S.accepted t = R.accepted s

end Sinks

namespace Machine

section Level

variable {σ : Type u} {τ : Type v} [Sink σ] [Sink τ] [Host] {R : Sink.Reliable σ} {S : Sink.Reliable τ}

abbrev Level (R : Sink.Reliable σ) (S : Sink.Reliable τ) : Machine σ → Machine τ → Prop :=
  Alike (fun s s' => s' = s) (fun s s' => s' = s) (Sink.Level R S)

theorem Level.agreement {m : Machine σ} {m' : Machine τ} (h : Level R S m m') :
    Agreement (fun s s' => s' = s) (fun s s' => s' = s) (Sink.Level R S) m m' where
  read _ := by rw [h.memory]
  operation _ _ := by rw [h.memory]; exact ⟨rfl, rfl⟩
  input _ := by rw [h.source]; exact ⟨rfl, rfl⟩
  flush _ := by
    obtain ⟨s, hs, haccepted, hsteady⟩ := R.flush h.sink.left
    obtain ⟨t, ht, haccepted', hsteady'⟩ := S.flush h.sink.right
    rw [hs, ht]
    exact ⟨rfl, hsteady, hsteady', by rw [haccepted, haccepted', h.sink.accepted]⟩
  emit {c} _ := by
    obtain ⟨s, hs, haccepted, hsteady⟩ := R.emit h.sink.left (m.registers.get c).toUInt8
    obtain ⟨t, ht, haccepted', hsteady'⟩ := S.emit h.sink.right (m.registers.get c).toUInt8
    rw [hs, ht]
    exact ⟨rfl, hsteady, hsteady', by rw [haccepted, haccepted', h.sink.accepted]⟩

theorem simulation_level (R : Sink.Reliable σ) (S : Sink.Reliable τ) :
    Simulation (fun _ => False) (Level R S) :=
  ⟨fun h => h.steps, fun h _ => h.step h.agreement⟩

end Level

variable {σ : Type u} {τ : Type v} {ω : Type w} [Sink σ] [Sink τ] [Sink ω]

theorem level_load {R : Sink.Reliable σ} {S : Sink.Reliable τ} {T : Sink.Reliable ω}
    (image : Image) (source : Source) (n : Nat) {first : σ} {second : τ} {plain : ω}
    (hfirst : R.Fresh first) (hsecond : S.Fresh second) (hplain : T.Fresh plain) :
    Level T (Split.reliable R S n) (load image source plain)
      (load image source ⟨n, first, second⟩) := by
  refine ⟨⟨rfl, rfl, rfl, rfl⟩, rfl, rfl, hplain.steady, ?_, ?_⟩
  · refine ⟨hfirst.steady, hsecond.steady, ?_, fun _ => hsecond.accepted⟩
    simp [load, hfirst.accepted]
  · simp [load, Split.reliable, Split.accepted, hfirst.accepted, hsecond.accepted, hplain.accepted]

/-- Every step with a split sink is the step with a plain one, and at all times the two parts have
accepted what the plain sink has. -/
theorem split_transparent [Host] (R : Sink.Reliable σ) (S : Sink.Reliable τ) (T : Sink.Reliable ω)
    (image : Image) (source : Source) (n : Nat) {first : σ} {second : τ} {plain : ω}
    (hfirst : R.Fresh first) (hsecond : S.Fresh second) (hplain : T.Fresh plain) :
    let m := load image source plain
    let m' := load image source (⟨n, first, second⟩ : Split σ τ)
    (∀ k, m'.results k = m.results k ∧ InStep (m.after k) (m'.after k) ∧
      (m'.after k).memory = (m.after k).memory ∧
      R.accepted (m'.after k).sink.first = (T.accepted (m.after k).sink).take n ∧
      S.accepted (m'.after k).sink.second = (T.accepted (m.after k).sink).drop n) ∧
    ∀ fuel, (m'.run fuel).map Prod.fst = (m.run fuel).map Prod.fst := by
  intro m m'
  have hm : Level T (Split.reliable R S n) m m' := level_load image source n hfirst hsecond hplain
  have hsimulation := simulation_level T (Split.reliable R S n)
  constructor
  · intro k
    obtain ⟨hresults, hafter⟩ := hsimulation.after hm k fun _ _ => id
    have hsplit : Split.Steady R S n (m'.after k).sink := hafter.sink.right
    refine ⟨hresults, hafter.toInStep, hafter.memory, ?_, ?_⟩
    · rw [← hafter.sink.accepted]
      exact hsplit.accepted_first
    · rw [← hafter.sink.accepted]
      exact hsplit.accepted_second
  · intro fuel
    rw [hsimulation.run hm fuel fun _ _ => id, Option.map_map]
    rfl

open Host

theorem split_transparent_of_two_bytes :
    let image : Image := ⟨[0xb0000000, 0xa0000000, 0xb0000000, 0xa0000000, 0x70000000]⟩
    let first := ScriptedSink.ofScripts [.acceptAtMost 1] [.succeed]
    let m := load image (.ofBytes [3, 4]) ScriptedSink.plain
    let m' := load image (.ofBytes [3, 4]) (⟨1, first, .plain⟩ : Split ScriptedSink ScriptedSink)
    ScriptedSink.reliable.Fresh first ∧ ScriptedSink.reliable.Fresh .plain ∧
      m'.results 5 = m.results 5 ∧ (m.after 5).steps = 5 ∧
      (m'.after 5).sink.first.accepted.toList = [3] ∧
      (m'.after 5).sink.second.accepted.toList = [4] := by
  intro image first m m'
  have hfirst : ScriptedSink.reliable.Fresh first := by
    refine ⟨⟨fun w hw => ?_, fun f hf => ?_⟩, rfl⟩
    · cases List.mem_singleton.mp hw
      exact .acceptAtMost Nat.one_pos
    · exact List.mem_singleton.mp hf
  have hplain : ScriptedSink.reliable.Fresh .plain := ⟨ScriptedSink.steady_plain, rfl⟩
  have houtput : (m.after 5).sink.accepted.toList = [3, 4] := by decide +kernel
  obtain ⟨hresults, -, -, hintro, hrest⟩ := (split_transparent ScriptedSink.reliable
    ScriptedSink.reliable ScriptedSink.reliable image (.ofBytes [3, 4]) 1 hfirst hplain hplain).1 5
  refine ⟨hfirst, hplain, hresults, by decide +kernel, hintro.trans ?_, hrest.trans ?_⟩
  · exact congrArg (List.take 1) houtput
  · exact congrArg (List.drop 1) houtput

end Machine

end UniversalMachine
