import Mathlib.Data.List.Basic
import UniversalMachine.Proofs.Stream.Switch
/-! What arrives where when all of some bytes are written to a split sink that may be interrupted. An
interrupted write is made again with the same bytes. If only the flush that followed them was
interrupted, the first sink has accepted some of them before, and they arrive twice. -/

universe u v

namespace UniversalMachine

/-- `Offers s bytes t rest`: while all of `bytes` is written to `s`, it comes to be `t` and is offered
`rest`. -/
inductive Sink.Offers {σ : Type u} [Sink σ] : σ → List UInt8 → σ → List UInt8 → Prop
  | now {s bytes} : bytes ≠ [] → Offers s bytes s bytes
  | accepted {s bytes n s' t rest} : bytes ≠ [] → Sink.write s bytes = (.ok n, s') → n ≠ 0 →
      Offers s' (bytes.drop n) t rest → Offers s bytes t rest
  | interrupted {s bytes s' t rest} : bytes ≠ [] →
      Sink.write s bytes = (.error .interrupted, s') → Offers s' bytes t rest → Offers s bytes t rest

namespace Sink.Offers

variable {σ : Type u} [Sink σ] {s s' t : σ} {bytes rest : List UInt8}

theorem of_accepted {n : Nat} (h : Offers s bytes t rest) (hw : write s bytes = (.ok n, s')) :
    (t = s ∧ rest = bytes) ∨ Offers s' (bytes.drop n) t rest := by
  cases h with
  | now => exact .inl ⟨rfl, rfl⟩
  | accepted _ hw' _ h =>
    cases hw.symm.trans hw'
    exact .inr h
  | interrupted _ hw' => cases hw.symm.trans hw'

theorem of_interrupted (h : Offers s bytes t rest)
    (hw : write s bytes = (.error .interrupted, s')) :
    (t = s ∧ rest = bytes) ∨ Offers s' bytes t rest := by
  cases h with
  | now => exact .inl ⟨rfl, rfl⟩
  | accepted _ hw' => cases hw.symm.trans hw'
  | interrupted _ hw' h =>
    cases hw.symm.trans hw'
    exact .inr h

end Sink.Offers

namespace Split

section Outlet

variable {σ : Type u} {τ : Type v} [Outlet σ]

def InterruptsFlush (s : Split σ τ) (bytes : List UInt8) : Prop :=
  s.remaining ≠ 0 ∧ ∃ first,
    Outlet.write s.first (bytes.take s.remaining) = (.ok s.remaining, first) ∧
      (Outlet.flush first).1 = .error .interrupted

variable {s s' : Split σ τ} {bytes : List UInt8}

theorem InterruptsFlush.remaining_le (h : s.InterruptsFlush bytes) : s.remaining ≤ bytes.length := by
  obtain ⟨-, first, hw, -⟩ := h
  have hle := Outlet.write_le s.first (bytes.take s.remaining) s.remaining (by rw [hw])
  rw [List.length_take, Nat.le_min] at hle
  exact hle.2

variable [Outlet τ]

theorem InterruptsFlush.write (h : s.InterruptsFlush bytes) :
    (s.write bytes).1 = .error .interrupted ∧ (s.write bytes).2.remaining = 0 := by
  obtain ⟨remaining, first, second⟩ := s
  obtain ⟨hne, first', hw, hf⟩ := h
  simp only [Split.write, if_neg hne, hw, Nat.sub_self, if_true]
  cases hflush : Outlet.flush first' with
  | mk flushed first'' =>
    rw [hflush] at hf
    cases hf
    exact ⟨rfl, rfl⟩

theorem Writes.of_write {r : Except StreamError Nat} (hw : Outlet.write s bytes = (r, s')) :
    s.Writes bytes r s' := by
  have h := s.writes_write bytes
  change s.write bytes = _ at hw
  rwa [hw] at h

theorem Writes.delivered {R : Sink.Recording σ} {S : Sink.Recording τ} {n : Nat}
    (h : s.Writes bytes (.ok n) s') :
    R.accepted s'.first = R.accepted s.first ++ (bytes.take n).take s.remaining ∧
      S.accepted s'.second = S.accepted s.second ++ (bytes.take n).drop s.remaining ∧
      s'.remaining = s.remaining - n := by
  have hlead (hn : n ≤ s.remaining) : (bytes.take n).take s.remaining = bytes.take n ∧
      (bytes.take n).drop s.remaining = [] := by
    have hlength := Nat.le_trans (List.length_take_le n bytes) hn
    exact ⟨List.take_of_length_le hlength, List.drop_eq_nil_of_le hlength⟩
  cases h with
  | second hzero hw =>
    rw [hzero, Nat.zero_sub, List.take_zero, List.drop_zero, List.append_nil]
    exact ⟨rfl, S.write_ok hw, rfl⟩
  | part hlt hle hw =>
    rw [(hlead (Nat.le_of_lt hlt)).1, (hlead (Nat.le_of_lt hlt)).2, List.append_nil]
    exact ⟨accepted_first_of_write (Nat.le_of_lt hlt) hw, rfl, rfl⟩
  | last hne hle hw hf =>
    rw [(hlead (Nat.le_refl _)).1, (hlead (Nat.le_refl _)).2, List.append_nil, Nat.sub_self,
      R.accepted_of_flush hf]
    exact ⟨accepted_first_of_write (Nat.le_refl _) hw, rfl, rfl⟩

theorem Writes.interrupted {R : Sink.Recording σ} {S : Sink.Recording τ}
    (h : s.Writes bytes (.error .interrupted) s') :
    (¬s.InterruptsFlush bytes ∧ R.accepted s'.first = R.accepted s.first ∧
        S.accepted s'.second = S.accepted s.second ∧ s'.remaining = s.remaining) ∨
      s.InterruptsFlush bytes ∧
        R.accepted s'.first = R.accepted s.first ++ bytes.take s.remaining ∧
        S.accepted s'.second = S.accepted s.second ∧ s'.remaining = 0 := by
  cases h with
  | second hzero hw => exact .inl ⟨fun h => h.1 hzero, rfl, S.write_error hw, rfl⟩
  | refused hne hw =>
    refine .inl ⟨fun ⟨_, first, hw', _⟩ => ?_, R.write_error hw, rfl, rfl⟩
    rw [hw] at hw'
    cases hw'
  | @unflushed _ first first' hne hle hw hf =>
    refine .inr ⟨⟨hne, first, hw, by rw [hf]⟩, ?_, rfl, rfl⟩
    rw [R.accepted_of_flush hf]
    exact accepted_first_of_write (Nat.le_refl _) hw

end Outlet

variable {σ : Type u} {τ : Type v} [Sink σ] [Sink τ] {R : Sink.Recording σ} {S : Sink.Recording τ}
  {s s' : Split σ τ} {bytes : List UInt8}

/-- `Delivers R S s bytes s'`: on the way from `s` to `s'` all of `bytes` is written and every byte is
accepted once, or all from some place on are written again. -/
inductive Delivers (R : Sink.Recording σ) (S : Sink.Recording τ) (s : Split σ τ)
    (bytes : List UInt8) (s' : Split σ τ) : Prop
  | once : (∀ t rest, Sink.Offers s bytes t rest → ¬t.InterruptsFlush rest) →
      R.accepted s'.first = R.accepted s.first ++ bytes.take s.remaining →
      S.accepted s'.second = S.accepted s.second ++ bytes.drop s.remaining →
      Delivers R S s bytes s'
  | again {done t rest} : bytes = done ++ rest → done.length + t.remaining = s.remaining →
      Sink.Offers s bytes t rest → t.InterruptsFlush rest →
      R.accepted s'.first = R.accepted s.first ++ bytes.take s.remaining →
      S.accepted s'.second = S.accepted s.second ++ rest → Delivers R S s bytes s'

theorem Delivers.nil (s : Split σ τ) : Delivers R S s [] s := by
  refine .once (fun t rest h => ?_) ?_ ?_
  · cases h with
    | now hne | accepted hne | interrupted hne => exact absurd rfl hne
  · rw [List.take_nil, List.append_nil]
  · rw [List.drop_nil, List.append_nil]

theorem Delivers.accepted {n : Nat} {s'' : Split σ τ} (hne : bytes ≠ []) (hn : n ≠ 0)
    (hw : Sink.write s bytes = (.ok n, s')) (h : Delivers R S s' (bytes.drop n) s'') :
    Delivers R S s bytes s'' := by
  have hwrites : s.Writes bytes (.ok n) s' := .of_write hw
  obtain ⟨hfirst, hsecond, hremaining⟩ := hwrites.delivered (R := R) (S := S)
  have hlength : (bytes.take n).length = n :=
    List.length_take_of_le (Sink.write_le s bytes n (by rw [hw]))
  have htake : bytes.take s.remaining =
      (bytes.take n).take s.remaining ++ (bytes.drop n).take s'.remaining := calc
    bytes.take s.remaining = (bytes.take n ++ bytes.drop n).take s.remaining := by
      rw [List.take_append_drop]
    _ = _ := by rw [List.take_append, hlength, hremaining]
  have hdrop : bytes.drop s.remaining =
      (bytes.take n).drop s.remaining ++ (bytes.drop n).drop s'.remaining := calc
    bytes.drop s.remaining = (bytes.take n ++ bytes.drop n).drop s.remaining := by
      rw [List.take_append_drop]
    _ = _ := by rw [List.drop_append, hlength, hremaining]
  cases h with
  | once hnone hfirst' hsecond' =>
    refine .once (fun t rest hoffers hflush => ?_) ?_ ?_
    · obtain ⟨rfl, rfl⟩ | hlater := hoffers.of_accepted hw
      · cases hflush.write.1.symm.trans (congrArg Prod.fst hw)
      · exact hnone t rest hlater hflush
    · rw [hfirst', hfirst, htake, List.append_assoc]
    · rw [hsecond', hsecond, hdrop, List.append_assoc]
  | @again done t rest hbytes hdone hoffers hflush hfirst' hsecond' =>
    have hpos : t.remaining ≠ 0 := hflush.1
    have hnone : (bytes.take n).drop s.remaining = [] :=
      List.drop_eq_nil_of_le (by omega)
    have hwhole : bytes = (bytes.take n ++ done) ++ rest := by
      rw [List.append_assoc, ← hbytes, List.take_append_drop]
    refine .again hwhole ?_ (.accepted hne hw hn hoffers) hflush ?_ ?_
    · rw [List.length_append]
      omega
    · rw [hfirst', hfirst, htake, List.append_assoc]
    · rw [hsecond', hsecond, hnone, List.append_nil]

theorem Delivers.interrupted {s'' : Split σ τ} (hne : bytes ≠ [])
    (hw : Sink.write s bytes = (.error .interrupted, s')) (h : Delivers R S s' bytes s'') :
    Delivers R S s bytes s'' := by
  have hwrites : s.Writes bytes (.error .interrupted) s' := .of_write hw
  obtain ⟨hnot, hfirst, hsecond, hremaining⟩ | ⟨hflush, hfirst, hsecond, hremaining⟩ :=
    hwrites.interrupted (R := R) (S := S)
  · cases h with
    | once hnone hfirst' hsecond' =>
      refine .once (fun t rest hoffers hflush => ?_) ?_ ?_
      · obtain ⟨rfl, rfl⟩ | hlater := hoffers.of_interrupted hw
        · exact hnot hflush
        · exact hnone t rest hlater hflush
      · rw [hfirst', hfirst, hremaining]
      · rw [hsecond', hsecond, hremaining]
    | again hbytes hdone hoffers hflush hfirst' hsecond' =>
      refine .again hbytes (hdone.trans hremaining) (.interrupted hne hw hoffers) hflush ?_ ?_
      · rw [hfirst', hfirst, hremaining]
      · rw [hsecond', hsecond]
  · cases h with
    | once hnone hfirst' hsecond' =>
      rw [hremaining] at hfirst' hsecond'
      refine .again (List.nil_append bytes).symm (Nat.zero_add _) (.now hne) hflush ?_ ?_
      · rw [hfirst', hfirst, List.take_zero, List.append_nil]
      · rw [hsecond', hsecond, List.drop_zero]
    | again _ hdone _ hflush' =>
      have hpos := hflush'.1
      omega

theorem delivers_writeAll (R : Sink.Recording σ) (S : Sink.Recording τ) (s : Split σ τ)
    (bytes : List UInt8) (hok : (Sink.writeAll s bytes).1 = .ok ()) :
    Delivers R S s bytes (Sink.writeAll s bytes).2 := by
  fun_induction Sink.writeAll s bytes with
  | case1 s => exact .nil s
  | case2 s bytes hne s' hw => cases hok
  | case3 s bytes hne n s' hw hn ih => exact (ih hok).accepted hne hn hw
  | case4 s bytes hne s' hw ih => exact (ih hok).interrupted hne hw
  | case5 s bytes hne e s' hw he => cases hok

/-- All bytes that are written arrive at one of the two sinks, in order. They arrive once, unless the
flush after the last byte of the first sink is interrupted: what was offered just then is written to
the second sink as a whole, although the first has accepted its part of it. -/
theorem delivered_once_iff (R : Sink.Recording σ) (S : Sink.Recording τ)
    (hwritten : Sink.writeAll s bytes = (.ok (), s')) :
    ∃ lead rest, R.accepted s'.first = R.accepted s.first ++ lead ∧
      S.accepted s'.second = S.accepted s.second ++ rest ∧
      (lead ++ rest = bytes ↔
        ∀ t offered, Sink.Offers s bytes t offered → ¬t.InterruptsFlush offered) ∧
      (lead ++ rest ≠ bytes → ∃ t done offered, Sink.Offers s bytes t offered ∧
        t.InterruptsFlush offered ∧ bytes = done ++ offered ∧
        lead = done ++ offered.take t.remaining ∧ rest = offered) := by
  have h := delivers_writeAll R S s bytes (by rw [hwritten])
  rw [hwritten] at h
  cases h with
  | once hnone hfirst hsecond =>
    have hall : bytes.take s.remaining ++ bytes.drop s.remaining = bytes := List.take_append_drop _ _
    exact ⟨_, _, hfirst, hsecond, iff_of_true hall hnone, fun hne => absurd hall hne⟩
  | @again done t offered hbytes hdone hoffers hflush hfirst hsecond =>
    have hlead : bytes.take s.remaining = done ++ offered.take t.remaining := by
      rw [hbytes, ← hdone, List.take_length_add_append]
    have htwice : bytes.take s.remaining ++ offered ≠ bytes := by
      intro h
      have hlength := congrArg List.length h
      have hle := hflush.remaining_le
      have hpos := hflush.1
      rw [hlead, hbytes] at hlength
      simp only [List.length_append, List.length_take] at hlength
      omega
    exact ⟨_, offered, hfirst, hsecond,
      iff_of_false htwice fun hnone => hnone t offered hoffers hflush,
      fun _ => ⟨t, done, offered, hoffers, hflush, hbytes, hlead, rfl⟩⟩

theorem delivered_once_iff_of_retries :
    let start (flushes : List FlushEvent) : Split ScriptedSink ScriptedSink :=
      ⟨2, .ofScripts [.acceptAtMost 1, .fail .interrupted] flushes, .plain⟩
    let calm := Sink.writeAll (start []) [97, 98, 99]
    let broken := Sink.writeAll (start [.fail .interrupted]) [97, 98, 99]
    calm = (.ok (), calm.2) ∧
      calm.2.first.accepted.toList ++ calm.2.second.accepted.toList = [97, 98, 99] ∧
      (∀ t offered, Sink.Offers (start []) [97, 98, 99] t offered → ¬t.InterruptsFlush offered) ∧
      broken = (.ok (), broken.2) ∧
      broken.2.first.accepted.toList ++ broken.2.second.accepted.toList = [97, 98, 98, 99] ∧
      ∃ t offered, Sink.Offers (start [.fail .interrupted]) [97, 98, 99] t offered ∧
        t.InterruptsFlush offered := by
  intro start calm broken
  have hcalm : calm = (.ok (), calm.2) := Prod.ext (by decide +kernel) rfl
  have hbroken : broken = (.ok (), broken.2) := Prod.ext (by decide +kernel) rfl
  have honce : calm.2.first.accepted.toList ++ calm.2.second.accepted.toList = [97, 98, 99] := by
    decide +kernel
  have htwice :
      broken.2.first.accepted.toList ++ broken.2.second.accepted.toList = [97, 98, 98, 99] := by
    decide +kernel
  obtain ⟨lead, rest, hfirst, hsecond, hiff, -⟩ :=
    delivered_once_iff ScriptedSink.recording ScriptedSink.recording hcalm
  obtain ⟨lead', rest', hfirst', hsecond', -, hwhere⟩ :=
    delivered_once_iff ScriptedSink.recording ScriptedSink.recording hbroken
  have hlead : lead ++ rest = [97, 98, 99] := honce ▸ congrArg₂ (· ++ ·) hfirst.symm hsecond.symm
  have hlead' : lead' ++ rest' = [97, 98, 98, 99] :=
    htwice ▸ congrArg₂ (· ++ ·) hfirst'.symm hsecond'.symm
  obtain ⟨t, -, offered, hoffers, hflush, -⟩ := hwhere (by rw [hlead']; decide)
  exact ⟨hcalm, honce, hiff.mp hlead, hbroken, htwice, t, offered, hoffers, hflush⟩

theorem delivered_twice_of_interrupted_flush :
    let start : Split ScriptedSink ScriptedSink := ⟨2, .ofScripts [] [.fail .interrupted], .plain⟩
    let written := Sink.writeAll start [97, 98, 99]
    written.1 = .ok () ∧ written.2.first.accepted.toList = [97, 98] ∧
      written.2.second.accepted.toList = [97, 98, 99] ∧
      written.2.first.accepted.toList ++ written.2.second.accepted.toList ≠ [97, 98, 99] := by
  intro start written
  have hfirst : written.2.first.accepted.toList = [97, 98] := by decide +kernel
  have hsecond : written.2.second.accepted.toList = [97, 98, 99] := by decide +kernel
  refine ⟨by decide +kernel, hfirst, hsecond, ?_⟩
  rw [hfirst, hsecond]
  decide

end Split

end UniversalMachine
