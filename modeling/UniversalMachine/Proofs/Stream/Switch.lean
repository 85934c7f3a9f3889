import UniversalMachine.Proofs.Stream.Recording
import UniversalMachine.Stream.Split

universe u v

namespace UniversalMachine

namespace Outlet

inductive Call
  | write (bytes : List UInt8)
  | writeAll (bytes : List UInt8)
  | flush
  deriving DecidableEq, Repr

inductive Attempt
  | write (bytes : List UInt8)
  | flush
  deriving DecidableEq, Repr

def Call.rest (bytes : List UInt8) : Except StreamError Nat → List Call
  | .ok n => if n = 0 then [] else [.writeAll (bytes.drop n)]
  | .error e => if e = .interrupted then [.writeAll bytes] else []

/-- `Serves s calls made s'`: at some moment in the calls, `made` are the attempts so far and have led
from `s` to `s'`. -/
inductive Serves {σ : Type u} [Outlet σ] : σ → List Call → List Attempt → σ → Prop
  | now {s calls} : Serves s calls [] s
  | write {s bytes calls made s'} : Serves (write s bytes).2 calls made s' →
      Serves s (.write bytes :: calls) (.write bytes :: made) s'
  | flush {s calls made s'} : Serves (flush s).2 calls made s' →
      Serves s (.flush :: calls) (.flush :: made) s'
  | nothing {s calls made s'} : Serves s calls made s' → Serves s (.writeAll [] :: calls) made s'
  | offer {s bytes calls made s'} : bytes ≠ [] →
      Serves (write s bytes).2 (Call.rest bytes (write s bytes).1 ++ calls) made s' →
      Serves s (.writeAll bytes :: calls) (.write bytes :: made) s'

end Outlet

namespace Split

open Outlet (Call Attempt)

variable {σ : Type u} {τ : Type v} [Outlet σ] [Outlet τ]

inductive Writes (s : Split σ τ) (bytes : List UInt8) :
    Except StreamError Nat → Split σ τ → Prop
  | second {r second} : s.remaining = 0 → Outlet.write s.second bytes = (r, second) →
      Writes s bytes r { s with second }
  | refused {e first} : s.remaining ≠ 0 →
      Outlet.write s.first (bytes.take s.remaining) = (.error e, first) →
      Writes s bytes (.error e) { s with first }
  | part {n first} : n < s.remaining → n ≤ bytes.length →
      Outlet.write s.first (bytes.take s.remaining) = (.ok n, first) →
      Writes s bytes (.ok n) { s with remaining := s.remaining - n, first }
  | last {first first'} : s.remaining ≠ 0 → s.remaining ≤ bytes.length →
      Outlet.write s.first (bytes.take s.remaining) = (.ok s.remaining, first) →
      Outlet.flush first = (.ok (), first') →
      Writes s bytes (.ok s.remaining) { s with remaining := 0, first := first' }
  | unflushed {e first first'} : s.remaining ≠ 0 → s.remaining ≤ bytes.length →
      Outlet.write s.first (bytes.take s.remaining) = (.ok s.remaining, first) →
      Outlet.flush first = (.error e, first') →
      Writes s bytes (.error e) { s with remaining := 0, first := first' }

theorem writes_write (s : Split σ τ) (bytes : List UInt8) :
    s.Writes bytes (s.write bytes).1 (s.write bytes).2 := by
  obtain ⟨remaining, first, second⟩ := s
  by_cases hremaining : remaining = 0
  · subst hremaining
    exact .second rfl rfl
  · simp only [write, if_neg hremaining]
    cases hw : Outlet.write first (bytes.take remaining) with
    | mk r first' =>
      cases r with
      | error e => exact .refused hremaining hw
      | ok n =>
        have hn := Outlet.write_le first (bytes.take remaining) n (by rw [hw])
        rw [List.length_take, Nat.le_min] at hn
        by_cases hlast : remaining - n = 0
        · obtain rfl : n = remaining := by omega
          simp only [if_pos hlast]
          cases hf : Outlet.flush first' with
          | mk flushed first'' =>
            cases flushed with
            | ok u => exact .last hremaining hn.2 hw hf
            | error e => exact .unflushed hremaining hn.2 hw hf
        · simp only [if_neg hlast]
          exact .part (Nat.lt_of_sub_ne_zero hlast) hn.2 hw

def switches (s s' : Split σ τ) : Nat := if s.remaining ≠ 0 ∧ s'.remaining = 0 then 1 else 0

structure Accounts (R : Sink.Metered σ) (S : Sink.Recording τ) (s : Split σ τ)
    (made : List Attempt) (s' : Split σ τ) : Prop where
  first : ∃ lead, R.accepted s'.first = R.accepted s.first ++ lead ∧
    lead.length + s'.remaining = s.remaining
  second : ∃ rest, S.accepted s'.second = S.accepted s.second ++ rest ∧
    (s'.remaining ≠ 0 → rest = [])
  flushes : R.flushes s'.first = R.flushes s.first + made.count .flush + switches s s'

variable {R : Sink.Metered σ} {S : Sink.Recording τ} {s s' s'' : Split σ τ} {bytes : List UInt8}
  {made made' : List Attempt}

omit [Outlet σ] [Outlet τ] in
theorem switches_add (h : s'.remaining ≤ s.remaining) (h' : s''.remaining ≤ s'.remaining) :
    switches s s' + switches s' s'' = switches s s'' := by
  simp only [switches]
  grind

theorem Accounts.remaining_le (h : Accounts R S s made s') : s'.remaining ≤ s.remaining := by
  obtain ⟨lead, -, hlead⟩ := h.first
  omega

theorem Accounts.refl (s : Split σ τ) : Accounts R S s [] s where
  first := ⟨[], (List.append_nil _).symm, Nat.zero_add _⟩
  second := ⟨[], (List.append_nil _).symm, fun _ => rfl⟩
  flushes := by simp [switches]

theorem Accounts.trans (h : Accounts R S s made s') (h' : Accounts R S s' made' s'') :
    Accounts R S s (made ++ made') s'' := by
  obtain ⟨lead, hfirst, hlead⟩ := h.first
  obtain ⟨lead', hfirst', hlead'⟩ := h'.first
  obtain ⟨rest, hsecond, hrest⟩ := h.second
  obtain ⟨rest', hsecond', hrest'⟩ := h'.second
  refine ⟨⟨lead ++ lead', ?_, ?_⟩, ⟨rest ++ rest', ?_, fun hwaits => ?_⟩, ?_⟩
  · rw [hfirst', hfirst, List.append_assoc]
  · rw [List.length_append]
    omega
  · rw [hsecond', hsecond, List.append_assoc]
  · rw [hrest' hwaits, hrest (by omega), List.append_nil]
  · rw [h'.flushes, h.flushes, List.count_append, ← switches_add h.remaining_le h'.remaining_le]
    omega

theorem accounts_of_first {n remaining : Nat} {first : σ} (hn : n ≤ bytes.length)
    (hremaining : n + remaining = s.remaining)
    (haccepted : R.accepted first = R.accepted s.first ++ bytes.take n)
    (hflushes : R.flushes first = R.flushes s.first + made.count .flush +
      switches s { s with remaining, first }) :
    Accounts R S s made { s with remaining, first } where
  first := ⟨bytes.take n, haccepted, by rwa [List.length_take, Nat.min_eq_left hn]⟩
  second := ⟨[], (List.append_nil _).symm, fun _ => rfl⟩
  flushes := hflushes

section Write

variable {first first' : σ} {n : Nat}

omit [Outlet τ] in
theorem accepted_first_of_write {R : Sink.Recording σ} (hn : n ≤ s.remaining)
    (hw : Outlet.write s.first (bytes.take s.remaining) = (.ok n, first)) :
    R.accepted first = R.accepted s.first ++ bytes.take n := by
  rw [R.write_ok hw, List.take_take, Nat.min_eq_left hn]

theorem accounts_of_last (hne : s.remaining ≠ 0) (hle : s.remaining ≤ bytes.length)
    (hw : Outlet.write s.first (bytes.take s.remaining) = (.ok s.remaining, first))
    {flushed : Except StreamError Unit} (hf : Outlet.flush first = (flushed, first')) :
    Accounts R S s [.write bytes] { s with remaining := 0, first := first' } := by
  refine accounts_of_first hle (Nat.add_zero _) ?_ ?_
  · rw [R.accepted_of_flush hf]
    exact accepted_first_of_write (Nat.le_refl _) hw
  · rw [R.flushes_of_flush hf, R.flushes_of_write hw]
    simp [switches, hne]

theorem Writes.accounts {r : Except StreamError Nat} (h : s.Writes bytes r s') :
    Accounts R S s [.write bytes] s' := by
  cases h with
  | @second r second hzero hw =>
    refine ⟨⟨[], (List.append_nil _).symm, Nat.zero_add _⟩, ?_, by simp [switches, hzero]⟩
    cases r with
    | ok n => exact ⟨bytes.take n, S.write_ok hw, fun hwaits => absurd hzero hwaits⟩
    | error e =>
      exact ⟨[], (S.write_error hw).trans (List.append_nil _).symm, fun _ => rfl⟩
  | @refused e first hne hw =>
    refine accounts_of_first (Nat.zero_le bytes.length) (Nat.zero_add _) ?_ ?_
    · rw [R.write_error hw, List.take_zero, List.append_nil]
    · rw [R.flushes_of_write hw]
      simp [switches, hne]
  | @part n first hlt hle hw =>
    refine accounts_of_first hle (Nat.add_sub_cancel' (Nat.le_of_lt hlt)) ?_ ?_
    · exact accepted_first_of_write (Nat.le_of_lt hlt) hw
    · rw [R.flushes_of_write hw]
      simp [switches, Nat.sub_ne_zero_of_lt hlt]
  | last hne hle hw hf | unflushed hne hle hw hf => exact accounts_of_last hne hle hw hf

theorem Writes.accepted_of_ok (h : s.Writes bytes (.ok n) s') :
    n ≤ bytes.length ∧
      (s.remaining ≠ 0 →
        R.accepted s'.first = R.accepted s.first ++ bytes.take n ∧ s'.second = s.second) ∧
      (s.remaining = 0 →
        s'.first = s.first ∧ S.accepted s'.second = S.accepted s.second ++ bytes.take n) := by
  cases h with
  | second hzero hw =>
    exact ⟨Outlet.write_le s.second bytes n (by rw [hw]), fun hne => absurd hzero hne,
      fun _ => ⟨rfl, S.write_ok hw⟩⟩
  | part hlt hle hw =>
    have haccepted := accepted_first_of_write (R := R.toRecording) (Nat.le_of_lt hlt) hw
    exact ⟨hle, fun _ => ⟨haccepted, rfl⟩, fun hzero => absurd hzero (Nat.ne_zero_of_lt hlt)⟩
  | last hne hle hw hf =>
    have haccepted := accepted_first_of_write (R := R.toRecording) (Nat.le_refl _) hw
    exact ⟨hle, fun _ => ⟨(R.accepted_of_flush hf).trans haccepted, rfl⟩,
      fun hzero => absurd hzero hne⟩

theorem Writes.accepted_of_error {e : StreamError} (h : s.Writes bytes (.error e) s') :
    (R.accepted s'.first = R.accepted s.first ∧ S.accepted s'.second = S.accepted s.second ∧
        s'.remaining = s.remaining) ∨
      s.remaining ≠ 0 ∧ s'.remaining = 0 ∧ s'.second = s.second ∧
        ∃ first, Outlet.write s.first (bytes.take s.remaining) = (.ok s.remaining, first) ∧
          Outlet.flush first = (.error e, s'.first) := by
  cases h with
  | second _ hw => exact .inl ⟨rfl, S.write_error hw, rfl⟩
  | refused _ hw => exact .inl ⟨R.write_error hw, rfl, rfl⟩
  | @unflushed _ first _ hne _ hw hf => exact .inr ⟨hne, rfl, rfl, first, hw, hf⟩

end Write

theorem Writes.flushes_second {T : Sink.Metered τ} {r : Except StreamError Nat}
    (h : s.Writes bytes r s') : T.flushes s'.second = T.flushes s.second := by
  cases h with
  | second _ hw => exact T.flushes_of_write hw
  | refused | part | last | unflushed => rfl

theorem accounts_flush (s : Split σ τ) : Accounts R S s [.flush] s.flush.2 := by
  obtain ⟨remaining, first, second⟩ := s
  -- Nothing is accepted in a flush, so that only the parts that are replaced matter.
  have hflushed {first' : σ} {second' : τ} {flushed : Except StreamError Unit}
      (hf : Outlet.flush first = (flushed, first')) (hs : S.accepted second' = S.accepted second) :
      Accounts R S ⟨remaining, first, second⟩ [.flush] ⟨remaining, first', second'⟩ := by
    refine ⟨⟨[], ?_, Nat.zero_add _⟩, ⟨[], ?_, fun _ => rfl⟩, ?_⟩
    · rw [R.accepted_of_flush hf, List.append_nil]
    · rw [hs, List.append_nil]
    · rw [R.flushes_of_flush hf]
      simp [switches]
  simp only [flush]
  cases hf : Outlet.flush first with
  | mk flushed first' =>
    cases flushed with
    | error e => exact hflushed hf rfl
    | ok u => exact hflushed hf (S.flush second)

theorem accounts_of_serves {calls : List Call} (h : Outlet.Serves s calls made s') :
    Accounts R S s made s' := by
  induction h with
  | now => exact .refl _
  | @write s bytes _ _ _ _ ih | @offer s bytes _ _ _ _ _ ih =>
    exact (s.writes_write bytes).accounts.trans ih
  | @flush s _ _ _ _ ih => exact s.accounts_flush.trans ih
  | nothing _ ih => exact ih

/-- Whatever the two sinks do, at every moment in any calls the first has accepted all of its `n` bytes
but those that remain, and as long as some remain the second has accepted none. A write that succeeds
appends the bytes that it answers for to one of the sinks. One that fails appends nothing, unless it
brings the first sink its last byte and the flush fails that comes then. Writes cause no other flush. -/
theorem accounted_under_failures (R : Sink.Metered σ) (S : Sink.Metered τ) (n : Nat) (first : σ)
    (second : τ) :
    (∀ calls made s, Outlet.Serves (Split.mk n first second) calls made s →
      (R.accepted first <+: R.accepted s.first ∧
        (R.accepted s.first).length + s.remaining = (R.accepted first).length + n) ∧
      (S.accepted second <+: S.accepted s.second ∧
        (s.remaining ≠ 0 → S.accepted s.second = S.accepted second)) ∧
      R.flushes s.first = R.flushes first + made.count .flush +
        if n ≠ 0 ∧ s.remaining = 0 then 1 else 0) ∧
    ∀ (s : Split σ τ) (bytes : List UInt8) r s', s.write bytes = (r, s') →
      (∀ k, r = .ok k → k ≤ bytes.length ∧
        (s.remaining ≠ 0 →
          R.accepted s'.first = R.accepted s.first ++ bytes.take k ∧ s'.second = s.second) ∧
        (s.remaining = 0 →
          s'.first = s.first ∧ S.accepted s'.second = S.accepted s.second ++ bytes.take k)) ∧
      (∀ e, r = .error e →
        (R.accepted s'.first = R.accepted s.first ∧ S.accepted s'.second = S.accepted s.second ∧
          s'.remaining = s.remaining) ∨
        s.remaining ≠ 0 ∧ s'.remaining = 0 ∧ s'.second = s.second ∧
          ∃ t, Outlet.write s.first (bytes.take s.remaining) = (.ok s.remaining, t) ∧
            Outlet.flush t = (.error e, s'.first)) ∧
      R.flushes s'.first = (R.flushes s.first +
        if s.remaining ≠ 0 ∧ s'.remaining = 0 then 1 else 0) ∧
      S.flushes s'.second = S.flushes s.second := by
  constructor
  · intro calls made s hserves
    have h := accounts_of_serves (R := R) (S := S.toRecording) hserves
    obtain ⟨lead, hfirst, hlead⟩ := h.first
    obtain ⟨rest, hsecond, hrest⟩ := h.second
    refine ⟨⟨⟨lead, hfirst.symm⟩, ?_⟩, ⟨⟨rest, hsecond.symm⟩, fun hwaits => ?_⟩, h.flushes⟩
    · rw [hfirst, List.length_append, Nat.add_assoc, hlead]
    · rw [hsecond, hrest hwaits, List.append_nil]
  · intro s bytes r s' hwrite
    have h := s.writes_write bytes
    rw [hwrite] at h
    refine ⟨?_, ?_, (h.accounts (S := S.toRecording)).flushes, h.flushes_second⟩
    · rintro k rfl
      exact h.accepted_of_ok
    · rintro e rfl
      exact h.accepted_of_error

theorem accounted_under_failures_of_broken_pipe :
    let first := ScriptedSink.ofScripts [.acceptAtMost 1, .fail .interrupted] [.fail .brokenPipe]
    let early : Split ScriptedSink ScriptedSink :=
      ⟨2, ⟨#[1], 0, [], [.fail .brokenPipe]⟩, ScriptedSink.plain⟩
    let late : Split ScriptedSink ScriptedSink :=
      ⟨0, ⟨#[1, 2, 3], 2, [], []⟩, ⟨#[5], 1, [], []⟩⟩
    Outlet.Serves (Split.mk 3 first ScriptedSink.plain)
        [.write [1, 2], .writeAll [2, 3, 4], .flush, .writeAll [5]]
        [.write [1, 2], .write [2, 3, 4], .write [2, 3, 4], .flush, .write [5]] late ∧
      late.first.accepted.toList.length + late.remaining = 3 ∧ late.first.flushes = 1 + 1 ∧
      (early.write [2, 3, 4]).1 = .error .brokenPipe ∧
      (early.write [2, 3, 4]).2.first.flushes = early.first.flushes + 1 ∧
      (early.write [1]).1 = .ok 1 ∧ (early.write [1]).2.first.accepted.toList = [1] ++ [1] := by
  intro first early late
  have hserves : Outlet.Serves (Split.mk 3 first ScriptedSink.plain)
      [.write [1, 2], .writeAll [2, 3, 4], .flush, .writeAll [5]]
      [.write [1, 2], .write [2, 3, 4], .write [2, 3, 4], .flush, .write [5]] late :=
    .write (.offer nofun (.offer nofun (.flush (.offer nofun (.nothing .now)))))
  obtain ⟨hmoments, hwrites⟩ := accounted_under_failures ScriptedSink.metered ScriptedSink.metered 3
    first ScriptedSink.plain
  obtain ⟨⟨-, hcount⟩, -, hflushes⟩ := hmoments _ _ late hserves
  obtain ⟨-, -, hflushed, -⟩ := hwrites early [2, 3, 4] _ _ rfl
  obtain ⟨hok, -⟩ := hwrites early [1] _ _ rfl
  exact ⟨hserves, hcount, hflushes, rfl, hflushed, rfl, ((hok 1 rfl).2.1 nofun).1⟩

end Split

end UniversalMachine
