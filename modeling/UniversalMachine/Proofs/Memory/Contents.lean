import UniversalMachine.Proofs.Memory.Handles

namespace UniversalMachine.Memory

namespace Moment

def allotted? (h : Handle) (r : Moment) : Option Word :=
  match r.op, r.result with
  | .allocate capacity, .ok (.handle h') => if h' = h then some capacity else none
  | _, _ => none

def copied? (r : Moment) : Option Segment :=
  match r.op, r.result with
  | .replaceProgram h, .ok _ => if h = 0 then none else r.before.segment? h
  | _, _ => none

def written? (h : Handle) (i : Nat) (r : Moment) : Option Word :=
  match r.op, r.result with
  | .write h' offset w, .ok _ => if h' = h ∧ offset.toNat = i then some w else none
  | _, _ => none

def renewed? (h : Handle) (r : Moment) : Option Segment :=
  if h = 0 then r.copied? else (r.allotted? h).map zeros

end Moment

def overlay (past : List Moment) (h : Handle) (s : Segment) : Segment :=
  s.mapIdx fun i w => (past.findSome? (·.written? h i)).getD w

def since (h : Handle) (past : List Moment) : List Moment :=
  past.takeWhile fun r => (r.renewed? h).isNone

def origin? (program : List Word) (h : Handle) (past : List Moment) : Option Segment :=
  (past.findSome? (·.renewed? h)).or (if h = 0 then some program.toArray else none)

def Recalls (program : List Word) (past : List Moment) (h : Handle) (s : Segment) : Prop :=
  ∃ base, origin? program h past = some base ∧ s = overlay (since h past) h base

@[simp] theorem size_overlay (past : List Moment) (h : Handle) (s : Segment) :
    (overlay past h s).size = s.size := by simp [overlay]

@[simp] theorem overlay_nil (h : Handle) (s : Segment) : overlay [] h s = s := by
  simp [overlay, Array.mapIdx_eq_zipIdx_map]

theorem getElem?_overlay (past : List Moment) (h : Handle) (s : Segment) (i : Nat) :
    (overlay past h s)[i]? = s[i]?.map fun w => (past.findSome? (·.written? h i)).getD w := by
  simp [overlay]

theorem overlay_cons_of_none {r : Moment} {h : Handle} (hr : ∀ i, r.written? h i = none)
    (past : List Moment) (s : Segment) : overlay (r :: past) h s = overlay past h s := by
  apply Array.ext_getElem?
  intro i
  simp [getElem?_overlay, hr]

theorem overlay_cons_write (m : Memory) (h : Handle) (offset w : Word) (a : Answer)
    (past : List Moment) (s : Segment) :
    overlay (⟨m, .write h offset w, .ok a⟩ :: past) h s =
      (overlay past h s).setIfInBounds offset.toNat w := by
  apply Array.ext_getElem?
  intro i
  rw [getElem?_overlay, Array.getElem?_setIfInBounds, getElem?_overlay, List.findSome?_cons]
  by_cases hi : offset.toNat = i
  · subst hi
    cases hs : s[offset.toNat]? with
    | none => simpa [Moment.written?] using hs
    | some w' =>
      have hlt := (Array.getElem?_eq_some_iff.mp hs).1
      simp [Moment.written?, hlt]
  · simp [Moment.written?, hi]

@[simp] theorem renewed?_error (m : Memory) (op : Op) (e : MemoryError) (h : Handle) :
    (Moment.mk m op (.error e)).renewed? h = none := by
  cases op <;> simp [Moment.renewed?, Moment.copied?, Moment.allotted?]

@[simp] theorem written?_error (m : Memory) (op : Op) (e : MemoryError) (h : Handle) (i : Nat) :
    (Moment.mk m op (.error e)).written? h i = none := by cases op <;> rfl

namespace Recalls

variable {program : List Word} {past : List Moment} {h : Handle} {s : Segment}

theorem renew {r : Moment} (hr : r.renewed? h = some s) : Recalls program (r :: past) h s := by
  refine ⟨s, ?_, ?_⟩
  · simp [origin?, hr]
  · simp [since, hr]

theorem keep {r : Moment} (hs : Recalls program past h s) (hr : r.renewed? h = none)
    (hw : ∀ i, r.written? h i = none) : Recalls program (r :: past) h s := by
  obtain ⟨base, horigin, hoverlay⟩ := hs
  refine ⟨base, ?_, ?_⟩
  · simpa [origin?, hr] using horigin
  · rw [since, List.takeWhile_cons_of_pos (by simp [hr]), overlay_cons_of_none hw]
    exact hoverlay

theorem write {m : Memory} {offset w : Word} {a : Answer} (hs : Recalls program past h s) :
    Recalls program (⟨m, .write h offset w, .ok a⟩ :: past) h (s.setIfInBounds offset.toNat w) := by
  obtain ⟨base, horigin, hoverlay⟩ := hs
  have hr : (Moment.mk m (.write h offset w) (.ok a)).renewed? h = none := by
    simp [Moment.renewed?, Moment.copied?, Moment.allotted?]
  refine ⟨base, ?_, ?_⟩
  · simpa [origin?, hr] using horigin
  · rw [since, List.takeWhile_cons_of_pos (by simp [hr]), overlay_cons_write, hoverlay]
    rfl

end Recalls

theorem renewed?_allocate (m : Memory) (capacity : Word) {h : Handle} (h0 : h ≠ 0) (h' : Handle) :
    (Moment.mk m (.allocate capacity) (.ok (.handle h))).renewed? h' =
      if h' = h then some (zeros capacity) else none := by
  by_cases hh : h' = h
  · subst hh
    simp [Moment.renewed?, Moment.allotted?, h0]
  · by_cases hz : h' = 0
    · simp [Moment.renewed?, Moment.copied?, hz, Ne.symm h0]
    · simp [Moment.renewed?, Moment.allotted?, hz, hh, Ne.symm hh]

theorem renewed?_copy (m : Memory) (a : Answer) {h : Handle} (h0 : h ≠ 0) (h' : Handle) :
    (Moment.mk m (.replaceProgram h) (.ok a)).renewed? h' =
      if h' = 0 then m.segment? h else none := by
  simp [Moment.renewed?, Moment.copied?, Moment.allotted?, h0]

theorem Performs.recalls_allocate [Host] {program : List Word} {past : List Moment} {m m' : Memory}
    {capacity : Word} {handle : Handle} (hp : m.Performs (.allocate capacity) (.handle handle) m')
    (hm : Consistent m) (hsize : m'.slots.size ≤ 2 ^ 32)
    (hs : ∀ h s, m.segment? h = some s → Recalls program past h s) (h : Handle) (s : Segment)
    (hs' : m'.segment? h = some s) :
    Recalls program (⟨m, .allocate capacity, .ok (.handle handle)⟩ :: past) h s := by
  -- A new segment forgets what an earlier one under its handle held.
  have hr := renewed?_allocate m capacity (hp.handle_ne_zero hm hsize) h
  rw [hp.segment?_allocate hm hsize] at hs'
  split at hs'
  · next hh =>
    cases hs'
    exact .renew (by rw [hr, if_pos hh])
  · next hh => exact (hs h s hs').keep (by rw [hr, if_neg hh]) fun _ => rfl

theorem Performs.recalls [Host] {program : List Word} {past : List Moment} {m m' : Memory} {op : Op}
    {a : Answer} (hp : m.Performs op a m') (hm : Consistent m) (hsize : m'.slots.size ≤ 2 ^ 32)
    (hs : ∀ h s, m.segment? h = some s → Recalls program past h s) (h : Handle) (s : Segment)
    (hs' : m'.segment? h = some s) : Recalls program (⟨m, op, .ok a⟩ :: past) h s := by
  have hquiet {op' : Op} {a' : Answer} (hold : m.segment? h = some s)
      (hr : (Moment.mk m op' (.ok a')).renewed? h = none)
      (hw : ∀ i, (Moment.mk m op' (.ok a')).written? h i = none) :
      Recalls program (⟨m, op', .ok a'⟩ :: past) h s := (hs h s hold).keep hr hw
  cases hp with
  | reuse hadmits hpop => exact recalls_allocate (.reuse hadmits hpop) hm hsize hs h s hs'
  | mint hadmits hpop => exact recalls_allocate (.mint hadmits hpop) hm hsize hs h s hs'
  | @free handle _ _ hlive =>
    rw [segment?_setPool, segment?_put (lt_size_of_segment? hlive)] at hs'
    split at hs'
    · cases hs'
    · exact hquiet hs' (by simp [Moment.renewed?, Moment.copied?, Moment.allotted?]) fun _ => rfl
  | @write handle offset w s₀ hlive _ =>
    rw [segment?_put (lt_size_of_segment? hlive)] at hs'
    split at hs'
    · next hh =>
      subst hh
      cases hs'
      exact (hs h s₀ hlive).write
    · next hh =>
      apply hquiet hs'
      · simp [Moment.renewed?, Moment.copied?, Moment.allotted?]
      · intro i
        simp [Moment.written?, Ne.symm hh]
  | @copy handle s₀ h0 hlive =>
    obtain ⟨s₁, hs₁⟩ := hm.program
    rw [segment?_put (lt_size_of_segment? hs₁)] at hs'
    have hr := renewed?_copy m .done h0 h
    split at hs'
    · next hh => cases hs'; exact .renew (by rw [hr, if_pos hh, hlive])
    · next hh => exact hquiet hs' (by rw [hr, if_neg hh]) fun _ => rfl
  | keep | setLimit | read | segment | program =>
    exact hquiet hs' (by simp [Moment.renewed?, Moment.copied?, Moment.allotted?]) fun _ => rfl

theorem History.recalls [Host] {program : List Word} {past : List Moment} {m : Memory}
    (hhistory : History program past m) (hsize : m.slots.size ≤ 2 ^ 32) (h : Handle) (s : Segment)
    (hs : m.segment? h = some s) : Recalls program past h s := by
  induction hhistory generalizing h s with
  | start =>
    have hlt := lt_size_of_segment? hs
    have h0 : h = 0 := by
      rw [← UInt32.toNat_inj]
      exact Nat.lt_one_iff.mp hlt
    subst h0
    refine ⟨program.toArray, by simp [origin?], ?_⟩
    rw [segment?_ofProgram] at hs
    simp [since, ← Option.some.inj hs]
  | refuse e _ ih =>
    exact (ih hsize h s hs).keep (renewed?_error ..) fun _ => written?_error ..
  | perform hpast hp ih =>
    exact hp.recalls hpast.consistent hsize (ih (Nat.le_trans hp.size_le hsize)) h s hs

theorem since_of_ne_zero {h : Handle} (h0 : h ≠ 0) (past : List Moment) :
    since h past = past.takeWhile fun r => (r.allotted? h).isNone := by
  simp [since, Moment.renewed?, h0]

theorem since_zero (past : List Moment) :
    since 0 past = past.takeWhile fun r => r.copied?.isNone := by
  simp [since, Moment.renewed?]

theorem origin?_of_ne_zero {h : Handle} (h0 : h ≠ 0) (program : List Word) (past : List Moment) :
    origin? program h past = (past.findSome? (·.allotted? h)).map zeros := by
  simp [origin?, Moment.renewed?, h0, Function.comp_def]

theorem origin?_zero (program : List Word) (past : List Moment) :
    origin? program 0 past = some ((past.findSome? Moment.copied?).getD program.toArray) := by
  cases hc : past.findSome? Moment.copied? <;> simp [origin?, Moment.renewed?, hc]

theorem segment_congr {m m' : Memory} {h : Handle} (hs : m.segment? h = m'.segment? h) :
    m.segment h = m'.segment h := by
  rw [segment, segment, hs]

theorem segment_write_of_ne (m : Memory) {h h' : Handle} (hne : h' ≠ h) (offset w : Word) :
    (m.write h offset w).2.segment h' = m.segment h' := by
  rw [write_eq]
  cases hs : m.segment? h with
  | none => rfl
  | some s =>
    simp only
    split
    · apply segment_congr
      rw [segment?_put (lt_size_of_segment? hs), if_neg hne]
    · rfl

theorem read_of_getElem? {m : Memory} {h : Handle} {s : Segment} {offset w : Word}
    (hs : m.segment? h = some s) (hw : s[offset.toNat]? = some w) : m.read h offset = .ok w := by
  simp [read, hs, hw]

theorem contents_of_past [Host] (program : List Word) (ops : List Op)
    (hminted : (after program ops).minted < 2 ^ 32) :
    (∀ h s, h ≠ 0 → (after program ops).segment h = .ok s →
      ∃ capacity, (past program ops).findSome? (·.allotted? h) = some capacity ∧
        s.size = capacity.toNat ∧
        ∀ offset, offset < capacity → (after program ops).read h offset =
          .ok ((((past program ops).takeWhile fun r => (r.allotted? h).isNone).findSome?
            (·.written? h offset.toNat)).getD 0)) ∧
    (after program ops).segment 0 =
      .ok (overlay ((past program ops).takeWhile fun r => r.copied?.isNone) 0
        (((past program ops).findSome? Moment.copied?).getD program.toArray)) ∧
    (∀ h h' offset w, h' ≠ h →
      ((after program ops).write h offset w).2.segment h' = (after program ops).segment h') ∧
    (∀ h m', h ≠ 0 → (after program ops).replaceProgram h = (.ok (), m') →
      m'.segment 0 = (after program ops).segment h ∧
        ∀ offset w, (m'.write h offset w).2.segment 0 = m'.segment 0 ∧
          (m'.write 0 offset w).2.segment h = m'.segment h) ∧
    ∀ capacity h m', (after program ops).allocate capacity = (.ok h, m') → m'.minted < 2 ^ 32 →
      m'.segment h = .ok (zeros capacity) := by
  have hhistory := history program ops
  have hm := hhistory.consistent
  have hrecalls := hhistory.recalls (size_le_of_minted hminted)
  refine ⟨?_, ?_, ?_, ?_, ?_⟩
  · intro h s h0 hs
    rw [segment_eq_ok_iff] at hs
    obtain ⟨base, horigin, hoverlay⟩ := hrecalls h s hs
    rw [origin?_of_ne_zero h0, Option.map_eq_some_iff] at horigin
    obtain ⟨capacity, hcapacity, rfl⟩ := horigin
    rw [since_of_ne_zero h0] at hoverlay
    refine ⟨capacity, hcapacity, by simp [hoverlay, zeros], ?_⟩
    intro offset hoffset
    apply read_of_getElem? hs
    have hlt : offset.toNat < capacity.toNat := hoffset
    rw [hoverlay, getElem?_overlay, zeros, Array.getElem?_replicate, if_pos hlt]
    rfl
  · obtain ⟨s, hs⟩ := hm.program
    obtain ⟨base, horigin, hoverlay⟩ := hrecalls 0 s hs
    rw [origin?_zero, Option.some.injEq] at horigin
    rw [segment_eq_ok_iff, hs, hoverlay, since_zero, ← horigin]
  · intro h h' offset w hne
    exact segment_write_of_ne _ hne offset w
  · intro h m' h0 hreplace
    rw [replaceProgram_eq, if_neg h0] at hreplace
    obtain ⟨s₀, hs₀⟩ := hm.program
    refine ⟨?_, fun offset w => ⟨segment_write_of_ne _ h0.symm offset w,
      segment_write_of_ne _ h0 offset w⟩⟩
    cases hs : (after program ops).segment? h with
    | none => simp [hs] at hreplace
    | some s =>
      simp only [hs, Prod.mk.injEq, true_and] at hreplace
      rw [← hreplace, segment, segment, segment?_put (lt_size_of_segment? hs₀), if_pos rfl, hs]
  · intro capacity h m' hallocate hminted'
    have hp : (after program ops).Performs (.allocate capacity) (.handle h) m' :=
      performs_of_ok (by rw [perform, hallocate]; rfl)
    rw [segment_eq_ok_iff, hp.segment?_allocate hm (size_le_of_minted hminted'), if_pos rfl]

open Host

theorem contents_of_past_reused :
    (after [7] [.allocate 3, .write 1 2 9, .free 1, .allocate 3, .write 1 0 4, .replaceProgram 1,
      .write 1 2 5]).minted < 2 ^ 32 ∧
    (after [7] [.allocate 3, .write 1 2 9, .free 1, .allocate 3, .write 1 0 4, .replaceProgram 1,
      .write 1 2 5]).segment 0 = .ok #[4, 0, 0] := by
  refine ⟨by decide, ?_⟩
  exact (contents_of_past [7] [.allocate 3, .write 1 2 9, .free 1, .allocate 3, .write 1 0 4,
    .replaceProgram 1, .write 1 2 5] (by decide)).2.1.trans rfl

end UniversalMachine.Memory
