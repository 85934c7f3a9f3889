import UniversalMachine.Proofs.Memory.Handles
import UniversalMachine.Proofs.Memory.Refuses
/-! What became of a handle: it was never given out, or it is taken, or it was released. A history tells
it by the last operation that concerned the handle, and the memory keeps it in the slots. Main
statement: the errors of a memory say of every handle what its history says. -/

namespace UniversalMachine.Memory

inductive Standing
  | taken
  | released
  deriving DecidableEq, Repr

def Moment.standing? (h : Handle) (r : Moment) : Option Standing :=
  if r.handed? = some h then some .taken else if r.freed? = some h then some .released else none

def lastStanding? (h : Handle) (past : List Moment) : Option Standing :=
  past.findSome? (·.standing? h)

def Standing.ofSlot : Option Segment → Standing
  | some _ => taken
  | none => released

def standing? (m : Memory) (h : Handle) : Option Standing := m.slots[h.toNat]?.map .ofSlot

def Dangling (m : Memory) (h : Handle) : Prop := h ≠ 0 ∧ ∃ e, (m.free h).1 = .error e

section Slots

variable {m : Memory} {h : Handle}

theorem standing?_put (hlt : h.toNat < m.slots.size) (s : Option Segment) (h' : Handle) :
    (m.put h s).standing? h' = if h' = h then some (.ofSlot s) else m.standing? h' := by
  simp only [standing?, getElem?_put hlt, UInt32.toNat_inj]
  split <;> rfl

theorem standing?_grow (m : Memory) (s : Segment) (h : Handle) :
    (m.grow s).standing? h = if h.toNat = m.slots.size then some .taken else m.standing? h := by
  simp only [standing?, getElem?_grow]
  split <;> rfl

@[simp] theorem standing?_setPool (m : Memory) (pool : Fifo Handle) (h : Handle) :
    (m.setPool pool).standing? h = m.standing? h := rfl

theorem standing?_ofProgram (program : List Word) (h0 : h ≠ 0) :
    (ofProgram program).standing? h = none := by
  have hpos : 1 ≤ h.toNat := Nat.pos_of_ne_zero fun hz => h0 (UInt32.toNat_inj.mp hz)
  rw [standing?, Array.getElem?_eq_none hpos]
  rfl

theorem standing?_eq_none_iff : m.standing? h = none ↔ m.slots.size ≤ h.toNat := by
  rw [standing?, Option.map_eq_none_iff, Array.getElem?_eq_none_iff]

theorem segment?_eq_none_iff : m.segment? h = none ↔ m.standing? h ≠ some .taken := by
  rw [standing?, segment?]
  rcases m.slots[h.toNat]? with _ | _ | s <;> simp [Standing.ofSlot]

theorem standing?_of_segment? {s : Segment} (hs : m.segment? h = some s) :
    m.standing? h = some .taken := by
  rw [standing?, segment?_eq_some_iff.mp hs]
  rfl

end Slots

section Errors

variable {m : Memory} {h : Handle} {offset w : Word} {e : MemoryError}

theorem fst_free_zero (m : Memory) : (m.free 0).1 = .error .freeProgram := by
  rw [free, if_pos rfl]

theorem fst_free (h0 : h ≠ 0) :
    (m.free h).1 =
      match m.standing? h with
      | none => .error (.neverAllocated h)
      | some .released => .error (.alreadyFree h)
      | some .taken => .ok () := by
  rw [free, if_neg h0, standing?]
  rcases m.slots[h.toNat]? with _ | _ | s <;> rfl

theorem Consistent.dangling_iff (hm : Consistent m) : m.Dangling h ↔ m.segment? h = none := by
  rw [segment?_eq_none_iff]
  constructor
  · rintro ⟨h0, e, he⟩ htaken
    rw [fst_free h0, htaken] at he
    cases he
  · intro hs
    have h0 := hm.ne_zero_of_segment? (segment?_eq_none_iff.mpr hs)
    refine ⟨h0, ?_⟩
    rw [fst_free h0]
    match hst : m.standing? h with
    | none => exact ⟨_, rfl⟩
    | some .released => exact ⟨_, rfl⟩
    | some .taken => exact absurd hst hs

variable [Host]

theorem segment_eq_error_iff :
    m.segment h = .error e ↔ m.segment? h = none ∧ e = .unallocated h := by
  constructor
  · intro he
    cases refuses_segment he with
    | segment hs => exact ⟨hs, rfl⟩
  · rintro ⟨hs, rfl⟩
    exact error_of_map (Refuses.segment hs).perform

theorem replaceProgram_eq_error_iff :
    (m.replaceProgram h).1 = .error e ↔ h ≠ 0 ∧ m.segment? h = none ∧ e = .unallocated h := by
  constructor
  · intro he
    cases refuses_replaceProgram he with
    | replaceProgram h0 hs => exact ⟨h0, hs, rfl⟩
  · rintro ⟨h0, hs, rfl⟩
    exact error_of_map (Refuses.replaceProgram h0 hs).perform

theorem read_eq_error_iff :
    m.read h offset = .error e ↔
      m.segment? h = none ∧ e = .unallocated h ∨
        ∃ s, m.segment h = .ok s ∧ s.size ≤ offset.toNat ∧ e = .outOfBounds h offset s.size := by
  simp only [segment_eq_ok_iff]
  constructor
  · intro he
    cases refuses_read he with
    | read hs => exact .inl ⟨hs, rfl⟩
    | readBeyond hs hle => exact .inr ⟨_, hs, hle, rfl⟩
  · rintro (⟨hs, rfl⟩ | ⟨s, hs, hle, rfl⟩)
    · exact error_of_map (Refuses.read hs).perform
    · exact error_of_map (Refuses.readBeyond hs hle).perform

theorem write_eq_error_iff :
    (m.write h offset w).1 = .error e ↔
      m.segment? h = none ∧ e = .unallocated h ∨
        ∃ s, m.segment h = .ok s ∧ s.size ≤ offset.toNat ∧ e = .outOfBounds h offset s.size := by
  simp only [segment_eq_ok_iff]
  constructor
  · intro he
    cases refuses_write he with
    | write hs => exact .inl ⟨hs, rfl⟩
    | writeBeyond hs hle => exact .inr ⟨_, hs, hle, rfl⟩
  · rintro (⟨hs, rfl⟩ | ⟨s, hs, hle, rfl⟩)
    · exact error_of_map (Refuses.write (w := w) hs).perform
    · exact error_of_map (Refuses.writeBeyond (w := w) hs hle).perform

end Errors

section Moments

theorem standing?_of_quiet {r : Moment} (hhanded : r.handed? = none) (hfreed : r.freed? = none)
    (h : Handle) : r.standing? h = none := by
  simp [Moment.standing?, hhanded, hfreed]

theorem standing?_allocate (m : Memory) (capacity : Word) (h h' : Handle) :
    (Moment.mk m (.allocate capacity) (.ok (.handle h))).standing? h' =
      if h' = h then some .taken else none := by
  simp [Moment.standing?, Moment.handed?, Moment.freed?, eq_comm]

theorem standing?_free (m : Memory) (h h' : Handle) (a : Answer) :
    (Moment.mk m (.free h) (.ok a)).standing? h' = if h' = h then some .released else none := by
  simp [Moment.standing?, Moment.handed?, Moment.freed?, eq_comm]

theorem lastStanding?_cons (r : Moment) (past : List Moment) (h : Handle) :
    lastStanding? h (r :: past) = (r.standing? h).or (lastStanding? h past) := by
  rw [lastStanding?, List.findSome?_cons]
  cases r.standing? h <;> rfl

end Moments

section Past

variable {program : List Word} {past : List Moment} {m m' : Memory} {h : Handle}

theorem Ordered.mem_handed_iff_standing? (ho : Ordered past m) (h0 : h ≠ 0) :
    h ∈ handed past ↔ m.standing? h ≠ none := by
  rw [ho.mem_handed_iff, ne_eq (m.standing? h), standing?_eq_none_iff, Nat.not_le]
  exact and_iff_right h0

variable [Host]

theorem Performs.standing? {op : Op} {a : Answer} (hp : m.Performs op a m') (hm : Consistent m)
    (hsize : m'.slots.size ≤ 2 ^ 32) (h0 : h ≠ 0) :
    m'.standing? h = ((Moment.mk m op (.ok a)).standing? h).or (m.standing? h) := by
  cases hp with
  | reuse _ hpop =>
    have hlt := hm.lt_size_of_mem (Fifo.toList_of_pop? hpop ▸ List.mem_cons_self)
    rw [standing?_setPool, standing?_put hlt, standing?_allocate]
    split <;> rfl
  | mint =>
    rw [size_grow] at hsize
    rw [standing?_grow, standing?_allocate]
    simp only [← UInt32.toNat_inj, UInt32.toNat_ofNat_of_lt' hsize]
    split <;> rfl
  | free _ hs =>
    rw [standing?_setPool, standing?_put (lt_size_of_segment? hs), standing?_free]
    split <;> rfl
  | write hs _ =>
    rw [standing?_put (lt_size_of_segment? hs), standing?_of_quiet rfl rfl, Option.none_or]
    split
    · next hh => rw [hh, standing?_of_segment? hs, Standing.ofSlot]
    · rfl
  | copy =>
    obtain ⟨s₀, hs₀⟩ := hm.program
    rw [standing?_put (lt_size_of_segment? hs₀), if_neg h0, standing?_of_quiet rfl rfl,
      Option.none_or]
  | keep | setLimit | read | segment | program => exact Option.none_or.symm

theorem History.standing? (hhistory : History program past m) (hsize : m.slots.size ≤ 2 ^ 32)
    (h0 : h ≠ 0) : m.standing? h = lastStanding? h past := by
  induction hhistory with
  | start => exact standing?_ofProgram program h0
  | refuse e _ ih =>
    rw [lastStanding?_cons, standing?_of_quiet (handed?_error ..) (freed?_error ..),
      Option.none_or, ih hsize]
  | perform hpast hp ih =>
    rw [lastStanding?_cons, hp.standing? hpast.consistent hsize h0,
      ih (Nat.le_trans hp.size_le hsize)]

theorem History.free_iff (hhistory : History program past m) (hsize : m.slots.size ≤ 2 ^ 32)
    (h : Handle) :
    ((m.free h).1 = .error .freeProgram ↔ h = 0) ∧
    ((m.free h).1 = .error (.neverAllocated h) ↔ h ≠ 0 ∧ h ∉ handed past) ∧
    ((m.free h).1 = .error (.alreadyFree h) ↔
      h ∈ handed past ∧ lastStanding? h past = some .released) ∧
    ((m.free h).1 = .ok () ↔
      h ≠ 0 ∧ h ∈ handed past ∧ lastStanding? h past ≠ some .released) := by
  have ho := hhistory.ordered hsize
  by_cases h0 : h = 0
  · subst h0
    simp [fst_free_zero, ho.mem_handed_iff]
  · rw [fst_free h0, ho.mem_handed_iff_standing? h0, ← hhistory.standing? hsize h0]
    rcases m.standing? h with _ | _ | _ <;> simp [h0]

end Past

theorem errors_of_past [Host] (program : List Word) (ops : List Op)
    (hminted : (after program ops).minted < 2 ^ 32) (h : Handle) :
    (((after program ops).free h).1 = .error .freeProgram ↔ h = 0) ∧
    (((after program ops).free h).1 = .error (.neverAllocated h) ↔
      h ≠ 0 ∧ h ∉ handed (past program ops)) ∧
    (((after program ops).free h).1 = .error (.alreadyFree h) ↔
      h ∈ handed (past program ops) ∧ lastStanding? h (past program ops) = some .released) ∧
    (((after program ops).free h).1 = .ok () ↔
      h ≠ 0 ∧ h ∈ handed (past program ops) ∧
        lastStanding? h (past program ops) ≠ some .released) ∧
    (∀ e, (after program ops).segment h = .error e ↔
      (after program ops).Dangling h ∧ e = .unallocated h) ∧
    (∀ e, ((after program ops).replaceProgram h).1 = .error e ↔
      (after program ops).Dangling h ∧ e = .unallocated h) ∧
    (∀ offset e, (after program ops).read h offset = .error e ↔
      (after program ops).Dangling h ∧ e = .unallocated h ∨
        ∃ s, (after program ops).segment h = .ok s ∧ s.size ≤ offset.toNat ∧
          e = .outOfBounds h offset s.size) ∧
    ∀ offset w e, ((after program ops).write h offset w).1 = .error e ↔
      (after program ops).Dangling h ∧ e = .unallocated h ∨
        ∃ s, (after program ops).segment h = .ok s ∧ s.size ≤ offset.toNat ∧
          e = .outOfBounds h offset s.size := by
  have hhistory := history program ops
  have hm := hhistory.consistent
  obtain ⟨hprogram, hnever, htwice, hfreed⟩ := hhistory.free_iff (size_le_of_minted hminted) h
  simp only [hm.dangling_iff]
  refine ⟨hprogram, hnever, htwice, hfreed, fun e => segment_eq_error_iff, fun e => ?_,
    fun offset e => read_eq_error_iff, fun offset w e => write_eq_error_iff⟩
  rw [replaceProgram_eq_error_iff]
  exact and_iff_right_of_imp fun h => hm.ne_zero_of_segment? h.1

open Host

theorem errors_of_past_reused :
    (after [7] [.allocate 3, .free 1, .allocate 1, .allocate 2, .free 3, .free 1]).minted < 2 ^ 32 ∧
    ((after [7] [.allocate 3, .free 1, .allocate 1, .allocate 2, .free 3, .free 1]).free 1).1 =
      .error (.alreadyFree 1) ∧
    ((after [7] [.allocate 3, .free 1, .allocate 1, .allocate 2, .free 3, .free 1]).free 2).1 =
      .ok () ∧
    ((after [7] [.allocate 3, .free 1, .allocate 1, .allocate 2, .free 3, .free 1]).free 3).1 =
      .error (.neverAllocated 3) ∧
    (after [7] [.allocate 3, .free 1, .allocate 1, .allocate 2, .free 3, .free 1]).read 2 2 =
      .error (.outOfBounds 2 2 2) := by
  have hminted : (after [7] [.allocate 3, .free 1, .allocate 1, .allocate 2, .free 3,
      .free 1]).minted < 2 ^ 32 := by decide
  obtain ⟨-, -, htwice, -⟩ := errors_of_past _ _ hminted 1
  obtain ⟨-, -, -, hok, -, -, hread, -⟩ := errors_of_past _ _ hminted 2
  obtain ⟨-, hnever, -⟩ := errors_of_past _ _ hminted 3
  exact ⟨hminted, htwice.mpr (by decide), hok.mpr (by decide), hnever.mpr (by decide),
    (hread 2 _).mpr (.inr ⟨#[0, 0], rfl, by decide, rfl⟩)⟩

end UniversalMachine.Memory
