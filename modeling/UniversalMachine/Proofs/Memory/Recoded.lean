import UniversalMachine.Proofs.Instruction.Canonical
import UniversalMachine.Proofs.Memory.Program

namespace UniversalMachine

structure Segment.Recoded (s s' : Segment) : Prop where
  size : s'.size = s.size
  words : ∀ {i : Nat} {w}, s[i]? = some w → s'[i]? = some w ∨ s'[i]? = some w.canonical

namespace Segment.Recoded

theorem map_canonical (p : List Word) :
    Segment.Recoded p.toArray (p.map Word.canonical).toArray where
  size := by rw [List.size_toArray, List.length_map, List.size_toArray]
  words {i w} hw := by
    rw [List.getElem?_toArray] at hw
    rw [List.getElem?_toArray, List.getElem?_map, hw]
    exact .inr rfl

theorem setIfInBounds {s s' : Segment} (h : Segment.Recoded s s') (offset : Nat) (w : Word) :
    Segment.Recoded (s.setIfInBounds offset w) (s'.setIfInBounds offset w) where
  size := by rw [Array.size_setIfInBounds, Array.size_setIfInBounds, h.size]
  words {i w'} hw := by
    rw [Array.getElem?_setIfInBounds] at hw ⊢
    split at hw
    · next hi =>
      rw [if_pos hi, h.size]
      exact .inl hw
    · next hi =>
      rw [if_neg hi]
      exact h.words hw

end Segment.Recoded

namespace Memory

def Recoded (m m' : Memory) : Prop :=
  ∃ s s', m.segment? 0 = some s ∧ Segment.Recoded s s' ∧ m' = m.put 0 (some s')

def Op.ReadsProgram : Op → Prop
  | .read h _ | .segment h => h = 0
  | .program => True
  | _ => False

theorem recoded_ofProgram (p : List Word) :
    Recoded (ofProgram p) (ofProgram (p.map Word.canonical)) :=
  ⟨p.toArray, _, rfl, .map_canonical p, by simp [ofProgram, put]⟩

variable {m m' : Memory}

theorem Recoded.setLimit (h : Recoded m m') (limit : Nat) :
    Recoded (m.setLimit limit) (m'.setLimit limit) := by
  obtain ⟨s, s', hs, hwords, rfl⟩ := h
  exact ⟨s, s', hs, hwords, rfl⟩

theorem Recoded.read_zero (h : Recoded m m') (hm : Consistent m) (offset : Word) :
    m'.read 0 offset = m.read 0 offset ∨ m'.read 0 offset = (m.read 0 offset).map Word.canonical := by
  obtain ⟨s, s', hs, hwords, rfl⟩ := h
  simp only [read, hm.segment?_zero_put_zero, hs]
  cases hw : s[offset.toNat]? with
  | none =>
    have hw' : s'[offset.toNat]? = none := by
      rw [Array.getElem?_eq_none_iff, hwords.size]
      exact Array.getElem?_eq_none_iff.mp hw
    rw [hw', hwords.size]
    exact .inl rfl
  | some w =>
    obtain hw' | hw' := hwords.words hw
    · rw [hw']
      exact .inl rfl
    · rw [hw']
      exact .inr rfl

theorem Recoded.write_zero (h : Recoded m m') (hm : Consistent m) (offset w : Word) :
    (m'.write 0 offset w).1 = (m.write 0 offset w).1 ∧
      Recoded (m.write 0 offset w).2 (m'.write 0 offset w).2 := by
  obtain ⟨s, s', hs, hwords, rfl⟩ := h
  simp only [write_eq, hm.segment?_zero_put_zero, hs, hwords.size]
  split
  · refine ⟨rfl, _, _, hm.segment?_zero_put_zero _, hwords.setIfInBounds offset.toNat w, ?_⟩
    rw [put_put, put_put]
  · exact ⟨rfl, s, s', hs, hwords, rfl⟩

theorem Recoded.replaceProgram {h : Handle} {s : Segment} (hr : Recoded m m') (hm : Consistent m)
    (h0 : h ≠ 0) (hs : m.segment? h = some s) :
    (m'.replaceProgram h).1 = (m.replaceProgram h).1 ∧
      Recoded (m.replaceProgram h).2 (m'.replaceProgram h).2 := by
  obtain ⟨s₀, s', -, -, rfl⟩ := hr
  simp only [replaceProgram_eq, if_neg h0, hm.segment?_put_zero, hs]
  refine ⟨trivial, s, s, hm.segment?_zero_put_zero _, ⟨rfl, .inl⟩, ?_⟩
  rw [put_put, put_put]

theorem Recoded.perform [Host] (h : Recoded m m') (hm : Consistent m) {op : Op}
    (hop : ¬op.ReadsProgram) :
    (m'.perform op).1 = (m.perform op).1 ∧ Recoded (m.perform op).2 (m'.perform op).2 := by
  by_cases hspares : m.Spares op
  · obtain ⟨s, s', hs, hwords, rfl⟩ := h
    rw [hm.perform_put_zero _ hspares]
    exact ⟨rfl, s, s', (hm.segment?_zero_perform hspares).trans hs, hwords, rfl⟩
  · cases op with
    | write h' offset w =>
      obtain rfl : h' = 0 := by_contra hspares
      obtain ⟨hresult, hnext⟩ := h.write_zero hm offset w
      exact ⟨congrArg (Except.map fun _ => Answer.done) hresult, hnext⟩
    | replaceProgram h' =>
      simp only [Spares, not_or, Option.ne_none_iff_exists'] at hspares
      obtain ⟨h0, s, hs⟩ := hspares
      obtain ⟨hresult, hnext⟩ := h.replaceProgram hm h0 hs
      exact ⟨congrArg (Except.map fun _ => Answer.done) hresult, hnext⟩
    | read | segment => exact absurd (by_contra hspares) hop
    | program => exact absurd trivial hop
    | allocate | free | setLimit => exact absurd trivial hspares

end Memory

end UniversalMachine
