import Mathlib.Data.List.DropRight
import UniversalMachine.Command.Dump

namespace UniversalMachine

section Text

variable {bytes : List UInt8} {text text' : String}

theorem fromUTF8?_eq_some_iff :
    String.fromUTF8? bytes.toByteArray = some text ↔
      bytes = text.toList.flatMap String.utf8EncodeChar := by
  have htext : (text.toList.flatMap String.utf8EncodeChar).toByteArray = text.toByteArray :=
    text.utf8Encode_toList
  rw [String.fromUTF8?]
  constructor
  · intro h
    split at h
    · cases h
      exact List.toByteArray_inj.mp htext.symm
    · cases h
  · rintro rfl
    have hvalid : (text.toList.flatMap String.utf8EncodeChar).toByteArray.IsValidUTF8 :=
      htext ▸ text.isValidUTF8
    rw [dif_pos hvalid, Option.some.injEq]
    exact String.toByteArray_inj.mp htext

theorem flatMap_utf8EncodeChar_inj :
    text.toList.flatMap String.utf8EncodeChar = text'.toList.flatMap String.utf8EncodeChar ↔
      text = text' := by
  rw [← fromUTF8?_eq_some_iff, fromUTF8?_eq_some_iff.mpr rfl, Option.some.injEq, eq_comm]

end Text

namespace Codex

structure Splits (key body ends : String) : Prop where
  eq_append : key = body ++ ends
  lineEnds : ∀ c ∈ ends.toList, c = '\r' ∨ c = '\n'
  stops : ∀ c ∈ body.toList.getLast?, c ≠ '\r' ∧ c ≠ '\n'

variable {key body ends : String}

theorem isLineEnd_iff {c : Char} : isLineEnd c ↔ c = '\r' ∨ c = '\n' := by simp [isLineEnd]

theorem keyBody_eq (key : String) : keyBody key = key.toList.rdropWhile isLineEnd := rfl

theorem rdropWhile_append_of_pos {α : Type*} {p : α → Bool} {xs ys : List α}
    (h : ∀ y ∈ ys, p y) : (xs ++ ys).rdropWhile p = xs.rdropWhile p := by
  have hreverse : ∀ y ∈ ys.reverse, p y := fun y hy => h y (List.mem_reverse.mp hy)
  rw [List.rdropWhile, List.reverse_append, List.dropWhile_append_of_pos hreverse, List.rdropWhile]

theorem keyBody_append (key : String) (h : ∀ c ∈ ends.toList, c = '\r' ∨ c = '\n') :
    keyBody (key ++ ends) = keyBody key := by
  rw [keyBody_eq, String.toList_append,
    rdropWhile_append_of_pos fun c hc => isLineEnd_iff.mpr (h c hc), keyBody_eq]

theorem Splits.keyBody (h : Splits key body ends) : keyBody key = body.toList := by
  rw [h.eq_append, keyBody_append body h.lineEnds, keyBody_eq, List.rdropWhile_eq_self_iff]
  intro hne hlast
  obtain ⟨hcr, hlf⟩ := h.stops _ (List.getLast?_eq_some_getLast hne)
  exact (isLineEnd_iff.mp hlast).elim hcr hlf

theorem exists_splits (key : String) : ∃ body ends, Splits key body ends := by
  refine ⟨String.ofList (Codex.keyBody key), String.ofList (key.toList.rtakeWhile isLineEnd),
    ?_, ?_, ?_⟩
  · rw [← String.ofList_append, keyBody_eq, List.rdropWhile_append_rtakeWhile, String.ofList_toList]
  · intro c hc
    rw [String.toList_ofList] at hc
    exact isLineEnd_iff.mp (List.mem_rtakeWhile_imp hc)
  · intro c hc
    rw [String.toList_ofList] at hc
    have hne : Codex.keyBody key ≠ [] := fun hnil => by rw [hnil] at hc; cases hc
    have hlast := List.rdropWhile_last_not isLineEnd key.toList hne
    rw [List.getLast?_eq_some_getLast hne] at hc
    cases hc
    rwa [isLineEnd_iff, not_or] at hlast

theorem Splits.unique {body' ends' : String} (h : Splits key body ends)
    (h' : Splits key body' ends') : body' = body ∧ ends' = ends := by
  obtain rfl : body' = body := String.toList_inj.mp (h'.keyBody.symm.trans h.keyBody)
  have happend := h'.eq_append.symm.trans h.eq_append
  exact ⟨rfl, (String.append_right_inj _).mp happend⟩

theorem Splits.input (h : Splits key body ends) :
    input key = body.toList.flatMap String.utf8EncodeChar ++ [0x0a, 0x70] := by
  rw [Codex.input, h.keyBody]

/-- Each key has one body, the input tells this body, and line ends put behind the key change
nothing. -/
theorem input_tells_body (key : String) :
    ∃ body ends, Splits key body ends ∧
      (∀ body' ends', Splits key body' ends' → body' = body ∧ ends' = ends) ∧
      input key = body.toList.flatMap String.utf8EncodeChar ++ [0x0a, 0x70] ∧
      (∀ key' body' ends', Splits key' body' ends' → (input key' = input key ↔ body' = body)) ∧
      ∀ more : String, (∀ c ∈ more.toList, c = '\r' ∨ c = '\n') →
        input (key ++ more) = input key := by
  obtain ⟨body, ends, h⟩ := exists_splits key
  refine ⟨body, ends, h, fun _ _ => h.unique, h.input, fun key' body' ends' h' => ?_,
    fun more hmore => ?_⟩
  · rw [h.input, h'.input, List.append_left_inj, flatMap_utf8EncodeChar_inj]
  · rw [Codex.input, keyBody_append key hmore, Codex.input]

/-- Line ends and blanks inside the key are kept, and a blank behind it too. -/
example : input "\na\r\n b \r\n\n" = [0x0a, 0x61, 0x0d, 0x0a, 0x20, 0x62, 0x20, 0x0a, 0x70] := by
  decide +kernel

end Codex

end UniversalMachine
