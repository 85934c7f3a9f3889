import Mathlib.Data.List.Basic
import UniversalMachine.Operation

namespace UniversalMachine

def IsControl (c : Char) : Prop := c.toNat ≤ 0x1f ∨ 0x7f ≤ c.toNat ∧ c.toNat ≤ 0x9f

instance : DecidablePred IsControl := fun _ => inferInstanceAs (Decidable (_ ∨ _))

def controls (text : String) : List Char := text.toList.filter IsControl

theorem mem_controls_iff {c : Char} {text : String} :
    c ∈ controls text ↔ c ∈ text.toList ∧ IsControl c := by
  rw [controls, List.mem_filter, decide_eq_true_iff]

@[simp] theorem controls_append (s t : String) : controls (s ++ t) = controls s ++ controls t := by
  rw [controls, String.toList_append, List.filter_append]
  rfl

theorem controls_join (texts : List String) :
    controls (String.join texts) = texts.flatMap controls := by
  rw [controls, String.toList_join, List.filter_flatMap]
  rfl

section Numerals

theorem not_isControl_of_isDigit {c : Char} (h : c.isDigit) : ¬IsControl c := by
  simp only [Char.isDigit, Bool.and_eq_true, decide_eq_true_eq, UInt32.le_iff_toNat_le] at h
  have hle : 48 ≤ c.toNat ∧ c.toNat ≤ 57 := h
  rw [IsControl]
  omega

theorem not_isControl_of_mem_toDigits {n : Nat} {c : Char} (h : c ∈ Nat.toDigits 10 n) :
    ¬IsControl c :=
  not_isControl_of_isDigit (Nat.isDigit_of_mem_toDigits (by decide) (by decide) h)

@[simp] theorem controls_repr (n : Nat) : controls (Nat.repr n) = [] := by
  rw [controls, Nat.toList_repr, List.filter_eq_nil_iff]
  intro c hc
  simpa using not_isControl_of_mem_toDigits hc

@[simp] theorem controls_aligned (width n : Nat) : controls (Numeral.aligned width n) = [] := by
  rw [controls, Numeral.aligned, String.toList_ofList, List.filter_eq_nil_iff]
  intro c hc
  rw [List.leftpad, List.mem_append, List.mem_replicate] at hc
  obtain ⟨-, rfl⟩ | hc := hc
  · decide
  · simpa using not_isControl_of_mem_toDigits hc

theorem not_isControl_digitChar : ∀ d < 16, ¬IsControl (Nat.digitChar d) := by decide

theorem not_isControl_of_mem_hexDigits {width n : Nat} {c : Char}
    (h : c ∈ Numeral.hexDigits width n) : ¬IsControl c := by
  induction width generalizing n with
  | zero => cases h
  | succ width ih =>
    rw [Numeral.hexDigits, List.mem_append, List.mem_singleton] at h
    obtain h | rfl := h
    · exact ih h
    · exact not_isControl_digitChar _ (Nat.mod_lt _ (by decide))

@[simp] theorem controls_hex (w : Word) : controls w.hex = [] := by
  have hmark : controls "0x" = [] := rfl
  rw [Word.hex, Numeral.hexPadded, controls_append, hmark, List.nil_append, controls,
    String.toList_ofList, List.filter_eq_nil_iff]
  intro c hc
  simpa using not_isControl_of_mem_hexDigits hc

@[simp] theorem controls_register (r : Register) : controls r.text = [] := by
  rw [Register.text, controls_append, controls_repr]
  rfl

end Numerals

namespace Instruction

def HasStray (value : Word) : Prop := 0x7f ≤ value ∧ value ≤ 0x9f

instance (value : Word) : Decidable (HasStray value) := inferInstanceAs (Decidable (_ ∧ _))

inductive Hints : Word → String → Prop
  | none {value} : Hints value ""
  | newline : Hints 0x0a " '\\n'"
  | tab : Hints 0x09 " '\\t'"
  | carriageReturn : Hints 0x0d " '\\r'"
  | backspace : Hints 0x08 " '\\b'"
  | printable {c : Char} : c.toNat ≤ 0xff → ¬IsControl c →
      Hints (.ofNat c.toNat) (" '" ++ String.singleton c ++ "'")

def strays : Instruction → List Char
  | orthography _ value => if HasStray value then [.ofNat value.toNat] else []
  | _ => []

theorem toNat_ofNat_of_le {n : Nat} (h : n ≤ 0xff) : (Char.ofNat n).toNat = n := by
  have hvalid : n.isValidChar := .inl (by omega)
  rw [Char.ofNat, dif_pos hvalid]
  rfl

theorem isControl_ofNat_iff {value : Word} (h : 0x20 ≤ value ∧ value ≤ 0xff) :
    IsControl (.ofNat value.toNat) ↔ HasStray value := by
  have hvalue : 0x20 ≤ value.toNat ∧ value.toNat ≤ 0xff := h
  rw [IsControl, toNat_ofNat_of_le hvalue.2]
  change _ ↔ 0x7f ≤ value.toNat ∧ value.toNat ≤ 0x9f
  omega

theorem controls_quoted (c : Char) :
    controls (" '" ++ String.singleton c ++ "'") = if IsControl c then [c] else [] := by
  have hquotes : controls " '" = [] ∧ controls "'" = [] := ⟨rfl, rfl⟩
  rw [controls_append, controls_append, hquotes.1, hquotes.2, List.nil_append, List.append_nil,
    controls, String.toList_singleton, List.filter_cons, List.filter_nil]
  simp only [decide_eq_true_eq]

theorem controls_characterHint (value : Word) :
    controls (characterHint value) = if HasStray value then [.ofNat value.toNat] else [] := by
  fun_cases characterHint value with
  | case1 h | case2 _ h | case3 _ _ h | case4 _ _ _ h =>
    subst h
    rfl
  | case5 _ _ _ _ hvalue => simp only [controls_quoted, isControl_ofNat_iff hvalue]
  | case6 _ _ _ _ hvalue =>
    rw [if_neg]
    · rfl
    · rintro ⟨hlow, hhigh⟩
      exact hvalue ⟨UInt32.le_trans (by decide) hlow, UInt32.le_trans hhigh (by decide)⟩

theorem controls_pseudocode (i : Instruction) : controls i.pseudocode = i.strays := by
  unfold pseudocode
  cases i with
  | conditionalMove a b c =>
    dsimp only [strays]
    split
    · rfl
    · simp only [controls_append, controls_register, List.append_nil, List.append_eq_nil_iff]
      decide
  | orthography a value =>
    have harrow : controls " <- " = [] := rfl
    simp only [controls_append, controls_register, controls_repr, harrow, List.nil_append,
      controls_characterHint, strays]
  | halt => rfl
  | _ =>
    simp only [controls_append, controls_register, List.append_nil, List.append_eq_nil_iff, strays]
    decide

theorem le_of_mem_strays {i : Instruction} {c : Char} (h : c ∈ i.strays) : 0x7f ≤ c.toNat := by
  cases i with
  | orthography a value =>
    rw [strays] at h
    split at h
    · next hstray =>
      have hvalue : 0x7f ≤ value.toNat ∧ value.toNat ≤ 0x9f := hstray
      rw [List.mem_singleton.mp h, toNat_ofNat_of_le (by omega)]
      exact hvalue.1
    · cases h
  | _ => cases h

theorem strays_eq_nil_iff {i : Instruction} :
    i.strays = [] ↔ ∀ a value, i = .orthography a value → ¬HasStray value := by
  cases i with
  | orthography a value => simp [strays]
  | _ => exact iff_of_true rfl nofun

theorem Hints.controls_eq_nil {value : Word} {text : String} (h : Hints value text) :
    controls text = [] := by
  cases h with
  | printable _ hpicture => rw [controls_quoted, if_neg hpicture]
  | _ => rfl

theorem hints_characterHint_iff {value : Word} :
    Hints value (characterHint value) ↔ ¬HasStray value := by
  constructor
  · intro hhints hstray
    have hcontrols := hhints.controls_eq_nil
    rw [controls_characterHint, if_pos hstray] at hcontrols
    cases hcontrols
  · intro hstray
    fun_cases characterHint value with
    | case1 h => exact h ▸ .newline
    | case2 _ h => exact h ▸ .tab
    | case3 _ _ h => exact h ▸ .carriageReturn
    | case4 _ _ _ h => exact h ▸ .backspace
    | case5 _ _ _ _ hvalue =>
      have hle : value.toNat ≤ 0xff := hvalue.2
      have hchar : (Char.ofNat value.toNat).toNat = value.toNat := toNat_ofNat_of_le hle
      have hhints := Hints.printable (Nat.le_trans (Nat.le_of_eq hchar) hle)
        (mt (isControl_ofNat_iff hvalue).mp hstray)
      rw [hchar, UInt32.ofNat_toNat] at hhints
      exact hhints
    | case6 => exact .none

end Instruction

namespace Operation

def strays : Operation → List Char
  | instruction i => i.strays
  | data _ => []

theorem controls_pseudocode (op : Operation) : controls op.pseudocode = op.strays := by
  cases op with
  | instruction i => exact i.controls_pseudocode
  | data w =>
    rw [pseudocode, controls_append, controls_hex]
    rfl

theorem le_of_mem_strays {op : Operation} {c : Char} (h : c ∈ op.strays) : 0x7f ≤ c.toNat := by
  cases op with
  | instruction i => exact Instruction.le_of_mem_strays h
  | data w => cases h

theorem not_mem_pseudocode {op : Operation} {c : Char} (h : c.toNat ≤ 0x1f) :
    c ∉ op.pseudocode.toList := by
  intro hc
  have hcontrol : c ∈ controls op.pseudocode := mem_controls_iff.mpr ⟨hc, .inl h⟩
  rw [controls_pseudocode] at hcontrol
  have hle := le_of_mem_strays hcontrol
  omega

theorem strays_decode_eq_nil_iff {w : Word} :
    (decode w).strays = [] ↔
      ∀ a value, Instruction.decode w = .ok (.orthography a value) →
        ¬Instruction.HasStray value := by
  rw [decode]
  cases Instruction.decode w with
  | error e => exact iff_of_true rfl nofun
  | ok i => simp only [strays, Instruction.strays_eq_nil_iff, Except.ok.injEq]

end Operation

namespace Image

theorem controls_listingLine (index : Nat) (w : Word) :
    controls (listingLine index w) = ['\t', '\t'] ++ (Operation.decode w).strays ++ ['\n'] := by
  have hseparators : controls "\t" = ['\t'] ∧ controls "\n" = ['\n'] := ⟨rfl, rfl⟩
  simp [listingLine, Operation.controls_pseudocode, hseparators]

theorem controls_listing (image : Image) :
    controls image.listing =
      image.words.flatMap fun w => ['\t', '\t'] ++ (Operation.decode w).strays ++ ['\n'] := by
  let shown (w : Word) : List Char := ['\t', '\t'] ++ (Operation.decode w).strays ++ ['\n']
  have hwords : image.words.zipIdx.flatMap (fun r => shown r.1) = image.words.flatMap shown := by
    rw [← List.flatMap_map, List.zipIdx_map_fst]
  rw [listing, controls_join, List.flatMap_map, ← hwords]
  simp only [controls_listingLine]
  rfl

/-- Which control characters stand in a listing, which listings have none but the separators of
their lines, and which immediates are shown as they are. -/
theorem listing_printable_iff (image : Image) :
    controls image.listing =
        image.words.flatMap (fun w => ['\t', '\t'] ++ (Operation.decode w).strays ++ ['\n']) ∧
    (controls image.listing = image.words.flatMap (fun _ => ['\t', '\t', '\n']) ↔
      ∀ w ∈ image.words, ∀ a value, Instruction.decode w = .ok (.orthography a value) →
        ¬(0x7f ≤ value ∧ value ≤ 0x9f)) ∧
    ∀ value, Instruction.Hints value (Instruction.characterHint value) ↔
      ¬(0x7f ≤ value ∧ value ≤ 0x9f) := by
  refine ⟨controls_listing image, ?_, fun value => Instruction.hints_characterHint_iff⟩
  rw [controls_listing]
  constructor
  · intro h w hw
    apply Operation.strays_decode_eq_nil_iff.mp
    apply List.eq_nil_iff_forall_not_mem.mpr
    intro c hc
    have hmem : c ∈ image.words.flatMap fun _ => ['\t', '\t', '\n'] := by
      rw [← h]
      exact List.mem_flatMap.mpr ⟨w, hw, by simp [hc]⟩
    obtain ⟨-, -, hseparator⟩ := List.mem_flatMap.mp hmem
    have hle := Operation.le_of_mem_strays hc
    simp only [List.mem_cons, List.not_mem_nil, or_false] at hseparator
    rcases hseparator with rfl | rfl | rfl <;> exact absurd hle (by decide)
  · intro h
    apply List.flatMap_congr
    intro w hw
    rw [Operation.strays_decode_eq_nil_iff.mpr (h w hw)]
    rfl

theorem listing_shows_terminal_command :
    controls (listing ⟨[0xd000009b]⟩) = ['\t', '\t', '\u009b', '\n'] ∧
      ¬Instruction.Hints 0x9b (Instruction.characterHint 0x9b) := by
  refine ⟨by decide +kernel, fun hhints => ?_⟩
  exact absurd hhints.controls_eq_nil (by decide +kernel)

end Image

end UniversalMachine
