import UniversalMachine.Operation
import UniversalMachine.Proofs.Instruction.Canonical
import UniversalMachine.Proofs.Numeral

namespace UniversalMachine

namespace Register

theorem toList_text (r : Register) : r.text.toList = ['R', Nat.digitChar r.val] := by
  rw [text, String.toList_append, Nat.toList_repr, Nat.toDigits_of_lt_base (by omega)]
  rfl

def ofDigit (c : Char) : Register := ⟨(c.toNat - '0'.toNat) % 8, Nat.mod_lt _ (by decide)⟩

@[simp] theorem ofDigit_digitChar (r : Register) : ofDigit (Nat.digitChar r.val) = r := by
  revert r
  decide

theorem text_injective : Function.Injective text := by
  intro r r' h
  have hdigit : Nat.digitChar r.val = Nat.digitChar r'.val := by
    have hlists := congrArg String.toList h
    rw [toList_text, toList_text] at hlists
    simpa using hlists
  rw [← ofDigit_digitChar r, hdigit, ofDigit_digitChar]

end Register

namespace Opcode

def arity : Opcode → Nat
  | conditionalMove | arrayIndex | arrayAmendment | addition | multiplication | division
  | notAnd => 3
  | halt => 0
  | allocation | loadProgram => 2
  | abandonment | output | input | orthography => 1

def ofMnemonic? (mnemonic : String) : Option Opcode :=
  all.toList.find? (Opcode.mnemonic · = mnemonic)

theorem ofMnemonic?_mnemonic (op : Opcode) : ofMnemonic? op.mnemonic = some op := by
  cases op <;> decide

theorem mnemonic_injective : Function.Injective mnemonic := by
  intro op op' h
  apply Option.some.inj
  rw [← ofMnemonic?_mnemonic, h, ofMnemonic?_mnemonic]

end Opcode

namespace Instruction

variable {i i' : Instruction}

def immediates : Instruction → List Word
  | orthography _ value => [value]
  | _ => []

def ofOperands? : Opcode → List Register → List Word → Option Instruction
  | .conditionalMove, [a, b, c], [] => some (conditionalMove a b c)
  | .arrayIndex, [a, b, c], [] => some (arrayIndex a b c)
  | .arrayAmendment, [a, b, c], [] => some (arrayAmendment a b c)
  | .addition, [a, b, c], [] => some (addition a b c)
  | .multiplication, [a, b, c], [] => some (multiplication a b c)
  | .division, [a, b, c], [] => some (division a b c)
  | .notAnd, [a, b, c], [] => some (notAnd a b c)
  | .halt, [], [] => some halt
  | .allocation, [b, c], [] => some (allocation b c)
  | .abandonment, [c], [] => some (abandonment c)
  | .output, [c], [] => some (output c)
  | .input, [c], [] => some (input c)
  | .loadProgram, [b, c], [] => some (loadProgram b c)
  | .orthography, [a], [value] => some (orthography a value)
  | _, _, _ => none

theorem ofOperands?_opcode (i : Instruction) :
    ofOperands? i.opcode i.registers i.immediates = some i := by
  cases i <;> rfl

theorem length_registers (i : Instruction) : i.registers.length = i.opcode.arity := by
  cases i <;> rfl

def textParts (i : Instruction) : List String :=
  i.opcode.mnemonic :: (i.registers.map Register.text ++ i.immediates.map fun v => Nat.repr v.toNat)

theorem text_eq_intercalate (i : Instruction) : i.text = " ".intercalate i.textParts := by
  cases i <;> rfl

theorem blank_not_mem_repr (n : Nat) : ' ' ∉ (Nat.repr n).toList := by
  rw [Nat.toList_repr]
  intro hblank
  exact absurd (Nat.isDigit_of_mem_toDigits (by decide) (by decide) hblank) (by decide)

theorem blank_not_mem_textParts (i : Instruction) : ∀ part ∈ i.textParts, ' ' ∉ part.toList := by
  intro part hpart
  rw [textParts, List.mem_cons, List.mem_append, List.mem_map, List.mem_map] at hpart
  obtain rfl | ⟨r, -, rfl⟩ | ⟨value, -, rfl⟩ := hpart
  · cases i.opcode <;> decide
  · rw [Register.text, String.toList_append, List.mem_append, not_or]
    exact ⟨by decide, blank_not_mem_repr r.val⟩
  · exact blank_not_mem_repr value.toNat

theorem splitOn_text (i : Instruction) :
    i.text.toList.splitOn ' ' = i.textParts.map String.toList := by
  rw [text_eq_intercalate, String.toList_intercalate]
  refine List.splitOn_intercalate ' ' (fun part hpart => ?_) (List.cons_ne_nil _ _)
  obtain ⟨text, htext, rfl⟩ := List.mem_map.mp hpart
  exact i.blank_not_mem_textParts text htext

theorem text_injective : Function.Injective text := by
  intro i i' h
  have hparts : i.textParts = i'.textParts := by
    apply (List.map_inj_right fun _ _ => String.toList_inj.mp).mp
    rw [← splitOn_text, ← splitOn_text, h]
  obtain ⟨hmnemonic, hoperands⟩ := List.cons.inj hparts
  have hopcode := Opcode.mnemonic_injective hmnemonic
  have hlength :
      (i.registers.map Register.text).length = (i'.registers.map Register.text).length := by
    rw [List.length_map, List.length_map, length_registers, length_registers, hopcode]
  obtain ⟨hregisters, himmediates⟩ := List.append_inj hoperands hlength
  have hsame : i.registers = i'.registers :=
    (List.map_inj_right Register.text_injective).mp hregisters
  have hvalues : i.immediates = i'.immediates := by
    refine (List.map_inj_right fun v v' hrepr => ?_).mp himmediates
    rw [← UInt32.toNat_inj, ← Numeral.leading_repr v.toNat, hrepr, Numeral.leading_repr]
  apply Option.some.inj
  rw [← ofOperands?_opcode, ← ofOperands?_opcode, hopcode, hsame, hvalues]

end Instruction

section Pseudocode

/-- The instruction that begins with the name of its register, told by what comes after the arrow;
the registers of the text are given by column. -/
def Instruction.ofAssignment (register : Nat → Register) (cs : List Char) : Instruction :=
  if (cs.getD 6 ' ').isDigit then .orthography (register 1) (.ofNat (Numeral.leading (cs.drop 6)))
  else match cs.getD 6 ' ' with
    | 'm' => .arrayIndex (register 1) (register 11) (register 15)
    | '~' => .notAnd (register 1) (register 9) (register 14)
    | '@' => .allocation (register 1) (register 24)
    | 'r' => .input (register 1)
    | _ => match cs.getD 9 ' ' with
      | '+' => .addition (register 1) (register 7) (register 12)
      | '*' => .multiplication (register 1) (register 7) (register 12)
      | _ => .division (register 1) (register 7) (register 12)

def Operation.ofPseudocode (cs : List Char) : Operation :=
  let register (column : Nat) : Register := .ofDigit (cs.getD column ' ')
  match cs.getD 0 ' ' with
  | 'R' => .instruction (.ofAssignment register cs)
  | 'i' => .instruction (.conditionalMove (register 14) (register 20) (register 5))
  | 'm' => .instruction (.arrayAmendment (register 5) (register 9) (register 16))
  | 'f' => .instruction (.abandonment (register 10))
  | 'p' => .instruction (.output (register 7))
  | 'l' => .instruction (.loadProgram (register 17) (register 33))
  | '=' => .instruction .halt
  | _ => .data ((Word.ofHex? (cs.drop 6)).getD 0)

theorem Instruction.pseudocode_eq_noop_iff {i : Instruction} :
    i.pseudocode = "NOOP" ↔ ∃ a c, i = .conditionalMove a a c := by
  constructor
  · intro h
    -- No other text begins with an `N`.
    have hhead : i.pseudocode.toList.head? = some 'N' := by rw [h]; rfl
    unfold pseudocode at hhead
    cases i with
    | conditionalMove a b c =>
      by_cases hab : a = b
      · exact ⟨a, c, by rw [hab]⟩
      · simp [hab] at hhead
    | halt => cases hhead
    | _ => simp [Register.toList_text] at hhead
  · rintro ⟨a, c, rfl⟩
    exact if_pos rfl

theorem Instruction.not_isDigit_characterHint (value : Word) :
    ∀ c ∈ (characterHint value).toList.head?, ¬c.isDigit := by
  fun_cases characterHint value with
  | case6 => nofun
  | _ => simp

theorem Instruction.ofPseudocode_pseudocode {i : Instruction} (h : i.pseudocode ≠ "NOOP") :
    Operation.ofPseudocode i.pseudocode.toList = .instruction i := by
  unfold pseudocode
  cases i with
  | conditionalMove a b c =>
    have hab : a ≠ b := fun hab => h (if_pos hab)
    simp [hab, Register.toList_text, Operation.ofPseudocode]
  | orthography a value =>
    -- The number ends where its digits do: a hint begins with a blank.
    have hvalue := Numeral.leading_repr_append (n := value.toNat) (not_isDigit_characterHint value)
    have hdigit := Numeral.isDigit_getD_repr_append value.toNat (characterHint value).toList
    have htext : (a.text ++ " <- " ++ Nat.repr value.toNat ++ characterHint value).toList =
        ['R', Nat.digitChar a.val, ' ', '<', '-', ' '] ++
          ((Nat.repr value.toNat).toList ++ (characterHint value).toList) := by
      simp [Register.toList_text]
    rw [htext]
    generalize (Nat.repr value.toNat).toList ++ (characterHint value).toList = cs at hvalue hdigit
    have hcolumn : ((['R', Nat.digitChar a.val, ' ', '<', '-', ' '] ++ cs).getD 6 ' ').isDigit :=
      hdigit
    change Operation.instruction (ofAssignment _ _) = _
    rw [ofAssignment, if_pos hcolumn]
    simp [hvalue]
  | halt => rfl
  | _ => simp [Register.toList_text, Operation.ofPseudocode, ofAssignment]

namespace Operation

theorem pseudocode_eq_noop_iff {op : Operation} :
    op.pseudocode = "NOOP" ↔ ∃ a c, op = .instruction (.conditionalMove a a c) := by
  cases op with
  | instruction i => simp only [pseudocode, Instruction.pseudocode_eq_noop_iff, instruction.injEq]
  | data w =>
    refine iff_of_false (fun h => ?_) nofun
    have hhead : (pseudocode (.data w)).toList.head? = some 'N' := by rw [h]; rfl
    simp [pseudocode] at hhead

theorem ofPseudocode_pseudocode {op : Operation} (h : op.pseudocode ≠ "NOOP") :
    ofPseudocode op.pseudocode.toList = op := by
  cases op with
  | instruction i => exact Instruction.ofPseudocode_pseudocode h
  | data w => simp [pseudocode, ofPseudocode, Word.ofHex?_hex]

theorem pseudocode_eq_iff {op op' : Operation} :
    op.pseudocode = op'.pseudocode ↔
      op = op' ∨ (∃ a c, op = .instruction (.conditionalMove a a c)) ∧
        ∃ a c, op' = .instruction (.conditionalMove a a c) := by
  rw [← pseudocode_eq_noop_iff, ← pseudocode_eq_noop_iff]
  constructor
  · intro h
    by_cases hnoop : op.pseudocode = "NOOP"
    · exact .inr ⟨hnoop, h ▸ hnoop⟩
    · left
      rw [← ofPseudocode_pseudocode hnoop, h, ofPseudocode_pseudocode (h ▸ hnoop)]
  · rintro (rfl | ⟨hnoop, hnoop'⟩)
    · rfl
    · rw [hnoop, hnoop']

end Operation

end Pseudocode

/-- Which instructions share a canonical text, which operations share their pseudocode, and what
equal texts say of the words that are written back. -/
theorem Instruction.text_unambiguous :
    (∀ i i' : Instruction, i.text = i'.text ↔ i = i') ∧
    (∀ op op' : Operation, op.pseudocode = op'.pseudocode ↔
      op = op' ∨ (∃ a c, op = .instruction (.conditionalMove a a c)) ∧
        ∃ a c, op' = .instruction (.conditionalMove a a c)) ∧
    ∀ w w' i i', decode w = .ok i → decode w' = .ok i' →
      ∃ v v', encode i = .ok v ∧ encode i' = .ok v' ∧ (i.text = i'.text ↔ v = v') := by
  refine ⟨fun i i' => text_injective.eq_iff, fun op op' => Operation.pseudocode_eq_iff,
    fun w w' i i' hw hw' => ?_⟩
  obtain ⟨v, hv, -⟩ := encode_of_decode hw
  obtain ⟨v', hv', -⟩ := encode_of_decode hw'
  refine ⟨v, v', hv, hv', fun htext => ?_, fun hsame => ?_⟩
  · rw [text_injective htext] at hv
    exact Except.ok.inj (hv.symm.trans hv')
  · rw [encode_inj hv (hsame ▸ hv')]

/-- Moves of a register to itself are told apart by their canonical texts alone. -/
example :
    (Instruction.conditionalMove 1 1 2).pseudocode = (Instruction.conditionalMove 3 3 4).pseudocode ∧
      (Instruction.conditionalMove 1 1 2).text ≠ (Instruction.conditionalMove 3 3 4).text := by
  decide

end UniversalMachine
