import Mathlib.Algebra.Group.Nat.Defs
import UniversalMachine.Proofs.Traverse
import UniversalMachine.Word

namespace UniversalMachine

namespace Numeral

def leading (cs : List Char) : Nat := Nat.ofDigitChars 10 (cs.takeWhile Char.isDigit) 0

def hexDigit? (c : Char) : Option Nat := (List.range 16).find? (Nat.digitChar · = c)

def ofHexDigits? (cs : List Char) : Option Nat :=
  cs.foldlM (fun n c => (hexDigit? c).map (16 * n + ·)) 0

theorem leading_repr_append {n : Nat} {cs : List Char} (h : ∀ c ∈ cs.head?, ¬c.isDigit) :
    leading ((Nat.repr n).toList ++ cs) = n := by
  have hdigits : ∀ c ∈ Nat.toDigits 10 n, c.isDigit :=
    fun c hc => Nat.isDigit_of_mem_toDigits (by decide) (by decide) hc
  rw [leading, Nat.toList_repr, takeWhile_append_eq_left hdigits h, Nat.ofDigitChars_ten_toDigits]

theorem leading_repr (n : Nat) : leading (Nat.repr n).toList = n := by
  have hnone : ∀ c ∈ ([] : List Char).head?, ¬c.isDigit := nofun
  have h := leading_repr_append (n := n) hnone
  rwa [List.append_nil] at h

theorem isDigit_getD_repr_append (n : Nat) (cs : List Char) :
    (((Nat.repr n).toList ++ cs).getD 0 ' ').isDigit := by
  rw [Nat.toList_repr]
  cases hdigits : Nat.toDigits 10 n with
  | nil => exact absurd hdigits Nat.toDigits_ne_nil
  | cons d ds =>
    have hmem : d ∈ Nat.toDigits 10 n := hdigits ▸ List.mem_cons_self
    exact Nat.isDigit_of_mem_toDigits (by decide) (by decide) hmem

theorem hexDigit?_digitChar : ∀ d < 16, hexDigit? (Nat.digitChar d) = some d := by decide

theorem ofHexDigits?_concat (cs : List Char) (c : Char) :
    ofHexDigits? (cs ++ [c]) = (ofHexDigits? cs).bind fun n => (hexDigit? c).map (16 * n + ·) := by
  rw [ofHexDigits?, List.foldlM_append]
  cases h : cs.foldlM (fun n c => (hexDigit? c).map (16 * n + ·)) 0 with
  | none => simp [ofHexDigits?, h]
  | some n => simp [ofHexDigits?, h]

theorem ofHexDigits?_hexDigits (width n : Nat) :
    ofHexDigits? (hexDigits width n) = some (n % 16 ^ width) := by
  induction width generalizing n with
  | zero => rw [Nat.pow_zero, Nat.mod_one]; rfl
  | succ width ih =>
    rw [hexDigits, ofHexDigits?_concat, ih, hexDigit?_digitChar _ (Nat.mod_lt _ (by decide)),
      Nat.pow_succ', Nat.mod_mul, Nat.add_comm]
    rfl

end Numeral

namespace Word

def ofHex? : List Char → Option Word
  | '0' :: 'x' :: digits =>
    if digits.length = 8 then (Numeral.ofHexDigits? digits).map .ofNat else none
  | _ => none

theorem toList_hex (w : Word) : w.hex.toList = '0' :: 'x' :: Numeral.hexDigits 8 w.toNat := by
  rw [hex, Numeral.hexPadded, String.toList_append, String.toList_ofList, String.toList_ofList]
  rfl

theorem ofHex?_hex (w : Word) : ofHex? w.hex.toList = some w := by
  have hlt : w.toNat < 16 ^ 8 := w.toNat_lt
  rw [toList_hex, ofHex?, if_pos (Numeral.length_hexDigits 8 w.toNat),
    Numeral.ofHexDigits?_hexDigits, Nat.mod_eq_of_lt hlt, Option.map_some, UInt32.ofNat_toNat]

end Word

end UniversalMachine
