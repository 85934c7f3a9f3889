namespace UniversalMachine.Numeral

def hexDigits : Nat → Nat → List Char
  | 0, _ => []
  | width + 1, n => hexDigits width (n / 16) ++ [Nat.digitChar (n % 16)]

@[simp] theorem length_hexDigits (width n : Nat) : (hexDigits width n).length = width := by
  induction width generalizing n <;> simp [hexDigits, *]

def hexPadded (width n : Nat) : String := "0x" ++ String.ofList (hexDigits width n)

def hex (n : Nat) : String := "0x" ++ String.ofList (Nat.toDigits 16 n)

def aligned (width n : Nat) : String := String.ofList (List.leftpad width ' ' (Nat.toDigits 10 n))

def ofDigits? (cs : List Char) : Option Nat :=
  if cs ≠ [] ∧ cs.all Char.isDigit then some (Nat.ofDigitChars 10 cs 0) else none

def countBound : Nat := UInt64.size

def count? (text : String) : Option Nat :=
  let digits := match text.toList with
    | '+' :: cs => cs
    | cs => cs
  (ofDigits? digits).filter (· < countBound)

end UniversalMachine.Numeral
