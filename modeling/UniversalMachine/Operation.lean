import UniversalMachine.Image

namespace UniversalMachine

inductive Operation
  | instruction (i : Instruction)
  | data (w : Word)
  deriving DecidableEq, Repr

def Instruction.characterHint (value : Word) : String :=
  if value = 0x0a then " '\\n'"
  else if value = 0x09 then " '\\t'"
  else if value = 0x0d then " '\\r'"
  else if value = 0x08 then " '\\b'"
  else if 0x20 ≤ value ∧ value ≤ 0xff then " '" ++ String.singleton (.ofNat value.toNat) ++ "'"
  else ""

def Instruction.pseudocode : Instruction → String
  | conditionalMove a b c =>
    if a = b then "NOOP" else "if (" ++ c.text ++ " != 0) " ++ a.text ++ " <- " ++ b.text
  | arrayIndex a b c => a.text ++ " <- mem[" ++ b.text ++ "][" ++ c.text ++ "]"
  | arrayAmendment a b c => "mem[" ++ a.text ++ "][" ++ b.text ++ "] <- " ++ c.text
  | addition a b c => a.text ++ " <- " ++ b.text ++ " + " ++ c.text
  | multiplication a b c => a.text ++ " <- " ++ b.text ++ " * " ++ c.text
  | division a b c => a.text ++ " <- " ++ b.text ++ " / " ++ c.text
  | notAnd a b c => a.text ++ " <- ~(" ++ b.text ++ " & " ++ c.text ++ ")"
  | halt => "=== HALT ==="
  | allocation b c => b.text ++ " <- @allocate(size = " ++ c.text ++ ")"
  | abandonment c => "free(mem[" ++ c.text ++ "])"
  | output c => "print(" ++ c.text ++ ")"
  | input c => c.text ++ " <- read()"
  | loadProgram b c => "loadProgram(mem[" ++ b.text ++ "]); finger <- " ++ c.text
  | orthography a value => a.text ++ " <- " ++ Nat.repr value.toNat ++ characterHint value

namespace Operation

def decode (w : Word) : Operation :=
  match Instruction.decode w with
  | .ok i => instruction i
  | .error _ => data w

def pseudocode : Operation → String
  | instruction i => i.pseudocode
  | data w => "DATA? " ++ w.hex

end Operation

namespace Image

def listingLine (index : Nat) (w : Word) : String :=
  Numeral.aligned 4 index ++ "\t" ++ w.hex ++ "\t" ++ (Operation.decode w).pseudocode ++ "\n"

def listing (image : Image) : String :=
  String.join (image.words.zipIdx.map fun (w, index) => listingLine index w)

end Image

end UniversalMachine
