import UniversalMachine.Instruction.Codec

namespace UniversalMachine

structure Image where
  words : List Word
  deriving DecidableEq, Repr

structure PartialWord where
  length : Nat
  deriving DecidableEq, Repr

def PartialWord.message (e : PartialWord) : String :=
  "invalid program image length: " ++ Nat.repr e.length ++ " (must be multiple of 4)"

namespace Image

def readWords (read : List Word) : List UInt8 → List Word
  | b₀ :: b₁ :: b₂ :: b₃ :: rest => readWords (.ofBytes b₀ b₁ b₂ b₃ :: read) rest
  | _ => read.reverse

def ofBytes (bytes : List UInt8) : Except PartialWord Image :=
  if bytes.length % 4 = 0 then .ok ⟨readWords [] bytes⟩ else .error ⟨bytes.length⟩

def toBytes (image : Image) : List UInt8 := image.words.flatMap Word.toBytes

def ofInstructions (instructions : List Instruction) : Except AssemblyError Image :=
  (instructions.mapM Instruction.encode).map Image.mk

def join (images : List Image) : Image := ⟨images.flatMap Image.words⟩

def joinBytes (images : List (List UInt8)) : Except PartialWord Image :=
  (images.mapM ofBytes).map join

def size (image : Image) : Nat := image.words.length

end Image

end UniversalMachine
