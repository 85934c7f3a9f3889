import UniversalMachine.Command.Argument
import UniversalMachine.Command.Session
import UniversalMachine.Operation

namespace UniversalMachine

structure DisassembleOptions where
  files : List String := []
  output : Option String := none
  deriving DecidableEq, Repr

namespace DisassembleOptions

def usage : String := "Usage: um disassemble <prog.um>... [-o OUT]"

def flags : List String := ["-o"]

def add (o : DisassembleOptions) : Argument → Except UsageError DisassembleOptions
  | .file name => .ok { o with files := o.files ++ [name] }
  | .dangling flag => .error (.missingValue flag)
  | .option _ value => .ok { o with output := some value }

def ofArguments (args : List String) : Except UsageError DisassembleOptions := do
  let o ← (Argument.ofStrings flags args).foldlM add {}
  if o.files = [] then .error (.noProgram "disassemble")
  else if o.output.isSome ∧ 1 < o.files.length then .error .severalPrograms
  else .ok o

def performOn (output : Option String) (name : String) : Action Unit := do
  let image ← Action.readImage name
  let target := output.getD (Path.listing name)
  Action.writeFile target (image.listing.toList.flatMap String.utf8EncodeChar)
  Action.say ("disassembled " ++ Nat.repr image.size ++ " words -> " ++ target)

def perform (o : DisassembleOptions) : Action Unit := o.files.forM (performOn o.output)

end DisassembleOptions

end UniversalMachine
