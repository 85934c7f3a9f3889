namespace UniversalMachine

inductive Argument
  | file (name : String)
  | option (flag value : String)
  | dangling (flag : String)
  deriving DecidableEq, Repr

/-- Whatever follows a flag is its value, even if it looks like a flag. -/
def Argument.ofStrings (flags : List String) : List String → List Argument
  | [] => []
  | [arg] => if arg ∈ flags then [.dangling arg] else [.file arg]
  | arg :: next :: rest =>
    if arg ∈ flags then .option arg next :: ofStrings flags rest
    else .file arg :: ofStrings flags (next :: rest)

inductive UsageError
  | missingValue (flag : String)
  | notACount (flag value : String)
  | unexpected (argument : String)
  | noProgram (command : String)
  | severalPrograms
  | noCodexOrKey
  deriving DecidableEq, Repr

namespace UsageError

def message : UsageError → String
  | missingValue flag => "error: " ++ flag ++ " requires a value"
  | notACount flag value => "error: " ++ flag ++ " expects a non-negative integer, got '" ++ value ++ "'"
  | unexpected argument => "error: unexpected argument '" ++ argument ++ "'"
  | noProgram command => "error: " ++ command ++ " requires at least one program file"
  | severalPrograms => "error: -o can only be used with a single input file"
  | noCodexOrKey => "error: dump requires a codex file and --key"

def showsUsage : UsageError → Bool
  | missingValue _ | unexpected _ | noProgram _ | noCodexOrKey => true
  | notACount .. | severalPrograms => false

def lines (e : UsageError) (usage : String) : List String :=
  if e.showsUsage then [e.message, usage] else [e.message]

end UsageError

end UniversalMachine
