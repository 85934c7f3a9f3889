import UniversalMachine.Command.Argument
import UniversalMachine.Command.Session
import UniversalMachine.Machine.Notice
import UniversalMachine.Stream.Script

universe u

namespace UniversalMachine

structure RunOptions where
  files : List String := []
  input : Option String := none
  limit : Nat := Memory.noLimit
  deriving DecidableEq, Repr

namespace RunOptions

def usage : String := "Usage: um run <prog.um>... [--input FILE] [--max-segment-words N]"

def flags : List String := ["--input", "--max-segment-words"]

def add (o : RunOptions) : Argument → Except UsageError RunOptions
  | .file name => .ok { o with files := o.files ++ [name] }
  | .dangling flag => .error (.missingValue flag)
  | .option flag value =>
    if flag = "--input" then .ok { o with input := some value }
    else
      match Numeral.count? value with
      | some limit => .ok { o with limit }
      | none => .error (.notACount flag value)

def ofArguments (args : List String) : Except UsageError RunOptions := do
  let o ← (Argument.ofStrings flags args).foldlM add {}
  if o.files = [] then .error (.noProgram "run") else .ok o

end RunOptions

namespace Action

def runInput : Option String → Action Source
  | some name => openFile name
  | none => return (← get).input

def runMachine {σ : Type} [Sink σ] [Host] (fuel : Nat) (m : Machine σ) :
    Action (Except Fault Nat × Machine σ) := do
  log (Notice.started m.memory.program.size).entry
  match m.runNoticed (fun s n => Session.log n.entry s) fuel (← get) with
  | some (result, s) =>
    set s
    return result
  | none => throw .unfinished

def concludeRun (halted : Nat → String) : Except Fault Nat → Action Unit
  | .ok steps => log ⟨.info, "um::commands", halted steps⟩
  | .error fault => do
    say ("error: " ++ fault.category ++ ": " ++ fault.message)
    throw (.exit .faulted)

end Action

namespace RunOptions

def prepare (o : RunOptions) : Action (Machine ScriptedSink) := do
  let image ← Action.readImages o.files
  Action.log ⟨.info, "um::commands",
    "loaded " ++ Nat.repr image.size ++ " words from " ++ Nat.repr o.files.length ++ " file(s)"⟩
  let source ← Action.runInput o.input
  return (Machine.load image source .plain).setLimit o.limit

def halted (steps : Nat) : String := "halted after " ++ Nat.repr steps ++ " steps"

def perform [Host] (o : RunOptions) (fuel : Nat) : Action Unit := do
  let (result, m) ← Action.runMachine fuel (← o.prepare)
  modify fun s => { s with output := s.output ++ m.sink.accepted.toList }
  Action.concludeRun halted result

end RunOptions

end UniversalMachine
