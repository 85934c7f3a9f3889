import UniversalMachine.Command.Run
import UniversalMachine.Stream.Split

namespace UniversalMachine

namespace Codex

def introLength : Nat := 195

def isLineEnd (c : Char) : Bool := c = '\r' || c = '\n'

def keyBody (key : String) : List Char := (key.toList.reverse.dropWhile isLineEnd).reverse

def input (key : String) : List UInt8 :=
  (keyBody key).flatMap String.utf8EncodeChar ++ [0x0a, 0x70]

end Codex

structure DumpDraft where
  codex : Option String := none
  key : Option String := none
  output : String := "umix.um"
  introLength : Nat := Codex.introLength
  deriving DecidableEq, Repr

structure DumpOptions where
  codex : String
  key : String
  output : String
  introLength : Nat
  deriving DecidableEq, Repr

namespace DumpOptions

def usage : String := "Usage: um dump <codex.umz> --key FILE [-o OUT] [--intro-bytes N]"

def flags : List String := ["--key", "-o", "--intro-bytes"]

def add (o : DumpDraft) : Argument → Except UsageError DumpDraft
  | .file name => if o.codex.isSome then .error (.unexpected name) else .ok { o with codex := some name }
  | .dangling flag => .error (.missingValue flag)
  | .option flag value =>
    if flag = "--key" then .ok { o with key := some value }
    else if flag = "-o" then .ok { o with output := value }
    else
      match Numeral.count? value with
      | some introLength => .ok { o with introLength }
      | none => .error (.notACount flag value)

def ofArguments (args : List String) : Except UsageError DumpOptions := do
  let o ← (Argument.ofStrings flags args).foldlM add {}
  match o.codex, o.key with
  | some codex, some key => .ok ⟨codex, key, o.output, o.introLength⟩
  | _, _ => .error .noCodexOrKey

def readKey (name : String) : Action String := do
  let bytes ← Action.readFile name
  match String.fromUTF8? bytes.toByteArray with
  | some key => return key
  | none => Action.refuse [Action.cannotRead name "stream did not contain valid UTF-8"]

def load (o : DumpOptions) (image : Image) (key : String) :
    Machine (Split ScriptedSink ScriptedSink) :=
  Machine.load image (.ofBytes (Codex.input key)) ⟨o.introLength, .plain, .plain⟩

def halted (steps : Nat) : String := "codex halted after " ++ Nat.repr steps ++ " steps"

/-- The output file is created, and emptied if it was there, before the codex starts. -/
def perform [Host] (o : DumpOptions) (fuel : Nat) : Action Unit := do
  let image ← Action.readImage o.codex
  let key ← readKey o.key
  Action.writeFile o.output []
  Action.say "running the codex on the Universal Machine..."
  let (result, m) ← Action.runMachine fuel (o.load image key)
  modify fun s => { s with output := s.output ++ m.sink.first.accepted.toList }
  Action.writeFile o.output m.sink.second.accepted.toList
  Action.concludeRun halted result
  Action.say ("<redirected to '" ++ o.output ++ "'>")

end DumpOptions

end UniversalMachine
