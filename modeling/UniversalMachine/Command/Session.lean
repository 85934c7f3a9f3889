import UniversalMachine.File.Tree
import UniversalMachine.Image
import UniversalMachine.Log
import UniversalMachine.Stream.Source

namespace UniversalMachine

structure Session where
  files : FileTree
  input : Source
  verbosity : Verbosity
  output : List UInt8
  messages : Array String
  deriving DecidableEq, Repr

inductive ExitCode
  | success
  | refused
  | faulted
  deriving DecidableEq, Repr

def ExitCode.toNat : ExitCode → Nat
  | success => 0
  | refused => 1
  | faulted => 2

/-- Why a command ends before its last action; `unfinished` says that a run took more steps than it
was given. -/
inductive Stop
  | exit (code : ExitCode)
  | unfinished
  deriving DecidableEq, Repr

abbrev Action := ExceptT Stop (StateM Session)

namespace Session

def start (files : FileTree) (input : Source) (verbosity : Verbosity) : Session :=
  ⟨files, input, verbosity, [], #[]⟩

def say (line : String) (s : Session) : Session := { s with messages := s.messages.push line }

def log (e : LogEntry) (s : Session) : Session := if e.Wanted s.verbosity then s.say e.render else s

def messageText (s : Session) : String := String.join (s.messages.toList.map (· ++ "\n"))

end Session

namespace Action

def on {α : Type} (action : Action α) (s : Session) : Except Stop α × Session :=
  (ExceptT.run action).run s

def say (line : String) : Action Unit := modify (·.say line)

def log (e : LogEntry) : Action Unit := modify (·.log e)

def refuse {α : Type} (lines : List String) : Action α := do
  lines.forM say
  throw (.exit .refused)

def cannotRead (name : String) (reason : String) : String :=
  "error: cannot read '" ++ name ++ "': " ++ reason

def cannotWrite (name : String) (reason : String) : String :=
  "error: cannot write '" ++ name ++ "': " ++ reason

def readFile (name : String) : Action (List UInt8) := do
  match (← get).files.read name with
  | .ok bytes => return bytes
  | .error e => refuse [cannotRead name e.message]

def openFile (name : String) : Action Source := do
  match (← get).files.find name with
  | .ok (.file bytes) => return .ofBytes bytes
  | .ok .directory => return [.fail .isADirectory]
  | .error e => refuse [cannotRead name e.message]

def writeFile (name : String) (bytes : List UInt8) : Action Unit := do
  let s ← get
  match s.files.write name bytes with
  | .ok files => set { s with files }
  | .error e => refuse [cannotWrite name e.message]

def readImageBytes (name : String) : Action (List UInt8) := do
  let bytes ← readFile name
  log ⟨.debug, "um::commands", "read " ++ Nat.repr bytes.length ++ " bytes from '" ++ name ++ "'"⟩
  return bytes

def readImages (names : List String) : Action Image := do
  match Image.joinBytes (← names.mapM readImageBytes) with
  | .ok image => return image
  | .error e => refuse ["error: " ++ e.message]

def readImage (name : String) : Action Image := readImages [name]

def outcome (action : Action Unit) (s : Session) : Option (ExitCode × Session) :=
  match action.on s with
  | (.ok (), s) => some (.success, s)
  | (.error (.exit code), s) => some (code, s)
  | (.error .unfinished, _) => none

end Action

end UniversalMachine
