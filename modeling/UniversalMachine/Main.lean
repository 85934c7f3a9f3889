import UniversalMachine.Command.Line
/-! The program: the command line on the files and streams of the process. The files that the
arguments mention are taken up before a command starts, and those that it changed are put down after
it; a machine that `run` starts reads and writes while it runs. -/

namespace UniversalMachine.Shell

open Host

def fuel : Nat := 0x4000000000000000

def standingAt (name : String) : IO (Option FileNode) := do
  try
    if ← (← IO.FS.realPath name).isDir then return some .directory
    return some (.file (← IO.FS.readBinFile name).toList)
  catch _ => return none

def takeUp (t : FileTree) (path : Path) : List String → IO FileTree
  | [] => return t
  | c :: rest => do
    let path : Path := if c = ".." then path.dropLast else if c = "" ∨ c = "." then path else path ++ [c]
    match ← standingAt ("/" ++ path.name) with
    | some .directory => takeUp (t.addDirectory path) path rest
    | some (.file bytes) => return t.addFile path bytes
    | none => return t

def mentioned (names : List String) : IO FileTree := do
  let home := Path.ofName (← IO.currentDir).toString
  let t := { FileTree.empty with workingDirectory := home }
  let takeUpName (t : FileTree) (name : String) : IO FileTree :=
    let components := Path.components name
    takeUp t (t.origin components) components
  names.foldlM takeUpName (t.addDirectory home)

def putDown (old new : FileTree) : IO Unit :=
  new.files.forM fun (path, bytes) => do
    if old.files.lookup path != some bytes then
      IO.FS.writeBinFile ("/" ++ path.name) bytes.toByteArray

def present (s : Session) : IO Session := do
  unless s.output.isEmpty do
    let output ← IO.getStdout
    output.write s.output.toByteArray
    output.flush
  unless s.messages.isEmpty do
    (← IO.getStderr).putStr s.messageText
  return { s with output := [], messages := #[] }

def supply {σ : Type} (m : Machine σ) : IO (Machine σ) := do
  if m.awaitsInput then
    return { m with source := .ofBytes (← (← IO.getStdin).read 1).toList }
  else return m

partial def interact (listening : Bool) (m : Machine ScriptedSink) (s : Session) :
    IO (Except Fault Nat × Session) := do
  let m ← if listening then supply m else pure m
  let ((result, m), notices) := m.stepNoticed
  let s := { s with output := m.sink.accepted.toList }
  let s ← present (notices.foldl (fun s n => s.log n.entry) s)
  match result with
  | .ok (.next _) => interact listening { m with sink := .plain } s
  | .ok .halt => return (.ok m.steps, s)
  | .error fault => return (.error fault, s)

def settled : Except Stop Unit × Session → ExitCode × Session
  | (.ok (), s) => (.success, s)
  | (.error (.exit code), s) => (code, s)
  | (.error .unfinished, s) => (.faulted, s)

def run (o : RunOptions) (s : Session) : IO (ExitCode × Session) := do
  match o.prepare.on s with
  | (.error stop, s) => return settled (.error stop, s)
  | (.ok m, s) =>
    let s := s.log (Notice.started m.memory.program.size).entry
    let (result, s) ← interact o.input.isNone m s
    return settled ((Action.concludeRun RunOptions.halted result).on s)

def perform (args : List String) : IO ExitCode := do
  let verbosity := Verbosity.ofSetting (← IO.getEnv "RUST_LOG")
  let files ← mentioned (({} : DumpDraft).output :: args)
  let s := Session.start files [] verbosity
  let (code, s) ← match args with
    | "run" :: rest =>
      match RunOptions.ofArguments rest with
      | .ok o => run o s
      | .error e => pure (settled ((Action.refuse (e.lines RunOptions.usage)).on s))
    | _ => pure (settled ((CommandLine.perform fuel args).on s))
  let s ← present s
  putDown files s.files
  return code

end UniversalMachine.Shell

def main (args : List String) : IO UInt32 := do
  return (← UniversalMachine.Shell.perform args).toNat.toUInt32
