import UniversalMachine.File.Path
/-! A tree of directories and files. Names are followed component by component, from the root if they
begin with a slash and from the working directory otherwise. -/

namespace UniversalMachine

inductive FileError
  | notFound
  | notADirectory
  | isADirectory
  | nameTooLong
  deriving DecidableEq, Repr

def FileError.message : FileError → String
  | notFound => "No such file or directory (os error 2)"
  | notADirectory => "Not a directory (os error 20)"
  | isADirectory => "Is a directory (os error 21)"
  | nameTooLong => "File name too long (os error 36)"

inductive FileNode
  | file (bytes : List UInt8)
  | directory
  deriving DecidableEq, Repr

structure FileTree where
  workingDirectory : Path
  directories : List Path
  files : List (Path × List UInt8)
  deriving DecidableEq, Repr

namespace FileTree

def empty : FileTree := ⟨[], [], []⟩

def node? (t : FileTree) (path : Path) : Option FileNode :=
  if path = [] ∨ path ∈ t.directories then some .directory
  else (t.files.lookup path).map .file

def insert (t : FileTree) (path : Path) (bytes : List UInt8) : FileTree :=
  { t with files := (path, bytes) :: t.files.filter (·.1 ≠ path) }

def addDirectory (t : FileTree) (path : Path) : FileTree :=
  { t with directories := t.directories ++ (List.range path.length).map fun n => path.take (n + 1) }

def addFile (t : FileTree) (path : Path) (bytes : List UInt8) : FileTree :=
  (t.addDirectory path.dropLast).insert path bytes

def entry (t : FileTree) (directory : Path) (name : String) : Except FileError (Option FileNode) :=
  if 255 < name.utf8ByteSize then .error .nameTooLong else .ok (t.node? (directory ++ [name]))

def walk (t : FileTree) (path : Path) : List String → Except FileError Path
  | [] => .ok path
  | c :: rest =>
    if c = "" ∨ c = "." then t.walk path rest
    else if c = ".." then t.walk path.dropLast rest
    else
      match t.entry path c with
      | .error e => .error e
      | .ok (some .directory) => t.walk (path ++ [c]) rest
      | .ok (some (.file _)) => .error .notADirectory
      | .ok none => .error .notFound

def IsProper (component : String) : Prop := component ≠ "" ∧ component ≠ "." ∧ component ≠ ".."

instance (component : String) : Decidable (IsProper component) := inferInstanceAs (Decidable (_ ∧ _))

def origin (t : FileTree) (components : List String) : Path :=
  if components.head? = some "" then [] else t.workingDirectory

/-- The directory to which the components of a name lead, and the last of them if it is a name of its
own; what bears that name, if anything does, is not looked at. -/
def locate (t : FileTree) (components : List String) : Except FileError (Path × Option String) :=
  let last := components.getLast?.getD ""
  if IsProper last then
    (t.walk (t.origin components) components.dropLast).map fun path => (path, some last)
  else (t.walk (t.origin components) components).map fun path => (path, none)

def route (name : String) : Except FileError (List String) :=
  if name = "" then .error .notFound
  else if 4095 < name.utf8ByteSize then .error .nameTooLong
  else .ok (Path.components name)

def find (t : FileTree) (name : String) : Except FileError FileNode := do
  match ← t.locate (← route name) with
  | (_, none) => return .directory
  | (path, some last) =>
    match ← t.entry path last with
    | some node => return node
    | none => throw .notFound

def read (t : FileTree) (name : String) : Except FileError (List UInt8) :=
  match t.find name with
  | .error e => .error e
  | .ok .directory => .error .isADirectory
  | .ok (.file bytes) => .ok bytes

def place (t : FileTree) (name : String) : Except FileError Path := do
  let components ← route name
  let named := (components.reverse.dropWhile (· = "")).reverse
  match ← t.locate named with
  | (_, none) => throw .isADirectory
  | (path, some last) =>
    if named ≠ components then throw .isADirectory
    else
      match ← t.entry path last with
      | some .directory => throw .isADirectory
      | _ => return path ++ [last]

def write (t : FileTree) (name : String) (bytes : List UInt8) : Except FileError FileTree :=
  (t.place name).map fun path => t.insert path bytes

end FileTree

end UniversalMachine
