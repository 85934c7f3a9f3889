namespace UniversalMachine

abbrev Path := List String

namespace Path

def components (name : String) : List String := (name.toList.splitOn '/').map String.ofList

def ofName (name : String) : Path := (components name).filter fun c => c ≠ "" ∧ c ≠ "."

def name (path : Path) : String := "/".intercalate path

def stem (file : List Char) : List Char :=
  match file.reverse.dropWhile (· ≠ '.') with
  | _ :: rest => if rest = [] then file else rest.reverse
  | [] => file

/-- The name of the listing of an image: the name with its extension replaced by `asm`. Where nothing
but two dots would be left in front of the new extension, they are the parent directory and take
none. -/
def listing (name : String) : String :=
  let file := (name.toList.reverse.takeWhile (· ≠ '/')).reverse
  let directory := (name.toList.reverse.dropWhile (· ≠ '/')).reverse
  let extension := if stem file = ['.'] then ['.'] else ['.', 'a', 's', 'm']
  String.ofList (directory ++ stem file ++ extension)

end Path

end UniversalMachine
