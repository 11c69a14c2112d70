/-!
Paths of files. A path keeps its steps up, since the directory before such a step need not exist; empty
steps and steps to the same directory are dropped.
-/

namespace SysYTools

structure FilePath where
  isAbsolute : Bool
  parts : List String
  deriving DecidableEq, Repr

namespace FilePath

private def splitSlashes : List Char → List (List Char)
  | [] => [[]]
  | c :: rest =>
    if c = '/' then
      [] :: splitSlashes rest
    else
      match splitSlashes rest with
      | [] => [[c]]
      | part :: more => (c :: part) :: more

/-- Whether a written path ends with a step that stays where it is, so that it means a directory. -/
def endsInDirectory (written : String) : Bool :=
  match (splitSlashes written.toList).getLast? with
  | some [] | some ['.'] => true
  | _ => false

def ofString (written : String) : FilePath :=
  { isAbsolute := written.toList.head? == some '/'
    parts := ((splitSlashes written.toList).map String.ofList).filter fun part => part != "" && part != "." }

def toString (path : FilePath) : String :=
  let joined := "/".intercalate path.parts
  if path.isAbsolute then "/" ++ joined
  else if path.parts.isEmpty then "."
  else joined

def child (path : FilePath) (name : String) : FilePath :=
  { path with parts := path.parts ++ [name] }

def follow (directory : List String) : List String → List String
  | [] => directory
  | ".." :: rest => follow directory.dropLast rest
  | part :: rest => follow (directory ++ [part]) rest

def resolve (path : FilePath) (directory : List String) : List String :=
  follow (if path.isAbsolute then [] else directory) path.parts

end FilePath

end SysYTools
