import SysYTools.File.Tree
import SysYTools.Settings
import SysYTools.Toml.Document

/-!
Settings files. The settings for a path stand in the nearest directory at or above it that holds a settings
file; where there is none, the standard settings are taken.
-/

namespace SysYTools

namespace Settings

def fileName : String := "sysy.toml"

def ofBytes (bytes : ByteArray) : Except Fault Settings :=
  match String.fromUTF8? bytes with
  | none => .error .notUtf8
  | some text => do ofValue (← Toml.parse text.toList)

/-- The settings file of a directory, or of the nearest one above it. -/
def findFrom (tree : FileTree) : Nat → List String → Option (List String)
  | 0, place => candidate place
  | steps + 1, place => (candidate place).orElse fun _ => findFrom tree steps place.dropLast
where
  candidate (place : List String) : Option (List String) :=
    if tree.existsAt (place ++ [fileName]) then some (place ++ [fileName]) else none

def find (tree : FileTree) (path : Option FilePath) : Except Fault FilePath :=
  let place := (path.map (·.resolve tree.current)).getD tree.current
  let start := if tree.isFile place then place.dropLast else place
  match findFrom tree start.length start with
  | some found => .ok { isAbsolute := true, parts := found }
  | none => .error .noSettings

def load (tree : FileTree) (path : FilePath) : Except Fault Settings := do
  ofBytes (← tree.read path)

def forPath (tree : FileTree) (path : Option FilePath) : Except Fault Settings :=
  match find tree path with
  | .ok file => load tree file
  | .error _ => .ok {}

end Settings

end SysYTools
