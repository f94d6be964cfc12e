import IndexSync.Config.File

/-! Trees of files below a current directory. -/
namespace IndexSync.Config

/-- The files of a directory, by the parts of their paths. -/
abbrev Tree := List (List String × ByteArray)

namespace Tree

def isDirectory (tree : Tree) (place : List String) : Bool :=
  place.isEmpty || tree.any fun (path, _) => place.isPrefixOf path && place.length < path.length

/-- What stands at a place. -/
def contents (tree : Tree) (place : List String) : FileState :=
  match tree.lookup place with
  | some bytes => .bytes bytes
  | none => if tree.isDirectory place then .directory else .missing

/-- Walks on from a place. Only directories can be walked through, and above the current one there
are directories alone. -/
def walk (tree : Tree) : (place path : List String) → FileState
  | place, [] => tree.contents place
  | place, ".." :: rest =>
    match place with
    | [] => if rest.all (· = "..") then .directory else .missing
    | _ => if tree.isDirectory place then tree.walk place.dropLast rest else .missing
  | place, part :: rest =>
    if tree.isDirectory place then tree.walk (place ++ [part]) rest else .missing

/-- What a path leads to, in the current directory of the given name. -/
def find (tree : Tree) (directory path : String) : FileState :=
  match Path.parts path with
  | first :: rest =>
    if path.startsWith "/" then .missing
    else if first = directory then tree.walk [] rest
    else tree.walk [] (first :: rest)
  | [] => .directory

end Tree
end IndexSync.Config
