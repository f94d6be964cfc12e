import IndexSync.Entries
import IndexSync.Text.Blank
import IndexSync.Text.Split

/-! Paths of configuration files. -/
namespace IndexSync.Config

/-- Environment variables, by name. -/
abbrev Environment := Entries String String

namespace Path

/-- The slashes before a path. Two are kept, three or more count as one. -/
def root (path : List Char) : String :=
  match (path.takeWhile (· = '/')).length with
  | 0 => ""
  | 2 => "//"
  | _ => "/"

/-- The parts of a path, without empty ones and those for the same place. -/
def parts (path : String) : List String :=
  (Text.splitText "/" path).filter fun p => p ≠ "" && p ≠ "."

/-- A path without needless parts. -/
def tidy (path : String) : String :=
  let tidied := root path.toList ++ String.intercalate "/" (parts path)
  if tidied.isEmpty then "." else tidied

/-- The file that is read when no other is named. -/
def defaultName : String := "triggersearch.yaml"

/-- The variable that names the file. -/
def variableName : String := "TRIGGERSEARCH_CONFIG"

/-- The path of the configuration file: that of the environment, or the one asked for, or the
default in the current directory. -/
def resolve (directory : String) (env : Environment) (asked : Option String) : String :=
  let named := ((env.get? variableName).bind Text.nonBlank?).or (asked.bind Text.nonBlank?)
  match named with
  | some path => tidy path
  | none => tidy (directory ++ "/" ++ defaultName)

end Path
end IndexSync.Config
