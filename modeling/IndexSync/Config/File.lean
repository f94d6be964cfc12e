import IndexSync.Config.Path
import IndexSync.Yaml.Document

/-! The contents of configuration files. -/
namespace IndexSync.Config

/-- What stands at a path. -/
inductive FileState
  | missing
  | directory
  | bytes (contents : ByteArray)

/-- Every end of a line as one character. -/
def uniformLines : List Char → List Char
  | '\r' :: '\n' :: cs => '\n' :: uniformLines cs
  | '\r' :: cs => '\n' :: uniformLines cs
  | c :: cs => c :: uniformLines cs
  | [] => []

/-- The failure that a fault in the text of a file is. Places are counted from one. -/
def faultOf (path : String) : Yaml.Fault → Failure
  | .malformed place => .settings (.malformedFile path (some (place.line + 1, place.column + 1)))
  | .forbidden => .settings (.malformedFile path none)
  | .conversion cause => .conversion cause

/-- The entries of a document. A document without a value has none. -/
def documentEntries (path : String) : Value → Except Failure (Entries Value Value)
  | .null => .ok []
  | .dict entries => .ok entries
  | _ => .error (.settings (.rootNotMapping path))

/-- The entries that a text holds. -/
def readText (path text : String) : Except Failure (Entries Value Value) :=
  if (Text.nonBlank? text).isNone then .ok []
  else
    match Yaml.load text with
    | .error f => .error (faultOf path f)
    | .ok document => documentEntries path document

/-- The entries that a file holds. A missing file holds none. -/
def FileState.entries (path : String) : FileState → Except Failure (Entries Value Value)
  | missing => .ok []
  | directory => .error .directory
  | bytes contents =>
    match String.fromUTF8? contents with
    | none => .error .notUtf8
    | some text => readText path (String.ofList (uniformLines text.toList))

end IndexSync.Config
