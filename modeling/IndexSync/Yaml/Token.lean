import IndexSync.Yaml.Cursor

/-! The words and marks of a text. -/
namespace IndexSync.Yaml

/-- What a directive says. -/
inductive Directive
  | version (major minor : Nat)
  | tag (handle expansion : String)
  | unknown
  deriving DecidableEq, Repr

inductive TokenKind
  | streamEnd
  | directive (d : Directive)
  | documentStart | documentEnd
  | blockSequenceStart | blockMappingStart | blockEnd
  | flowSequenceStart | flowSequenceEnd | flowMappingStart | flowMappingEnd
  | key | value | blockEntry | flowEntry
  | alias (name : String)
  | anchor (name : String)
  | tag (handle : Option String) (suffix : String)
  | scalar (text : String) (plain : Bool)
  deriving DecidableEq, Repr

structure Token where
  kind : TokenKind
  start : Place
  stop : Place
  deriving DecidableEq, Repr

/-- The token of what stands between two cursors. -/
def Token.between (kind : TokenKind) (start stop : Cursor) : Token :=
  ⟨kind, start.place, stop.place⟩

/-- A token without width. -/
def Token.at (kind : TokenKind) (place : Place) : Token := ⟨kind, place, place⟩

/-- Reads something and moves on. -/
abbrev Read (α : Type) := Cursor → Except Fault (α × Cursor)

end IndexSync.Yaml
