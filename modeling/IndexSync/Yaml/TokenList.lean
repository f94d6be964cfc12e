import IndexSync.Yaml.Scalar

/-! The tokens of a text, in order. Indentation shows where blocks begin and end, and a key is known
as such only by the colon after it. -/
namespace IndexSync.Yaml

/-- A place where a key may have begun: the number of its first token, and whether it must be a key
because it stands at the indentation of a block. -/
structure KeyStart where
  number : Nat
  required : Bool
  cursor : Cursor

/-- How far the text has been read. Tokens are pending while a key may still begin before them. -/
structure Lexer where
  cursor : Cursor
  flowLevel : Nat
  pending : List Token
  given : Nat
  indent : Int
  indents : List Int
  keyAllowed : Bool
  keys : List (Nat × KeyStart)
  done : Bool

namespace Lexer

def start (cs : List Char) : Lexer where
  cursor := .ofText cs
  flowLevel := 0
  pending := []
  given := 0
  indent := -1
  indents := []
  keyAllowed := true
  keys := []
  done := false

def inFlow (s : Lexer) : Bool := s.flowLevel ≠ 0

def add (s : Lexer) (t : Token) : Lexer := { s with pending := s.pending ++ [t] }

def fail {α : Type} (s : Lexer) : Except Fault α := s.cursor.fail

/-- The greatest length of a key that is not marked as one. -/
def keyLimit : Nat := 1024

def isStale (s : Lexer) (k : KeyStart) : Bool :=
  k.cursor.line ≠ s.cursor.line || keyLimit < s.cursor.index - k.cursor.index

/-- Forgets beginnings of keys that no colon followed in time. -/
def dropStale (s : Lexer) : Except Fault Lexer :=
  if s.keys.any fun (_, k) => k.required && s.isStale k then s.fail
  else .ok { s with keys := s.keys.filter fun (_, k) => !s.isStale k }

def forgetKey (s : Lexer) : Except Fault Lexer :=
  match s.keys.lookup s.flowLevel with
  | none => .ok s
  | some k =>
    if k.required then s.fail
    else .ok { s with keys := s.keys.filter fun (level, _) => level ≠ s.flowLevel }

/-- Notes that a key may begin here. -/
def noteKey (s : Lexer) : Except Fault Lexer :=
  if !s.keyAllowed then .ok s
  else do
    let required := !s.inFlow && s.indent = s.cursor.column
    let s ← s.forgetKey
    let k : KeyStart := ⟨s.given + s.pending.length, required, s.cursor⟩
    return { s with keys := s.keys ++ [(s.flowLevel, k)] }

/-- Ends the blocks that are deeper than a column. -/
def endBlocks (column : Int) : List Int → Lexer → Lexer
  | [], s => s
  | outer :: rest, s =>
    if s.indent ≤ column then s
    else endBlocks column rest
      { s.add (.at .blockEnd s.cursor.place) with indent := outer, indents := rest }

def unwind (column : Int) (s : Lexer) : Lexer :=
  if s.inFlow then s else endBlocks column s.indents s

/-- Begins a block at a column that is deeper than the one before. -/
def deepen (column : Nat) (s : Lexer) : Option Lexer :=
  if s.indent < column then some { s with indents := s.indent :: s.indents, indent := column }
  else none

/-- Begins a block here, if this is deeper. -/
def beginBlock (kind : TokenKind) (s : Lexer) : Lexer :=
  match s.deepen s.cursor.column with
  | some s => s.add (.at kind s.cursor.place)
  | none => s

/-- A token of some characters. -/
def sign (kind : TokenKind) (length : Nat) (s : Lexer) : Lexer :=
  let after := s.cursor.forward length
  { s.add (.between kind s.cursor after) with cursor := after }

/-- Past blanks, comments and line ends. In blocks a key may begin on each new line. -/
def skipGaps : Nat → Lexer → Lexer
  | 0, s => s
  | n + 1, s =>
    let c := s.cursor.pastSpaces.pastComment
    if isBreak c.peek then
      skipGaps n { s with cursor := c.lineBreak.2, keyAllowed := s.keyAllowed || !s.inFlow }
    else { s with cursor := c }

def toNextToken (s : Lexer) : Lexer :=
  let c := s.cursor
  let c := if c.index = 0 && c.peek = byteOrderMark then c.step else c
  skipGaps (c.rest.length + 1) { s with cursor := c }

def streamEnd (s : Lexer) : Except Fault Lexer := do
  let s ← (s.unwind (-1)).forgetKey
  return { s.add (.at .streamEnd s.cursor.place) with keyAllowed := false, keys := [], done := true }

/-- What stands between documents ends all blocks. -/
def betweenDocuments (s : Lexer) : Except Fault Lexer := do
  return { ← (s.unwind (-1)).forgetKey with keyAllowed := false }

def directive (s : Lexer) : Except Fault Lexer := do
  let s ← s.betweenDocuments
  let (t, after) ← Directive.read s.cursor
  return { s.add t with cursor := after }

def flowStart (kind : TokenKind) (s : Lexer) : Except Fault Lexer := do
  let s ← s.noteKey
  return { s.sign kind 1 with flowLevel := s.flowLevel + 1, keyAllowed := true }

def flowEnd (kind : TokenKind) (s : Lexer) : Except Fault Lexer := do
  let s ← s.forgetKey
  return { s.sign kind 1 with flowLevel := s.flowLevel - 1, keyAllowed := false }

def flowEntry (s : Lexer) : Except Fault Lexer := do
  return { s with keyAllowed := true } |>.sign .flowEntry 1

/-- Begins a block whose mark stands here. Outside flows that needs a place where a key may
begin. -/
def beginMarked (kind : TokenKind) (s : Lexer) : Except Fault Lexer :=
  if s.inFlow then .ok s
  else if !s.keyAllowed then s.fail
  else .ok (s.beginBlock kind)

def blockEntry (s : Lexer) : Except Fault Lexer := do
  let s ← s.beginMarked .blockSequenceStart
  let s ← { s with keyAllowed := true }.forgetKey
  return s.sign .blockEntry 1

def keyMark (s : Lexer) : Except Fault Lexer := do
  let s ← s.beginMarked .blockMappingStart
  let s ← { s with keyAllowed := !s.inFlow }.forgetKey
  return s.sign .key 1

def insertAt (s : Lexer) (number : Nat) (t : Token) : Lexer :=
  let i := number - s.given
  { s with pending := s.pending.take i ++ t :: s.pending.drop i }

/-- Marks what began at a place as a key, and the beginning of a block if the key is its first. -/
def markKey (k : KeyStart) (s : Lexer) : Lexer :=
  let s := { s with keys := s.keys.filter fun (level, _) => level ≠ s.flowLevel }
  let place := k.cursor.place
  let s := s.insertAt k.number (.at .key place)
  let s := if s.inFlow then s else
    match s.deepen k.cursor.column with
    | some s => s.insertAt k.number (.at .blockMappingStart place)
    | none => s
  { s with keyAllowed := false }

def valueMark (s : Lexer) : Except Fault Lexer := do
  match s.keys.lookup s.flowLevel with
  | some k => return (s.markKey k).sign .value 1
  | none =>
    let s ← s.beginMarked .blockMappingStart
    let s ← { s with keyAllowed := !s.inFlow }.forgetKey
    return s.sign .value 1

/-- A token that may be a key. -/
def keyLike (read : Read Token) (s : Lexer) : Except Fault Lexer := do
  let s ← s.noteKey
  let (t, after) ← read s.cursor
  return { s.add t with cursor := after, keyAllowed := false }

def named (kind : String → TokenKind) : Read Token := fun c => do
  let (name, after) ← Property.name c
  return (.between (kind name) c after, after)

def tagged : Read Token := fun c => do
  let ((handle, suffix), after) ← Property.tag c
  return (.between (.tag handle suffix) c after, after)

def plain (s : Lexer) : Except Fault Lexer := do
  let s ← s.noteKey
  let (t, lineEnded, after) := Plain.read s.inFlow (s.indent + 1).toNat s.cursor
  return { s.add t with cursor := after, keyAllowed := lineEnded }

def block (fold : Bool) (s : Lexer) : Except Fault Lexer := do
  let s ← { s with keyAllowed := true }.forgetKey
  let (t, after) ← Block.read fold (s.indent + 1).toNat s.cursor
  return { s.add t with cursor := after }

/-- Whether a sign stands alone, as the signs of blocks do. -/
def standsAlone (s : Lexer) : Bool := isGap (s.cursor.peekAt 1)

/-- Reads the token that stands at the cursor. -/
def readToken (s : Lexer) : Except Fault Lexer :=
  let c := s.cursor
  let d := c.peek
  if d = endChar then s.streamEnd
  else if d = '%' && c.column = 0 then s.directive
  else if c.column = 0 && c.atMark '-' then (·.sign .documentStart 3) <$> s.betweenDocuments
  else if c.column = 0 && c.atMark '.' then (·.sign .documentEnd 3) <$> s.betweenDocuments
  else if d = '[' then s.flowStart .flowSequenceStart
  else if d = '\x7b' then s.flowStart .flowMappingStart
  else if d = ']' then s.flowEnd .flowSequenceEnd
  else if d = '\x7d' then s.flowEnd .flowMappingEnd
  else if d = ',' then s.forgetKey >>= flowEntry
  else if d = '-' && s.standsAlone then s.blockEntry
  else if d = '?' && (s.inFlow || s.standsAlone) then s.keyMark
  else if d = ':' && (s.inFlow || s.standsAlone) then s.valueMark
  else if d = '*' then s.keyLike (named .alias)
  else if d = '&' then s.keyLike (named .anchor)
  else if d = '!' then s.keyLike tagged
  else if d = '|' && !s.inFlow then s.block false
  else if d = '>' && !s.inFlow then s.block true
  else if d = '\'' || d = '"' then s.keyLike (Quoted.read d)
  else if Plain.starts s.inFlow c then s.plain
  else s.fail

/-- Reads the next token with all that ends before it. -/
def advance (s : Lexer) : Except Fault Lexer := do
  let s ← s.toNextToken.dropStale
  let s ← (s.unwind s.cursor.column).readToken
  if s.done then return s else s.dropStale

/-- Gives out the tokens before which no key can begin any more. -/
def giveOut (s : Lexer) : List Token × Lexer :=
  let ready := match (s.keys.map fun (_, k) => k.number).min? with
    | some number => number - s.given
    | none => s.pending.length
  (s.pending.take ready,
    { s with pending := s.pending.drop ready, given := s.given + min ready s.pending.length })

/-- The tokens of what is left, up to the end or to the first fault. -/
def run : Nat → Lexer → List Token × Option Fault
  | 0, _ => ([], none)
  | n + 1, s =>
    match s.advance with
    | .error f => ([], some f)
    | .ok s =>
      let (ready, s) := s.giveOut
      if s.done then (ready, none)
      else
        let (more, fault) := run n s
        (ready ++ more, fault)

end Lexer

/-- The tokens of a text, and the fault that ends them. Every token but the last takes a character
or more. -/
def tokens (cs : List Char) : List Token × Option Fault :=
  Lexer.run (cs.length + 2) (Lexer.start cs)

end IndexSync.Yaml
