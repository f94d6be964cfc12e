import IndexSync.Failure

/-! Reading a text character by character, with the place of each character in its line. -/
namespace IndexSync.Yaml

/-- A place in a text. Lines and columns are counted from zero. -/
structure Place where
  line : Nat
  column : Nat
  deriving DecidableEq, Repr

/-- What makes a text unreadable: a fault of form at a place, a character that no text may hold, or
a scalar that does not convert. -/
inductive Fault
  | malformed (place : Place)
  | forbidden
  | conversion (cause : ConversionError)
  deriving DecidableEq, Repr

/-- What is left of a text, and how far it is from the start. -/
structure Cursor where
  rest : List Char
  index : Nat
  line : Nat
  column : Nat

/-- Stands for the end of the text, which holds no such character. -/
def endChar : Char := '\x00'

def isBreak (c : Char) : Bool :=
  c = '\n' || c.toNat = 0x85 || c.toNat = 0x2028 || c.toNat = 0x2029

def endsLine (c : Char) : Bool := c = endChar || isBreak c
def endsWord (c : Char) : Bool := c = ' ' || endsLine c
def isGap (c : Char) : Bool := c = '\t' || endsWord c

/-- The characters of names. -/
def isNameChar (c : Char) : Bool := c.isAlphanum || c = '-' || c = '_'

def byteOrderMark : Char := Char.ofNat 0xFEFF

namespace Cursor

def ofText (cs : List Char) : Cursor := ⟨cs, 0, 0, 0⟩

def peekAt (c : Cursor) (k : Nat) : Char := (c.rest[k]?).getD endChar

def peek (c : Cursor) : Char := c.rest.headD endChar

def place (c : Cursor) : Place := ⟨c.line, c.column⟩

/-- Past one character. A mark of byte order has no width. -/
def step (c : Cursor) : Cursor :=
  match c.rest with
  | [] => c
  | d :: rest =>
    if isBreak d then ⟨rest, c.index + 1, c.line + 1, 0⟩
    else if d = byteOrderMark then ⟨rest, c.index + 1, c.line, c.column⟩
    else ⟨rest, c.index + 1, c.line, c.column + 1⟩

def forward : Nat → Cursor → Cursor
  | 0, c => c
  | n + 1, c => forward n c.step

/-- The longest run of characters of a kind, and the cursor past it. -/
def taken (p : Char → Bool) (c : Cursor) : List Char × Cursor :=
  let cs := c.rest.takeWhile p
  (cs, c.forward cs.length)

def past (p : Char → Bool) (c : Cursor) : Cursor := (c.taken p).2

def pastSpaces (c : Cursor) : Cursor := c.past (· = ' ')

/-- Past a comment, up to the end of its line. -/
def pastComment (c : Cursor) : Cursor :=
  if c.peek = '#' then c.past fun d => !endsLine d else c

/-- The end of a line, as text. The separators of lines and paragraphs stay what they are. -/
def lineBreak (c : Cursor) : List Char × Cursor :=
  let d := c.peek
  if !isBreak d then ([], c)
  else if d = '\n' || d.toNat = 0x85 then (['\n'], c.step)
  else ([d], c.step)

/-- Whether a mark of three characters stands here as a word. -/
def atMark (mark : Char) (c : Cursor) : Bool :=
  c.peekAt 0 = mark && c.peekAt 1 = mark && c.peekAt 2 = mark && isGap (c.peekAt 3)

/-- Whether the start or the end of a document stands here. -/
def atDocumentMark (c : Cursor) : Bool := c.atMark '-' || c.atMark '.'

def fail {α : Type} (c : Cursor) : Except Fault α := .error (.malformed c.place)

end Cursor
end IndexSync.Yaml
