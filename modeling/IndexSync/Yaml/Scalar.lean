import IndexSync.Yaml.Property

/-! The texts of scalars: plain, quoted, or in blocks. Line ends inside them are folded. -/
namespace IndexSync.Yaml

/-- What a line end between two lines of a folded text becomes: a blank, unless empty lines or a
separator of paragraphs follow. -/
def folded (lineBreak : List Char) (breaks : List Char) : List Char :=
  if lineBreak ≠ ['\n'] then lineBreak ++ breaks
  else if breaks.isEmpty then [' ']
  else breaks

namespace Quoted

/-- What an escape sign and one more character stand for. -/
def replacements : List (Char × Nat) :=
  [('0', 0x00), ('a', 0x07), ('b', 0x08), ('t', 0x09), ('\t', 0x09), ('n', 0x0A), ('v', 0x0B),
    ('f', 0x0C), ('r', 0x0D), ('e', 0x1B), (' ', 0x20), ('"', 0x22), ('\\', 0x5C), ('/', 0x2F),
    ('N', 0x85), ('_', 0xA0), ('L', 0x2028), ('P', 0x2029)]

/-- How many hexadecimal digits follow. -/
def digitCounts : List (Char × Nat) := [('x', 2), ('u', 4), ('U', 8)]

def charOfCode (n : Nat) : Except Fault Char :=
  if n < 0x110000 then .ok (Char.ofNat n)
  else if n < 0x80000000 then .error (.conversion .noSuchCharacter)
  else .error (.conversion .hugeCharacter)

/-- Empty lines, up to a line with text. The mark of a document must not stand there. -/
def emptyLines : Nat → Read (List Char)
  | 0, c => .ok ([], c)
  | n + 1, c =>
    if c.atDocumentMark then c.fail
    else
      let c := c.past fun d => d = ' ' || d = '\t'
      if isBreak c.peek then do
        let (found, c) := c.lineBreak
        let (more, c) ← emptyLines n c
        return (found ++ more, c)
      else .ok ([], c)

/-- An escape sequence. -/
def escape : Read (List Char) := fun c =>
  let c := c.step
  match replacements.lookup c.peek, digitCounts.lookup c.peek with
  | some n, _ => .ok ([Char.ofNat n], c.step)
  | _, some count => do
    let (n, after) ← readHex count c.step
    return ([← charOfCode n], after)
  | _, _ =>
    if isBreak c.peek then emptyLines (c.rest.length + 1) c.lineBreak.2 else c.fail

def isPlainInside (c : Char) : Bool :=
  !(c = '\'' || c = '"' || c = '\\' || isGap c)

/-- Text up to a blank, a line end or the closing quote. -/
def word (double : Bool) : Nat → Read (List Char)
  | 0, c => .ok ([], c)
  | n + 1, c => do
    let (run, c) := c.taken isPlainInside
    let d := c.peek
    let continueWith (piece : List Char) (c : Cursor) : Except Fault (List Char × Cursor) := do
      let (more, c) ← word double n c
      return (run ++ piece ++ more, c)
    if !double && d = '\'' && c.peekAt 1 = '\'' then continueWith ['\''] (c.forward 2)
    else if (double && d = '\'') || (!double && (d = '"' || d = '\\')) then
      continueWith [d] c.step
    else if double && d = '\\' then
      let (piece, c) ← escape c
      continueWith piece c
    else return (run, c)

/-- Blanks or line ends between words. -/
def gap : Read (List Char) := fun c => do
  let (blanks, c) := c.taken fun d => d = ' ' || d = '\t'
  if c.peek = endChar then c.fail
  else if isBreak c.peek then
    let (lineBreak, c) := c.lineBreak
    let (breaks, c) ← emptyLines (c.rest.length + 1) c
    return (folded lineBreak breaks, c)
  else return (blanks, c)

def words (double : Bool) (quote : Char) : Nat → Read (List Char)
  | 0, c => c.fail
  | n + 1, c =>
    if c.peek = quote then .ok ([], c)
    else do
      let (between, c) ← gap c
      let (next, c) ← word double (c.rest.length + 1) c
      let (more, c) ← words double quote n c
      return (between ++ next ++ more, c)

/-- A text between quotes. -/
def read (quote : Char) : Read Token := fun c => do
  let double := quote = '"'
  let (first, inside) ← word double (c.rest.length + 1) c.step
  let (more, last) ← words double quote (c.rest.length + 1) inside
  return (.between (.scalar (String.ofList (first ++ more)) false) c last.step, last.step)

end Quoted

namespace Plain

/-- Whether a plain text can begin here. -/
def starts (inFlow : Bool) (c : Cursor) : Bool :=
  let d := c.peek
  !(isGap d || "-?:,[]\x7b\x7d#&*!|>'\"%@\x60".toList.contains d) ||
    (!isGap (c.peekAt 1) && (d = '-' || (!inFlow && (d = '?' || d = ':'))))

/-- The length of the word that stands at the head of a text. -/
def wordLength (inFlow : Bool) : List Char → Nat
  | [] => 0
  | d :: rest =>
    let next := rest.headD endChar
    let endsHere :=
      isGap d ||
        (d = ':' && (isGap next || (inFlow && ",[]\x7b\x7d".toList.contains next))) ||
        (inFlow && ",?[]\x7b\x7d".toList.contains d)
    if endsHere then 0 else wordLength inFlow rest + 1

/-- Empty lines after a line end, or none when the mark of a document follows. -/
def emptyLines : Nat → Cursor → Option (List Char) × Cursor
  | 0, c => (some [], c)
  | n + 1, c =>
    if c.peek = ' ' then emptyLines n c.step
    else if isBreak c.peek then
      let (found, c) := c.lineBreak
      if c.atDocumentMark then (none, c)
      else
        let (more, c) := emptyLines n c
        (more.map (found ++ ·), c)
    else (some [], c)

/-- What stands between two words: blanks, or a folded line end. Nothing ends the text. The flag
tells whether a line has ended. -/
def gap (c : Cursor) : List Char × Bool × Cursor :=
  let (blanks, c) := c.taken (· = ' ')
  if !isBreak c.peek then (blanks, false, c)
  else
    let (lineBreak, c) := c.lineBreak
    if c.atDocumentMark then ([], true, c)
    else
      match emptyLines (c.rest.length + 1) c with
      | (none, c) => ([], true, c)
      | (some breaks, c) => (folded lineBreak breaks, true, c)

/-- Words with the gaps before them. The place is where the last word ends, and the flag tells
whether a line has ended after it. -/
def words (inFlow : Bool) (indent : Nat) :
    Nat → (before : List Char) → (stop : Cursor) → (lineEnded : Bool) → Cursor →
    List Char × Cursor × Bool × Cursor
  | 0, _, stop, lineEnded, c => ([], stop, lineEnded, c)
  | n + 1, before, stop, lineEnded, c =>
    let length := wordLength inFlow c.rest
    if c.peek = '#' || length = 0 then ([], stop, lineEnded, c)
    else
      let found := c.rest.take length
      let stop := c.forward length
      let (between, ended, c) := gap stop
      if between.isEmpty || c.peek = '#' || (!inFlow && c.column < indent) then
        (before ++ found, stop, ended, c)
      else
        let (more, stop, lineEnded, c) := words inFlow indent n between stop ended c
        (before ++ found ++ more, stop, lineEnded, c)

/-- A plain text. The flag tells whether a line has ended after it. -/
def read (inFlow : Bool) (indent : Nat) (c : Cursor) : Token × Bool × Cursor :=
  let (text, stop, lineEnded, after) := words inFlow indent (c.rest.length + 1) [] c false c
  (.between (.scalar (String.ofList text) true) c stop, lineEnded, after)

end Plain

namespace Block

/-- What becomes of the line ends after the last line. -/
inductive Chomping
  | strip | clip | keep
  deriving DecidableEq

def chompingOf? : Char → Option Chomping
  | '+' => some .keep
  | '-' => some .strip
  | _ => none

def chomping (c : Cursor) : Option Chomping × Cursor :=
  match chompingOf? c.peek with
  | some found => (some found, c.step)
  | none => (none, c)

/-- The number that fixes the indentation. -/
def increment : Read (Option Nat) := fun c =>
  if c.peek = '0' then c.fail
  else if c.peek.isDigit then .ok (some (c.peek.toNat - '0'.toNat), c.step)
  else .ok (none, c)

/-- Chomping and indentation, in either order. -/
def header : Read (Chomping × Option Nat) := fun c => do
  let (first, c) := chomping c
  let (indentation, c) ← increment c
  let (second, c) := if first.isNone && indentation.isSome then chomping c else (none, c)
  if endsWord c.peek then return (((first.or second).getD .clip, indentation), c) else c.fail

/-- The empty lines at the start, the greatest indentation among them, and where they end. -/
def leadingLines : Nat → (deepest : Nat) → (stop : Cursor) → Cursor →
    List Char × Nat × Cursor × Cursor
  | 0, deepest, stop, c => ([], deepest, stop, c)
  | n + 1, deepest, stop, c =>
    if c.peek = ' ' then leadingLines n (max deepest c.step.column) stop c.step
    else if isBreak c.peek then
      let (found, c) := c.lineBreak
      let (more, deepest, stop, c) := leadingLines n deepest c c
      (found ++ more, deepest, stop, c)
    else ([], deepest, stop, c)

/-- Past the blanks of an indentation. -/
def pastIndent (indent : Nat) (c : Cursor) : Cursor :=
  c.forward ((c.rest.take (indent - c.column)).takeWhile (· = ' ')).length

/-- Empty lines between lines of text, and where they end. -/
def emptyLines (indent : Nat) : Nat → (stop : Cursor) → Cursor → List Char × Cursor × Cursor
  | 0, stop, c => ([], stop, c)
  | n + 1, stop, c =>
    let c := pastIndent indent c
    if isBreak c.peek then
      let (found, c) := c.lineBreak
      let (more, stop, c) := emptyLines indent n c c
      (found ++ more, stop, c)
    else ([], stop, c)

/-- The lines of the text, from the first one on. -/
def lines (fold : Bool) (how : Chomping) (indent : Nat) :
    Nat → (breaks : List Char) → Cursor → List Char × Cursor × Cursor
  | 0, _, c => ([], c, c)
  | n + 1, breaks, c =>
    let startsWithText := !(c.peek = ' ' || c.peek = '\t')
    let (line, c) := c.taken fun d => !endsLine d
    let (lineBreak, c) := c.lineBreak
    let (after, stop, c) := emptyLines indent (c.rest.length + 1) c c
    if c.column = indent && c.peek ≠ endChar then
      let folds := fold && lineBreak = ['\n'] && startsWithText &&
        !(c.peek = ' ' || c.peek = '\t')
      let between := if !folds then lineBreak else if after.isEmpty then [' '] else []
      let (more, stop, c) := lines fold how indent n after c
      (breaks ++ line ++ between ++ more, stop, c)
    else
      let tail := match how with
        | .strip => []
        | .clip => lineBreak
        | .keep => lineBreak ++ after
      (breaks ++ line ++ tail, stop, c)

/-- A text in a block, which is deeper than what it stands in. -/
def read (fold : Bool) (parentIndent : Nat) : Read Token := fun c => do
  let ((how, increment), inside) ← header c.step
  let inside ← Directive.restOfLine inside
  let least := max 1 parentIndent
  let fuel := inside.rest.length + 1
  let (breaks, indent, stop, first) := match increment with
    | none =>
      let (breaks, deepest, stop, first) := leadingLines fuel 0 inside inside
      (breaks, max least deepest, stop, first)
    | some n =>
      let indent := least + n - 1
      let (breaks, stop, first) := emptyLines indent fuel inside inside
      (breaks, indent, stop, first)
  let (text, stop, after) :=
    if first.column = indent && first.peek ≠ endChar then lines fold how indent fuel breaks first
    else (if how = .keep then breaks else [], stop, first)
  return (.between (.scalar (String.ofList text) false) c stop, after)

end Block
end IndexSync.Yaml
