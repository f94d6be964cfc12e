import IndexSync.Yaml.Token

/-! Directives, and the properties of nodes: anchors, aliases and tags. -/
namespace IndexSync.Yaml

def isHexDigit (c : Char) : Bool :=
  c.isDigit || ('a' ≤ c && c ≤ 'f') || ('A' ≤ c && c ≤ 'F')

def hexValue (cs : List Char) : Nat :=
  cs.foldl (fun n c => n * 16 + (if c.isDigit then c.toNat - '0'.toNat
    else c.toLower.toNat - 'a'.toNat + 10)) 0

/-- A number of hexadecimal digits. -/
def readHex (count : Nat) : Read Nat := fun c =>
  let cs := c.rest.take count
  if cs.length = count && cs.all isHexDigit then .ok (hexValue cs, c.forward count) else c.fail

namespace Property

/-- The name after an anchor's or an alias's sign. -/
def name : Read String := fun c => do
  let (cs, after) := c.step.taken isNameChar
  let next := after.peek
  if cs.isEmpty || !(isGap next || "?:,]\x7d%@\x60".toList.contains next) then after.fail
  else return (String.ofList cs, after)

/-- The handle of a tag: two signs with a name between them, or one sign. -/
def handle : Read String := fun c =>
  if c.peek ≠ '!' then c.fail
  else if c.peekAt 1 = ' ' then .ok ("!", c.step)
  else
    let (cs, after) := c.step.taken isNameChar
    if after.peek = '!' then .ok (String.ofList ('!' :: cs ++ ['!']), after.step)
    else after.fail

/-- The characters of addresses, but for the escape sign. -/
def isUriChar (c : Char) : Bool :=
  isNameChar c || ";/?:@&=+$,_.!~*'()[]".toList.contains c

/-- A run of escaped bytes. -/
def escapes : Nat → Read (List UInt8)
  | 0, c => .ok ([], c)
  | n + 1, c =>
    if c.peek ≠ '%' then .ok ([], c)
    else do
      let (byte, c) ← readHex 2 c.step
      let (bytes, c) ← escapes n c
      return (UInt8.ofNat byte :: bytes, c)

/-- The text that a run of escaped bytes encodes. -/
def escaped : Read (List Char) := fun c => do
  let (bytes, after) ← escapes c.rest.length c
  match String.fromUTF8? ⟨bytes.toArray⟩ with
  | some text => return (text.toList, after)
  | none => c.fail

/-- The pieces of an address. -/
def uriPieces : Nat → Read (List (List Char))
  | 0, c => .ok ([], c)
  | n + 1, c =>
    if c.peek = '%' then do
      let (piece, c) ← escaped c
      let (pieces, c) ← uriPieces n c
      return (piece :: pieces, c)
    else
      let (piece, after) := c.taken isUriChar
      if piece.isEmpty then .ok ([], c)
      else do
        let (pieces, c) ← uriPieces n after
        return (piece :: pieces, c)

/-- An address with escaped bytes. -/
def uri : Read String := fun c => do
  let (pieces, after) ← uriPieces (c.rest.length + 1) c
  if pieces.isEmpty then after.fail
  else return (String.ofList pieces.flatten, after)

/-- Whether a second sign ends a handle before the word ends. -/
def hasHandle (c : Cursor) : Bool :=
  (c.rest.drop 1).takeWhile (fun d => !endsWord d) |>.contains '!'

/-- A tag: its handle and its suffix. -/
def tag : Read (Option String × String) := fun c => do
  let next := c.peekAt 1
  let (found, after) ←
    if next = '<' then do
      let (suffix, after) ← uri (c.forward 2)
      if after.peek = '>' then pure ((none, suffix), after.step) else after.fail
    else if isGap next then pure ((none, "!"), c.step)
    else do
      let (h, after) ← if hasHandle c then handle c else pure ("!", c.step)
      let (suffix, after) ← uri after
      pure ((some h, suffix), after)
  if endsWord after.peek then return (found, after) else after.fail

end Property

namespace Directive

def number : Read Nat := fun c =>
  let (cs, after) := c.taken Char.isDigit
  if cs.isEmpty then c.fail
  else .ok (cs.foldl (fun n d => n * 10 + (d.toNat - '0'.toNat)) 0, after)

/-- The version of the format. -/
def readVersion : Read Directive := fun c => do
  let (major, c) ← number c.pastSpaces
  if c.peek ≠ '.' then c.fail
  else
    let (minor, c) ← number c.step
    if endsWord c.peek then return (version major minor, c) else c.fail

/-- A handle and what it stands for. -/
def readTag : Read Directive := fun c => do
  let (handle, c) ← Property.handle c.pastSpaces
  if c.peek ≠ ' ' then c.fail
  else
    let (expansion, c) ← Property.uri c.pastSpaces
    if endsWord c.peek then return (tag handle expansion, c) else c.fail

/-- The rest of a line, which may hold a comment alone. -/
def restOfLine (c : Cursor) : Except Fault Cursor :=
  let c := c.pastSpaces.pastComment
  if endsLine c.peek then .ok c.lineBreak.2 else c.fail

/-- A directive up to the end of its line. The token ends before blanks and comments. -/
def read : Read Token := fun c => do
  let (name, after) := c.step.taken isNameChar
  if name.isEmpty || !endsWord after.peek then after.fail
  else
    let (d, stop) ← match String.ofList name with
      | "YAML" => readVersion after
      | "TAG" => readTag after
      | _ => pure (unknown, after)
    let afterValue := if d = unknown then stop.past (fun e => !endsLine e) else stop
    return (.between (.directive d) c stop, ← restOfLine afterValue)

end Directive
end IndexSync.Yaml
