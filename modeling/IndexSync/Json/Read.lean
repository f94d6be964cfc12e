import IndexSync.Number.Literal
import IndexSync.Value
import IndexSync.Entries

/-! Reading values from JSON texts. -/
namespace IndexSync.Json

def isSpace (c : Char) : Bool := c = ' ' || c = '\t' || c = '\n' || c = '\r'

def skip (cs : List Char) : List Char := cs.dropWhile isSpace

/-- What follows a word at the head of a text. -/
def after? (word : String) (cs : List Char) : Option (List Char) :=
  if word.toList.isPrefixOf cs then some (cs.drop word.length) else none

/-- The words that stand for values. -/
def words : List (String × Value) :=
  [("null", .null), ("true", .bool true), ("false", .bool false), ("NaN", .float .nan),
    ("Infinity", .float (.infinite false)), ("-Infinity", .float (.infinite true))]

def word? (cs : List Char) : Option (Value × List Char) :=
  words.findSome? fun (w, v) => (after? w cs).map fun rest => (v, rest)

def cutDigits (cs : List Char) : List Char × List Char :=
  (cs.takeWhile Char.isDigit, cs.dropWhile Char.isDigit)

/-- A point and digits, if both are there. -/
def cutFraction : List Char → List Char × List Char
  | '.' :: cs =>
    match cutDigits cs with
    | ([], _) => ([], '.' :: cs)
    | (ds, rest) => (ds, rest)
  | cs => ([], cs)

/-- An exponent, if one is there in full. -/
def cutExponent (cs : List Char) : Option Int × List Char :=
  match cs with
  | e :: rest =>
    let (negative, rest) := Number.readSign rest
    match cutDigits rest with
    | ([], _) => (none, cs)
    | (ds, rest) =>
      if e = 'e' || e = 'E' then
        let n : Int := Number.plainDigits ds
        (some (if negative then -n else n), rest)
      else (none, cs)
  | [] => (none, [])

/-- A number. Without a fraction and an exponent it is an integer, which may not be too long. -/
def number? (cs : List Char) : Option (Value × List Char) :=
  let (negative, unsigned) := match cs with
    | '-' :: rest => (true, rest)
    | rest => (false, rest)
  let (whole, rest) := match unsigned with
    | '0' :: rest => (['0'], rest)
    | rest => cutDigits rest
  if whole.isEmpty then none
  else
    let (fraction, rest) := cutFraction rest
    let (exponent, rest) := cutExponent rest
    let n := Number.plainDigits (whole ++ fraction)
    if fraction.isEmpty && exponent.isNone then
      if Number.digitLimit < whole.length then none
      else some (.int (if negative then -n else n), rest)
    else some (.float (Binary64.ofDecimal negative n (exponent.getD 0 - fraction.length)), rest)

/-- What a sign after the escape sign stands for. -/
def escapes : List (Char × Char) :=
  [('"', '"'), ('\\', '\\'), ('/', '/'), ('b', '\x08'), ('f', '\x0c'), ('n', '\n'), ('r', '\r'),
    ('t', '\t')]

def hexValue? (c : Char) : Option Nat :=
  if c.isDigit then some (c.toNat - '0'.toNat)
  else if 'a' ≤ c && c ≤ 'f' then some (c.toNat - 'a'.toNat + 10)
  else if 'A' ≤ c && c ≤ 'F' then some (c.toNat - 'A'.toNat + 10)
  else none

def hex4? (cs : List Char) : Option (Nat × List Char) :=
  let ds := (cs.take 4).filterMap hexValue?
  if ds.length = 4 then some (Number.ofDigits 16 ds, cs.drop 4) else none

/-- A character by its number. Two numbers from the halves of the surrogate range make one
character. -/
def unicode? (cs : List Char) : Option (Char × List Char) := do
  let (high, rest) ← hex4? cs
  let low := (after? "\\u" rest).bind hex4?
  match low with
  | some (n, rest') =>
    if 0xD800 ≤ high && high < 0xDC00 && 0xDC00 ≤ n && n < 0xE000 then
      some (Char.ofNat (0x10000 + (high - 0xD800) * 0x400 + (n - 0xDC00)), rest')
    else some (Char.ofNat high, rest)
  | none => some (Char.ofNat high, rest)

/-- The rest of a text up to its closing quote. -/
def text? : Nat → List Char → Option (List Char × List Char)
  | 0, _ => none
  | n + 1, cs =>
    match cs with
    | [] => none
    | '"' :: rest => some ([], rest)
    | '\\' :: 'u' :: rest => do
      let (c, rest) ← unicode? rest
      let (more, rest) ← text? n rest
      return (c :: more, rest)
    | '\\' :: e :: rest => do
      let c ← escapes.lookup e
      let (more, rest) ← text? n rest
      return (c :: more, rest)
    | c :: rest =>
      if c.toNat < 0x20 || c = '\\' then none
      else do
        let (more, rest) ← text? n rest
        return (c :: more, rest)

mutual

/-- A value at the head of a text. The fuel is more than the length of the text. -/
def value? : Nat → List Char → Option (Value × List Char)
  | 0, _ => none
  | n + 1, cs =>
    match cs with
    | '"' :: rest => (text? n rest).map fun (s, rest) => (.text (String.ofList s), rest)
    | '[' :: rest =>
      match skip rest with
      | ']' :: rest => some (.list [], rest)
      | rest => (items? n rest).map fun (xs, rest) => (.list xs, rest)
    | '\x7b' :: rest =>
      match skip rest with
      | '\x7d' :: rest => some (.dict [], rest)
      | rest => (entries? n rest).map fun (es, rest) => (.dict (Entries.ofList es), rest)
    | cs => (word? cs).or (number? cs)

def items? : Nat → List Char → Option (List Value × List Char)
  | 0, _ => none
  | n + 1, cs => do
    let (x, rest) ← value? n cs
    match skip rest with
    | ']' :: rest => return ([x], rest)
    | ',' :: rest => do
      let (xs, rest) ← items? n (skip rest)
      return (x :: xs, rest)
    | _ => none

def entries? : Nat → List Char → Option (List (Value × Value) × List Char)
  | 0, _ => none
  | n + 1, cs => do
    let (key, rest) ← match cs with
      | '"' :: rest => text? n rest
      | _ => none
    let rest ← after? ":" (skip rest)
    let (x, rest) ← value? n (skip rest)
    let entry := (Value.text (String.ofList key), x)
    match skip rest with
    | '\x7d' :: rest => return ([entry], rest)
    | ',' :: rest => do
      let (es, rest) ← entries? n (skip rest)
      return (entry :: es, rest)
    | _ => none

end

/-- The value of a text. -/
def read? (s : String) : Option Value :=
  match value? (2 * s.length + 2) (skip s.toList) with
  | some (v, rest) => if (skip rest).isEmpty then some v else none
  | none => none

end IndexSync.Json
