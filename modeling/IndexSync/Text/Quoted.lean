import IndexSync.Text.Printable

/-! Quoted texts for messages. A text stands between single quotes, or between double quotes when
it holds a single quote and no double one. Backslashes, the chosen quote and all characters that
cannot be shown are escaped. -/
namespace IndexSync.Text.Quoted

/-- The last `width` digits of a number in base sixteen. -/
def hex : (width : Nat) → Nat → List Char
  | 0, _ => []
  | width + 1, n => hex width (n / 16) ++ [Nat.digitChar (n % 16)]

def quoteFor (cs : List Char) : Char :=
  if cs.contains '\'' && !cs.contains '"' then '"' else '\''

/-- A control character by its escape, or by its number. -/
def escapeControl (c : Char) : List Char :=
  if c = '\n' then ['\\', 'n']
  else if c = '\r' then ['\\', 'r']
  else if c = '\t' then ['\\', 't']
  else if c.toNat < 0x100 then '\\' :: 'x' :: hex 2 c.toNat
  else if c.toNat < 0x10000 then '\\' :: 'u' :: hex 4 c.toNat
  else '\\' :: 'U' :: hex 8 c.toNat

def escape (quote c : Char) : List Char :=
  if c = quote || c = '\\' then ['\\', c]
  else if isPrintable c then [c]
  else escapeControl c

def encode (cs : List Char) : List Char :=
  let quote := quoteFor cs
  quote :: cs.flatMap (escape quote) ++ [quote]

/-- A text as it is quoted in messages. -/
def text (s : String) : String :=
  String.ofList (encode s.toList)

/-- Bytes are quoted as texts of seven bits, marked by a `b`. -/
def bytes (bs : List UInt8) : String :=
  let cs := bs.map fun b => Char.ofNat b.toNat
  let quote := quoteFor cs
  let shown (c : Char) : List Char :=
    if c = quote || c = '\\' then ['\\', c]
    else if 0x20 ≤ c.toNat && c.toNat < 0x7F then [c]
    else escapeControl c
  String.ofList ('b' :: quote :: cs.flatMap shown ++ [quote])

end IndexSync.Text.Quoted
