import IndexSync.Number.Literal
import IndexSync.Text.Split

/-! Tags: the kinds of nodes, and the kinds that plain texts suggest. -/
namespace IndexSync.Yaml.Tag

/-- The beginning of the tags that every document knows. -/
def standard : String := "tag:yaml.org,2002:"

def text : String := standard ++ "str"
def null : String := standard ++ "null"
def truth : String := standard ++ "bool"
def integer : String := standard ++ "int"
def float : String := standard ++ "float"
def binary : String := standard ++ "binary"
def time : String := standard ++ "timestamp"
def sequence : String := standard ++ "seq"
def mapping : String := standard ++ "map"
def set : String := standard ++ "set"
def ordered : String := standard ++ "omap"
def pairs : String := standard ++ "pairs"
def merge : String := standard ++ "merge"
def value : String := standard ++ "value"

/-- What handles stand for unless a document says otherwise. -/
def handles : List (String × String) := [("!", "!"), ("!!", standard)]

/-- The ways to write the two truth values, each in small letters, capitalized, and in capitals. -/
def truths : List (String × Bool) :=
  [("yes", true), ("no", false), ("true", true), ("false", false), ("on", true), ("off", false)]

def capitalized (word : List Char) : List Char :=
  match word with
  | [] => []
  | c :: cs => c.toUpper :: cs

/-- Whether a text is a word in small letters, capitalized, or in capitals. -/
def isWord (word : String) (cs : List Char) : Bool :=
  let w := word.toList
  cs = w || cs = capitalized w || cs = w.map Char.toUpper

def isDigitOrMark (c : Char) : Bool := c.isDigit || c = '_'

def withoutSign : List Char → List Char
  | '+' :: cs => cs
  | '-' :: cs => cs
  | cs => cs

/-- A part of a number in base sixty: at most two digits, less than sixty. -/
def isSixtieth (cs : List Char) : Bool :=
  match cs with
  | [d] => d.isDigit
  | [t, d] => '0' ≤ t && t ≤ '5' && d.isDigit
  | _ => false

/-- Digits and marks that begin with a digit. -/
def isDigits (cs : List Char) : Bool :=
  cs.head?.any Char.isDigit && cs.all isDigitOrMark

/-- Parts between colons, at least two of them. -/
def isSexagesimal (first : List Char → Bool) (cs : List Char) : Bool :=
  match Text.split [':'] cs with
  | head :: part :: parts => first head && (part :: parts).all isSixtieth
  | _ => false

def isInteger (cs : List Char) : Bool :=
  let positive (ds : List Char) := ds.head? ≠ some '0' && isDigits ds
  match withoutSign cs with
  | ['0'] => true
  | '0' :: 'b' :: d :: ds => (d :: ds).all fun c => c = '0' || c = '1' || c = '_'
  | '0' :: 'x' :: d :: ds =>
    (d :: ds).all fun c => isDigitOrMark c || ('a' ≤ c && c ≤ 'f') || ('A' ≤ c && c ≤ 'F')
  | '0' :: d :: ds => (d :: ds).all fun c => ('0' ≤ c && c ≤ '7') || c = '_'
  | ds => positive ds || isSexagesimal positive ds

/-- An exponent with its sign, or nothing. -/
def isExponent : List Char → Bool
  | [] => true
  | e :: sign :: d :: ds =>
    (e = 'e' || e = 'E') && (sign = '+' || sign = '-') && (d :: ds).all Char.isDigit
  | _ => false

/-- What may follow the point of a number. -/
def isFraction (cs : List Char) : Bool :=
  isExponent (cs.dropWhile isDigitOrMark)

def isFloat (cs : List Char) : Bool :=
  let ds := withoutSign cs
  let infinite := match ds with
    | '.' :: rest => isWord "inf" rest
    | _ => false
  let undefined := cs = ".nan".toList || cs = ".NaN".toList || cs = ".NAN".toList
  let pointFirst := match cs with
    | '.' :: d :: rest => d.isDigit && isFraction rest
    | _ => false
  let pointed := match Text.cut? ['.'] ds with
    | some (whole, fraction) =>
      (isDigits whole && isFraction fraction) ||
        (isSexagesimal isDigits whole && fraction.all isDigitOrMark)
    | none => false
  infinite || undefined || pointFirst || pointed

/-- Digits, as many as a range allows, and the rest. -/
def cutDigits (least most : Nat) (cs : List Char) : Option (List Char × List Char) :=
  let ds := (cs.take most).takeWhile Char.isDigit
  if least ≤ ds.length then some (ds, cs.drop ds.length) else none

/-- A time zone by its distance from universal time, in digits. -/
structure Zone where
  negative : Bool
  hours : List Char
  minutes : List Char

/-- A time of day in digits. -/
structure Clock where
  hour : List Char
  minute : List Char
  second : List Char
  fraction : List Char
  zone : Option Zone

/-- A date, or a date and a time of day, in digits. -/
structure Moment where
  year : List Char
  month : List Char
  day : List Char
  clock : Option Clock

/-- A time zone: `Z`, or a sign with hours and, if they are there, minutes. -/
def zone? : List Char → Option Zone
  | ['Z'] => some ⟨false, [], []⟩
  | sign :: cs =>
    if sign = '+' || sign = '-' then
      match cutDigits 1 2 cs with
      | some (hours, []) => some ⟨sign = '-', hours, []⟩
      | some (hours, ':' :: minutes) =>
        if minutes.length = 2 && minutes.all Char.isDigit then some ⟨sign = '-', hours, minutes⟩
        else none
      | _ => none
    else none
  | [] => none

/-- The end of a time of day: a fraction and a time zone, either of which may be absent. -/
def clockEnd? (cs : List Char) : Option (List Char × Option Zone) :=
  let (fraction, rest) := Number.readFraction cs
  if rest.isEmpty then some (fraction, none)
  else (zone? (rest.dropWhile fun c => c = ' ' || c = '\t')).map fun z => (fraction, some z)

/-- The time of day after a date. -/
def clock? (cs : List Char) : Option Clock := do
  let rest ← match cs with
    | 'T' :: rest => some rest
    | 't' :: rest => some rest
    | c :: rest =>
      if c = ' ' || c = '\t' then some (rest.dropWhile fun c => c = ' ' || c = '\t') else none
    | [] => none
  let (hour, rest) ← cutDigits 1 2 rest
  let (minute, rest) ← if rest.head? = some ':' then cutDigits 2 2 (rest.drop 1) else none
  let (second, rest) ← if rest.head? = some ':' then cutDigits 2 2 (rest.drop 1) else none
  let (fraction, zone) ← clockEnd? rest
  return ⟨hour, minute, second, fraction, zone⟩

/-- The date or time that a text says. -/
def momentOf? (cs : List Char) : Option Moment := do
  let (year, rest) ← cutDigits 4 4 cs
  let (month, rest) ← if rest.head? = some '-' then cutDigits 1 2 (rest.drop 1) else none
  let (day, rest) ← if rest.head? = some '-' then cutDigits 1 2 (rest.drop 1) else none
  if rest.isEmpty then some ⟨year, month, day, none⟩
  else (clock? rest).map fun clock => ⟨year, month, day, some clock⟩

/-- Whether a text suggests a date or a time. A date alone has two digits for month and day. -/
def isTime (cs : List Char) : Bool :=
  (momentOf? cs).any fun m => m.clock.isSome || (m.month.length = 2 && m.day.length = 2)

/-- The tag that a plain text suggests. -/
def ofText (s : String) : String :=
  let cs := s.toList
  if truths.any fun (word, _) => isWord word cs then truth
  else if isFloat cs then float
  else if isInteger cs then integer
  else if s = "<<" then merge
  else if s = "" || s = "~" || isWord "null" cs then null
  else if isTime cs then time
  else if s = "=" then value
  else text

end IndexSync.Yaml.Tag
