import IndexSync.Value.Conversion
import IndexSync.Yaml.Cursor
import IndexSync.Yaml.Tag
import IndexSync.Text.Lower

/-! The values that the texts of scalars stand for. -/
namespace IndexSync.Yaml.Literal

def dropMarks (cs : List Char) : List Char := cs.filter (· ≠ '_')

def readInteger (base : Nat) (cs : List Char) : Except ConversionError Int :=
  Value.readInteger base cs (Text.Quoted.text (String.ofList cs))

/-- A sign and what follows it. A number is not empty. -/
def cutSign (cs : List Char) : Except ConversionError (Bool × List Char) :=
  match cs with
  | [] => .error .emptyNumber
  | _ => .ok (Number.readSign cs)

/-- An integer in base two, eight, ten, sixteen or sixty. -/
def integer (s : String) : Except ConversionError Int := do
  let (negative, cs) ← cutSign (dropMarks s.toList)
  let sign (n : Int) := if negative then -n else n
  match cs with
  | [] => .error .emptyNumber
  | ['0'] => return 0
  | '0' :: 'b' :: ds => sign <$> readInteger 2 ds
  | '0' :: 'x' :: ds => sign <$> readInteger 16 ds
  | '0' :: ds => sign <$> readInteger 8 ('0' :: ds)
  | ds =>
    if ds.contains ':' then do
      let parts ← (Text.split [':'] ds).mapM (readInteger 10)
      return sign (parts.foldl (fun n part => n * 60 + part) 0)
    else sign <$> readInteger 10 ds

def readFloat (cs : List Char) : Except ConversionError Binary64 :=
  match Number.readNumber (Text.trimBy Text.isPlainBlank (cs.map Number.plainChar)) with
  | some x => .ok x
  | none => .error (.malformedNumber (Text.Quoted.text (String.ofList cs)))

def negate : Binary64 → Binary64
  | .finite negative significand exponent => .finite (!negative) significand exponent
  | .infinite negative => .infinite (!negative)
  | .nan => .nan

/-- The sum of parts in base sixty. Each product and each sum is rounded, beginning with the last
part. -/
def sexagesimal (parts : List Binary64) : Binary64 :=
  (parts.foldr (fun part (sum, weight) => (sum.plus (part.times weight), weight * 60))
    (Binary64.ofInt 0, (1 : Nat))).1

/-- A number with a point, or one of the names of infinity and of the undefined number. -/
def float (s : String) : Except ConversionError Binary64 := do
  let (negative, cs) ← cutSign (Text.lower (String.ofList (dropMarks s.toList))).toList
  let sign (x : Binary64) := if negative then negate x else x
  if cs = ".inf".toList then return sign (.infinite false)
  else if cs = ".nan".toList then return .nan
  else if cs.contains ':' then
    return sign (sexagesimal (← (Text.split [':'] cs).mapM readFloat))
  else sign <$> readFloat cs

def truth (s : String) : Except ConversionError Bool :=
  let word := Text.lower s
  match Tag.truths.lookup word with
  | some b => .ok b
  | none => .error (.unknownTruth word)

def isLeap (year : Nat) : Bool := year % 4 = 0 && (year % 100 ≠ 0 || year % 400 = 0)

def daysIn (year month : Nat) : Nat :=
  if month = 2 then if isLeap year then 29 else 28
  else if [4, 6, 9, 11].contains month then 30
  else 31

def checkPart (inside : Bool) (part : DatePart) : Except ConversionError Unit :=
  if inside then .ok () else .error (.outsideCalendar part)

/-- A number with zeros before it, up to a width. -/
def padded (width n : Nat) : String :=
  let ds := Nat.toDigits 10 n
  String.ofList (List.replicate (width - ds.length) '0' ++ ds)

/-- The distance of a zone from universal time in minutes. It is less than a day. -/
def offset (z : Tag.Zone) : Except ConversionError Int :=
  let n : Int := Number.plainDigits z.hours * 60 + Number.plainDigits z.minutes
  let n := if z.negative then -n else n
  if n.natAbs < 24 * 60 then .ok n else .error (.outsideDay n)

def offsetText (minutes : Int) : String :=
  (if minutes < 0 then "-" else "+") ++ padded 2 (minutes.natAbs / 60) ++ ":" ++
    padded 2 (minutes.natAbs % 60)

/-- A fraction of a second in millionths, if it has any. -/
def fractionText (fraction : List Char) : String :=
  let millionths := Number.plainDigits ((fraction ++ List.replicate 6 '0').take 6)
  if millionths = 0 then "" else "." ++ padded 6 millionths

/-- The date of a moment, which must be one of the calendar. -/
def date (m : Tag.Moment) : Except ConversionError String := do
  let year := Number.plainDigits m.year
  let month := Number.plainDigits m.month
  let day := Number.plainDigits m.day
  checkPart (0 < year) (.year year)
  checkPart (1 ≤ month && month ≤ 12) .month
  checkPart (1 ≤ day && day ≤ daysIn year month) .day
  return padded 4 year ++ "-" ++ padded 2 month ++ "-" ++ padded 2 day

/-- The time of a day, which must be one of the clock. -/
def time (c : Tag.Clock) : Except ConversionError String := do
  let hour := Number.plainDigits c.hour
  let minute := Number.plainDigits c.minute
  let second := Number.plainDigits c.second
  checkPart (hour < 24) .hour
  checkPart (minute < 60) .minute
  checkPart (second < 60) .second
  return padded 2 hour ++ ":" ++ padded 2 minute ++ ":" ++ padded 2 second ++
    fractionText c.fraction

/-- A date, or a date with a time of day. -/
def moment (s : String) : Except ConversionError Value :=
  match Tag.momentOf? s.toList with
  | none => .error .notATime
  | some m =>
    match m.clock with
    | none => (date m).map (.foreign "date")
    | some c => do
      let zone ← c.zone.mapM offset
      let day ← date m
      let clock ← time c
      return .foreign "datetime" (day ++ " " ++ clock ++ (zone.map offsetText).getD "")

/-- The value of a digit in base sixty-four. -/
def digit64? (c : Char) : Option Nat :=
  if 'A' ≤ c && c ≤ 'Z' then some (c.toNat - 'A'.toNat)
  else if 'a' ≤ c && c ≤ 'z' then some (c.toNat - 'a'.toNat + 26)
  else if c.isDigit then some (c.toNat - '0'.toNat + 52)
  else if c = '+' then some 62
  else if c = '/' then some 63
  else none

/-- Bytes from digits in base sixty-four, four digits for three bytes. Padding ends the text once a
group is full with it; other characters do not count. -/
def bytesFrom (position : Nat) (left : Nat) (pads : Nat) : List Char → Option (List UInt8)
  | [] => if position = 0 then some [] else none
  | c :: cs =>
    if c = '=' then
      if 2 ≤ position && 4 ≤ position + pads + 1 then some []
      else bytesFrom position left (if 2 ≤ position then pads + 1 else pads) cs
    else match digit64? c with
      | none => bytesFrom position left pads cs
      | some d =>
        let byte (n : Nat) (rest : Option (List UInt8)) := rest.map (UInt8.ofNat n :: ·)
        match position with
        | 0 => bytesFrom 1 d 0 cs
        | 1 => byte (left * 4 + d / 16) (bytesFrom 2 (d % 16) 0 cs)
        | 2 => byte (left * 16 + d / 4) (bytesFrom 3 (d % 4) 0 cs)
        | _ => byte (left * 64 + d) (bytesFrom 0 0 0 cs)

def binary? (s : String) : Option Value :=
  if s.toList.all (·.toNat < 0x80) then (bytesFrom 0 0 0 s.toList).map .bytes else none

/-- The value of a scalar. An unknown tag is a fault at its place. -/
def value (tag text : String) (place : Place) : Except Fault Value :=
  let convert {α : Type} (make : α → Value) (r : Except ConversionError α) : Except Fault Value :=
    (r.map make).mapError .conversion
  if tag = Tag.text then .ok (.text text)
  else if tag = Tag.null then .ok .null
  else if tag = Tag.truth then convert .bool (truth text)
  else if tag = Tag.integer then convert .int (integer text)
  else if tag = Tag.float then convert .float (float text)
  else if tag = Tag.time then convert id (moment text)
  else if tag = Tag.binary then
    match binary? text with
    | some v => .ok v
    | none => .error (.malformed place)
  else .error (.malformed place)

end IndexSync.Yaml.Literal
