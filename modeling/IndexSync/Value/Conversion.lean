import IndexSync.Failure
import IndexSync.Number.Literal
import IndexSync.Text.Split
import IndexSync.Value.Shown

/-! Integers and identifiers out of values. -/
namespace IndexSync.Value

/-- The longest part of a refused text that a message shows. -/
def shownLimit : Nat := 200

def malformedInteger (base : Nat) (shown : String) : ConversionError :=
  .malformedInteger base (String.ofList (shown.toList.take shownLimit))

def readInteger (base : Nat) (chars : List Char) (shown : String) : Except ConversionError Int :=
  match Number.readInteger base chars with
  | .ok n => .ok n
  | .error (.tooLong digits) => .error (.integerTooLong digits)
  | .error .malformed => .error (malformedInteger base shown)

def integerOfText (s : String) : Except ConversionError Int :=
  readInteger 10 s.toList (Text.Quoted.text s)

/-- The integer of a value: numbers are cut toward zero, texts are read. -/
def toInteger : Value → Except ConversionError Int
  | bool b => .ok (if b then 1 else 0)
  | int n => .ok n
  | float .nan => .error .undefinedNumber
  | float (.infinite _) => .error .infiniteNumber
  | float (.finite negative significand exponent) =>
    .ok (((Binary64.finite negative significand exponent).truncate?).getD 0)
  | text s => integerOfText s
  | bytes bs =>
    readInteger 10 (bs.map fun b => if b < 0x80 then Char.ofNat b.toNat else '?')
      (Text.Quoted.bytes bs)
  | uuid n => .ok n
  | v => .error (.notNumeric v.typeName)

/-- The text of an integer, refused when it has too many digits. -/
def integerText (n : Int) : Except ConversionError String :=
  if Number.digitLimit < (Nat.toDigits 10 n.natAbs).length then .error .integerTextTooLong
  else .ok (toString n)

/-- An identifier of 128 bits: marks, braces and dashes are dropped, and 32 characters in base
sixteen must be left. -/
def uuidOfText (s : String) : Except ConversionError Nat :=
  let unmarked := Text.replace "uuid:".toList [] (Text.replace "urn:".toList [] s.toList)
  let bare := (Text.trimBy (fun c => c = '\x7b' || c = '\x7d') unmarked).filter (· ≠ '-')
  if bare.length = 32 then do
    let n ← readInteger 16 bare (Text.Quoted.text (String.ofList bare))
    return n.toNat
  else .error .malformedUuid

end IndexSync.Value
