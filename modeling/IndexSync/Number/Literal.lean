import IndexSync.Number.Binary64
import IndexSync.Text.Blank
import IndexSync.Text.Digit

/-! Reading numbers from texts. -/
namespace IndexSync.Number

/-- Why a text is no integer. -/
inductive IntegerFault
  | malformed
  | tooLong (digits : Nat)
  deriving DecidableEq, Repr

/-- The greatest count of digits that are converted between texts and integers. -/
def digitLimit : Nat := 4300

/-- Digits and blanks of all scripts as those of the plain alphabet. -/
def plainChar (c : Char) : Char :=
  if c.toNat < 0x7F then c
  else if Text.isBlank c then ' '
  else match Text.digitValue? c with
    | some d => Nat.digitChar d
    | none => '?'

/-- A sign and the rest. -/
def readSign : List Char → Bool × List Char
  | '-' :: cs => (true, cs)
  | '+' :: cs => (false, cs)
  | cs => (false, cs)

/-- The longest run of digits, single underscores standing between two of them, and the rest.
An underscore that stands elsewhere makes the run malformed. -/
def readDigits (base : Nat) (afterDigit : Bool) :
    List Char → Option (List Nat × List Char)
  | [] => if afterDigit then some ([], []) else none
  | c :: cs =>
    if c = '_' then if afterDigit then readDigits base false cs else none
    else match Text.baseDigit? base c with
      | some d => (readDigits base true cs).map fun (ds, rest) => (d :: ds, rest)
      | none => if afterDigit then some ([], c :: cs) else none

def ofDigits (base : Nat) (ds : List Nat) : Nat :=
  ds.foldl (fun n d => n * base + d) 0

/-- The letters that mark a base after a zero. -/
def baseMarks : Nat → List Char
  | 2 => ['b', 'B']
  | 8 => ['o', 'O']
  | 16 => ['x', 'X']
  | _ => []

/-- Drops the mark of a base and one underscore after it. -/
def dropBaseMark (base : Nat) : List Char → List Char
  | '0' :: mark :: cs =>
    if (baseMarks base).contains mark then
      match cs with
      | '_' :: cs => cs
      | cs => cs
    else '0' :: mark :: cs
  | cs => cs

/-- An integer in a base: blanks around it, an optional sign, digits of any script. Only in base
ten the count of digits is limited. -/
def readInteger (base : Nat) (text : List Char) : Except IntegerFault Int :=
  let (negative, cs) := readSign ((text.map plainChar).dropWhile Text.isPlainBlank)
  match readDigits base false (dropBaseMark base cs) with
  | none => .error .malformed
  | some (ds, rest) =>
    if base = 10 && digitLimit < ds.length then .error (.tooLong ds.length)
    else if rest.all Text.isPlainBlank then
      let n := ofDigits base ds
      .ok (if negative then -n else n)
    else .error .malformed

def plainDigits (cs : List Char) : Nat :=
  ofDigits 10 (cs.map fun c => c.toNat - '0'.toNat)

/-- What follows an optional point: digits and the rest. -/
def readFraction : List Char → List Char × List Char
  | '.' :: cs => (cs.takeWhile Char.isDigit, cs.dropWhile Char.isDigit)
  | cs => ([], cs)

/-- An optional exponent that ends the text. -/
def readExponent : List Char → Option Int
  | [] => some 0
  | c :: cs =>
    let (negative, es) := readSign cs
    if (c = 'e' || c = 'E') && !es.isEmpty && es.all Char.isDigit then
      let e : Int := plainDigits es
      some (if negative then -e else e)
    else none

/-- Digits, an optional point and an optional exponent: the number that all digits form, and the
power of ten of the last one. -/
def readUnsignedDecimal (cs : List Char) : Option (Nat × Int) :=
  let whole := cs.takeWhile Char.isDigit
  let (fraction, rest) := readFraction (cs.dropWhile Char.isDigit)
  if whole.isEmpty && fraction.isEmpty then none
  else (readExponent rest).map fun e => (plainDigits (whole ++ fraction), e - fraction.length)

def isWord (word : String) (cs : List Char) : Bool :=
  cs.map Char.toLower = word.toList

/-- A number with a sign, or the name of infinity or of the undefined number in any case. -/
def readNumber (text : List Char) : Option Binary64 :=
  let (negative, cs) := readSign text
  if isWord "inf" cs || isWord "infinity" cs then some (.infinite negative)
  else if isWord "nan" cs then some .nan
  else (readUnsignedDecimal cs).map fun (digits, e) => Binary64.ofDecimal negative digits e

/-- Underscores taken out, if each stands inside the text and alone. -/
def dropUnderscores? (cs : List Char) : Option (List Char) :=
  let rec doubled : List Char → Bool
    | '_' :: '_' :: _ => true
    | _ :: cs => doubled cs
    | [] => false
  if cs.head? = some '_' || cs.getLast? = some '_' || doubled cs then none
  else some (cs.filter (· ≠ '_'))

end IndexSync.Number
