import IndexSync.Number.Literal
import IndexSync.Number.Shortest
import IndexSync.Text.Blank
import IndexSync.Text.Split
import IndexSync.Value

/-! Checking the values of settings. All problems of a document are found, each with its place. -/
namespace IndexSync.Config

/-- What is wrong with a value. -/
inductive Complaint
  | notText
  | unreadableText
  | blank
  | notOneOf (names : List String)
  | notNumber
  | unreadableNumber
  | notPositive
  | notInteger
  | unreadableInteger
  | fractional
  | notFinite
  | tooLong
  | notAtLeastOne
  | notList
  | notEntity
  | notColumn
  | missing
  deriving DecidableEq, Repr

/-- Names with commas between them, and a word before the last. -/
def alternatives : List String → String
  | [] => ""
  | [name] => "'" ++ name ++ "'"
  | [first, last] => "'" ++ first ++ "' or '" ++ last ++ "'"
  | name :: rest => "'" ++ name ++ "', " ++ alternatives rest

def Complaint.message : Complaint → String
  | notText => "Input should be a valid string"
  | unreadableText =>
    "Input should be a valid string, unable to parse raw data as a unicode string"
  | blank => "Value error, must be non-empty"
  | notOneOf names => "Input should be " ++ alternatives names
  | notNumber => "Input should be a valid number"
  | unreadableNumber => "Input should be a valid number, unable to parse string as a number"
  | notPositive => "Input should be greater than 0"
  | notInteger => "Input should be a valid integer"
  | unreadableInteger => "Input should be a valid integer, unable to parse string as an integer"
  | fractional => "Input should be a valid integer, got a number with a fractional part"
  | notFinite => "Input should be a finite number"
  | tooLong => "Unable to parse input string as an integer, exceeded maximum size"
  | notAtLeastOne => "Input should be greater than or equal to 1"
  | notList => "Input should be a valid list"
  | notEntity => "Input should be a valid dictionary or instance of WatchedEntityConfig"
  | notColumn => "Input should be a valid dictionary or instance of IdColumnConfig"
  | missing => "Field required"

/-- A complaint about the value at a place. -/
structure Problem where
  place : List String
  complaint : Complaint
  deriving DecidableEq, Repr

def Problem.text (p : Problem) : String :=
  String.intercalate "." p.place ++ ": " ++ p.complaint.message

/-- A value that has been checked, or all that is wrong with it. -/
abbrev Checked (α : Type) := Except (List Problem) α

namespace Checked

variable {α β : Type}

def complain (c : Complaint) : Checked α := .error [⟨[], c⟩]

/-- Problems inside a part are problems of the whole at that part. -/
def inside (part : String) (x : Checked α) : Checked α :=
  x.mapError fun ps => ps.map fun p => { p with place := part :: p.place }

def problems : Checked α → List Problem
  | .ok _ => []
  | .error ps => ps

/-- Two checks, with the problems of both. -/
def both (f : Checked (α → β)) (x : Checked α) : Checked β :=
  match f, x with
  | .ok f, .ok a => .ok (f a)
  | f, x => .error (f.problems ++ x.problems)

/-- All items of a list, each at its number. -/
def all (check : Value → Checked α) : Nat → List Value → Checked (List α)
  | _, [] => .ok []
  | i, v :: vs => both ((inside (toString i) (check v)).map List.cons) (all check (i + 1) vs)

end Checked

/-- A text, or bytes that encode one. -/
def textOf : Value → Checked String
  | .text s => .ok s
  | .bytes bs =>
    match String.fromUTF8? ⟨bs.toArray⟩ with
    | some s => .ok s
    | none => Checked.complain .unreadableText
  | _ => Checked.complain .notText

def optionalTextOf : Value → Checked (Option String)
  | .null => .ok none
  | v => (textOf v).map some

/-- A text that is not blank, trimmed. -/
def nameOf (v : Value) : Checked String := do
  match Text.nonBlank? (← textOf v) with
  | some name => return name
  | none => Checked.complain .blank

/-- One of the given names. -/
def oneOf {α : Type} (names : List (String × α)) (v : Value) : Checked α :=
  let found := match v with
    | .text s => names.lookup s
    | _ => none
  match found with
  | some a => .ok a
  | none => Checked.complain (.notOneOf (names.map (·.1)))

/-- The text that a value may be read as a number from. -/
def numeralOf (otherwise : Complaint) : Value → Checked (Option String)
  | .text s => .ok (some s)
  | .bytes bs =>
    match String.fromUTF8? ⟨bs.toArray⟩ with
    | some s => .ok (some s)
    | none => Checked.complain otherwise
  | _ => .ok none

def trimSpace (cs : List Char) : List Char := Text.trimBy Text.isWhiteSpace cs

/-- A number in a text. Underscores may stand between its characters. -/
def readFloat? (s : String) : Option Binary64 :=
  (Number.readNumber (trimSpace s.toList)).or
    ((Number.dropUnderscores? s.toList).bind fun cs => Number.readNumber (trimSpace cs))

def floatOf (v : Value) : Checked Binary64 := do
  match ← numeralOf .unreadableNumber v with
  | some s =>
    match readFloat? s with
    | some x => return x
    | none => Checked.complain .unreadableNumber
  | none =>
    match v with
    | .bool b => return Binary64.ofInt (if b then 1 else 0)
    | .int n =>
      match Binary64.ofInt n with
      | .infinite _ => Checked.complain .notNumber
      | x => return x
    | .float x => return x
    | _ => Checked.complain .notNumber

def positiveOf (v : Value) : Checked Binary64 := do
  let x ← floatOf v
  if x.isPositive then return x else Checked.complain .notPositive

/-- Zeros at the head of a number, but for the last digit before a point. -/
def dropZeros : List Char → Option (List Char)
  | '0' :: '_' :: '_' :: _ => none
  | '0' :: '_' :: c :: cs => dropZeros (c :: cs)
  | '0' :: '0' :: cs => dropZeros ('0' :: cs)
  | '0' :: '.' :: cs => some ('0' :: '.' :: cs)
  | '0' :: d :: cs => if d.isDigit then some (d :: cs) else none
  | ['0'] => some ['0']
  | d :: cs => if d.isDigit || d = '-' then some (d :: cs) else none
  | [] => none

/-- A number without the zeros after its point. -/
def dropZeroFraction (cs : List Char) : List Char :=
  match Text.cut? ['.'] cs with
  | some (whole, fraction) => if fraction.all (· = '0') then whole else cs
  | none => cs

/-- A whole number in plain digits. -/
def plainInteger? (cs : List Char) : Option Int :=
  let (negative, ds) := Number.readSign cs
  if ds.isEmpty || !ds.all Char.isDigit then none
  else
    let n : Int := Number.plainDigits ds
    some (if negative then -n else n)

/-- A whole number in a text, possibly with underscores and a fraction of zeros. -/
def readInteger? (cs : List Char) : Option Int :=
  (plainInteger? cs).or do
    let unsigned ← match cs with
      | '+' :: '-' :: _ => none
      | '+' :: rest => some rest
      | rest => some rest
    let whole := dropZeroFraction (← dropZeros unsigned)
    plainInteger? ((Number.dropUnderscores? whole).getD whole)

/-- The longest text that is read as an integer, in bytes. -/
def integerLimit : Nat := 4300

/-- The least and the greatest integer that a number with a point may stand for. -/
def floatRange : Int := Nat.pow 2 63

def integerOfFloat (x : Binary64) : Checked Int :=
  match x.truncate? with
  | none => Checked.complain .notFinite
  | some n =>
    if !x.isIntegral then Checked.complain .fractional
    else if n ≤ -floatRange || floatRange ≤ n then Checked.complain .tooLong
    else .ok n

def integerOf (v : Value) : Checked Int := do
  match ← numeralOf .unreadableInteger v with
  | some s =>
    let cs := trimSpace s.toList
    if integerLimit < (String.ofList cs).utf8ByteSize then Checked.complain .tooLong
    else
      match readInteger? cs with
      | some n => return n
      | none => Checked.complain .unreadableInteger
  | none =>
    match v with
    | .bool b => return if b then 1 else 0
    | .int n => return n
    | .float x => integerOfFloat x
    | _ => Checked.complain .notInteger

/-- An integer above zero. -/
def countOf (v : Value) : Checked Nat := do
  let n ← integerOf v
  if 1 ≤ n then return n.toNat else Checked.complain .notAtLeastOne

def listOf {α : Type} (check : Value → Checked α) : Value → Checked (List α)
  | .list vs | .tuple vs | .set vs => Checked.all check 0 vs
  | _ => Checked.complain .notList

/-- The entries of a dictionary. -/
def entriesOf (otherwise : Complaint) : Value → Checked (List (Value × Value))
  | .dict entries => .ok entries
  | _ => Checked.complain otherwise

/-- The value of a field that must be there. -/
def required {α : Type} (entries : List (Value × Value)) (name : String)
    (check : Value → Checked α) : Checked α :=
  Checked.inside name <|
    match entries.find? fun (k, _) => k == .text name with
    | some (_, v) => check v
    | none => Checked.complain .missing

/-- The value of a field that may be left out. -/
def optional {α : Type} (entries : List (Value × Value)) (name : String) (default : α)
    (check : Value → Checked α) : Checked α :=
  Checked.inside name <|
    match entries.find? fun (k, _) => k == .text name with
    | some (_, v) => check v
    | none => .ok default

end IndexSync.Config
