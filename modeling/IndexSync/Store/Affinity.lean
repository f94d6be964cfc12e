import IndexSync.Number.Literal
import IndexSync.Number.Shortest
import IndexSync.Text.Blank
import IndexSync.Text.Split
import IndexSync.Value

/-! What a column makes of the values that are stored in it, and the order of stored values. -/
namespace IndexSync.Store

/-- What a column prefers its values to be. -/
inductive Affinity
  | integer | real | numeric | text | none
  deriving DecidableEq, Repr

namespace Affinity

/-- The words in a declared type that decide, in the order in which they are looked for. -/
def words : List (String × Affinity) :=
  [("INT", integer), ("CHAR", text), ("CLOB", text), ("TEXT", text), ("BLOB", none),
    ("REAL", real), ("FLOA", real), ("DOUB", real)]

/-- The preference that a declared type asks for. -/
def ofType (type : String) : Affinity :=
  if (Text.trim type).isEmpty then none
  else
    let capitals := String.ofList (type.toList.map Char.toUpper)
    ((words.find? fun (word, _) => Text.contains word capitals).map (·.2)).getD numeric

end Affinity

/-- The greatest number that is stored as an integer, and the least one less than zero. -/
def integerRange : Int := Nat.pow 2 63

def fitsInteger (n : Int) : Bool := -integerRange ≤ n && n < integerRange

/-- A number stored as an integer if it is whole. -/
def storedNumber (x : Binary64) : Value :=
  match x.truncate? with
  | some n => if x.isIntegral && fitsInteger n then .int n else .float x
  | Option.none => .float x

/-- The number that a text stands for: plain digits with blanks around them. -/
def numberOfText? (s : String) : Option Value :=
  let cs := Text.trimBy Text.isPlainBlank s.toList
  let plain (c : Char) := c.isDigit || ['+', '-', '.', 'e', 'E'].contains c
  if cs.all plain then (Number.readNumber cs).map storedNumber else Option.none

def asReal : Value → Value
  | .int n => .float (Binary64.ofInt n)
  | v => v

/-- A value as a column of some preference stores it. The truth values are stored as numbers, and
the undefined number as nothing. -/
def Affinity.store (a : Affinity) (v : Value) : Value :=
  let v : Value := match v with
    | .bool b => .int (if b then 1 else 0)
    | .float .nan => .null
    | v => v
  match a, v with
  | .integer, .float x | .numeric, .float x => storedNumber x
  | .integer, .text s | .numeric, .text s => (numberOfText? s).getD v
  | .real, .text s => ((numberOfText? s).map asReal).getD v
  | .real, .int n => asReal (.int n)
  | .text, .int n => .text (toString n)
  | .text, .float x => .text x.toText
  | _, v => v

/-- The place of a kind of value among all stored values. -/
def storeRank : Value → Nat
  | .null => 0
  | .int _ | .float _ => 1
  | .text _ => 2
  | _ => 3

/-- The order of stored values: nothing, numbers, texts, bytes. -/
def storedLe (a b : Value) : Bool :=
  match a, b with
  | .text s, .text t => s ≤ t
  | .bytes s, .bytes t => !List.lex (t.map (·.toNat)) (s.map (·.toNat)) (· < ·)
  | a, b =>
    match a.number?, b.number? with
    | some x, some y => x ≤ y
    | _, _ => storeRank a ≤ storeRank b

/-- The order of lists of stored values: the first difference decides. -/
def storedListLe : List Value → List Value → Bool
  | [], _ => true
  | _ :: _, [] => false
  | a :: as, b :: bs => if a == b then storedListLe as bs else storedLe a b

end IndexSync.Store
