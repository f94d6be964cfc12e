import IndexSync.Number.Binary64

/-! Values of entity ids, attributes and settings, and when two of them are the same. -/
namespace IndexSync

/-- A value as a database, a document or a configuration file holds it. A `foreign` value is known
by the name of its type and its text. -/
inductive Value
  | null
  | bool (b : Bool)
  | int (n : Int)
  | float (x : Binary64)
  | text (s : String)
  | uuid (n : Nat)
  | bytes (bs : List UInt8)
  | tuple (items : List Value)
  | list (items : List Value)
  | set (items : List Value)
  | dict (entries : List (Value × Value))
  | foreign (typeName text : String)
  deriving Inhabited, Repr

namespace Value

def typeName : Value → String
  | null => "NoneType"
  | bool _ => "bool"
  | int _ => "int"
  | float _ => "float"
  | text _ => "str"
  | uuid _ => "UUID"
  | bytes _ => "bytes"
  | tuple _ => "tuple"
  | list _ => "list"
  | set _ => "set"
  | dict _ => "dict"
  | foreign name _ => name

/-- The exact value of a finite number; the truth values count as one and zero. -/
def number? : Value → Option Rat
  | bool b => some (if b then 1 else 0)
  | int n => some n
  | float x => x.toRat?
  | _ => none

/-- Equality across the kinds of numbers. Two infinities are the same if they have one sign. -/
def sameNumber (x y : Value) : Bool :=
  match number? x, number? y with
  | some a, some b => a = b
  | none, none =>
    match x, y with
    | float (.infinite m), float (.infinite n) => m = n
    | _, _ => false
  | _, _ => false

mutual

/-- Numbers are the same by value, tuples and lists item by item, sets and dictionaries by what
they hold. The undefined number differs from itself. -/
def same : Value → Value → Bool
  | null, null => true
  | text s, text t => s = t
  | uuid m, uuid n => m = n
  | bytes b, bytes c => b = c
  | tuple xs, tuple ys => sameItems xs ys
  | list xs, list ys => sameItems xs ys
  | set xs, set ys => xs.length = ys.length && sameMembers xs ys
  | dict xs, dict ys => xs.length = ys.length && sameEntries xs ys
  | foreign a s, foreign b t => a = b && s = t
  | x, y => sameNumber x y

def sameItems : List Value → List Value → Bool
  | [], [] => true
  | x :: xs, y :: ys => same x y && sameItems xs ys
  | _, _ => false

/-- Every member of the first list is in the second. -/
def sameMembers : List Value → List Value → Bool
  | [], _ => true
  | x :: xs, ys => ys.any (same x) && sameMembers xs ys

/-- Every entry of the first list is in the second. -/
def sameEntries : List (Value × Value) → List (Value × Value) → Bool
  | [], _ => true
  | (k, v) :: xs, ys => (ys.any fun (l, w) => same k l && same v w) && sameEntries xs ys

end

instance : BEq Value := ⟨same⟩

/-- The type name of the first part that cannot be a key: a list, a set or a dictionary. -/
def unhashablePart? : Value → Option String
  | tuple items => unhashableItem? items
  | list _ => some "list"
  | set _ => some "set"
  | dict _ => some "dict"
  | _ => none
where
  unhashableItem? : List Value → Option String
    | [] => none
    | x :: xs => (unhashablePart? x).or (unhashableItem? xs)

/-- A set of the given members, each once, in the order of their first mention. -/
def setOf (items : List Value) : Value :=
  set (items.foldl (fun kept x => if kept.any (same · x) then kept else kept ++ [x]) [])

/-- The items of a value that can be gone through one by one. -/
def items? : Value → Option (List Value)
  | text s => some (s.toList.map fun c => text (String.singleton c))
  | bytes bs => some (bs.map fun b => int b.toNat)
  | tuple items | list items | set items => some items
  | dict entries => some (entries.map (·.1))
  | _ => none

end Value
end IndexSync
