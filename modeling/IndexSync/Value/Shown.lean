import IndexSync.Value
import IndexSync.Number.Shortest
import IndexSync.Text.Quoted

/-! The text of a value, bare and as it is shown inside messages. -/
namespace IndexSync.Value

/-- An identifier of 128 bits in five groups of digits of base sixteen. -/
def uuidText (n : Nat) : String :=
  let cs := Text.Quoted.hex 32 n
  let part (first count : Nat) := String.ofList ((cs.drop first).take count)
  String.intercalate "-" [part 0 8, part 8 4, part 12 4, part 16 4, part 20 12]

mutual

/-- A value as messages show it: texts are quoted. -/
def shown : Value → String
  | null => "None"
  | bool b => if b then "True" else "False"
  | int n => toString n
  | float x => x.toText
  | text s => Text.Quoted.text s
  | uuid n => "UUID('" ++ uuidText n ++ "')"
  | bytes bs => Text.Quoted.bytes bs
  | tuple [] => "()"
  | tuple [x] => "(" ++ shown x ++ ",)"
  | tuple (x :: y :: xs) => "(" ++ shownItems (x :: y :: xs) ++ ")"
  | list xs => "[" ++ shownItems xs ++ "]"
  | set [] => "set()"
  | set (x :: xs) => "\x7b" ++ shownItems (x :: xs) ++ "\x7d"
  | dict entries => "\x7b" ++ shownEntries entries ++ "\x7d"
  | foreign _ s => s

def shownItems : List Value → String
  | [] => ""
  | [x] => shown x
  | x :: y :: xs => shown x ++ ", " ++ shownItems (y :: xs)

def shownEntries : List (Value × Value) → String
  | [] => ""
  | [(k, v)] => shown k ++ ": " ++ shown v
  | (k, v) :: e :: rest => shown k ++ ": " ++ shown v ++ ", " ++ shownEntries (e :: rest)

end

/-- The bare text of a value. -/
def toText : Value → String
  | text s => s
  | uuid n => uuidText n
  | v => shown v

end IndexSync.Value
