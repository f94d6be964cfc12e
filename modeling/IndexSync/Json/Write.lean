import IndexSync.Json.Read
import IndexSync.Value.Shown

/-! Writing values as JSON texts of plain characters. Kinds of values that JSON lacks are objects with
one key that begins with a dollar sign. -/
namespace IndexSync.Json

/-- A unit of sixteen bits by its number. -/
def unit (n : Nat) : List Char := '\\' :: 'u' :: Text.Quoted.hex 4 n

/-- A character by its number: beyond sixteen bits, as the halves of a surrogate pair. -/
def escapeByNumber (n : Nat) : List Char :=
  if n < 0x10000 then unit n
  else unit (0xD800 + (n - 0x10000) / 0x400) ++ unit (0xDC00 + (n - 0x10000) % 0x400)

def escape (c : Char) : List Char :=
  if c = '/' then [c]
  else match escapes.find? (·.2 = c) with
    | some (e, _) => ['\\', e]
    | none => if 0x20 ≤ c.toNat && c.toNat < 0x7F then [c] else escapeByNumber c.toNat

def quoted (s : String) : String :=
  String.ofList ('"' :: s.toList.flatMap escape ++ ['"'])

def array (texts : List String) : String :=
  "[" ++ String.intercalate "," texts ++ "]"

def object (entries : List String) : String :=
  "\x7b" ++ String.intercalate "," entries ++ "\x7d"

def entry (key text : String) : String := quoted key ++ ":" ++ text

/-- A value of a kind that JSON lacks. -/
def tagged (kind text : String) : String := object [entry ("$" ++ kind) text]

def hexText (bs : List UInt8) : String :=
  String.ofList (bs.flatMap fun b => Text.Quoted.hex 2 b.toNat)

mutual

/-- The text of a value. The members of a set stand in the order of their texts, and the keys of a
dictionary are written as texts. -/
def write : Value → String
  | .null => "null"
  | .bool b => if b then "true" else "false"
  | .int n => toString n
  | .float x => tagged "float" (quoted x.toText)
  | .text s => quoted s
  | .uuid n => tagged "uuid" (quoted (Value.uuidText n))
  | .bytes bs => tagged "bytes" (quoted (hexText bs))
  | .tuple xs => tagged "tuple" (array (writeAll xs))
  | .list xs => array (writeAll xs)
  | .set xs => tagged "set" (array ((writeAll xs).mergeSort fun a b => a ≤ b))
  | .dict es => object (writeEntries es)
  | .foreign name _ => tagged "object" (quoted name)

def writeAll : List Value → List String
  | [] => []
  | x :: xs => write x :: writeAll xs

def writeEntries : List (Value × Value) → List String
  | [] => []
  | (k, v) :: rest => entry k.toText (write v) :: writeEntries rest

end

/-- The bytes that pairs of digits of base sixteen stand for. -/
def bytesOfHex : List Char → List UInt8
  | a :: b :: rest =>
    UInt8.ofNat ((hexValue? a).getD 0 * 16 + (hexValue? b).getD 0) :: bytesOfHex rest
  | _ => []

/-- The value that an object stands for: that of its kind if it has one tagged key. -/
def ofObject : List (Value × Value) → Value
  | [(.text "$float", .text s)] => .float ((Number.readNumber s.toList).getD .nan)
  | [(.text "$tuple", .list xs)] => .tuple xs
  | [(.text "$set", .list xs)] => Value.setOf xs
  | [(.text "$uuid", .text s)] => .uuid (Number.ofDigits 16 (s.toList.filterMap hexValue?))
  | [(.text "$bytes", .text s)] => .bytes (bytesOfHex s.toList)
  | [(.text "$object", .text s)] => .foreign s s
  | entries => .dict entries

mutual

/-- The value that a value read from a JSON text stands for. -/
def untag : Value → Value
  | .list xs => .list (untagAll xs)
  | .dict es => ofObject (untagEntries es)
  | v => v

def untagAll : List Value → List Value
  | [] => []
  | x :: xs => untag x :: untagAll xs

def untagEntries : List (Value × Value) → List (Value × Value)
  | [] => []
  | (k, v) :: rest => (k, untag v) :: untagEntries rest

end
end IndexSync.Json
