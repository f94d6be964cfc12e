import IndexSync.Value.Conversion

/-! Two-way encoders between ids and their text in the index. -/
namespace IndexSync.Search

inductive Encoder
  | string
  | integer
  | uuid
  | composite (parts : List Encoder) (separator : String)
  deriving Inhabited, Repr

namespace Encoder

/-- An encoder of composite ids. It needs a part and a separator. -/
def compose (parts : List Encoder) (separator : String) : Except Failure Encoder :=
  if parts.isEmpty then .error (.encoding .noParts)
  else if separator.isEmpty then .error (.encoding .emptySeparator)
  else .ok (composite parts separator)

def convert {α : Type} : Except ConversionError α → Except Failure α :=
  Except.mapError .conversion

/-- The encoded parts joined, unless one of them holds the separator. -/
def joinParts (separator : String) (texts : List String) : Except Failure String :=
  match texts.find? (Text.contains separator) with
  | some part => .error (.encoding (.partHoldsSeparator part separator))
  | none => .ok (String.intercalate separator texts)

mutual

/-- The text of an id in the index. -/
def toIndex : Encoder → Value → Except Failure String
  | string, v => .ok v.toText
  | integer, v => convert (v.toInteger.bind Value.integerText)
  | uuid, .uuid n => .ok (Value.uuidText n)
  | uuid, v => convert ((Value.uuidOfText v.toText).map Value.uuidText)
  | composite parts separator, v =>
    match v.items? with
    | none => .error (.encoding (.notIterable v.typeName))
    | some items =>
      if items.length = parts.length then do
        joinParts separator (← toIndexParts parts items)
      else .error (.encoding (.partCount parts.length items.length))

def toIndexParts : List Encoder → List Value → Except Failure (List String)
  | part :: parts, v :: vs => do
    let text ← toIndex part v
    let texts ← toIndexParts parts vs
    return text :: texts
  | _, _ => .ok []

end

mutual

/-- The id that a text of the index stands for. -/
def fromIndex : Encoder → String → Except Failure Value
  | string, text => .ok (.text text)
  | integer, text => convert ((Value.integerOfText text).map .int)
  | uuid, text => convert ((Value.uuidOfText text).map .uuid)
  | composite parts separator, text => do
    let pieces := Text.splitText separator text
    if pieces.length = parts.length then
      return .tuple (← fromIndexParts parts pieces)
    else .error (.encoding (.pieceCount parts.length text))

def fromIndexParts : List Encoder → List String → Except Failure (List Value)
  | part :: parts, text :: texts => do
    let v ← fromIndex part text
    let vs ← fromIndexParts parts texts
    return v :: vs
  | _, _ => .ok []

end

end Encoder

/-- Any two-way encoder, by what it does. -/
structure Codec where
  toIndex : Value → Except Failure String
  fromIndex : String → Except Failure Value

def Encoder.codec (e : Encoder) : Codec := ⟨e.toIndex, e.fromIndex⟩

instance : Coe (Option Encoder) (Option Codec) := ⟨Option.map Encoder.codec⟩

/-- The type of an indexed field. -/
inductive FieldType
  | string | int | long | float | double
  deriving DecidableEq, Repr

def FieldType.name : FieldType → String
  | string => "string"
  | int => "int"
  | long => "long"
  | float => "float"
  | double => "double"

def FieldType.ofName? (name : String) : Option FieldType :=
  [string, int, long, float, double].find? (·.name = name)

/-- The indexed field that holds the id of one entity type. -/
structure IdField where
  name : String
  type : FieldType
  encoder : Option Codec

/-- The value of an id in the field. A field of texts needs an encoder. -/
def IdField.indexValue (field : IdField) (id : Value) : Except Failure Value :=
  match field.encoder with
  | some encoder => (encoder.toIndex id).map .text
  | none =>
    if field.type = .string then .error (.mapping (.unencodedField field.name)) else .ok id

end IndexSync.Search
