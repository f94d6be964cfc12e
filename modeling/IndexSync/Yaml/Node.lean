import IndexSync.Yaml.Tag
import IndexSync.Yaml.TokenList

/-! Documents as trees of nodes. An alias is replaced by what it refers to. -/
namespace IndexSync.Yaml

inductive Node
  | scalar (tag text : String) (place : Place)
  | sequence (tag : String) (items : List Node) (place : Place)
  | mapping (tag : String) (entries : List (Node × Node)) (place : Place)

namespace Node

def tag : Node → String
  | scalar t _ _ => t
  | sequence t _ _ => t
  | mapping t _ _ => t

def place : Node → Place
  | scalar _ _ p => p
  | sequence _ _ p => p
  | mapping _ _ p => p

/-- A node that is left out. -/
def absent (place : Place) : Node := scalar Tag.null "" place

end Node

/-- What is left of the tokens, and what names stand for: anchors for nodes, handles for the
beginnings of tags. The node of an anchor is unknown until it is complete. -/
structure Reader where
  tokens : List Token
  fault : Option Fault
  anchors : List (String × Option Node)
  handles : List (String × String)

/-- Reads from tokens. -/
abbrev Parse (α : Type) := StateT Reader (Except Fault) α

namespace Parse

def failAt {α : Type} (place : Place) : Parse α := fun _ => .error (.malformed place)

/-- The next token. Where there is none, the tokens have ended in a fault. -/
def peek : Parse Token := fun r =>
  match r.tokens with
  | t :: _ => .ok (t, r)
  | [] => .error (r.fault.getD .forbidden)

def next : Parse Token := do
  let t ← peek
  modify fun r => { r with tokens := r.tokens.drop 1 }
  return t

/-- Takes the next token if it is of a kind. -/
def accept (kind : TokenKind) : Parse (Option Token) := do
  if (← peek).kind = kind then some <$> next else return none

def nextIs (kinds : List TokenKind) : Parse Bool := do
  return kinds.contains (← peek).kind

/-- Properties before a node: where they begin and end, the anchor, and the tag. -/
structure Properties where
  start : Place
  stop : Place
  present : Bool
  anchor : Option String
  tag : Option (Option String × String × Place)

def acceptAnchor : Parse (Option (Token × String)) := do
  let t ← peek
  match t.kind with
  | .anchor name => do
    discard next
    return some (t, name)
  | _ => return none

def acceptTag : Parse (Option (Token × Option String × String × Place)) := do
  let t ← peek
  match t.kind with
  | .tag handle suffix => do
    discard next
    return some (t, handle, suffix, t.start)
  | _ => return none

/-- An anchor and a tag, in either order. -/
def properties : Parse Properties := do
  match ← acceptAnchor with
  | some (t, name) =>
    match ← acceptTag with
    | some (u, tag) => return ⟨t.start, u.stop, true, some name, some tag⟩
    | none => return ⟨t.start, t.stop, true, some name, none⟩
  | none =>
    match ← acceptTag with
    | some (t, tag) =>
      match ← acceptAnchor with
      | some (u, name) => return ⟨t.start, u.stop, true, some name, some tag⟩
      | none => return ⟨t.start, t.stop, true, none, some tag⟩
    | none => do
      let t ← peek
      return ⟨t.start, t.start, false, none, none⟩

/-- The full tag. Its handle must have been declared. -/
def fullTag (p : Properties) : Parse (Option String) := do
  match p.tag with
  | none => return none
  | some (none, suffix, _) => return some suffix
  | some (some handle, suffix, place) =>
    match (← get).handles.lookup handle with
    | some expansion => return some (expansion ++ suffix)
    | none => failAt place

/-- Checks that an anchor is new, and keeps its name. -/
def declare (p : Properties) : Parse Unit := do
  match p.anchor with
  | none => return
  | some name =>
    if ((← get).anchors.lookup name).isSome then failAt p.start
    else modify fun r => { r with anchors := (name, none) :: r.anchors }

/-- Gives an anchor its node. -/
def complete (p : Properties) (n : Node) : Parse Node := do
  match p.anchor with
  | none => return n
  | some name => do
    modify fun r => { r with anchors := (name, some n) :: r.anchors }
    return n

def referTo (name : String) (place : Place) : Parse Node := do
  match (← get).anchors.lookup name with
  | some (some n) => return n
  | _ => failAt place

/-- The tag that a scalar has, or the one that its text suggests. -/
def scalarTag (tag : Option String) (text : String) (plain : Bool) : String :=
  match tag with
  | none => if plain then Tag.ofText text else Tag.text
  | some "!" => Tag.ofText text
  | some t => t

def collectionTag (tag : Option String) (default : String) : String :=
  match tag with
  | none => default
  | some "!" => default
  | some t => t

/-- Takes the comma before an entry of a flow. None stands before the first entry. -/
def separator (first : Bool) : Parse Bool :=
  if first then return true else return (← accept .flowEntry).isSome

/-- How a collection is written. -/
inductive Style
  | blockSequence | looseSequence | blockMapping | flowSequence | flowMapping

/-- The collection that begins at the next token. Sequences without indentation stand only where a
mapping's values do. -/
def styleOf? (inBlock loose : Bool) : TokenKind → Option Style
  | .blockEntry => if loose then some .looseSequence else none
  | .flowSequenceStart => some .flowSequence
  | .flowMappingStart => some .flowMapping
  | .blockSequenceStart => if inBlock then some .blockSequence else none
  | .blockMappingStart => if inBlock then some .blockMapping else none
  | _ => none

def sequenceNode (p : Properties) (tag : Option String) (items : List Node) : Node :=
  .sequence (collectionTag tag Tag.sequence) items p.start

def mappingNode (p : Properties) (tag : Option String) (entries : List (Node × Node)) : Node :=
  .mapping (collectionTag tag Tag.mapping) entries p.start

mutual

/-- A node. The fuel bounds its depth. -/
def node (inBlock loose : Bool) : Nat → Parse Node
  | 0 => do failAt (← peek).start
  | fuel + 1 => do
    match ← peek with
    | ⟨.alias name, start, _⟩ => do
      discard next
      referTo name start
    | _ => do
      let p ← properties
      let tag ← fullTag p
      let t ← peek
      match styleOf? inBlock loose t.kind, t.kind with
      | some style, _ => do
        declare p
        complete p (← collection p tag style fuel)
      | none, .scalar text plain => do
        discard next
        declare p
        complete p (.scalar (scalarTag tag text plain) text p.start)
      | none, _ =>
        if p.present then do
          declare p
          complete p (.scalar (scalarTag tag "" true) "" p.start)
        else failAt t.start

def collection (p : Properties) (tag : Option String) : Style → Nat → Parse Node
  | _, 0 => do failAt (← peek).start
  | .looseSequence, fuel + 1 => do
    return sequenceNode p tag (← looseEntries fuel)
  | .blockSequence, fuel + 1 => do
    discard next
    return sequenceNode p tag (← blockEntries fuel)
  | .blockMapping, fuel + 1 => do
    discard next
    return mappingNode p tag (← blockPairs fuel)
  | .flowSequence, fuel + 1 => do
    discard next
    return sequenceNode p tag (← flowEntries true fuel)
  | .flowMapping, fuel + 1 => do
    discard next
    return mappingNode p tag (← flowPairs true fuel)

/-- The node after a mark, or none when one of the given tokens follows. -/
def nodeAfter (mark : Token) (ends : List TokenKind) (inBlock loose : Bool) : Nat → Parse Node
  | 0 => do failAt (← peek).start
  | fuel + 1 => do
    if ← nextIs ends then return .absent mark.stop else node inBlock loose fuel

def blockEntries : Nat → Parse (List Node)
  | 0 => do failAt (← peek).start
  | fuel + 1 => do
    match ← accept .blockEntry with
    | some mark => do
      let item ← nodeAfter mark [.blockEntry, .blockEnd] true false fuel
      return item :: (← blockEntries fuel)
    | none =>
      match ← accept .blockEnd with
      | some _ => return []
      | none => do failAt (← peek).start

def looseEntries : Nat → Parse (List Node)
  | 0 => do failAt (← peek).start
  | fuel + 1 => do
    match ← accept .blockEntry with
    | some mark => do
      let item ← nodeAfter mark [.blockEntry, .key, .value, .blockEnd] true false fuel
      return item :: (← looseEntries fuel)
    | none => return []

/-- The value of a pair. A mark stands before it unless it is left out. -/
def valueAfter (ends : List TokenKind) (inBlock loose : Bool) : Nat → Parse Node
  | 0 => do failAt (← peek).start
  | fuel + 1 => do
    match ← accept .value with
    | some mark => nodeAfter mark ends inBlock loose fuel
    | none => return .absent (← peek).start

def blockPairs : Nat → Parse (List (Node × Node))
  | 0 => do failAt (← peek).start
  | fuel + 1 => do
    match ← accept .key with
    | some mark => do
      let ends := [.key, .value, .blockEnd]
      let key ← nodeAfter mark ends true true fuel
      let value ← valueAfter ends true true fuel
      return (key, value) :: (← blockPairs fuel)
    | none =>
      match ← accept .blockEnd with
      | some _ => return []
      | none => do failAt (← peek).start

/-- The entries of a sequence in a flow, with commas between them. An entry may be a single pair. -/
def flowEntries (first : Bool) : Nat → Parse (List Node)
  | 0 => do failAt (← peek).start
  | fuel + 1 => do
    match ← accept .flowSequenceEnd with
    | some _ => return []
    | none =>
      if !(← separator first) then failAt (← peek).start
      else
        match ← accept .key with
        | some mark => do
          let ends := [.flowEntry, .flowSequenceEnd]
          let key ← nodeAfter mark (.value :: ends) false false fuel
          let value ← valueAfter ends false false fuel
          return .mapping Tag.mapping [(key, value)] mark.start :: (← flowEntries false fuel)
        | none =>
          match ← accept .flowSequenceEnd with
          | some _ => return []
          | none => do
            let item ← node false false fuel
            return item :: (← flowEntries false fuel)

def flowPairs (first : Bool) : Nat → Parse (List (Node × Node))
  | 0 => do failAt (← peek).start
  | fuel + 1 => do
    match ← accept .flowMappingEnd with
    | some _ => return []
    | none =>
      if !(← separator first) then failAt (← peek).start
      else
        let ends := [.flowEntry, .flowMappingEnd]
        match ← accept .key with
        | some mark => do
          let key ← nodeAfter mark (.value :: ends) false false fuel
          let value ← valueAfter ends false false fuel
          return (key, value) :: (← flowPairs false fuel)
        | none =>
          match ← accept .flowMappingEnd with
          | some _ => return []
          | none => do
            let key ← node false false fuel
            let value : Node := .absent (← peek).start
            return (key, value) :: (← flowPairs false fuel)

end

end Parse
end IndexSync.Yaml
