import IndexSync.Entries
import IndexSync.Yaml.Literal
import IndexSync.Yaml.Node

/-! Whole documents, and the values they hold. -/
namespace IndexSync.Yaml

namespace Node

/-- The entries of a mapping with those of the mappings it merges, which come first. -/
def merged : Nat → List (Node × Node) → Except Fault (List (Node × Node))
  | 0, entries => .ok entries
  | n + 1, entries => do
    let parts ← entries.mapM fun (key, value) =>
      if key.tag ≠ Tag.merge then .ok ([], [(key, value)])
      else match value with
        | .mapping _ inner _ => do return (← merged n inner, [])
        | .sequence _ items _ => do
          let inners ← items.mapM fun item => match item with
            | .mapping _ inner _ => merged n inner
            | other => .error (.malformed other.place)
          return (inners.reverse.flatten, [])
        | .scalar _ _ place => .error (.malformed place)
    return (parts.map (·.1)).flatten ++ (parts.map (·.2)).flatten

/-- A key. The sign of a default value is a plain text there. -/
def asKey : Node → Node
  | scalar tag text place => scalar (if tag = Tag.value then Tag.text else tag) text place
  | other => other

def keyed (fuel : Nat) (entries : List (Node × Node)) : Except Fault (List (Node × Node)) := do
  return (← merged fuel entries).map fun (key, value) => (key.asKey, value)

/-- The only entry of a mapping that stands in an ordered sequence. -/
def singleEntry : Node → Except Fault (Node × Node)
  | mapping _ [entry] _ => .ok entry
  | other => .error (.malformed other.place)

/-- Whether the node holds others, by its tag. These are looked into after all scalars at the same
depth have been read. -/
def isCollection (n : Node) : Bool :=
  [Tag.sequence, Tag.mapping, Tag.set, Tag.ordered, Tag.pairs].contains n.tag

/-- Checks a node at its own depth, and gives what is to be checked below it. -/
def check (n : Node) : Except Fault (List Node) :=
  if n.isCollection then .ok [n]
  else match n with
    | scalar tag text place => (Literal.value tag text place).map fun _ => []
    | other => .error (.malformed other.place)

def checkAll (ns : List Node) : Except Fault (List Node) := do
  return (← ns.mapM check).flatten

/-- Checks an entry. A collection cannot be a key. -/
def checkEntry (entry : Node × Node) : Except Fault (List Node) := do
  discard (check entry.1)
  if entry.1.isCollection then .error (.malformed entry.1.place)
  else check entry.2

/-- Checks what a collection holds. Its kind must be the one that its tag says. -/
def checkInside (fuel : Nat) (n : Node) : Except Fault (List Node) :=
  let wrong : Except Fault (List Node) := .error (.malformed n.place)
  match n with
  | sequence tag items _ =>
    if tag = Tag.sequence then checkAll items
    else if tag = Tag.ordered || tag = Tag.pairs then do
      let parts ← items.mapM fun item => do
        let (key, value) ← item.singleEntry
        checkAll [key, value]
      return parts.flatten
    else wrong
  | mapping tag entries _ =>
    if tag = Tag.mapping || tag = Tag.set then do
      return (← (← keyed fuel entries).mapM checkEntry).flatten
    else wrong
  | scalar .. => wrong

/-- Checks depth after depth. -/
def checkDepths : Nat → List Node → Except Fault Unit
  | 0, _ => .ok ()
  | _, [] => .ok ()
  | n + 1, ns => do checkDepths n (← ns.mapM (checkInside n)).flatten

/-- The value of a node that has been checked. Of equal keys the last counts. -/
def value : Nat → Node → Value
  | 0, _ => .null
  | n + 1, node =>
    match node with
    | scalar tag text place => (Literal.value tag text place).toOption.getD .null
    | sequence tag items _ =>
      if tag = Tag.sequence then .list (items.map (value n))
      else .list (items.map fun item => match item.singleEntry with
        | .ok (k, v) => .tuple [value n k, value n v]
        | .error _ => .null)
    | mapping tag entries _ =>
      let entries := (keyed n entries).toOption.getD []
      let pairs := Entries.ofList (entries.map fun (k, v) => (value n k, value n v))
      if tag = Tag.set then .set (Entries.keys pairs) else .dict pairs

/-- The value of a tree. The fuel is more than its depth. -/
def load (fuel : Nat) (n : Node) : Except Fault Value := do
  checkDepths fuel (← check n)
  return value fuel n

end Node

namespace Parse

/-- Directives before a document, each of which may be given once. The flag tells whether the
version has been given. -/
def directives : Nat → Bool → Parse Unit
  | 0, _ => pure ()
  | fuel + 1, versioned => do
    match ← peek with
    | ⟨.directive (.version major _), start, _⟩ =>
      if versioned || major ≠ 1 then failAt start
      else do
        discard next
        directives fuel true
    | ⟨.directive (.tag handle expansion), start, _⟩ =>
      if ((← get).handles.lookup handle).isSome then failAt start
      else do
        discard next
        modify fun r => { r with handles := (handle, expansion) :: r.handles }
        directives fuel versioned
    | ⟨.directive .unknown, _, _⟩ => do
      discard next
      directives fuel versioned
    | _ => return

def skipDocumentEnds : Nat → Parse Unit
  | 0 => pure ()
  | fuel + 1 => do
    if (← accept .documentEnd).isSome then skipDocumentEnds fuel

def isDirective : TokenKind → Bool
  | .directive _ => true
  | _ => false

/-- The beginning of a document that is marked as such. False at the end of the text. -/
def explicitStart (fuel : Nat) : Parse Bool := do
  skipDocumentEnds fuel
  if ← nextIs [.streamEnd] then return false
  modify fun r => { r with handles := [] }
  directives fuel false
  modify fun r => { r with handles := r.handles ++ Tag.handles }
  if (← accept .documentStart).isSome then return true
  else failAt (← peek).start

/-- The only document of a text, if there is one. -/
def document (fuel : Nat) : Parse (Option Node) := do
  let first ← peek
  if first.kind = .streamEnd then return none
  let marked := isDirective first.kind || first.kind = .documentStart
  if marked then discard (explicitStart fuel)
  let t ← peek
  let isEmpty := isDirective t.kind || [.documentStart, .documentEnd, .streamEnd].contains t.kind
  let root ← if marked && isEmpty then pure (.absent t.start) else node true false fuel
  discard (accept .documentEnd)
  skipDocumentEnds fuel
  let following ← peek
  if ← explicitStart fuel then failAt following.start
  else return some root

end Parse

/-- Whether a text may hold the character. -/
def isAllowed (c : Char) : Bool :=
  let n := c.toNat
  n = 0x09 || n = 0x0A || n = 0x0D || (0x20 ≤ n && n ≤ 0x7E) || n = 0x85 ||
    (0xA0 ≤ n && n ≤ 0xD7FF) || (0xE000 ≤ n && n ≤ 0xFFFD) || (0x10000 ≤ n && n ≤ 0x10FFFF)

/-- The value of the only document of a text. A text without a document holds nothing. -/
def load (s : String) : Except Fault Value := do
  let cs := s.toList
  if !cs.all isAllowed then .error .forbidden
  else
    let (ts, fault) := tokens cs
    let fuel := 4 * ts.length + 8
    let (root, _) ← Parse.document fuel ⟨ts, fault, [], Tag.handles⟩
    match root with
    | some n => n.load fuel
    | none => return .null

end IndexSync.Yaml
