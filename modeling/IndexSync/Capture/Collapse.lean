import IndexSync.Notice

/-! Collapsing a batch to one event kind for each entity. The last event decides; an insertion
after an earlier event counts as an update, for the index may still hold a document. -/
namespace IndexSync

/-- What a batch comes to: a kind for each identity in the order of their last events, and the
notices about rows with unknown codes. -/
structure NetBatch where
  changes : Entries Identity EventKind
  notices : List Notice
  deriving Repr

namespace NetBatch

def empty : NetBatch := ⟨[], []⟩

/-- The kind that counts when an identity has been seen before. -/
def merged (previous : Option EventKind) (kind : EventKind) : EventKind :=
  if kind = .insert && previous.isSome then .update else kind

def add (net : NetBatch) (e : CaptureEvent) : Except Failure NetBatch :=
  if e.kind = .unknown then
    .ok { net with notices := net.notices ++ [.unknownEvent e.entityType e.entityId e.key] }
  else do
    e.entityId.requireKey
    let kind := merged (net.changes.get? e.identity) e.kind
    return { net with changes := net.changes.erase e.identity ++ [(e.identity, kind)] }

/-- The net changes of a batch, with the failure of the first event whose id cannot be a key. -/
def addAll : List CaptureEvent → NetBatch → Except Failure Unit × NetBatch
  | [], net => (.ok (), net)
  | e :: rest, net =>
    match net.add e with
    | .ok net => addAll rest net
    | .error f => (.error f, net)

def collapse (events : List CaptureEvent) : Except Failure Unit × NetBatch :=
  addAll events empty

end NetBatch
end IndexSync
