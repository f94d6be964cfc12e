import IndexSync.Capture.Merge

/-! Streams whose events are known in advance, and the fetches that are made on them. -/
namespace IndexSync

/-- Where the pages of a stream come from: rows in the order of their keys, of which a page holds the
first after a key, or pages that are handed out one by one whatever is asked for. -/
inductive Supply
  | rows (events : List CaptureEvent)
  | pages (pages : List (Except Failure (List CaptureEvent)))
  deriving Repr

structure PageSource where
  name : String
  supply : Supply
  fetches : List (Option Int × Nat)
  deriving Repr

namespace PageSource

/-- A source of rows, which are put in the order of their keys. -/
def ofRows (name : String) (events : List CaptureEvent) : PageSource :=
  ⟨name, .rows (events.mergeSort fun a b => a.key ≤ b.key), []⟩

def ofPages (name : String) (pages : List (Except Failure (List CaptureEvent))) : PageSource :=
  ⟨name, .pages pages, []⟩

/-- The first `n` events after a key. -/
def firstAfter (events : List CaptureEvent) (after : Option Int) (n : Nat) : List CaptureEvent :=
  (events.filter fun e => after.all (· < e.key)).take n

/-- The next page of a source. -/
def next (s : PageSource) (after : Option Int) (n : Nat) :
    Except Failure (List CaptureEvent) × PageSource :=
  let s := { s with fetches := s.fetches ++ [(after, n)] }
  match s.supply with
  | .rows events => (.ok (firstAfter events after n), s)
  | .pages [] => (.ok [], s)
  | .pages (p :: rest) => (p, { s with supply := .pages rest })

/-- Fetches from sources by their numbers. -/
def fetch : Fetch (List PageSource) := fun i after n sources =>
  match sources[i]? with
  | none => (.ok [], sources)
  | some s =>
    let (r, s) := s.next after n
    (r, sources.set i s)

/-- The events that a source can still give. -/
def left (s : PageSource) : List CaptureEvent :=
  match s.supply with
  | .rows events => events
  | .pages pages => pages.flatMap (·.toOption.getD [])

end PageSource

/-- No more advances than this can move. -/
def MergeCursor.movesLeft (c : MergeCursor) (sources : List PageSource) : Nat :=
  (sources.flatMap (·.left)).length + (c.streams.flatMap (·.page)).length

/-- All events that are left. -/
def MergeCursor.drainAll : Action (MergeCursor × List PageSource) (List CaptureEvent) :=
  fun (c, sources) => drain PageSource.fetch (c.movesLeft sources + 1) (c, sources)

end IndexSync
