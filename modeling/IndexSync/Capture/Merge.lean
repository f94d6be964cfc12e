import IndexSync.Action
import IndexSync.Capture.Event

/-! Several streams of captured changes read as one. Each stream is read page by page in ascending
order of keys, and the cursor hands out the least key among the heads of the pages. Keys of
different streams share no clock; of equal keys that of the stream registered first comes first. -/
namespace IndexSync

/-- Where the events of stream `i` come from: the page of at most `n` events after a key. -/
abbrev Fetch (σ : Type) := (i : Nat) → (after : Option Int) → (n : Nat) →
  Action σ (List CaptureEvent)

structure Stream where
  name : String
  lastKey : Option Int
  page : List CaptureEvent
  exhausted : Bool
  deriving Repr

namespace Stream

def start (after : Entries String Int) (name : String) : Stream :=
  ⟨name, after.get? name, [], false⟩

/-- The first event whose key does not exceed the key before it, with that key. -/
def disorder? : (previous : Option Int) → List CaptureEvent → Option (Int × Int)
  | _, [] => none
  | none, e :: rest => disorder? (some e.key) rest
  | some k, e :: rest => if e.key ≤ k then some (e.key, k) else disorder? (some e.key) rest

/-- Takes in a page. An empty or short one is the last. -/
def receive (pageSize : Nat) (rows : List CaptureEvent) (st : Stream) : Except Failure Stream :=
  match rows.getLast? with
  | none => .ok { st with exhausted := true }
  | some last =>
    match disorder? st.lastKey rows with
    | some (key, after) => .error (.cursor (.notAscending st.name key after))
    | none => .ok { st with
        page := st.page ++ rows
        lastKey := some last.key
        exhausted := rows.length < pageSize }

def close (st : Stream) : Stream := { st with page := [], exhausted := true }

end Stream

/-- A cursor over streams. A stream whose page has run out is refilled by the next advance, not
before. -/
structure MergeCursor where
  streams : List Stream
  pageSize : Nat
  limit : Option Nat
  refill : Option Nat
  current : Option CaptureEvent
  returned : Nat
  started : Bool
  closed : Bool
  deriving Repr

namespace MergeCursor

def defaultPageSize : Nat := 50

/-- A cursor over named streams that start after the given keys. -/
def create (names : List String) (pageSize : Int) (after : Entries String Int)
    (limit : Option Int) : Except Failure MergeCursor :=
  if pageSize < 1 then .error (.range .pageSize)
  else if limit.any (· < 0) then .error (.range .limit)
  else .ok ⟨names.map (Stream.start after), pageSize.toNat, limit.map Int.toNat, none, none, 0,
    false, false⟩

variable {σ : Type}

def setStream (c : MergeCursor) (i : Nat) (st : Stream) : MergeCursor :=
  { c with streams := c.streams.set i st }

/-- Fetches the next page of a stream that has none and may have more. -/
def fill (fetch : Fetch σ) (i : Nat) : Action (MergeCursor × σ) Unit := fun (c, s) =>
  match c.streams[i]? with
  | none => (.ok (), c, s)
  | some st =>
    if st.exhausted || !st.page.isEmpty then (.ok (), c, s)
    else match fetch i st.lastKey c.pageSize s with
      | (.error f, s) => (.error f, c, s)
      | (.ok rows, s) =>
        match st.receive c.pageSize rows with
        | .error f => (.error f, c, s)
        | .ok st => (.ok (), c.setStream i st, s)

def fillAll (fetch : Fetch σ) : List Nat → Action (MergeCursor × σ) Unit
  | [] => pure ()
  | i :: rest => do
    fill fetch i
    fillAll fetch rest

/-- Fetches what an advance needs: the first page of every stream, or the page that ran out. -/
def prepare (fetch : Fetch σ) : Action (MergeCursor × σ) Unit := fun (c, s) =>
  if !c.started then
    fillAll fetch (List.range c.streams.length) ({ c with started := true }, s)
  else match c.refill with
    | some i => fill fetch i ({ c with refill := none }, s)
    | none => (.ok (), c, s)

/-- The stream with the least key at its head, the first of equal ones, counted from `i`. -/
def leastFrom (i : Nat) : List Stream → Option (Int × Nat)
  | [] => none
  | st :: rest =>
    match st.page, leastFrom (i + 1) rest with
    | [], least => least
    | e :: _, none => some (e.key, i)
    | e :: _, some (k, j) => if k < e.key then some (k, j) else some (e.key, i)

/-- Hands out the head of a stream. -/
def take (c : MergeCursor) (i : Nat) : MergeCursor :=
  match c.streams[i]? with
  | none => c
  | some st =>
    match st.page with
    | [] => c
    | e :: rest =>
      { c.setStream i { st with page := rest } with
        current := some e
        returned := c.returned + 1
        refill := if rest.isEmpty && !st.exhausted then some i else c.refill }

/-- Hands out the least head, if there is one. -/
def select (c : MergeCursor) : Bool × MergeCursor :=
  match leastFrom 0 c.streams with
  | none => (false, c)
  | some (_, i) => (true, c.take i)

/-- Moves to the next event. False once all streams have run out or the limit is reached. -/
def advance (fetch : Fetch σ) : Action (MergeCursor × σ) Bool := fun (c, s) =>
  let c := { c with current := none }
  if c.closed || c.limit.any (· ≤ c.returned) then (.ok false, c, s)
  else match prepare fetch (c, s) with
    | (.error f, c, s) => (.error f, c, s)
    | (.ok _, c, s) =>
      let (moved, c) := c.select
      (.ok moved, c, s)

/-- The event that the last advance selected. -/
def event (c : MergeCursor) : Except Failure CaptureEvent :=
  match c.current with
  | some e => .ok e
  | none => .error (.cursor .noCurrentEvent)

def close (c : MergeCursor) : MergeCursor :=
  { c with
    closed := true
    current := none
    refill := none
    streams := c.streams.map Stream.close }

/-- The events of at most `n` advances, up to the first that does not move. -/
def drain (fetch : Fetch σ) : Nat → Action (MergeCursor × σ) (List CaptureEvent)
  | 0 => pure []
  | n + 1 => fun (c, s) =>
    match advance fetch (c, s) with
    | (.error f, c, s) => (.error f, c, s)
    | (.ok false, c, s) => (.ok [], c, s)
    | (.ok true, c, s) =>
      match drain fetch n (c, s) with
      | (.error f, later, s) => (.error f, later, s)
      | (.ok rest, later, s) => (.ok (c.current.toList ++ rest), later, s)

end MergeCursor
end IndexSync
