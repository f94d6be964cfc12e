import IndexSync.Text.Split

/-! Hosts in brackets: addresses of 128 bits, or of a kind yet to come. -/
namespace IndexSync.Url.Bracketed

def isHexDigit (c : Char) : Bool :=
  c.isDigit || ('a' ≤ c && c ≤ 'f') || ('A' ≤ c && c ≤ 'F')

/-- One of four numbers below 256, without needless zeros. -/
def isOctet (cs : List Char) : Bool :=
  !cs.isEmpty && cs.length ≤ 3 && cs.all Char.isDigit && (cs.head? ≠ some '0' || cs.length = 1) &&
    cs.foldl (fun n c => n * 10 + (c.toNat - '0'.toNat)) 0 ≤ 255

/-- Four numbers with dots between them. -/
def isShort (cs : List Char) : Bool :=
  let parts := Text.split ['.'] cs
  parts.length = 4 && parts.all isOctet

/-- A group of up to four digits of base sixteen. -/
def isGroup (cs : List Char) : Bool :=
  !cs.isEmpty && cs.length ≤ 4 && cs.all isHexDigit

/-- The groups, with the two that a short address at the end stands for. -/
def groups? (cs : List Char) : Option (List (List Char)) :=
  let parts := Text.split [':'] cs
  if parts.length < 3 then none
  else
    let last := (parts.getLast?).getD []
    if last.contains '.' then
      if isShort last then some (parts.dropLast ++ [['0'], ['0']]) else none
    else some parts

/-- The groups on one side of a gap; an empty one may stand at the outer end if it is alone. -/
def isSide (groups : List (List Char)) (outer : Option (List Char)) : Bool :=
  if outer = some [] then groups.length = 1 else groups.all isGroup

/-- Positions of empty groups that are not at an end. -/
def gaps (groups : List (List Char)) : List Nat :=
  (List.range groups.length).filter fun i =>
    0 < i && i + 1 < groups.length && groups[i]? = some []

/-- Whether eight groups stand there, or fewer with one gap between them. -/
def fill (groups : List (List Char)) : Bool :=
  match gaps groups with
  | [] => groups.length = 8 && groups.all isGroup
  | [i] =>
    let high := groups.take i
    let low := groups.drop (i + 1)
    let count := (high.filter (· ≠ [])).length + (low.filter (· ≠ [])).length
    isSide high high.head? && isSide low low.getLast? && count < 8
  | _ => false

/-- An address of 128 bits, with or without a zone after `%`. -/
def isLong (cs : List Char) : Bool :=
  if cs.contains '/' then false
  else
    let zoneless := match Text.cut? ['%'] cs with
      | none => some cs
      | some (address, zone) => if zone.isEmpty || zone.contains '%' then none else some address
    match zoneless.bind groups? with
    | some groups => groups.length ≤ 9 && fill groups
    | none => false

/-- `v`, digits, a point, and anything but the end of a line. -/
def isFuture (cs : List Char) : Bool :=
  match cs with
  | 'v' :: cs =>
    let rest := cs.dropWhile isHexDigit
    cs.head?.any isHexDigit && rest.head? = some '.' && 2 ≤ rest.length && !rest.contains '\n'
  | _ => false

end IndexSync.Url.Bracketed
