import IndexSync.Failure
import IndexSync.Text.Lower
import IndexSync.Url.Bracketed
import IndexSync.Url.Parts

/-! Addresses for people to read, without the password. -/
namespace IndexSync.Url

/-- An address cut into its five parts. -/
structure Split where
  scheme : List Char
  network : List Char
  path : List Char
  query : List Char
  fragment : List Char

def isSchemeChar (c : Char) : Bool := c.isAlphanum || c = '+' || c = '-' || c = '.'

/-- The scheme in small letters and what follows it. Without a scheme, all is the rest. -/
def cutScheme (cs : List Char) : List Char × List Char :=
  let (scheme, rest) := upTo (· = ':') cs
  if scheme.head?.any Char.isAlpha && scheme.all isSchemeChar && !rest.isEmpty then
    (scheme.map Char.toLower, rest.drop 1)
  else ([], cs)

/-- Characters that stand for a mark of an address in another form. -/
def disguisedMarks : List Nat :=
  [0x2047, 0x2048, 0x2049, 0x2100, 0x2101, 0x2105, 0x2106, 0x2A74, 0xFE13, 0xFE16, 0xFE55, 0xFE56,
    0xFE5F, 0xFE6B, 0xFF03, 0xFF0F, 0xFF1A, 0xFF1F, 0xFF20]

/-- Brackets come in pairs and hold an address. -/
def checkBrackets (network : List Char) : Except Failure Unit :=
  if network.contains '[' != network.contains ']' then .error (.range .invalidAddress)
  else match Text.cut? ['['] network with
    | none => .ok ()
    | some (_, inner) =>
      let host := (upTo (· = ']') inner).1
      if host.head? = some 'v' then
        if Bracketed.isFuture host then .ok () else .error (.range .invalidFutureAddress)
      else if Bracketed.isShort host then .error (.range .shortAddress)
      else if Bracketed.isLong host then .ok ()
      else .error (.range (.notAnAddress (String.ofList host)))

def checkMarks (network : List Char) : Except Failure Unit :=
  if network.any fun c => disguisedMarks.contains c.toNat then
    .error (.range (.disguisedMark (String.ofList network)))
  else .ok ()

/-- The network part ends at one of these. -/
def endsNetwork (c : Char) : Bool := c = '/' || c = '?' || c = '#'

/-- The network part and what follows it, in an address that has one. -/
def cutNetwork : List Char → List Char × List Char
  | '/' :: '/' :: cs => upTo endsNetwork cs
  | cs => ([], cs)

/-- Tabs and ends of lines do not count. -/
def counts (c : Char) : Bool := !(c = '\t' || c = '\r' || c = '\n')

/-- What is kept of an address: control characters and blanks at the start are dropped. -/
def keptOf (url : String) : List Char := (url.toList.dropWhile (·.toNat ≤ 0x20)).filter counts

/-- The five parts, when those after the network part are still in one. -/
def Split.ofRest (scheme network rest : List Char) : Split :=
  let (rest, fragment) := upTo (· = '#') rest
  let (path, query) := upTo (· = '?') rest
  ⟨scheme, network, path, query.drop 1, fragment.drop 1⟩

/-- The five parts. -/
def Split.read (url : String) : Except Failure Split := do
  let (scheme, rest) := cutScheme (keptOf url)
  let (network, rest) := cutNetwork rest
  checkBrackets network
  checkMarks network
  return .ofRest scheme network rest

/-- The text of five parts. An empty query or fragment leaves no mark. -/
def Split.text (s : Split) : List Char :=
  (if s.scheme.isEmpty then [] else s.scheme ++ [':']) ++ ['/', '/'] ++ s.network ++ s.path ++
    (if s.query.isEmpty then [] else '?' :: s.query) ++
    (if s.fragment.isEmpty then [] else '#' :: s.fragment)

/-- User and password before the last `@`, and the host after it. -/
def cutUserinfo (network : List Char) :
    Option (List Char × Option (List Char)) × List Char :=
  match Text.cutLast? '@' network with
  | none => (none, network)
  | some (info, host) =>
    match Text.cut? [':'] info with
    | none => (some (info, none), host)
    | some (user, password) => (some (user, some password), host)

/-- Host and port. -/
def cutHostPort (cs : List Char) : List Char × List Char :=
  match Text.cut? ['['] cs with
  | some (_, inner) =>
    let (host, rest) := upTo (· = ']') inner
    (host, (upTo (· = ':') (rest.drop 1)).2.drop 1)
  | none =>
    let (host, rest) := upTo (· = ':') cs
    (host, rest.drop 1)

/-- The host in small letters, but for the zone. -/
def lowerHost (host : List Char) : List Char :=
  let (name, zone) := upTo (· = '%') host
  (Text.lower (String.ofList name)).toList ++ zone

/-- A port, if it is one; an empty text is no port. -/
def portOf? (port : List Char) : Option (Option Nat) :=
  if port.isEmpty then some none
  else if port.all Char.isDigit then
    let n := Number.plainDigits port
    if n ≤ 65535 then some (some n) else none
  else none

/-- The network part with its password hidden. -/
def maskedNetwork (user : List Char) (password : Option (List Char)) (host : List Char)
    (port : Option Nat) : List Char :=
  user ++ (if password.isSome then ":***".toList else []) ++ ['@'] ++ lowerHost host ++
    (match port with
      | some n => ':' :: Nat.toDigits 10 n
      | none => [])

/-- The five parts with the password hidden. There is nothing to hide without a user, and an impossible
port is not understood. -/
def Split.masked? (s : Split) : Option String :=
  match cutUserinfo s.network with
  | (none, _) => none
  | (some (user, password), hostPort) =>
    let (host, port) := cutHostPort hostPort
    (portOf? port).map fun port =>
      String.ofList { s with network := maskedNetwork user password host port }.text

/-- An address with its password hidden. One without a user, or with an impossible port, stays as it
is. -/
def mask (url : String) : Except Failure String :=
  if !Text.contains "://" url then .ok url
  else do
    let split ← Split.read url
    return split.masked?.getD url

end IndexSync.Url
