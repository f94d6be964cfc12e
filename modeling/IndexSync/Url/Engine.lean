import IndexSync.Url.Parts

/-! Engines: what an address connects to. -/
namespace IndexSync.Url

/-- A database within reach: its dialect, the driver, the address, and the file or other database
that the address names. -/
structure Engine where
  dialect : String
  driver : String
  url : String
  database : Option String
  deriving DecidableEq, Repr

/-- Drivers by dialect, and whether they can wait for the database without blocking. -/
def knownDrivers : List ((String × String) × Bool) :=
  [(("sqlite", "aiosqlite"), true), (("postgresql", "asyncpg"), true),
    (("mysql", "aiomysql"), true), (("mariadb", "aiomysql"), true),
    (("sqlite", "pysqlite"), false)]

/-- The dialect and the driver in a name. A name of more than two parts names nothing. -/
def cutDriver (name : String) : Except Failure (String × String) :=
  match Text.splitText "+" name with
  | [dialect] => .ok (dialect, "base")
  | [dialect, driver] => .ok (dialect, driver)
  | _ => .error (.driver .tooManyParts)

/-- A database in a file has no host, port or user. -/
def isLocal (p : Parts) : Bool :=
  let blank (s : Option String) := s.all String.isEmpty
  blank p.user && blank p.password && blank p.host && p.port.all (· = 0)

/-- The engine of an address in normal form. -/
def engineOf (url : String) : Except Failure Engine := do
  let parts ← Parts.read url
  let (dialect, driver) ← cutDriver parts.name
  match knownDrivers.lookup (dialect, driver) with
  | none => .error (.driver .unknown)
  | some waits =>
    if dialect = "sqlite" && !isLocal parts then .error (.driver (.notAFile url))
    else if !waits then .error (.driver .notAsync)
    else return ⟨dialect, driver, url, parts.database⟩

/-- The engine of the given address, or of that in the environment. -/
def Engine.create (url fromEnvironment : Option String) : Except Failure Engine :=
  (resolve url fromEnvironment).bind engineOf

end IndexSync.Url
