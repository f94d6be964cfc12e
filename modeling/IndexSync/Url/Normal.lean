import IndexSync.Failure
import IndexSync.Text.Blank
import IndexSync.Text.Lower
import IndexSync.Text.Split

/-! Database addresses in the form that names a driver. -/
namespace IndexSync.Url

/-- The drivers of the databases that are known by name alone. -/
def drivers : List (String × String) :=
  [("postgresql", "postgresql+asyncpg"), ("postgres", "postgresql+asyncpg"),
    ("mysql", "mysql+aiomysql"), ("sqlite", "sqlite+aiosqlite")]

/-- An address with its driver. One with a plus in its name is taken to name a driver and stays as it is. -/
def normalize (url : String) : Except Failure String :=
  let trimmed := Text.trim url
  match Text.cutText? "://" trimmed with
  | none => .error (.url .malformed)
  | some (scheme, rest) =>
    if Text.contains "+" scheme then .ok trimmed
    else match drivers.lookup (Text.lower scheme) with
      | some driver => .ok (driver ++ "://" ++ rest)
      | none => .error (.url .unsupported)

/-- The environment variable that holds the address when no other is given. -/
def variableName : String := "TRIGGERSEARCH_DATABASE_URL"

/-- The given address, or else that of the environment. Blank ones count as absent. -/
def resolve (url fromEnvironment : Option String) : Except Failure String :=
  let given (u : Option String) := u.filter fun u => (Text.nonBlank? u).isSome
  match (given url).or (given fromEnvironment) with
  | some u => normalize u
  | none => .error (.url .notSet)

end IndexSync.Url
