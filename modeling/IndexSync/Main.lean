import IndexSync.Cli.Run
import IndexSync.Shipped

/-! The program. The configuration file is the only file within its reach, so it can open no database
but those in memory, which last for one run. -/
namespace IndexSync.Main
open Cli

/-- The variables that count. -/
def knownVariables : List String :=
  Config.Path.variableName :: Config.Settings.names.map fun name =>
    (Config.Settings.variableStem ++ name).toUpper

def environment : IO Config.Environment := do
  let found ← knownVariables.mapM fun name => do return (← IO.getEnv name).map fun value => (name, value)
  return found.filterMap id

/-- What stands at a path. -/
def fileState (path : String) : IO Config.FileState := do
  try return .bytes (← IO.FS.readBinFile path)
  catch
    | .noFileOrDirectory .. => return .missing
    | .inappropriateType .. => return .directory
    | e => throw e

/-- The surroundings of a command. Of all files only that of the configuration is read. -/
def host (asked : Asked) : IO Host := do
  let bare : Host := ⟨← environment, ".", fun _ => .missing, Catalog.shipped⟩
  match asked with
  | .command c => do
    let path := configPath bare c.config
    let state ← fileState path
    return { bare with file := fun p => if p = path then state else .missing }
  | _ => return bare

def printAll (lines : List String) : IO Unit := lines.forM (IO.println ·)

def complain (lines : List String) : IO Unit := lines.forM (IO.eprintln ·)

/-- Prints what came of a command. -/
def tell (o : Outcome) : IO Unit :=
  match o with
  | .printed p => printAll p.text
  | .explained => printAll usage
  | .misused => complain usage
  | .refused _ => o.complaint?.forM (IO.eprint ·)
  | .broken f => complain [f.message]

def run (args : List String) : IO UInt32 := do
  if asksForVersion args then
    IO.print version
    return 0
  let (outcome, _) := Cli.run (← host (read args)) args []
  tell outcome
  return outcome.exitCode.toUInt32

end IndexSync.Main

def main (args : List String) : IO UInt32 := IndexSync.Main.run args
