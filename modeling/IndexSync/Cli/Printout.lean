import IndexSync.Failure
import IndexSync.Text.Blank
import IndexSync.Text.Split

/-! What the command line prints. -/
namespace IndexSync.Cli

/-- A table with a title. The first row is the head. -/
structure PrintedTable where
  title : String
  rows : List (List String)
  deriving DecidableEq, Repr

/-- Lines, at most one table, and lines after it. -/
structure Printout where
  before : List String
  table : Option PrintedTable
  after : List String
  deriving DecidableEq, Repr

def Printout.rows (p : Printout) : List (List String) :=
  (p.table.map (·.rows)).getD []

/-- All lines that are no rows of the table. -/
def Printout.lines (p : Printout) : List String :=
  (p.before ++ (p.table.map (·.title)).toList ++ p.after).flatMap (Text.splitText "\n")

/-- How a command ends: it has printed its answer or an explanation, its arguments made no sense, its
configuration was refused, or it broke down. -/
inductive Outcome
  | printed (p : Printout)
  | explained
  | misused
  | refused (reason : String)
  | broken (f : Failure)
  deriving DecidableEq, Repr

def Outcome.exitCode : Outcome → Nat
  | printed _ | explained => 0
  | misused | refused _ => 2
  | broken _ => 1

/-- What is printed about a refusal. -/
def Outcome.complaint? : Outcome → Option String
  | refused reason => some ("Error: " ++ reason ++ "\n")
  | _ => none

def Outcome.failure? : Outcome → Option Failure
  | broken f => some f
  | _ => none

def Outcome.printout : Outcome → Printout
  | printed p => p
  | _ => ⟨[], none, []⟩

/-- Groups of three digits, counted from the right, with commas between them. -/
def groupDigits : List Char → List Char
  | a :: b :: c :: d :: rest => a :: b :: c :: ',' :: groupDigits (d :: rest)
  | cs => cs

/-- A count with commas between thousands. -/
def grouped (n : Nat) : String :=
  String.ofList (groupDigits (Nat.toDigits 10 n).reverse).reverse

/-- The lines of a table: its title and its rows, with the columns one below the other. -/
def PrintedTable.text (t : PrintedTable) : List String :=
  let width (i : Nat) := (t.rows.map fun r => ((r[i]?).getD "").length).foldl max 0
  let cell (i : Nat) (s : String) := s ++ String.ofList (List.replicate (width i - s.length) ' ')
  t.title :: t.rows.map fun r =>
    String.intercalate "  " (r.zipIdx.map fun (s, i) => cell i s)

/-- The lines of a printout. -/
def Printout.text (p : Printout) : List String :=
  p.before ++ (p.table.map (·.text)).getD [] ++ p.after

end IndexSync.Cli
