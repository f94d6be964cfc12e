import IndexSync.Capture.Model
import IndexSync.Text.Split

/-! Statements that set up capture tables and triggers, by meaning, and their text in three
dialects. Statements are run as they are written, so every name in them is quoted. -/
namespace IndexSync.Trigger

inductive Dialect
  | postgresql | mysql | sqlite
  deriving DecidableEq, Repr

def Dialect.name : Dialect → String
  | postgresql => "postgresql"
  | mysql => "mysql"
  | sqlite => "sqlite"

/-- The version of the changed row that a trigger reads. -/
inductive RowVersion
  | old | new
  deriving DecidableEq, Repr

namespace RowVersion

def name : RowVersion → String
  | old => "OLD"
  | new => "NEW"

/-- The version that holds the id: a deleted row has no new version. -/
def ofKind : EventKind → RowVersion
  | .delete => old
  | _ => new

end RowVersion

/-- A value that a trigger writes: a column of the changed row, or a code. -/
inductive CapturedValue
  | column (version : RowVersion) (name : String)
  | code (n : Int)
  deriving DecidableEq, Repr

/-- The insertion of one capture row: the value at each position goes into the column at the same
position. -/
structure CaptureInsert where
  table : String
  columns : List String
  values : List CapturedValue
  deriving DecidableEq, Repr

/-- The capture row for one changed row: its ids, and the code of what happened to it. -/
def CaptureInsert.ofModel (m : CaptureModel) (version : RowVersion) (code : Int) :
    CaptureInsert where
  table := m.captureTable
  columns := m.idColumns.map (·.captureColumn) ++ [m.eventTypeColumn]
  values := m.idColumns.map (fun c => .column version c.sourceColumn) ++ [.code code]

/-- What a trigger does for each changed row. -/
inductive TriggerBody
  | insert (i : CaptureInsert)
  | call (function : String)
  deriving DecidableEq, Repr

/-- One step of the setup. -/
inductive Command
  | createTable (m : CaptureModel)
  | dropTable (name : String)
  | createFunction (name : String) (body : CaptureInsert)
  | dropFunction (name : String)
  | createTrigger (name : String) (kind : EventKind) (table : String) (body : TriggerBody)
  | dropTrigger (name table : String)
  | custom (text : String)
  deriving DecidableEq, Repr

/-- A name between two tokens, with each token inside it doubled. -/
def quote (token name : String) : String :=
  token ++ String.ofList (Text.replace token.toList (token ++ token).toList name.toList) ++ token

def commaSeparated (parts : List String) : String := String.intercalate ", " parts

def CapturedValue.text (token : String) : CapturedValue → String
  | column version name => version.name ++ "." ++ quote token name
  | code n => toString n

def CaptureInsert.text (token : String) (i : CaptureInsert) : String :=
  "INSERT INTO " ++ quote token i.table ++ " (" ++ commaSeparated (i.columns.map (quote token)) ++
    ") VALUES (" ++ commaSeparated (i.values.map (·.text token)) ++ ")"

/-- The type of the key column, which counts up by itself. -/
def Dialect.keyType : Dialect → String
  | postgresql => "BIGSERIAL PRIMARY KEY"
  | mysql => "BIGINT NOT NULL AUTO_INCREMENT PRIMARY KEY"
  | sqlite => "INTEGER PRIMARY KEY AUTOINCREMENT"

def Dialect.codeType : Dialect → String
  | mysql => "INT"
  | _ => "INTEGER"

/-- The columns of a capture table: the key, the ids, the code. -/
def columnTexts (dialect : Dialect) (token : String) (m : CaptureModel) : List String :=
  (quote token m.keyColumn ++ " " ++ dialect.keyType) ::
    m.idColumns.map (fun c => quote token c.captureColumn ++ " " ++ c.sqlType ++ " NOT NULL") ++
    [quote token m.eventTypeColumn ++ " " ++ dialect.codeType ++ " NOT NULL"]

/-- The action of a trigger. -/
def TriggerBody.text (dialect : Dialect) (token : String) : TriggerBody → String
  | call function => "EXECUTE PROCEDURE " ++ quote token function ++ "()"
  | insert i =>
    match dialect with
    | .sqlite => "BEGIN " ++ i.text token ++ "; END"
    | _ => i.text token

def Command.text (dialect : Dialect) (token : String) : Command → String
  | createTable m =>
    "CREATE TABLE IF NOT EXISTS " ++ quote token m.captureTable ++ " (" ++
      commaSeparated (columnTexts dialect token m) ++ ")"
  | dropTable name => "DROP TABLE IF EXISTS " ++ quote token name
  | createFunction name body =>
    "CREATE OR REPLACE FUNCTION " ++ quote token name ++ "() RETURNS TRIGGER AS $$ BEGIN " ++
      body.text token ++ "; RETURN NULL; END; $$ LANGUAGE plpgsql"
  | dropFunction name => "DROP FUNCTION IF EXISTS " ++ quote token name ++ "()"
  | createTrigger name kind table body =>
    "CREATE TRIGGER " ++ (if dialect = .sqlite then "IF NOT EXISTS " else "") ++
      quote token name ++ " AFTER " ++ kind.name ++ " ON " ++ quote token table ++
      " FOR EACH ROW " ++ body.text dialect token
  | dropTrigger name table =>
    "DROP TRIGGER IF EXISTS " ++ quote token name ++
      (if dialect = .postgresql then " ON " ++ quote token table else "")
  | custom text => text

/-- A command in the words of one dialect. -/
structure Statement where
  dialect : Dialect
  token : String
  command : Command
  deriving DecidableEq, Repr

def Statement.text (s : Statement) : String := s.command.text s.dialect s.token

end IndexSync.Trigger
