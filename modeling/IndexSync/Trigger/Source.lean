import IndexSync.Trigger.Statement

/-! Sources of setup statements: which statements create and drop the objects of a capture table in
one dialect. -/
namespace IndexSync

/-- What there is to say about each part of a setup. -/
structure Trigger.PartsOf (α : Type) where
  createTable : CaptureModel → α
  dropTable : CaptureModel → α
  setup : α
  teardown : α
  specificSetup : CaptureModel → α
  specificTeardown : CaptureModel → α
  createTrigger : CaptureModel → EventKind → α
  dropTrigger : CaptureModel → EventKind → α

/-- Code of the caller's that is asked for the statements of each part, and may fail to tell them. -/
abbrev Trigger.SetupCode := Trigger.PartsOf (Except Failure (List String))

/-- A source of statements. The setup and teardown texts are those that a source needs besides
tables and triggers, once or for each capture table. A source that is made in another way has code of its
own for all parts. -/
structure TriggerSource where
  className : String
  dialect : Trigger.Dialect
  token : String
  triggerName : CaptureModel → EventKind → String
  setup : List String
  teardown : List String
  specificSetup : CaptureModel → List String
  specificTeardown : CaptureModel → List String
  own : Option Trigger.SetupCode

namespace TriggerSource
open Trigger

def defaultTriggerName (m : CaptureModel) (kind : EventKind) : String :=
  m.captureTable ++ "_" ++ kind.lowerName

/-- A source that needs tables and triggers alone. -/
def plain (className : String) (dialect : Dialect) (token : String) : TriggerSource :=
  ⟨className, dialect, token, defaultTriggerName, [], [], fun _ => [], fun _ => [], none⟩

def postgresql : TriggerSource := plain "PostgreSQLTriggerSQLSource" .postgresql "\""
def mysql : TriggerSource := plain "MySQLTriggerSQLSource" .mysql "\x60"
def sqlite : TriggerSource := plain "SQLiteTriggerSQLSource" .sqlite "\""

def statement (s : TriggerSource) (c : Command) : Statement := ⟨s.dialect, s.token, c⟩

def custom (texts : List String) : List Command := texts.map .custom

/-- The code that a trigger writes. Nothing is written for a kind outside the captured ones. -/
def eventCode (kind : EventKind) : Except Failure Int :=
  match kind.code? with
  | some code => .ok code
  | none => .error (.range (.noTriggerFor kind.name))

def captureInsert (m : CaptureModel) (kind : EventKind) (code : Int) : CaptureInsert :=
  .ofModel m (.ofKind kind) code

/-- The name of the function behind a trigger, in the dialect whose triggers call functions. -/
def functionName? (s : TriggerSource) (m : CaptureModel) (kind : EventKind) : Option String :=
  match s.dialect with
  | .postgresql => some (s.triggerName m kind ++ "_fn")
  | _ => none

def createTable (m : CaptureModel) : List Command := [.createTable m]
def dropTable (m : CaptureModel) : List Command := [.dropTable m.captureTable]

def createTrigger (s : TriggerSource) (m : CaptureModel) (kind : EventKind) (code : Int) :
    List Command :=
  let insert := captureInsert m kind code
  match s.functionName? m kind with
  | some function =>
    [.createFunction function insert,
      .createTrigger (s.triggerName m kind) kind m.sourceTable (.call function)]
  | none => [.createTrigger (s.triggerName m kind) kind m.sourceTable (.insert insert)]

def dropTrigger (s : TriggerSource) (m : CaptureModel) (kind : EventKind) : List Command :=
  .dropTrigger (s.triggerName m kind) m.sourceTable ::
    ((s.functionName? m kind).map Command.dropFunction).toList

end TriggerSource
end IndexSync
