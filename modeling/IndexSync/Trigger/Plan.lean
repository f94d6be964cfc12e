import IndexSync.Trigger.Source
import IndexSync.Value.Shown

/-! Plans: the statements that set up all capture tables, in the order in which they run. -/
namespace IndexSync.Trigger

/-- What to do about objects that may be there already. -/
inductive Strategy
  | create | dropCreate | dontCreate
  deriving DecidableEq, Repr

namespace Strategy

def name : Strategy → String
  | create => "create"
  | dropCreate => "drop-create"
  | dontCreate => "dont-create"

def ofName? (text : String) : Option Strategy :=
  [create, dropCreate, dontCreate].find? (·.name = text)

/-- The strategy that a setting names. -/
def ofValue (v : Value) : Except Failure Strategy :=
  let known := match v with
    | .text name => ofName? name
    | _ => none
  match known with
  | some strategy => .ok strategy
  | none => .error (.trigger (.unknownStrategy v.shown))

end Strategy

/-- A statement of a plan. A drop may fail because its object is not there. -/
structure PlannedStatement where
  statement : Statement
  isDrop : Bool
  deriving DecidableEq, Repr

/-- What a source gives for each part of a setup, whatever statements these are. -/
abbrev SetupParts := PartsOf (List Statement)

def setupParts (s : TriggerSource) : SetupParts where
  createTable m := (TriggerSource.createTable m).map s.statement
  dropTable m := (TriggerSource.dropTable m).map s.statement
  setup := (TriggerSource.custom s.setup).map s.statement
  teardown := (TriggerSource.custom s.teardown).map s.statement
  specificSetup m := (TriggerSource.custom (s.specificSetup m)).map s.statement
  specificTeardown m := (TriggerSource.custom (s.specificTeardown m)).map s.statement
  createTrigger m kind := (kind.code?.toList.flatMap (s.createTrigger m kind)).map s.statement
  dropTrigger m kind := (s.dropTrigger m kind).map s.statement

/-- One part of a plan, and whether it drops what is there. -/
structure PlannedPart (α : Type) where
  part : α
  isDrop : Bool

namespace Plan

variable {α : Type}

/-- A part that is left out unless the strategy drops what is there. -/
def drops (dropping : Bool) (part : α) : List (PlannedPart α) :=
  if dropping then [⟨part, true⟩] else []

def creates (part : α) : List (PlannedPart α) := [⟨part, false⟩]

/-- The capture table of one model. -/
def table (p : PartsOf α) (dropping : Bool) (m : CaptureModel) : List (PlannedPart α) :=
  drops dropping (p.dropTable m) ++ creates (p.createTable m)

/-- What the source needs once. -/
def shared (p : PartsOf α) (dropping : Bool) : List (PlannedPart α) :=
  drops dropping p.teardown ++ creates p.setup

/-- What the source needs for one model, and the triggers of the model. -/
def triggers (p : PartsOf α) (dropping : Bool) (m : CaptureModel) : List (PlannedPart α) :=
  drops dropping (p.specificTeardown m) ++ creates (p.specificSetup m) ++
    EventKind.captured.flatMap (fun kind => drops dropping (p.dropTrigger m kind)) ++
    EventKind.captured.flatMap (fun kind => creates (p.createTrigger m kind))

/-- All tables come before all triggers. -/
def parts (p : PartsOf α) (dropping : Bool) (ms : List CaptureModel) : List (PlannedPart α) :=
  ms.flatMap (table p dropping) ++ shared p dropping ++ ms.flatMap (triggers p dropping)

/-- The parts of a strategy in the order in which the source is asked for them. -/
def partsOf (p : PartsOf α) (ms : List CaptureModel) : Strategy → List (PlannedPart α)
  | .create => parts p false ms
  | .dropCreate => parts p true ms
  | .dontCreate => []

/-- The statements of one part. -/
def statements (part : PlannedPart (List Statement)) : List PlannedStatement :=
  part.part.map (⟨·, part.isDrop⟩)

/-- The statements of a strategy in the order in which they run. -/
def ofParts (p : SetupParts) (ms : List CaptureModel) (strategy : Strategy) :
    List PlannedStatement :=
  (partsOf p ms strategy).flatMap statements

/-- The statements of one part, unless the source fails to tell them. -/
def tell (s : TriggerSource) (part : PlannedPart (Except Failure (List String))) :
    Except Failure (List PlannedStatement) := do
  let texts ← part.part
  return statements ⟨(TriggerSource.custom texts).map s.statement, part.isDrop⟩

/-- The statements of a strategy. The first part that the source fails to tell ends the plan. -/
def ofCode (s : TriggerSource) (code : SetupCode) (ms : List CaptureModel) (strategy : Strategy) :
    Except Failure (List PlannedStatement) := do
  let told ← (partsOf code ms strategy).mapM (tell s)
  return told.flatten

end Plan

/-- The statements by which a source sets up all models, unless it has code of its own. -/
def plan (s : TriggerSource) (ms : List CaptureModel) (strategy : Strategy) : List PlannedStatement :=
  Plan.ofParts (setupParts s) ms strategy

/-- The statements by which a source sets up all models. Code of its own may fail to tell them. -/
def planned (s : TriggerSource) (ms : List CaptureModel) (strategy : Strategy) :
    Except Failure (List PlannedStatement) :=
  match s.own with
  | none => .ok (plan s ms strategy)
  | some code => Plan.ofCode s code ms strategy

end IndexSync.Trigger
