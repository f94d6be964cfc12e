import IndexSync.Proofs.Store.Firing
import IndexSync.Trigger.Setup

/-!
# Installed triggers

The triggers of a model are installed when they are the only ones that write to its capture table. The
statements of a setup install them, and no write takes them away.
-/
namespace IndexSync

open Store Trigger

namespace TriggerSource

variable {s : TriggerSource} {m : CaptureModel} {kind : EventKind} {r : RowTrigger}

/-- The trigger of a source for one kind of change. -/
def rowTrigger (s : TriggerSource) (m : CaptureModel) (kind : EventKind) (code : Int) : RowTrigger :=
  ⟨s.triggerName m kind, kind, m.sourceTable, captureInsert m kind code⟩

/-- The triggers of a source for a model. -/
def rowTriggers (s : TriggerSource) (m : CaptureModel) : List RowTrigger :=
  EventKind.captured.flatMap fun kind => kind.code?.toList.map (s.rowTrigger m kind)

theorem of_mem_rowTriggers (h : r ∈ s.rowTriggers m) :
    r.table = m.sourceTable ∧ r.insert.table = m.captureTable := by
  obtain ⟨kind, -, h⟩ := List.mem_flatMap.mp h
  obtain ⟨code, -, rfl⟩ := List.mem_map.mp h
  exact ⟨rfl, rfl⟩

/-- One trigger is there for each kind of change in the source table. -/
theorem filter_rowTriggers {table : String} (source : sameName m.sourceTable table = true)
    (change : Table.RowChange) :
    (s.rowTriggers m).filter (·.watches table change.kind) =
      [s.rowTrigger m change.kind (change.kind.code?.getD 0)] := by
  cases change <;>
    simp [rowTriggers, EventKind.captured, EventKind.code?, rowTrigger, RowTrigger.watches,
      Table.RowChange.kind, source]

end TriggerSource

/-- The triggers of a model are the only ones that write to its capture table, which has the columns that
they write to, and no trigger writes to the source table. -/
structure TriggerSource.Installed (s : TriggerSource) (m : CaptureModel) (db : Database) : Prop where
  distinct : hasTwice ((captureColumns s.dialect m).map (·.name)) = false
  table : ∃ c, db.find? m.captureTable = some c ∧ c.columns = captureColumns s.dialect m ∧
    c.keyColumns = [m.keyColumn]
  writers : (Database.writers m.captureTable db.triggers).Perm (s.rowTriggers m)
  spare : ∀ r ∈ db.triggers, sameName r.insert.table m.sourceTable = false

namespace TriggerSource.Installed

variable {s : TriggerSource} {m : CaptureModel} {db after : Database} {ws : List Database.Write}

theorem confined (h : s.Installed m db) : Database.Confined m.captureTable m.sourceTable db.triggers where
  own r hr writes := by
    have hmem : r ∈ Database.writers m.captureTable db.triggers := List.mem_filter.mpr ⟨hr, writes⟩
    rw [(of_mem_rowTriggers (h.writers.mem_iff.mp hmem)).1, sameName_self]
  spare := h.spare

theorem apart (h : s.Installed m db) : sameName m.captureTable m.sourceTable = false := by
  have hmem : s.rowTrigger m .insert (-3) ∈ s.rowTriggers m :=
    List.mem_flatMap.mpr ⟨.insert, .head _, .head _⟩
  exact h.spare _ (List.mem_filter.mp (h.writers.mem_iff.mpr hmem)).1

/-- A change in the source table sets off the trigger for its kind, and no other that writes to the
capture table. -/
theorem one (h : s.Installed m db) {table : String} (source : sameName m.sourceTable table = true)
    (change : Table.RowChange) :
    Database.writers m.captureTable (db.triggers.filter (·.watches table change.kind)) =
      [s.rowTrigger m change.kind (change.kind.code?.getD 0)] := by
  refine List.perm_singleton.mp ?_
  rw [← filter_rowTriggers source, Database.writers, List.filter_comm]
  exact h.writers.filter _

theorem keeps (h : s.Installed m db) (kept : Database.Keeps db after) : s.Installed m after where
  distinct := h.distinct
  table := by
    obtain ⟨c, hc, columns, keyColumns⟩ := h.table
    obtain ⟨u, hu, shape⟩ := kept.tables _ c hc
    exact ⟨u, hu, shape.columns.trans columns, shape.keyColumns.trans keyColumns⟩
  writers := kept.triggers ▸ h.writers
  spare := kept.triggers ▸ h.spare

/-- No write takes the triggers away. -/
theorem run (h : s.Installed m db) (run : ws.foldlM Database.apply db = .ok after) : s.Installed m after :=
  Database.foldlM_keeps (P := s.Installed m) (fun _ _ _ _ h happly => h.keeps (Database.keeps_apply happly))
    h run

end TriggerSource.Installed

namespace Store.Database

variable {db after : Database} {m : CaptureModel} {report : Notice → Database → Database}

theorem runPlan_cons {p : PlannedStatement} {rest : List PlannedStatement} {done : SetupReport}
    (h : execute p.statement db = (.ok (), after)) :
    runPlan execute report (p :: rest) done db = runPlan execute report rest done.addExecuted after := by
  simp only [runPlan, h]

/-- The statement that makes a trigger whose action is an insertion. -/
def triggerStatement (r : RowTrigger) : PlannedStatement :=
  ⟨TriggerSource.sqlite.statement (.createTrigger r.name r.kind r.table (.insert r.insert)), false⟩

theorem execute_triggerStatement {r : RowTrigger} (table : db.hasTable r.table = true)
    (unused : ∀ other ∈ db.triggers, sameName other.name r.name = false) :
    execute (triggerStatement r).statement db = (.ok (), { db with triggers := db.triggers ++ [r] }) := by
  have free : (db.triggers.any fun other => sameName other.name r.name) = false := by simpa using unused
  simp [execute, triggerStatement, TriggerSource.statement, TriggerSource.sqlite, TriggerSource.plain,
    understands, isQuote, run, createTrigger, table, free]

/-- Triggers of new names for tables that are there are made one after the other. -/
theorem runPlan_triggers {rs : List RowTrigger} (done : SetupReport)
    (tables : ∀ r ∈ rs, db.hasTable r.table = true)
    (unused : ∀ r ∈ rs, ∀ other ∈ db.triggers, sameName other.name r.name = false)
    (apart : rs.Pairwise fun r other => sameName r.name other.name = false) :
    runPlan execute report (rs.map triggerStatement) done db =
      (.ok ⟨done.executed + rs.length, done.failed⟩, { db with triggers := db.triggers ++ rs }) := by
  induction rs generalizing db done with
  | nil => simp [runPlan]
  | cons r rest ih =>
    obtain ⟨first, apart⟩ := List.pairwise_cons.mp apart
    rw [List.map_cons, runPlan_cons (execute_triggerStatement (tables r List.mem_cons_self)
      (unused r List.mem_cons_self))]
    have unused : ∀ other ∈ rest, ∀ before ∈ db.triggers ++ [r],
        sameName before.name other.name = false := by
      intro other hother before hbefore
      rcases List.mem_append.mp hbefore with hbefore | hbefore
      · exact unused other (List.mem_cons_of_mem r hother) before hbefore
      · rw [List.mem_singleton.mp hbefore]
        exact first other hother
    rw [ih done.addExecuted ?_ unused apart]
    · simp only [SetupReport.addExecuted, List.length_cons, List.append_assoc, List.singleton_append]
      rw [Nat.add_assoc, Nat.add_comm 1]
    · exact fun other h => tables other (List.mem_cons_of_mem r h)

/-- A database that has the source table of a model and nothing that stands in the way of its capture
table and triggers. -/
structure Clear (m : CaptureModel) (db : Database) : Prop where
  source : db.hasTable m.sourceTable = true
  absent : db.hasTable m.captureTable = false
  free : isReserved m.captureTable = false
  distinct : hasTwice ((captureColumns .sqlite m).map (·.name)) = false
  unused : ∀ r ∈ TriggerSource.sqlite.rowTriggers m, ∀ other ∈ db.triggers,
    sameName other.name r.name = false
  unwritten : ∀ r ∈ db.triggers, sameName r.insert.table m.captureTable = false
  spare : ∀ r ∈ db.triggers, sameName r.insert.table m.sourceTable = false

theorem Clear.apart (clear : Clear m db) : sameName m.captureTable m.sourceTable = false := by
  rw [Bool.eq_false_iff]
  intro same
  have source := clear.source
  rw [hasTable, ← find?_congr same, ← hasTable, clear.absent] at source
  cases source

/-- The database with the capture table and the triggers of a model. -/
def watched (db : Database) (m : CaptureModel) : Database :=
  ⟨db.tables ++ [captureTable .sqlite m], db.triggers ++ TriggerSource.sqlite.rowTriggers m⟩

theorem find?_append (db : Database) (t : Table) (rs : List RowTrigger) (name : String) :
    (⟨db.tables ++ [t], rs⟩ : Database).find? name =
      (db.find? name).or (if sameName t.name name then some t else none) := by
  rw [find?, List.find?_append, List.find?_singleton]
  rfl

theorem hasTable_append {name : String} (h : db.hasTable name = true) (t : Table) (rs : List RowTrigger) :
    (⟨db.tables ++ [t], rs⟩ : Database).hasTable name = true := by
  obtain ⟨u, hu⟩ := Option.isSome_iff_exists.mp h
  simp [hasTable, find?_append, hu]

/-- The triggers of a model have different names. -/
theorem rowTriggers_apart (m : CaptureModel) : (TriggerSource.sqlite.rowTriggers m).Pairwise
    fun r other => sameName r.name other.name = false := by
  have stem (k l : EventKind) : sameName (TriggerSource.defaultTriggerName m k)
      (TriggerSource.defaultTriggerName m l) = sameName k.lowerName l.lowerName := by
    simp [sameName, TriggerSource.defaultTriggerName]
  have named (k : EventKind) (code : Int) : (TriggerSource.sqlite.rowTrigger m k code).name =
      TriggerSource.defaultTriggerName m k := rfl
  simp [TriggerSource.rowTriggers, EventKind.captured, EventKind.code?, named, stem]
  decide

theorem Clear.execute_createTable (clear : Clear m db) :
    execute (TriggerSource.sqlite.statement (.createTable m)) db =
      (.ok (), { db with tables := db.tables ++ [captureTable .sqlite m] }) := by
  have distinct : hasTwice ((captureTable .sqlite m).columns.map (·.name)) = false := clear.distinct
  have absent : db.hasTable (captureTable .sqlite m).name = false := clear.absent
  have free : isReserved (captureTable .sqlite m).name = false := clear.free
  simp [execute, TriggerSource.statement, TriggerSource.sqlite, TriggerSource.plain, understands, isQuote,
    run, createTable, distinct, absent, free]

/-- Each statement of a setup runs. -/
theorem Clear.runPlan_create (clear : Clear m db) :
    runPlan execute report (plan .sqlite [m] .create) .empty db = (.ok ⟨4, []⟩, db.watched m) := by
  have listed : plan .sqlite [m] .create =
      ⟨TriggerSource.sqlite.statement (.createTable m), false⟩ ::
        (TriggerSource.sqlite.rowTriggers m).map triggerStatement := rfl
  rw [listed, runPlan_cons clear.execute_createTable]
  refine runPlan_triggers _ (fun r hr => ?_) clear.unused (rowTriggers_apart m)
  rw [(TriggerSource.of_mem_rowTriggers hr).1]
  exact hasTable_append clear.source _ _

/-- A setup installs the triggers of a model. -/
theorem Clear.installed (clear : Clear m db) : TriggerSource.sqlite.Installed m (db.watched m) := by
  refine ⟨clear.distinct, ⟨captureTable .sqlite m, ?_, rfl, rfl⟩, ?_, fun r hr => ?_⟩
  · have absent : db.find? m.captureTable = none := by simpa [hasTable] using clear.absent
    have named : sameName (captureTable .sqlite m).name m.captureTable = true := sameName_self _
    rw [watched, find?_append, absent, if_pos named]
    rfl
  · have old : writers m.captureTable db.triggers = [] := by
      simpa [writers] using clear.unwritten
    have own : writers m.captureTable (TriggerSource.sqlite.rowTriggers m) =
        TriggerSource.sqlite.rowTriggers m := by
      refine List.filter_eq_self.mpr fun r hr => ?_
      rw [(TriggerSource.of_mem_rowTriggers hr).2, sameName_self]
    exact .of_eq (by rw [watched, writers_append, old, own, List.nil_append])
  · rcases List.mem_append.mp hr with hr | hr
    · exact clear.spare r hr
    · rw [(TriggerSource.of_mem_rowTriggers hr).2]
      exact clear.apart

end Store.Database
end IndexSync
