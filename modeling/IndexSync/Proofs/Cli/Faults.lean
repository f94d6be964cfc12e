import IndexSync.Cli.Run
import IndexSync.Proofs.Config.Escaping
import IndexSync.Proofs.Value.Same
import IndexSync.Shipped

/-!
# Which documents break the command line

A fault of the configuration is refused. A fault that escapes its checks breaks the command that reads the
document.
-/
namespace IndexSync

namespace Cli

variable {α β : Type}

/-- The attempt breaks the command. -/
def Broken (x : Attempt α) : Prop := ∃ f, x = .error (.broken f)

namespace Broken

variable {x : Attempt α} {next : α → Attempt β}

@[simp] theorem ok (a : α) : ¬ Broken (.ok a : Attempt α) := by
  rintro ⟨f, h⟩
  cases h

@[simp] theorem refused (reason : String) : ¬ Broken (.error (.refused reason) : Attempt α) := by
  rintro ⟨f, h⟩
  cases h

/-- A command breaks by what escapes. -/
theorem guarded (x : Except Failure α) : Broken (guarded x) ↔ Escapes x := by
  cases x with
  | ok a => simp [Cli.guarded, Except.mapError]
  | error f =>
    by_cases h : f.isConfiguration = true <;>
      simp [Cli.guarded, Except.mapError, h, Broken]

theorem bind : Broken (x >>= next) ↔ Broken x ∨ ∃ a, x = .ok a ∧ Broken (next a) := by
  cases x with
  | error o =>
    show Broken (.error o : Attempt β) ↔ _
    simp [Broken]
  | ok a =>
    show Broken (next a) ↔ _
    simp

end Broken

/-- The attempt ends by itself, or as a refusal or a breakdown. -/
def Ends (x : Attempt α) : Prop := Broken x ∨ (∃ reason, x = .error (.refused reason)) ∨ ∃ a, x = .ok a

theorem ends_guarded (x : Except Failure α) : Ends (guarded x) := by
  cases x with
  | ok a => exact .inr (.inr ⟨a, rfl⟩)
  | error f =>
    by_cases h : f.isConfiguration = true
    · exact .inr (.inl ⟨f.message, by simp [guarded, Except.mapError, h]⟩)
    · exact .inl ⟨f, by simp [guarded, Except.mapError, h]⟩

theorem ends_bind {x : Attempt α} {next : α → Attempt β} (first : Ends x) (later : ∀ a, Ends (next a)) :
    Ends (x >>= next) := by
  rcases first with ⟨f, rfl⟩ | ⟨reason, rfl⟩ | ⟨a, rfl⟩
  · exact .inl ⟨f, rfl⟩
  · exact .inr (.inl ⟨reason, rfl⟩)
  · exact later a

variable (host : Host) (options : Config.Options) (config : String) (drops : Bool) (v : Value)

/-- The source of triggers that settings name, or that their address asks for. -/
def Names (s : Config.Settings) (name : String) : Prop :=
  s.triggerSource.filter (fun t => !t.isEmpty) = some name ∨
    s.triggerSource.filter (fun t => !t.isEmpty) = none ∧ Url.dialect? s.databaseUrl = .ok (some name)

/-- What a document holds under its keys, which are all texts. An empty document has none. -/
def Gives (v : Value) (given : List (String × Value)) : Prop :=
  ∃ entries, (v = .null ∧ entries = [] ∨ v = .dict entries) ∧ Config.Settings.textKeys entries = .ok given

/-- How a document breaks the command that prints the plan. What comes before the fault is accepted. -/
inductive Breaks : Prop
  /-- A key of the document is no text. -/
  | key (entries : Entries Value Value) (mapping : v = .dict entries)
      (other : Config.Settings.HasOtherKey entries)
  /-- The environment holds a list that is not in JSON, and nothing says that settings come from elsewhere. -/
  | environment (given : List (String × Value)) (gives : Gives v given)
      (unsteered : options.steering given = [])
      (unreadable : Config.Settings.HasUnreadableVariable host.environment)
  /-- Keywords of the document say where settings come from, and the library fails to read them there. -/
  | steering (given : List (String × Value)) (gives : Gives v given)
      (steered : options.steering given ≠ [])
      (escapes : Escapes (options.read (options.steering given) (options.others given) host.environment))
  /-- An entity is given by a reference to what cannot be reached. -/
  | entity (s : Config.Settings) (given : settings host config options = .ok s)
      (before after : List Config.WatchedEntity) (w : Config.WatchedEntity)
      (watched : s.watched = before ++ w :: after)
      (accepted : ∃ ms, Declaration.buildAll host.catalog (before.map (·.declaration)) = .ok ms)
      (table : (Text.nonBlank? w.captureTable).isSome = true)
      (unreachable : host.catalog.IsUnreachable (Text.splitText ".") (Text.trim w.entity))
  /-- The dialect is sought in an address whose port is no integer. -/
  | port (s : Config.Settings) (given : settings host config options = .ok s)
      (accepted : ∃ ms, models host s = .ok ms)
      (unnamed : s.triggerSource.filter (fun t => !t.isEmpty) = none)
      (text address : String) (url : s.databaseUrl = some text)
      (any : (Text.nonBlank? text).isSome = true) (normal : Url.normalize text = .ok address)
      (unreadable : Url.HasUnreadablePort address)
  /-- The source of triggers cannot be made. -/
  | source (s : Config.Settings) (given : settings host config options = .ok s)
      (accepted : ∃ ms, models host s = .ok ms) (text name : String) (names : Names s text)
      (trimmed : Text.nonBlank? text = some name) (unmakable : Trigger.IsUnmakable host.catalog name)
  /-- The source of triggers has code of its own, which fails to tell a part of the plan. -/
  | plan (s : Config.Settings) (given : settings host config options = .ok s)
      (ms : List CaptureModel) (accepted : models host s = .ok ms) (triggers : TriggerSource)
      (found : source host s = .ok triggers) (code : Trigger.SetupCode) (own : triggers.own = some code)
      (p : Trigger.PlannedPart (Except Failure (List String)))
      (asked : p ∈ Trigger.Plan.partsOf code ms (if drops then .dropCreate else .create))
      (f : Failure) (fails : p.part = .error f)

/-- The file of the command holds the document. -/
def Holds : Prop :=
  (host.file (configPath host config)).entries (configPath host config) =
    Config.documentEntries (configPath host config) v

variable {host options config drops v}

theorem broken_settings (holds : Holds host config v) : Broken (settings host config options) ↔
    (∃ entries, v = .dict entries ∧ Config.Settings.HasOtherKey entries) ∨
      ∃ given, Gives v given ∧
        (options.steering given = [] ∧ Config.Settings.HasUnreadableVariable host.environment ∨
          options.steering given ≠ [] ∧
            Escapes (options.read (options.steering given) (options.others given) host.environment)) := by
  have none : ¬ Config.Settings.HasOtherKey [] := by simp [Config.Settings.HasOtherKey]
  rw [settings, Broken.guarded, Config.Settings.load, holds, Escapes.bind]
  simp only [List.foldl_nil, Config.Settings.escapes_ofEntries]
  cases v <;> simp [Config.documentEntries, Gives, none, Failure.isConfiguration]

theorem broken_models (s : Config.Settings) : Broken (models host s) ↔
    ∃ before after w, s.watched = before ++ w :: after ∧
      (∃ ms, Declaration.buildAll host.catalog (before.map (·.declaration)) = .ok ms) ∧
      (Text.nonBlank? w.captureTable).isSome = true ∧
      host.catalog.IsUnreachable (Text.splitText ".") (Text.trim w.entity) := by
  have table (w : Config.WatchedEntity) :
      Declaration.nonBlank? w.declaration.captureTable = Text.nonBlank? w.captureTable := by
    simp only [Declaration.nonBlank?, Config.WatchedEntity.declaration, Option.bind_some]
  rw [models, Broken.guarded, Declaration.escapes_buildAll]
  simp only [Declaration.escapes_build, Config.Settings.declarations]
  constructor
  · rintro ⟨ds, d, ds', hsplit, accepted, named, reference, hpath, unreachable⟩
    obtain ⟨before, rest, hwatched, rfl, hrest⟩ := List.map_eq_append_iff.mp hsplit
    obtain ⟨w, after, rfl, rfl, rfl⟩ := List.map_eq_cons_iff.mp hrest
    cases hpath
    exact ⟨before, after, w, hwatched, accepted, table w ▸ named, unreachable⟩
  · rintro ⟨before, after, w, hwatched, accepted, named, unreachable⟩
    exact ⟨before.map (·.declaration), w.declaration, after.map (·.declaration), by simp [hwatched],
      accepted, (table w).symm ▸ named, w.entity, rfl, unreachable⟩

/-- What is said when nothing tells the dialect. -/
def dialectUnknown : Outcome := .refused "Set trigger_source or database_url to choose the SQL dialect."

/-- The source is made by the name that settings give, or by the dialect of their address. -/
theorem source_eq (s : Config.Settings) : source host s =
    match s.triggerSource.filter (fun t => !t.isEmpty), Url.dialect? s.databaseUrl with
    | some text, _ | none, .ok (some text) => guarded (Trigger.resolveSource host.catalog (.path (some text)))
    | none, .ok none => .error dialectUnknown
    | none, .error f => guarded (.error f) := by
  unfold source
  cases s.triggerSource.filter (fun t => !t.isEmpty) with
  | some text => simp only [pure_bind]
  | none =>
    cases Url.dialect? s.databaseUrl with
    | error f => by_cases h : f.isConfiguration = true <;> simp [guarded, Except.mapError, h] <;> rfl
    | ok found =>
      have read : guarded (.ok found) = (pure found : Attempt (Option String)) := rfl
      cases found <;> simp only [read, pure_bind, dialectUnknown]

theorem ends_source (s : Config.Settings) : Ends (source host s) := by
  rw [source_eq]
  split
  · exact ends_guarded _
  · exact ends_guarded _
  · exact .inr (.inl ⟨_, rfl⟩)
  · exact ends_guarded _

theorem broken_source (s : Config.Settings) : Broken (source host s) ↔
    (s.triggerSource.filter (fun t => !t.isEmpty) = none ∧ ∃ text address, s.databaseUrl = some text ∧
      (Text.nonBlank? text).isSome = true ∧ Url.normalize text = .ok address ∧
      Url.HasUnreadablePort address) ∨
    ∃ text name, Names s text ∧ Text.nonBlank? text = some name ∧ Trigger.IsUnmakable host.catalog name := by
  rw [source_eq, ← Url.escapes_dialect?]
  unfold Names
  cases hnamed : s.triggerSource.filter (fun t => !t.isEmpty) with
  | some text => simp [Broken.guarded, Trigger.escapes_resolveSource]
  | none =>
    cases hdialect : Url.dialect? s.databaseUrl with
    | error f => simp [Broken.guarded]
    | ok found =>
      cases found with
      | none => simp [dialectUnknown]
      | some text => simp [Broken.guarded, Trigger.escapes_resolveSource]

theorem broken_planned (triggers : TriggerSource) (ms : List CaptureModel) (strategy : Trigger.Strategy) :
    Broken ((Trigger.planned triggers ms strategy).mapError Outcome.broken) ↔
      ∃ code, triggers.own = some code ∧
        ∃ p ∈ Trigger.Plan.partsOf code ms strategy, ∃ f, p.part = .error f := by
  rw [← Trigger.planned_error_iff]
  cases Trigger.planned triggers ms strategy <;> simp [Broken, Except.mapError]

theorem ends_planned (triggers : TriggerSource) (ms : List CaptureModel) (strategy : Trigger.Strategy) :
    Ends ((Trigger.planned triggers ms strategy).mapError Outcome.broken) := by
  cases Trigger.planned triggers ms strategy with
  | error f => exact .inl ⟨f, rfl⟩
  | ok ps => exact .inr (.inr ⟨ps, rfl⟩)

/-- What breaks the command is one of the faults described. -/
theorem broken_sql (holds : Holds host config v) :
    Broken (sql host config drops options) ↔ Breaks host options config drops v := by
  simp only [sql, Broken.bind]
  constructor
  · rintro (broken | ⟨s, hs, broken | ⟨ms, hms, broken | ⟨triggers, htriggers, broken | ⟨_, _, broken⟩⟩⟩⟩)
    · rcases (broken_settings holds).mp broken with
        ⟨entries, mapping, other⟩ | ⟨given, gives, ⟨unsteered, unreadable⟩ | ⟨steered, escapes⟩⟩
      · exact .key entries mapping other
      · exact .environment given gives unsteered unreadable
      · exact .steering given gives steered escapes
    · obtain ⟨before, after, w, watched, accepted, table, unreachable⟩ := (broken_models s).mp broken
      exact .entity s hs before after w watched accepted table unreachable
    · rcases (broken_source s).mp broken with ⟨unnamed, text, address, url, any, normal, unreadable⟩ |
        ⟨text, name, names, trimmed, unmakable⟩
      · exact .port s hs ⟨ms, hms⟩ unnamed text address url any normal unreadable
      · exact .source s hs ⟨ms, hms⟩ text name names trimmed unmakable
    · obtain ⟨code, own, p, asked, f, fails⟩ := (broken_planned ..).mp broken
      exact .plan s hs ms hms triggers htriggers code own p asked f fails
    · exact absurd broken (Broken.ok _)
  · intro h
    cases h with
    | key entries mapping other => exact .inl ((broken_settings holds).mpr (.inl ⟨entries, mapping, other⟩))
    | environment given gives unsteered unreadable =>
      exact .inl ((broken_settings holds).mpr (.inr ⟨given, gives, .inl ⟨unsteered, unreadable⟩⟩))
    | steering given gives steered escapes =>
      exact .inl ((broken_settings holds).mpr (.inr ⟨given, gives, .inr ⟨steered, escapes⟩⟩))
    | entity s given before after w watched accepted table unreachable =>
      exact .inr ⟨s, given, .inl ((broken_models s).mpr
        ⟨before, after, w, watched, accepted, table, unreachable⟩)⟩
    | port s given accepted unnamed text address url any normal unreadable =>
      obtain ⟨ms, hms⟩ := accepted
      exact .inr ⟨s, given, .inr ⟨ms, hms, .inl ((broken_source s).mpr
        (.inl ⟨unnamed, text, address, url, any, normal, unreadable⟩))⟩⟩
    | source s given accepted text name names trimmed unmakable =>
      obtain ⟨ms, hms⟩ := accepted
      exact .inr ⟨s, given, .inr ⟨ms, hms, .inl ((broken_source s).mpr
        (.inr ⟨text, name, names, trimmed, unmakable⟩))⟩⟩
    | plan s given ms accepted triggers found code own p asked f fails =>
      exact .inr ⟨s, given, .inr ⟨ms, accepted, .inr ⟨triggers, found,
        .inl ((broken_planned ..).mpr ⟨code, own, p, asked, f, fails⟩)⟩⟩⟩

/-- The command that prints the plan breaks exactly as described. Otherwise it refuses the configuration or
prints the plan. -/
theorem sql_breaks_iff (holds : Holds host config v) :
    ((outcomeOf (sql host config drops options)).exitCode = 1 ↔ Breaks host options config drops v) ∧
      (¬ Breaks host options config drops v →
        (∃ reason, sql host config drops options = .error (.refused reason)) ∨
        ∃ s ms triggers ps, settings host config options = .ok s ∧ models host s = .ok ms ∧
          source host s = .ok triggers ∧
          Trigger.planned triggers ms (if drops then .dropCreate else .create) = .ok ps ∧
          sql host config drops options =
            .ok ⟨ps.map (fun p => p.statement.text ++ ";"), none, []⟩) := by
  have ends : Ends (sql host config drops options) :=
    ends_bind (ends_guarded _) fun s => ends_bind (ends_guarded _) fun ms =>
      ends_bind (ends_source s) fun _ => ends_bind (ends_planned ..) fun _ => .inr (.inr ⟨_, rfl⟩)
  have breaks : Broken (sql host config drops options) ↔ Breaks host options config drops v :=
    broken_sql holds
  constructor
  · rw [← breaks]
    rcases ends with ⟨f, h⟩ | ⟨reason, h⟩ | ⟨p, h⟩ <;> simp [h, outcomeOf, Outcome.exitCode, Broken]
  · intro whole
    rcases ends with broken | refused | ⟨p, h⟩
    · exact absurd (breaks.mp broken) whole
    · exact .inl refused
    · obtain ⟨s, hs, h'⟩ := ok_of_bind h
      obtain ⟨ms, hms, h'⟩ := ok_of_bind h'
      obtain ⟨triggers, htriggers, h'⟩ := ok_of_bind h'
      obtain ⟨ps, hps, h'⟩ := ok_of_bind h'
      cases h'
      refine .inr ⟨s, ms, triggers, ps, hs, hms, htriggers, ?_, h⟩
      cases hplanned : Trigger.planned triggers ms (if drops then .dropCreate else .create) with
      | error f => simp [hplanned, Except.mapError] at hps
      | ok told =>
        rw [hplanned] at hps
        cases hps
        rfl

/-- A document with a number for a key. -/
def numberedKey : Value := .dict [(.int 1, .text "x")]

/-- A host without an environment, where each file holds the document. -/
def numberedHost : Host := ⟨[], "/", fun _ => .bytes "1: x\n".toUTF8, Catalog.shipped⟩

/-- Entries as one value. -/
def paired (entries : Entries Value Value) : Value := .tuple (entries.map fun p => .tuple [p.1, p.2])

theorem eq_of_paired {entries others : Entries Value Value} (h : paired entries = paired others) :
    entries = others := by
  refine (List.map_inj_right ?_).mp (Value.tuple.inj h)
  rintro ⟨k, v⟩ ⟨k', v'⟩ same
  simpa using same

theorem holds_numberedKey : Holds numberedHost "" numberedKey := by
  have read : ((numberedHost.file (configPath numberedHost "")).entries
      (configPath numberedHost "")).toOption.any (fun entries =>
        (paired entries).isPlain && paired entries == paired [(.int 1, .text "x")]) = true := by
    decide +kernel
  obtain ⟨entries, hread, h⟩ := (Option.any_eq_true _ _).mp read
  simp only [Bool.and_eq_true] at h
  rw [Value.beq_iff_eq_of_isPlain h.1 rfl] at h
  rw [Holds, ok_of_toOption hread, eq_of_paired h.2]
  rfl

theorem numbered_key_breaks : Holds numberedHost "" numberedKey ∧
    (outcomeOf (sql numberedHost "" false)).exitCode = 1 :=
  ⟨holds_numberedKey, (sql_breaks_iff holds_numberedKey).1.mpr
    (.key _ rfl ⟨_, List.mem_cons_self, by simp⟩)⟩

/-- Not every fault of a document is refused. -/
theorem not_always_refused : ¬ ∀ (host : Host) (config : String) (v : Value) (drops : Bool),
    Holds host config v → (outcomeOf (sql host config drops)).exitCode = 0 ∨
      (outcomeOf (sql host config drops)).exitCode = 2 := by
  intro all
  refine absurd (all numberedHost "" numberedKey false holds_numberedKey) ?_
  decide +kernel

end Cli
end IndexSync
