import IndexSync.Config.Settings
import IndexSync.Proofs.Capture.Declared
import IndexSync.Trigger.Resolution
import IndexSync.Url.Engine

/-!
# Faults that escape the checks of the configuration

A fault of a document is a fault of the configuration where a check finds it. Some faults are found by other
means: by the conversion of keys and ports, by the library that reads settings, in the search for modules, which
run code of their own, and where a class is made use of.
-/
namespace IndexSync

/-- The computation fails in a way that is not a fault of the configuration. -/
def Escapes {α : Type} (x : Except Failure α) : Prop := ∃ f, x = .error f ∧ f.isConfiguration = false

namespace Escapes

variable {α β : Type} {f : Failure} {x : Except Failure α} {next : α → Except Failure β}

@[simp] theorem ok (a : α) : ¬ Escapes (.ok a : Except Failure α) := by
  rintro ⟨f, h, -⟩
  cases h

@[simp] theorem error : Escapes (.error f : Except Failure α) ↔ f.isConfiguration = false := by
  constructor
  · rintro ⟨g, h, hg⟩
    cases h
    exact hg
  · exact fun h => ⟨f, rfl, h⟩

/-- One computation after another escapes where either of them does. -/
theorem bind : Escapes (x >>= next) ↔ Escapes x ∨ ∃ a, x = .ok a ∧ Escapes (next a) := by
  cases x with
  | error f =>
    show Escapes (.error f : Except Failure β) ↔ _
    simp
  | ok a =>
    show Escapes (next a) ↔ _
    simp

/-- What never escapes itself lets through what escapes before it. -/
theorem bind_of_settled (settled : ∀ a, ¬ Escapes (next a)) : Escapes (x >>= next) ↔ Escapes x := by
  simp [bind, settled]

theorem not_bind (first : ¬ Escapes x) (settled : ∀ a, ¬ Escapes (next a)) : ¬ Escapes (x >>= next) :=
  (bind_of_settled settled).not.mpr first

/-- Where no item is refused, those that are not accepted escape. -/
theorem mapM {f : α → Except Failure β} {as : List α}
    (all : ∀ a ∈ as, ∀ e, f a = .error e → e.isConfiguration = false) :
    Escapes (as.mapM f) ↔ ∃ a ∈ as, Escapes (f a) := by
  constructor
  · rintro ⟨e, h, he⟩
    obtain ⟨a, ha, hf⟩ := error_of_mapM h
    exact ⟨a, ha, e, hf, he⟩
  · rintro ⟨a, ha, e, hf, -⟩
    cases h : as.mapM f with
    | ok bs =>
      obtain ⟨b, -, hb⟩ := exists_right_of_forall₂ (forall₂_of_mapM h) ha
      cases hf.symm.trans hb
    | error e' =>
      obtain ⟨a', ha', hf'⟩ := error_of_mapM h
      exact error.mpr (all a' ha' e' hf')

end Escapes

namespace Catalog

/-- The way to a path breaks off. The module is named as if from the module that it stands in, which nothing
does in a document, or a failure is met that is neither a fault of the configuration nor that of an attribute
that is not there. -/
def BreaksOff (catalog : Catalog) (module : String) (path : List String) : Prop :=
  module.startsWith "." = true ∨ ∃ f, catalog.obstacle? module path = some f ∧
    f.isAttribute = false ∧ f.isConfiguration = false

/-- A reference leads to a path that breaks off. The path inside the module is taken in steps. -/
def IsUnreachable (catalog : Catalog) (steps : String → List String) (reference : String) : Prop :=
  ∃ module path, splitReference? reference = some (module, path) ∧ module ≠ "" ∧ path ≠ "" ∧
    catalog.BreaksOff module (steps path)

variable {catalog : Catalog}

theorem not_isUnreachable_empty (steps : String → List String) : ¬ catalog.IsUnreachable steps "" := by
  rintro ⟨module, path, h, -⟩
  cases h

theorem escapes_find? (module : String) (path : List String) :
    Escapes (catalog.find? module path) ↔ catalog.BreaksOff module path := by
  unfold find? BreaksOff
  by_cases relative : module.startsWith "." = true
  · simp [relative, Failure.isConfiguration]
  · rw [if_neg relative]
    cases catalog.obstacle? module path with
    | none => simp [relative]
    | some f => cases hf : f.isAttribute <;> simp [relative, hf]

theorem escapes_resolveEntity (reference : String) : Escapes (catalog.resolveEntity reference) ↔
    catalog.IsUnreachable (Text.splitText ".") (Text.trim reference) := by
  unfold resolveEntity IsUnreachable
  rcases splitReference? (Text.trim reference) with _ | ⟨module, path⟩
  · simp [Failure.isConfiguration]
  by_cases blank : module = "" ∨ path = ""
  · have refused : (module.isEmpty || path.isEmpty) = true := by
      simpa [String.isEmpty_iff] using blank
    have unnamed : ¬ (module ≠ "" ∧ path ≠ "") := not_and_or.mpr (by simpa using blank)
    simp [refused, Failure.isConfiguration]
    tauto
  · have named : ¬ (module.isEmpty || path.isEmpty) = true := by
      simpa [String.isEmpty_iff] using blank
    simp only [if_neg named]
    rw [Escapes.bind_of_settled, escapes_find?]
    · simp [not_or.mp blank]
    · -- what is found, or not found, is a matter of the configuration
      intro found
      split
      · simp [Failure.isConfiguration]
      · split
        · exact Escapes.ok _
        · simp [Failure.isConfiguration]

end Catalog

namespace Declaration

variable {catalog : Catalog} {d : Declaration}

theorem escapes_require (text : Option String) (otherwise : DeclarationError) :
    ¬ Escapes (require text otherwise) := by
  unfold require
  split <;> simp [Failure.isConfiguration]

theorem escapes_entityClass (table : String) (reference : EntityReference) :
    Escapes (entityClass catalog table reference) ↔
      ∃ text, reference = .path text ∧
        catalog.IsUnreachable (Text.splitText ".") (Text.trim text) := by
  cases reference with
  | missing => simp [entityClass, Failure.isConfiguration]
  | known c => simp [entityClass]
  | path text =>
    by_cases blank : (Text.nonBlank? text).isNone = true
    · have empty : Text.trim text = "" := by
        simpa [Text.nonBlank?, String.isEmpty_iff] using blank
      simp [entityClass, blank, empty, Catalog.not_isUnreachable_empty, Failure.isConfiguration]
    · simp [entityClass, blank, Catalog.escapes_resolveEntity]

/-- A declaration escapes by its reference alone. -/
theorem escapes_build : Escapes (d.build catalog) ↔
    (nonBlank? d.captureTable).isSome = true ∧
      ∃ text, d.entity = .path text ∧
        catalog.IsUnreachable (Text.splitText ".") (Text.trim text) := by
  unfold build
  rw [Escapes.bind, or_iff_right (escapes_require _ _)]
  have named : (nonBlank? d.captureTable).isSome = true ↔
      ∃ table, require d.captureTable .noCaptureTable = .ok table := by
    unfold require
    cases nonBlank? d.captureTable <;> simp
  rw [named, ← exists_and_right]
  refine exists_congr fun table => and_congr_right fun _ => ?_
  rw [Escapes.bind_of_settled, escapes_entityClass]
  intro c
  have refused (e : DeclarationError) (next : PUnit → Except Failure CaptureModel) :
      ¬ Escapes (.error (.declaration e) >>= next) := by
    simp [Escapes.bind, Failure.isConfiguration]
  by_cases noIds : d.idColumns.isEmpty = true
  · simpa only [noIds, if_true] using refused _ _
  by_cases blank : d.idColumns.any hasBlank = true
  · simpa only [noIds, blank, if_true, if_false, Bool.false_eq_true] using refused _ _
  simp only [noIds, blank, if_false, Bool.false_eq_true]
  refine Escapes.not_bind (escapes_require _ _) fun _ => Escapes.not_bind (escapes_require _ _) fun _ => ?_
  split
  · exact Escapes.ok _
  · simp [Failure.isConfiguration]

theorem escapes_buildFrom_cons (taken : List String) (d : Declaration) (rest : List Declaration) :
    Escapes (buildFrom catalog taken (d :: rest)) ↔ Escapes (d.build catalog) ∨
      ∃ m, d.build catalog = .ok m ∧ m.captureTable ∉ taken ∧
        Escapes (buildFrom catalog (taken ++ [m.captureTable]) rest) := by
  rw [buildFrom, Escapes.bind]
  refine or_congr_right (exists_congr fun m => and_congr_right fun _ => ?_)
  by_cases doubled : m.captureTable ∈ taken
  · simp only [doubled, if_true, not_true, false_and, iff_false]
    simp [Escapes.bind, Failure.isConfiguration]
  · simp only [doubled, if_false, not_false_iff, true_and]
    exact Escapes.bind_of_settled fun _ => Escapes.ok _

/-- The first declaration that is not accepted decides. -/
theorem escapes_buildFrom (taken : List String) (ds : List Declaration) :
    Escapes (buildFrom catalog taken ds) ↔ ∃ before d after, ds = before ++ d :: after ∧
      (∃ ms, buildFrom catalog taken before = .ok ms) ∧ Escapes (d.build catalog) := by
  induction ds generalizing taken with
  | nil => simp [buildFrom]
  | cons d rest ih =>
    rw [escapes_buildFrom_cons]
    constructor
    · rintro (h | ⟨m, hm, free, h⟩)
      · exact ⟨[], d, rest, rfl, ⟨[], rfl⟩, h⟩
      · obtain ⟨before, e, after, rfl, accepted, he⟩ := (ih _).mp h
        obtain ⟨ms, hms⟩ := accepted
        exact ⟨d :: before, e, after, rfl, ⟨_, buildFrom_cons.mpr ⟨m, ms, hm, free, hms, rfl⟩⟩, he⟩
    · rintro ⟨before, e, after, split, accepted, he⟩
      rcases before with _ | ⟨first, before⟩
      · obtain ⟨rfl, rfl⟩ := List.cons_eq_cons.mp split
        exact .inl he
      · obtain ⟨rfl, rfl⟩ := List.cons_eq_cons.mp split
        obtain ⟨_, accepted⟩ := accepted
        obtain ⟨m, ms, hm, free, hms, -⟩ := buildFrom_cons.mp accepted
        exact .inr ⟨m, hm, free, (ih _).mpr ⟨before, e, after, rfl, ⟨ms, hms⟩, he⟩⟩

theorem escapes_buildAll (ds : List Declaration) :
    Escapes (buildAll catalog ds) ↔ ∃ before d after, ds = before ++ d :: after ∧
      (∃ ms, buildAll catalog before = .ok ms) ∧ Escapes (d.build catalog) :=
  escapes_buildFrom [] ds

end Declaration

namespace Trigger

variable {catalog : Catalog}

/-- The name of a source stands for nothing that could be made: it cannot be reached, or names a class that
fails to make a source, as the one does that all sources come from. -/
def IsUnmakable (catalog : Catalog) (name : String) : Prop :=
  shippedSources.lookup (Text.lower name) = none ∧
    (catalog.IsUnreachable ([·]) name ∨
      ∃ c f, findMember catalog name = .ok (some (.unmakable c f)) ∧ f.isConfiguration = false)

theorem escapes_findMember (name : String) :
    Escapes (findMember catalog name) ↔ catalog.IsUnreachable ([·]) name := by
  unfold findMember Catalog.IsUnreachable
  rcases Catalog.splitReference? name with _ | ⟨module, path⟩
  · simp
  by_cases blank : module = "" ∨ path = ""
  · have refused : (module.isEmpty || path.isEmpty) = true := by
      simpa [String.isEmpty_iff] using blank
    simp [refused]
    tauto
  · have named : ¬ (module.isEmpty || path.isEmpty) = true := by
      simpa [String.isEmpty_iff] using blank
    simp only [if_neg named]
    rw [Escapes.bind_of_settled, Catalog.escapes_find?]
    · simp [not_or.mp blank]
    · intro found
      split
      · exact Escapes.ok _
      · simp [Failure.isConfiguration]

theorem escapes_sourceOf (otherwise : TriggerError) (member : Member) :
    Escapes (sourceOf otherwise member) ↔
      ∃ c f, member = .unmakable c f ∧ f.isConfiguration = false := by
  cases member <;> simp [sourceOf, Failure.isConfiguration]

/-- A source escapes where its name stands for nothing that could be made. -/
theorem escapes_resolveSource (text : Option String) :
    Escapes (resolveSource catalog (.path text)) ↔
      ∃ name, text.bind Text.nonBlank? = some name ∧ IsUnmakable catalog name := by
  rw [resolveSource, resolvePath]
  cases hname : text.bind Text.nonBlank? with
  | none => simp [Failure.isConfiguration]
  | some name =>
    cases hshipped : shippedSources.lookup (Text.lower name) with
    | some source =>
      simp only [hshipped, IsUnmakable, Option.some.injEq, exists_eq_left', reduceCtorEq, false_and,
        Escapes.ok]
    | none =>
      simp only [hshipped, Escapes.bind, escapes_findMember, Option.some.injEq, exists_eq_left',
        IsUnmakable, true_and]
      refine or_congr_right ?_
      constructor
      · rintro ⟨found, hfound, escapes⟩
        split at escapes
        · obtain ⟨c, f, rfl, hf⟩ := (escapes_sourceOf ..).mp escapes
          exact ⟨c, f, hfound, hf⟩
        · simp [Failure.isConfiguration] at escapes
      · rintro ⟨c, f, hfound, hf⟩
        exact ⟨_, hfound, (escapes_sourceOf ..).mpr ⟨c, f, rfl, hf⟩⟩

/-- A plan is not made if its source fails to tell one of the parts that the strategy asks for. -/
theorem planned_error_iff {s : TriggerSource} {ms : List CaptureModel} {strategy : Strategy} :
    (∃ f, planned s ms strategy = .error f) ↔ ∃ code, s.own = some code ∧
      ∃ p ∈ Plan.partsOf code ms strategy, ∃ f, p.part = .error f := by
  have tells (p : PlannedPart (Except Failure (List String))) (f : Failure) :
      Plan.tell s p = .error f ↔ p.part = .error f := by
    unfold Plan.tell
    cases p.part <;> simp [bind, Except.bind, pure, Except.pure]
  unfold planned
  cases s.own with
  | none => simp
  | some code =>
    simp only [Option.some.injEq, exists_eq_left', Plan.ofCode]
    cases h : (Plan.partsOf code ms strategy).mapM (Plan.tell s) with
    | ok told =>
      simp only [bind, Except.bind, pure, Except.pure, reduceCtorEq, exists_false, false_iff]
      rintro ⟨p, hp, f, hf⟩
      obtain ⟨ps, -, hps⟩ := exists_right_of_forall₂ (forall₂_of_mapM h) hp
      cases ((tells p f).mpr hf).symm.trans hps
    | error f =>
      obtain ⟨p, hp, hf⟩ := error_of_mapM h
      exact iff_of_true ⟨f, rfl⟩ ⟨p, hp, f, (tells p f).mp hf⟩

end Trigger

namespace Url

/-- The text of the port in what follows the name of an address. -/
def portText? (rest : List Char) : Option (List Char) := (cutPort (cutHost (cutUser rest).2.2).2).1

/-- The address has a port that is no integer. -/
def HasUnreadablePort (address : String) : Prop :=
  ∃ name rest digits, cutName? address.toList = some (name, rest) ∧ portText? rest = some digits ∧
    ∀ n, Value.integerOfText (String.ofList digits) ≠ .ok n

/-- All but the port is there as it stands in the address. -/
theorem read_eq {address : String} {name rest : List Char}
    (hcut : cutName? address.toList = some (name, rest)) :
    ∃ make : Option Int → Parts, Parts.read address = (readPort (portText? rest)).map make := by
  refine ⟨fun port => ⟨String.ofList name, (cutUser rest).1.map String.ofList,
    (cutUser rest).2.1.map String.ofList, (cutHost (cutUser rest).2.2).1.map String.ofList, port,
    (cutDatabase (cutPort (cutHost (cutUser rest).2.2).2).2).map String.ofList⟩, ?_⟩
  rw [Parts.read, hcut]
  unfold portText?
  cases hport : readPort (cutPort (cutHost (cutUser rest).2.2).2).1 <;>
    simp only [hport] <;> rfl

/-- An address is taken apart, or is none at all, unless its port is unreadable. -/
theorem read_cases (address : String) :
    (¬ HasUnreadablePort address ∧
      ((∃ parts, Parts.read address = .ok parts) ∨ ∃ e, Parts.read address = .error (.driver e))) ∨
    (HasUnreadablePort address ∧ ∃ cause, Parts.read address = .error (.conversion cause)) := by
  unfold HasUnreadablePort
  cases hcut : cutName? address.toList with
  | none => simp [Parts.read, hcut]
  | some cut =>
    obtain ⟨name, rest⟩ := cut
    obtain ⟨make, hread⟩ := read_eq hcut
    cases hdigits : portText? rest with
    | none => simp [hread, hdigits, readPort, Except.map]
    | some digits =>
      cases hn : Value.integerOfText (String.ofList digits) <;>
        simp [hread, hdigits, hn, readPort, Except.map, Except.mapError]

/-- An address escapes by its port alone. -/
theorem escapes_dialect? (url : Option String) : Escapes (dialect? url) ↔
    ∃ text address, url = some text ∧ (Text.nonBlank? text).isSome = true ∧
      normalize text = .ok address ∧ HasUnreadablePort address := by
  cases url with
  | none => simp [dialect?]
  | some text =>
    by_cases blank : (Text.nonBlank? text).isSome = true
    · have given : (some text).filter (fun u => (Text.nonBlank? u).isSome) = some text := by
        simp [Option.filter, blank]
      cases hnormal : normalize text with
      | error f => simp [dialect?, given, blank, hnormal]
      | ok address =>
        rcases read_cases address with ⟨readable, ⟨parts, hread⟩ | ⟨e, hread⟩⟩ |
          ⟨unreadable, cause, hread⟩
        · simp [dialect?, given, blank, hnormal, hread, readable]
        · simp [dialect?, given, blank, hnormal, hread, readable]
        · simp [dialect?, given, blank, hnormal, hread, unreadable, Failure.isConfiguration]
    · have absent : (some text).filter (fun u => (Text.nonBlank? u).isSome) = none := by
        simp [Option.filter, blank]
      simp [dialect?, absent, blank]

end Url

namespace Config.Settings

/-- Some key of the entries is no text. -/
def HasOtherKey (entries : Entries Value Value) : Prop := ∃ entry ∈ entries, ∀ name, entry.1 ≠ .text name

/-- The variable for the list of watched entities is not in JSON. -/
def HasUnreadableVariable (env : Environment) : Prop :=
  ∃ text, named? env listName = some text ∧ Json.read? text = none

/-- The entries have texts as keys, or escape. -/
theorem textKeys_cases (entries : Entries Value Value) :
    (HasOtherKey entries ∧ Escapes (textKeys entries)) ∨
      (¬ HasOtherKey entries ∧ ∃ given, textKeys entries = .ok given) := by
  cases h : textKeys entries with
  | error e =>
    obtain ⟨⟨k, v⟩, hentry, he⟩ := error_of_mapM h
    have other : (∀ name, k ≠ .text name) ∧ e = .nonTextSetting := by cases k <;> cases he <;> simp
    exact .inl ⟨⟨_, hentry, other.1⟩, by simp [other.2, Failure.isConfiguration]⟩
  | ok given =>
    refine .inr ⟨?_, given, rfl⟩
    rintro ⟨⟨k, v⟩, hentry, other⟩
    obtain ⟨b, -, hb⟩ := exists_right_of_forall₂ (forall₂_of_mapM h) hentry
    cases k <;> first | exact other _ rfl | cases hb

theorem escapes_fromEnvironment (env : Environment) (name : String) :
    Escapes (fromEnvironment env name) ↔ name = listName ∧ HasUnreadableVariable env := by
  unfold fromEnvironment HasUnreadableVariable
  by_cases other : name = listName
  · subst other
    cases hnamed : named? env listName with
    | none => simp
    | some text =>
      cases hread : Json.read? text with
      | none => simp [hread, Failure.isConfiguration]
      | some v => cases v <;> simp [hread]
  · simp [other]

theorem isConfiguration_of_fromEnvironment {env : Environment} {name : String} {f : Failure}
    (h : fromEnvironment env name = .error f) : f.isConfiguration = false := by
  unfold fromEnvironment at h
  split at h
  · cases h
  · split at h
    · cases h
    · split at h <;> cases h
      rfl

theorem escapes_layered (env : Environment) (given : List (String × Value)) :
    Escapes (layered env given) ↔ HasUnreadableVariable env := by
  unfold layered
  rw [Escapes.bind_of_settled, Escapes.mapM]
  · have listed : listName ∈ names := by decide
    have layer (name : String) : Escapes (do
        let fallback ← fromEnvironment env name
        return ((given? given name).or fallback).map fun v => (name, v)) ↔
        name = listName ∧ HasUnreadableVariable env := by
      rw [Escapes.bind_of_settled, escapes_fromEnvironment]
      exact fun _ => Escapes.ok _
    simp only [layer]
    exact ⟨fun ⟨_, _, _, h⟩ => h, fun h => ⟨listName, listed, rfl, h⟩⟩
  · intro name _ e h
    cases hfallback : fromEnvironment env name with
    | ok fallback =>
      rw [hfallback] at h
      cases h
    | error f =>
      rw [hfallback] at h
      cases h
      exact isConfiguration_of_fromEnvironment hfallback
  · exact fun _ => Escapes.ok _

theorem escapes_valuesOf (env : Environment) (options : Options) (given : List (String × Value)) :
    Escapes (valuesOf env options given) ↔
      options.steering given = [] ∧ HasUnreadableVariable env ∨ options.steering given ≠ [] ∧
        Escapes (options.read (options.steering given) (options.others given) env) := by
  unfold valuesOf
  by_cases unsteered : options.steering given = []
  · simp [unsteered, escapes_layered]
  · simp [unsteered]

theorem escapes_ofValues (values : List (String × Value)) : ¬ Escapes (ofValues values) := by
  unfold ofValues
  split <;> simp [Failure.isConfiguration]

/-- Settings escape by a key that is no text. Then it matters whether the entries say that settings come from
elsewhere: if not, they escape by the variable that is not in JSON, and if so, by what the library does. -/
theorem escapes_ofEntries (env : Environment) (entries : Entries Value Value) (options : Options) :
    Escapes (ofEntries env entries options) ↔ HasOtherKey entries ∨
      ∃ given, textKeys entries = .ok given ∧
        (options.steering given = [] ∧ HasUnreadableVariable env ∨
          options.steering given ≠ [] ∧
            Escapes (options.read (options.steering given) (options.others given) env)) := by
  unfold ofEntries
  rw [Escapes.bind]
  rcases textKeys_cases entries with ⟨other, escapes⟩ | ⟨texts, given, hgiven⟩
  · simp [other, escapes]
  · simp only [hgiven, Except.ok.injEq, exists_eq_left', Escapes.ok, texts, false_or]
    rw [Escapes.bind_of_settled escapes_ofValues, escapes_valuesOf]

end Config.Settings

end IndexSync
