import IndexSync.Proofs.Outcome
import IndexSync.Proofs.Trigger.Reading
import IndexSync.Trigger.Plan
import IndexSync.Trigger.Resolution
import Mathlib.Data.List.Nodup
import Mathlib.Data.Set.Insert

/-!
# Objects dropped and made anew

The statements of a plan drop and create tables, triggers and functions by name. Names are made from the names of
capture tables, so that those of different models never meet, and what one model drops is never what another has
created before.
-/
namespace IndexSync.Trigger

inductive ObjectKind
  | table | trigger | function
  deriving DecidableEq, Repr

/-- An object of a database that a setup makes. Objects of different kinds may have one name. -/
structure SetupObject where
  kind : ObjectKind
  name : String
  deriving DecidableEq, Repr

/-- What a statement does to an object. -/
inductive Effect
  | drop (o : SetupObject)
  | create (o : SetupObject)
  deriving DecidableEq, Repr

namespace Effect

def isDrop : Effect → Bool
  | drop _ => true
  | create _ => false

def created? : Effect → Option SetupObject
  | drop _ => none
  | create o => some o

/-- The objects that are there after a statement. To create what is there or to drop what is not changes
nothing. -/
def after (there : Set SetupObject) : Effect → Set SetupObject
  | drop o => there \ {o}
  | create o => insert o there

/-- The objects that are there after some statements. -/
def afterAll (there : Set SetupObject) (es : List Effect) : Set SetupObject := es.foldl after there

/-- What is created and not dropped afterwards is there. -/
theorem mem_afterAll {o : SetupObject} {es : List Effect} {there : Set SetupObject} (h : o ∈ there)
    (never : .drop o ∉ es) : o ∈ afterAll there es := by
  induction es generalizing there with
  | nil => exact h
  | cons e rest ih =>
    refine ih ?_ (fun hdrop => never (List.mem_cons_of_mem e hdrop))
    cases e with
    | drop p =>
      refine ⟨h, fun same => never ?_⟩
      rw [Set.mem_singleton_iff.mp same]
      exact List.mem_cons_self
    | create p => exact Set.mem_insert_of_mem p h

/-- What is dropped and not created afterwards is gone. -/
theorem notMem_afterAll {o : SetupObject} {es : List Effect} {there : Set SetupObject} (h : o ∉ there)
    (never : .create o ∉ es) : o ∉ afterAll there es := by
  induction es generalizing there with
  | nil => exact h
  | cons e rest ih =>
    refine ih ?_ (fun hcreate => never (List.mem_cons_of_mem e hcreate))
    cases e with
    | drop p => exact fun there => h there.1
    | create p =>
      rintro (rfl | there)
      · exact never List.mem_cons_self
      · exact h there

end Effect

namespace Reading

/-- The mark between which a dialect has its names. -/
def nameMark : Dialect → Char
  | .mysql => '\x60'
  | _ => '"'

/-- The words that stand before the name of an object. -/
def openings : List (String × (SetupObject → Effect) × ObjectKind) :=
  [("CREATE TABLE IF NOT EXISTS ", .create, .table), ("DROP TABLE IF EXISTS ", .drop, .table),
    ("CREATE OR REPLACE FUNCTION ", .create, .function), ("DROP FUNCTION IF EXISTS ", .drop, .function),
    ("CREATE TRIGGER IF NOT EXISTS ", .create, .trigger), ("CREATE TRIGGER ", .create, .trigger),
    ("DROP TRIGGER IF EXISTS ", .drop, .trigger)]

/-- What the text of a statement does, if it is about one of the objects. -/
def effect (q : Char) (text : String) : Option Effect :=
  openings.findSome? fun (opening, act, kind) => do
    let (_, cs) ← word opening text.toList
    let (name, _) ← name q cs
    return act ⟨kind, name⟩

/-- Where the name begins it is plain which words stand before it. -/
theorem openings_apart (dialect : Dialect) : openings.Pairwise fun a b =>
    ¬ a.1.toList <+: b.1.toList ++ [nameMark dialect] ∧
      ¬ b.1.toList ++ [nameMark dialect] <+: a.1.toList := by
  cases dialect <;> decide

/-- A statement is about the object whose name it begins with. -/
theorem effect_of_opening {dialect : Dialect} {token : String}
    (same : token = String.singleton (nameMark dialect)) (opening rest : String)
    {act : SetupObject → Effect} {kind : ObjectKind} {text name : String}
    (known : (opening, act, kind) ∈ openings) (ends : rest.toList.head? ≠ some (nameMark dialect))
    (begins : text = opening ++ (quote token name ++ rest)) :
    effect (nameMark dialect) text = some (act ⟨kind, name⟩) := by
  have front : text.toList = opening.toList ++
      ((quote (String.singleton (nameMark dialect)) name).toList ++ rest.toList) := by
    rw [begins, same, String.toList_append, String.toList_append]
  obtain ⟨before, after, hsplit⟩ := List.append_of_mem known
  have apart := openings_apart dialect
  rw [hsplit] at apart
  obtain ⟨-, -, apart⟩ := List.pairwise_append.mp apart
  obtain ⟨more, hmore⟩ : ∃ more, text.toList = opening.toList ++ [nameMark dialect] ++ more :=
    ⟨_, by
      simp only [front, quote, String.toList_append, String.toList_singleton, List.append_assoc]
      rfl⟩
  have others : ∀ other ∈ before, word other.1 text.toList = none := by
    intro other hother
    obtain ⟨shorter, longer⟩ := apart other hother _ List.mem_cons_self
    rw [word, if_neg]
    rw [List.isPrefixOf_iff_prefix, hmore]
    intro hpre
    rcases List.prefix_or_prefix_of_prefix hpre (List.prefix_append _ more) with h | h
    · exact shorter h
    · exact longer h
  rw [effect, hsplit, List.findSome?_append, List.findSome?_eq_none_iff.mpr, Option.none_or,
    List.findSome?_cons]
  · simp only [front, word_append, name_quote ends, Option.bind_eq_bind, Option.bind_some, Option.pure_def]
  · intro other hother
    simp only [others other hother, Option.bind_eq_bind, Option.bind_none]

end Reading

/-- What a command does by its meaning. -/
def Command.effect? : Command → Option Effect
  | createTable m => some (.create ⟨.table, m.captureTable⟩)
  | dropTable name => some (.drop ⟨.table, name⟩)
  | createFunction name _ => some (.create ⟨.function, name⟩)
  | dropFunction name => some (.drop ⟨.function, name⟩)
  | createTrigger name .. => some (.create ⟨.trigger, name⟩)
  | dropTrigger name _ => some (.drop ⟨.trigger, name⟩)
  | custom _ => none

/-- The text of a command does what the command means, whatever the names in it are. -/
theorem Command.effect_text {c : Command} {e : Effect} (h : c.effect? = some e) {dialect : Dialect}
    {token : String} (same : token = String.singleton (Reading.nameMark dialect)) :
    Reading.effect (Reading.nameMark dialect) (c.text dialect token) = some e := by
  have solid {rest : String} (h : rest.toList.head? = some ' ' ∨ rest.toList.head? = some '(') :
      rest.toList.head? ≠ some (Reading.nameMark dialect) := by
    rcases h with h | h <;> cases dialect <;> simp [h, Reading.nameMark]
  cases c with
  | createTable m =>
    cases h
    refine Reading.effect_of_opening same "CREATE TABLE IF NOT EXISTS "
      (" (" ++ (commaSeparated (columnTexts dialect token m) ++ ")")) (by simp [Reading.openings])
      (solid (.inl (by simp))) ?_
    delta Command.text
    simp only [String.append_assoc]
  | dropTable name =>
    cases h
    refine Reading.effect_of_opening same "DROP TABLE IF EXISTS " "" (by simp [Reading.openings]) (by simp) ?_
    delta Command.text
    simp only [String.append_empty]
  | createFunction name body =>
    cases h
    refine Reading.effect_of_opening same "CREATE OR REPLACE FUNCTION "
      ("() RETURNS TRIGGER AS $$ BEGIN " ++ (body.text token ++ "; RETURN NULL; END; $$ LANGUAGE plpgsql"))
      (by simp [Reading.openings]) (solid (.inr (by simp))) ?_
    delta Command.text
    simp only [String.append_assoc]
  | dropFunction name =>
    cases h
    refine Reading.effect_of_opening same "DROP FUNCTION IF EXISTS " "()" (by simp [Reading.openings])
      (solid (.inr (by simp))) ?_
    delta Command.text
    simp only [String.append_assoc]
  | createTrigger name kind table body =>
    cases h
    -- one dialect guards the creation, so that the name comes later in the text
    obtain ⟨opening, known, hopening⟩ : ∃ opening,
        (opening, Effect.create, ObjectKind.trigger) ∈ Reading.openings ∧
          opening = "CREATE TRIGGER " ++ if dialect = .sqlite then "IF NOT EXISTS " else "" := by
      refine ⟨_, ?_, rfl⟩
      cases dialect <;> simp [Reading.openings]
    refine Reading.effect_of_opening same opening (" AFTER " ++ (kind.name ++ (" ON " ++ (quote token table ++
      (" FOR EACH ROW " ++ body.text dialect token))))) known (solid (.inl (by simp))) ?_
    delta Command.text
    simp only [hopening, String.append_assoc]
  | dropTrigger name table =>
    cases h
    refine Reading.effect_of_opening same "DROP TRIGGER IF EXISTS "
      (if dialect = .postgresql then " ON " ++ quote token table else "") (by simp [Reading.openings]) ?_ ?_
    · split
      · exact solid (.inl (by simp))
      · simp
    · delta Command.text
      simp only [String.append_assoc]
  | custom text => cases h

/-- Objects that are dropped together and then made together. -/
structure Batch where
  drops : List SetupObject
  creates : List SetupObject

def Batch.effects (b : Batch) : List Effect := b.drops.map .drop ++ b.creates.map .create

/-- An object is made anew: it is created once, dropped before that and not afterwards. -/
structure Rebuilt (o : SetupObject) (es : List Effect) : Prop where
  once : es.count (.create o) = 1
  order : ∃ before between after, es = before ++ .drop o :: (between ++ .create o :: after) ∧
    .drop o ∉ after

/-- What is made anew is not there when it is created, and is there in the end, whatever was there before. -/
theorem Rebuilt.present {o : SetupObject} {es : List Effect} (h : Rebuilt o es) (there : Set SetupObject) :
    o ∈ Effect.afterAll there es ∧
      ∀ before after, es = before ++ .create o :: after → o ∉ Effect.afterAll there before := by
  obtain ⟨once, front, between, back, heq, never⟩ := h
  rw [← List.cons_append, ← List.append_assoc] at heq
  subst heq
  have only : .create o ∉ front ++ .drop o :: between ∧ .create o ∉ back := by
    rw [List.count_append, List.count_cons_self] at once
    rw [← List.count_eq_zero, ← List.count_eq_zero]
    omega
  refine ⟨?_, fun before after hsplit => ?_⟩
  · simp only [Effect.afterAll, List.foldl_append, List.foldl_cons]
    exact Effect.mem_afterAll (Set.mem_insert o _) never
  · obtain ⟨rfl, -⟩ := (List.append_cons_inj_of_notMem only.1 only.2).mp hsplit
    simp only [Effect.afterAll, List.foldl_append, List.foldl_cons]
    refine Effect.notMem_afterAll (fun gone => gone.2 rfl) fun hcreate => only.1 ?_
    exact List.mem_append_right _ (List.mem_cons_of_mem _ hcreate)

theorem count_create (o : SetupObject) (es : List Effect) :
    es.count (.create o) = (es.filterMap Effect.created?).count o := by
  induction es with
  | nil => rfl
  | cons e rest ih =>
    cases e with
    | drop p => simpa [List.count_cons, List.filterMap_cons, Effect.created?] using ih
    | create p => simp [List.count_cons, Effect.created?, ih]

theorem created_batches (bs : List Batch) :
    (bs.flatMap Batch.effects).filterMap Effect.created? = bs.flatMap (·.creates) := by
  induction bs with
  | nil => rfl
  | cons b rest ih =>
    have drops : (b.drops.map Effect.drop).filterMap Effect.created? = [] := by
      simp [List.filterMap_map, Function.comp_def, Effect.created?]
    have creates : (b.creates.map Effect.create).filterMap Effect.created? = b.creates := by
      simp [List.filterMap_map, Function.comp_def, Effect.created?]
    rw [List.flatMap_cons, List.flatMap_cons, List.filterMap_append, ih, Batch.effects, List.filterMap_append,
      drops, creates, List.nil_append]

/-- Each batch drops just what it creates, and no two batches create the same. Then all of it is made anew, though
later batches drop after earlier ones have created. -/
theorem rebuilt_of_batches {bs : List Batch} (distinct : (bs.flatMap (·.creates)).Nodup)
    (same : ∀ b ∈ bs, ∀ o, o ∈ b.drops ↔ o ∈ b.creates) {o : SetupObject}
    (h : o ∈ bs.flatMap (·.creates)) : Rebuilt o (bs.flatMap Batch.effects) := by
  refine ⟨?_, ?_⟩
  · rw [count_create, created_batches]
    exact List.count_eq_one_of_mem distinct h
  obtain ⟨b, hb, ho⟩ := List.mem_flatMap.mp h
  obtain ⟨earlier, later, rfl⟩ := List.append_of_mem hb
  obtain ⟨dropped, others, hdrops⟩ := List.append_of_mem ((same b hb o).mpr ho)
  obtain ⟨created, rest, hcreates⟩ := List.append_of_mem ho
  refine ⟨earlier.flatMap Batch.effects ++ dropped.map .drop, others.map .drop ++ created.map .create,
    rest.map .create ++ later.flatMap Batch.effects, ?_, fun hlate => ?_⟩
  · simp [Batch.effects, hdrops, hcreates]
  · -- a batch that drops it later would create it a second time
    have hlate : .drop o ∈ later.flatMap Batch.effects := by simpa using hlate
    obtain ⟨c, hc, hdrop⟩ := List.mem_flatMap.mp hlate
    have hdrop : o ∈ c.drops := by simpa [Batch.effects] using hdrop
    have again := (same c (by simp [hc]) o).mp hdrop
    rw [List.flatMap_append, List.flatMap_cons] at distinct
    have apart := (List.nodup_append.mp (List.nodup_append.mp distinct).2.1).2.2
    exact apart o ho o (List.mem_flatMap.mpr ⟨c, hc, again⟩) rfl

/-- The names of triggers tell capture tables and kinds of changes apart: the words for the kinds are of one
length. -/
theorem triggerName_inj {m m' : CaptureModel} {kind kind' : EventKind} (hk : kind ∈ EventKind.captured)
    (hk' : kind' ∈ EventKind.captured)
    (h : TriggerSource.defaultTriggerName m kind = TriggerSource.defaultTriggerName m' kind') :
    m.captureTable = m'.captureTable ∧ kind = kind' := by
  have six : ∀ kind ∈ EventKind.captured, kind.lowerName.toList.length = 6 := by decide
  have words : ∀ kind ∈ EventKind.captured, ∀ kind' ∈ EventKind.captured,
      kind.lowerName = kind'.lowerName → kind = kind' := by decide
  have heq := congrArg String.toList h
  simp only [TriggerSource.defaultTriggerName, String.toList_append] at heq
  obtain ⟨stem, word⟩ := List.append_inj' heq ((six kind hk).trans (six kind' hk').symm)
  exact ⟨String.toList_inj.mp (List.append_cancel_right stem),
    words kind hk kind' hk' (String.toList_inj.mp word)⟩

end IndexSync.Trigger
namespace IndexSync.TriggerSource

open Trigger

/-- The trigger for one kind of change, and the function behind it where there is one. -/
def triggerObjects (s : TriggerSource) (m : CaptureModel) (kind : EventKind) : List SetupObject :=
  ⟨.trigger, s.triggerName m kind⟩ :: ((s.functionName? m kind).map (⟨.function, ·⟩)).toList

/-- All that a source sets up for a model. -/
def objects (s : TriggerSource) (m : CaptureModel) : List SetupObject :=
  ⟨.table, m.captureTable⟩ :: EventKind.captured.flatMap (s.triggerObjects m)

def tableBatch (m : CaptureModel) : Batch := ⟨[⟨.table, m.captureTable⟩], [⟨.table, m.captureTable⟩]⟩

/-- A function is created before the trigger that calls it, and dropped after it. -/
def triggerBatch (s : TriggerSource) (m : CaptureModel) : Batch :=
  ⟨EventKind.captured.flatMap (s.triggerObjects m),
    EventKind.captured.flatMap fun kind => (s.triggerObjects m kind).reverse⟩

/-- The batches of a plan. -/
def batches (s : TriggerSource) (ms : List CaptureModel) : List Batch :=
  ms.map tableBatch ++ ms.map s.triggerBatch

variable {s : TriggerSource} {m m' : CaptureModel} {kind kind' : EventKind} {o : SetupObject}
  {ms : List CaptureModel}

/-- The objects for different models or kinds of changes are different. -/
theorem triggerObjects_apart (named : s.triggerName = defaultTriggerName)
    (hk : kind ∈ EventKind.captured) (hk' : kind' ∈ EventKind.captured) (h : o ∈ s.triggerObjects m kind)
    (h' : o ∈ s.triggerObjects m' kind') : m.captureTable = m'.captureTable ∧ kind = kind' := by
  have function {m : CaptureModel} {kind : EventKind} {name : String}
      (h : s.functionName? m kind = some name) : name = defaultTriggerName m kind ++ "_fn" := by
    unfold functionName? at h
    split at h
    · rw [← named]
      exact (Option.some.inj h).symm
    · cases h
  simp only [triggerObjects, List.mem_cons, Option.mem_toList, Option.map_eq_some_iff, named] at h h'
  rcases h with rfl | ⟨name, hname, rfl⟩ <;> rcases h' with h' | ⟨name', hname', h'⟩ <;>
    simp only [SetupObject.mk.injEq, reduceCtorEq, false_and, true_and] at h'
  · exact triggerName_inj hk hk' h'
  · rw [function hname, function hname'] at h'
    have stem := congrArg String.toList h'
    rw [String.toList_append, String.toList_append] at stem
    exact (triggerName_inj hk' hk (String.toList_inj.mp (List.append_cancel_right stem))).imp .symm .symm

/-- Of a table there is nothing but the table. -/
theorem kind_of_mem_triggerObjects (h : o ∈ s.triggerObjects m kind) : o.kind ≠ .table := by
  simp only [triggerObjects, List.mem_cons, Option.mem_toList, Option.map_eq_some_iff] at h
  rcases h with rfl | ⟨name, -, rfl⟩ <;> simp

theorem nodup_triggerObjects (s : TriggerSource) (m : CaptureModel) (kind : EventKind) :
    (s.triggerObjects m kind).Nodup := by
  cases hfun : s.functionName? m kind <;> simp [triggerObjects, hfun]

/-- No object is set up twice. -/
theorem nodup_batches (named : s.triggerName = defaultTriggerName)
    (distinct : (ms.map (·.captureTable)).Nodup) : ((s.batches ms).flatMap (·.creates)).Nodup := by
  have tables : (ms.map tableBatch).flatMap (·.creates) =
      (ms.map (·.captureTable)).map fun name => ⟨.table, name⟩ := by
    rw [List.flatMap_map, List.map_map]
    exact List.flatMap_pure_eq_map ..
  have triggers : (ms.map s.triggerBatch).flatMap (·.creates) = ms.flatMap fun m =>
      EventKind.captured.flatMap fun kind => (s.triggerObjects m kind).reverse := List.flatMap_map ..
  rw [batches, List.flatMap_append, tables, triggers]
  refine List.nodup_append.mpr ⟨distinct.map fun a b h => congrArg SetupObject.name h,
    List.nodup_flatMap.mpr ⟨fun m _ => List.nodup_flatMap.mpr ⟨fun kind _ => ?_, ?_⟩, ?_⟩, ?_⟩
  · exact List.nodup_reverse.mpr (nodup_triggerObjects s m kind)
  · have different : EventKind.captured.Pairwise (· ≠ ·) := by decide
    refine different.imp_of_mem fun hk hk' apart o ho ho' => apart ?_
    exact (triggerObjects_apart named hk hk' (List.mem_reverse.mp ho) (List.mem_reverse.mp ho')).2
  · refine (List.pairwise_map.mp distinct).imp fun apart o ho ho' => apart ?_
    obtain ⟨kind, hk, ho⟩ := List.mem_flatMap.mp ho
    obtain ⟨kind', hk', ho'⟩ := List.mem_flatMap.mp ho'
    exact (triggerObjects_apart named hk hk' (List.mem_reverse.mp ho) (List.mem_reverse.mp ho')).1
  · rintro o ho p hp rfl
    obtain ⟨name, -, rfl⟩ := List.mem_map.mp ho
    obtain ⟨m, -, hp⟩ := List.mem_flatMap.mp hp
    obtain ⟨kind, -, hp⟩ := List.mem_flatMap.mp hp
    exact kind_of_mem_triggerObjects (List.mem_reverse.mp hp) rfl

theorem batches_same {b : Batch} (h : b ∈ s.batches ms) (o : SetupObject) : o ∈ b.drops ↔ o ∈ b.creates := by
  rcases List.mem_append.mp h with h | h <;> obtain ⟨m, -, rfl⟩ := List.mem_map.mp h
  · exact Iff.rfl
  · simp [triggerBatch]

theorem mem_batches (hm : m ∈ ms) (ho : o ∈ s.objects m) : o ∈ (s.batches ms).flatMap (·.creates) := by
  rw [batches, List.flatMap_append, List.mem_append]
  rcases List.mem_cons.mp ho with rfl | ho
  · exact .inl (List.mem_flatMap.mpr ⟨_, List.mem_map_of_mem hm, List.mem_singleton_self _⟩)
  · refine .inr (List.mem_flatMap.mpr ⟨_, List.mem_map_of_mem hm, ?_⟩)
    simpa [triggerBatch] using ho

/-- No table is created after a trigger. -/
def TablesFirst (es : List Effect) : Prop :=
  es.Pairwise fun a b => ∀ trigger table,
    a = .create ⟨.trigger, trigger⟩ → b ≠ .create ⟨.table, table⟩

theorem tablesFirst_batches (s : TriggerSource) (ms : List CaptureModel) :
    TablesFirst ((s.batches ms).flatMap Batch.effects) := by
  have early : ∀ a ∈ (ms.map tableBatch).flatMap Batch.effects, ∀ name, a ≠ .create ⟨.trigger, name⟩ := by
    simp [tableBatch, Batch.effects, or_imp, forall_and]
  have late : ∀ b ∈ (ms.map s.triggerBatch).flatMap Batch.effects, ∀ name, b ≠ .create ⟨.table, name⟩ := by
    rintro b hb name rfl
    have : ∃ m ∈ ms, ∃ kind ∈ EventKind.captured, ⟨.table, name⟩ ∈ s.triggerObjects m kind := by
      simpa [triggerBatch, Batch.effects] using hb
    obtain ⟨m, -, kind, -, h⟩ := this
    exact kind_of_mem_triggerObjects h rfl
  rw [batches, List.flatMap_append]
  refine List.pairwise_append.mpr ⟨?_, ?_, fun a ha b _ trigger _ h => absurd h (early a ha trigger)⟩
  · exact List.pairwise_of_forall_mem_list fun a ha b _ trigger _ h => absurd h (early a ha trigger)
  · exact List.pairwise_of_forall_mem_list fun a _ b hb _ table _ => late b hb table

theorem shipped_cases (hs : s ∈ shippedSources.map (·.2)) :
    s = .postgresql ∨ s = .mysql ∨ s = .sqlite := by
  simpa [shippedSources] using hs

/-- What the statements of a plan mean, and in which dialect and with which token they are written. -/
def meaning (p : PlannedStatement) : Dialect × String × Option Effect × Bool :=
  (p.statement.dialect, p.statement.token, p.statement.command.effect?, p.isDrop)

theorem map_meaning_plan (hs : s ∈ shippedSources.map (·.2)) (ms : List CaptureModel) :
    (plan s ms .dropCreate).map meaning = ((s.batches ms).flatMap Batch.effects).map fun e =>
      (s.dialect, s.token, some e, e.isDrop) := by
  have table (m : CaptureModel) :
      ((Plan.table (setupParts s) true m).flatMap Plan.statements).map meaning =
        (tableBatch m).effects.map fun e => (s.dialect, s.token, some e, e.isDrop) := rfl
  have triggers (m : CaptureModel) :
      ((Plan.triggers (setupParts s) true m).flatMap Plan.statements).map meaning =
        (s.triggerBatch m).effects.map fun e => (s.dialect, s.token, some e, e.isDrop) := by
    rcases shipped_cases hs with rfl | rfl | rfl <;> rfl
  have shared : (Plan.shared (setupParts s) true).flatMap Plan.statements = [] := by
    rcases shipped_cases hs with rfl | rfl | rfl <;> rfl
  simp only [plan, Plan.ofParts, Plan.partsOf, Plan.parts, List.flatMap_append, List.flatMap_assoc, shared,
    List.append_nil, List.map_append, List.map_flatMap, table, triggers, batches, List.flatMap_map]

/-- The texts of a plan read as what they mean. -/
theorem map_effect_plan (hs : s ∈ shippedSources.map (·.2)) (ms : List CaptureModel) :
    (plan s ms .dropCreate).map (fun p =>
        (Reading.effect (Reading.nameMark s.dialect) p.statement.text, p.isDrop)) =
      ((s.batches ms).flatMap Batch.effects).map fun e => (some e, e.isDrop) := by
  have token : s.token = String.singleton (Reading.nameMark s.dialect) := by
    rcases shipped_cases hs with rfl | rfl | rfl <;> rfl
  have reads : ∀ p ∈ plan s ms .dropCreate,
      (Reading.effect (Reading.nameMark s.dialect) p.statement.text, p.isDrop) = (meaning p).2.2 := by
    intro p hp
    have known := List.mem_map_of_mem (f := meaning) hp
    rw [map_meaning_plan hs] at known
    obtain ⟨e, -, he⟩ := List.mem_map.mp known
    simp only [meaning, Prod.mk.injEq] at he
    obtain ⟨hdialect, htoken, heffect, -⟩ := he
    rw [Statement.text, ← hdialect, ← htoken, Command.effect_text heffect.symm token, meaning, heffect]
  calc
    _ = (plan s ms .dropCreate).map fun p => (meaning p).2.2 := List.map_congr_left reads
    _ = ((plan s ms .dropCreate).map meaning).map (·.2.2) := by rw [List.map_map]; rfl
    _ = _ := by rw [map_meaning_plan hs, List.map_map]; rfl

end IndexSync.TriggerSource
namespace IndexSync.Trigger

namespace Plan

variable {α : Type}

theorem filter_drops (part : α) : (drops true part).filter (!·.isDrop) = [] := rfl

theorem filter_creates (part : α) : (creates part).filter (!·.isDrop) = creates part := rfl

/-- To create without dropping is to ask for the same parts, but for the drops. -/
theorem partsOf_create (p : PartsOf α) (ms : List CaptureModel) :
    partsOf p ms .create = (partsOf p ms .dropCreate).filter (!·.isDrop) := by
  have without (m : CaptureModel) : table p false m = (table p true m).filter (!·.isDrop) := by
    simp only [table, List.filter_append, filter_drops, filter_creates]
    rfl
  have without' (m : CaptureModel) : triggers p false m = (triggers p true m).filter (!·.isDrop) := by
    simp only [triggers, List.filter_append, List.filter_flatMap, filter_drops, filter_creates]
    rfl
  have once : shared p false = (shared p true).filter (!·.isDrop) := by
    simp only [shared, List.filter_append, filter_drops, filter_creates]
    rfl
  simp only [partsOf, parts, List.filter_append, List.filter_flatMap, ← without, ← without', ← once]

/-- All statements of a part drop, or none does. -/
theorem filter_statements (part : PlannedPart (List Statement)) :
    (statements part).filter (!·.isDrop) = if part.isDrop then [] else statements part := by
  obtain ⟨ss, isDrop⟩ := part
  cases isDrop <;> simp [statements]

theorem ofParts_create (p : SetupParts) (ms : List CaptureModel) :
    ofParts p ms .create = (ofParts p ms .dropCreate).filter (!·.isDrop) := by
  rw [ofParts, ofParts, partsOf_create, List.filter_flatMap]
  induction partsOf p ms .dropCreate with
  | nil => rfl
  | cons part rest ih =>
    rw [List.flatMap_cons, filter_statements, ← ih]
    cases h : part.isDrop <;> simp [h]

theorem filter_of_tell {s : TriggerSource} {part : PlannedPart (Except Failure (List String))}
    {ps : List PlannedStatement} (h : tell s part = .ok ps) :
    ps.filter (!·.isDrop) = if part.isDrop then [] else ps := by
  obtain ⟨texts, -, h⟩ := ok_of_bind h
  cases h
  exact filter_statements _

/-- Parts that can all be told can be told without the drops. -/
theorem mapM_filter {s : TriggerSource} {parts : List (PlannedPart (Except Failure (List String)))}
    {told : List (List PlannedStatement)} (h : parts.mapM (tell s) = .ok told) :
    ∃ rest, (parts.filter (!·.isDrop)).mapM (tell s) = .ok rest ∧
      rest.flatten = told.flatten.filter (!·.isDrop) := by
  induction parts generalizing told with
  | nil =>
    cases h
    exact ⟨[], rfl, rfl⟩
  | cons part others ih =>
    rw [List.mapM_cons] at h
    obtain ⟨ss, hss, h⟩ := ok_of_bind h
    obtain ⟨told', htold, h⟩ := ok_of_bind h
    cases h
    obtain ⟨rest, hrest, flat⟩ := ih htold
    have mark := filter_of_tell hss
    cases hdrop : part.isDrop with
    | true =>
      rw [hdrop, if_pos rfl] at mark
      exact ⟨rest, by simp [hdrop, hrest], by simp [mark, flat]⟩
    | false =>
      rw [hdrop, if_neg Bool.false_ne_true] at mark
      refine ⟨ss :: rest, ?_, by simp [mark, flat]⟩
      simp only [List.filter_cons, hdrop, Bool.not_false, if_true, List.mapM_cons, hss, hrest]
      rfl

/-- What a source tells with code of its own leaves out the drops as well. -/
theorem planned_create {s : TriggerSource} {ms : List CaptureModel} {ps : List PlannedStatement}
    (h : planned s ms .dropCreate = .ok ps) : planned s ms .create = .ok (ps.filter (!·.isDrop)) := by
  unfold planned at h ⊢
  split at h
  · cases h
    rw [plan, ofParts_create]
    rfl
  · obtain ⟨told, htold, h⟩ := ok_of_bind h
    cases h
    rw [ofCode, partsOf_create]
    obtain ⟨rest, hrest, flat⟩ := mapM_filter htold
    rw [hrest, ← flat]
    rfl

end Plan

/-- To drop and create, as it reads in the texts of a shipped source: all objects of all models are made anew,
tables before triggers, so that in the end all of them are there and none was there when it was created. To
create without dropping is, for any source, to leave the drops out, also for one whose code is its own. -/
theorem recreates_all :
    (∀ s ∈ shippedSources.map (·.2), ∀ ms : List CaptureModel, (ms.map (·.captureTable)).Nodup →
      ∃ effects : List Effect,
        (plan s ms .dropCreate).map (fun p =>
          (Reading.effect (Reading.nameMark s.dialect) p.statement.text, p.isDrop)) =
            effects.map (fun e => (some e, e.isDrop)) ∧
        TriggerSource.TablesFirst effects ∧
        ∀ m ∈ ms, ∀ o ∈ s.objects m, Rebuilt o effects ∧
          ∀ there, o ∈ Effect.afterAll there effects ∧
            ∀ before after, effects = before ++ .create o :: after → o ∉ Effect.afterAll there before) ∧
    (∀ (p : SetupParts) (ms : List CaptureModel),
      Plan.ofParts p ms .create = (Plan.ofParts p ms .dropCreate).filter (!·.isDrop)) ∧
    ∀ (s : TriggerSource) (ms : List CaptureModel) (ps : List PlannedStatement),
      planned s ms .dropCreate = .ok ps → planned s ms .create = .ok (ps.filter (!·.isDrop)) := by
  refine ⟨fun s hs ms distinct => ?_, Plan.ofParts_create, fun _ _ _ => Plan.planned_create⟩
  have named : s.triggerName = TriggerSource.defaultTriggerName := by
    rcases TriggerSource.shipped_cases hs with rfl | rfl | rfl <;> rfl
  refine ⟨_, TriggerSource.map_effect_plan hs ms, TriggerSource.tablesFirst_batches s ms,
    fun m hm o ho => ?_⟩
  have rebuilt := rebuilt_of_batches (TriggerSource.nodup_batches named distinct)
    (fun b hb => TriggerSource.batches_same hb) (TriggerSource.mem_batches hm ho)
  exact ⟨rebuilt, rebuilt.present⟩

/-- Models of which one has its capture table named as another names its trigger, and a third as the function
behind that. -/
def alikeModels : List CaptureModel :=
  let model (table : String) : CaptureModel :=
    ⟨.root "places" "Place", table, "place", [⟨"placefk", "id", IdColumn.defaultType⟩],
      CaptureModel.defaultEventTypeColumn, CaptureModel.defaultKeyColumn⟩
  [model "places", model "places_insert", model "places_insert_fn"]

theorem recreates_alike :
    TriggerSource.postgresql ∈ shippedSources.map (·.2) ∧ (alikeModels.map (·.captureTable)).Nodup ∧
      ∃ effects : List Effect, effects.length = 42 ∧
        (plan .postgresql alikeModels .dropCreate).map (fun p =>
          (Reading.effect '"' p.statement.text, p.isDrop)) = effects.map (fun e => (some e, e.isDrop)) ∧
        Rebuilt ⟨.function, "places_insert_fn"⟩ effects ∧ Rebuilt ⟨.table, "places_insert_fn"⟩ effects ∧
        (plan .postgresql alikeModels .create).length = 21 := by
  have shipped : TriggerSource.postgresql ∈ shippedSources.map (·.2) := by simp [shippedSources]
  have distinct : (alikeModels.map (·.captureTable)).Nodup := by decide
  obtain ⟨effects, read, -, rebuilt⟩ := recreates_all.1 .postgresql shipped alikeModels distinct
  refine ⟨shipped, distinct, effects, ?_, read, (rebuilt _ List.mem_cons_self _ ?_).1,
    (rebuilt alikeModels[2] (by decide) _ List.mem_cons_self).1, ?_⟩
  · have same := congrArg List.length read
    rw [List.length_map, List.length_map] at same
    exact same.symm
  · decide
  · rfl

end IndexSync.Trigger
