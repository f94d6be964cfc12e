import IndexSync.Capture.Declaration
import IndexSync.Proofs.Outcome
import IndexSync.Proofs.Text.Trim

/-!
# Which declarations are accepted

A declaration is accepted if it is complete and no declaration before it has taken its capture table. Blanks
around its parts do not count, and a part of blanks alone is no part.
-/
namespace IndexSync

open Text

/-- A part is given, with this value between its blanks. -/
def Given (part : Option String) (value : String) : Prop :=
  ∃ text, part = some text ∧ ¬ Blank text ∧ Trimmed text value

/-- A part is absent, or there is nothing in it. -/
def Missing (part : Option String) : Prop := ∀ text, part = some text → Blank text

theorem Given.unique {part : Option String} {v w : String} (h : Given part v) (h' : Given part w) : v = w := by
  obtain ⟨text, rfl, -, trimmed⟩ := h
  obtain ⟨_, same, -, trimmed'⟩ := h'
  cases same
  rw [trimmed_iff.mp trimmed, trimmed_iff.mp trimmed']

theorem Missing.not_given {part : Option String} (h : Missing part) (value : String) : ¬ Given part value := by
  rintro ⟨text, rfl, solid, -⟩
  exact solid (h text rfl)

namespace EntityReference

/-- The class that a reference names. -/
def Names (catalog : Catalog) : EntityReference → EntityClass → Prop
  | .missing, _ => False
  | .path text, c => ¬ Blank text ∧ catalog.resolveEntity text = .ok c
  | .known d, c => d = c

/-- A path that is given leads to a class. -/
def Leads (catalog : Catalog) : EntityReference → Prop
  | .path text => Blank text ∨ ∃ c, catalog.resolveEntity text = .ok c
  | _ => True

theorem Names.unique {catalog : Catalog} {r : EntityReference} {c c' : EntityClass}
    (h : r.Names catalog c) (h' : r.Names catalog c') : c = c' := by
  cases r with
  | missing => cases h
  | path text => exact Except.ok.inj (h.2.symm.trans h'.2)
  | known d => exact h.symm.trans h'

end EntityReference

namespace Declaration

variable {catalog : Catalog} {d : Declaration} {ds : List Declaration} {m : CaptureModel}
  {ms : List CaptureModel} {taken : List String} {f : Failure}

/-- All parts of a declaration are there. The source table may be known from the class. -/
structure Complete (catalog : Catalog) (d : Declaration) : Prop where
  captureTable : ∃ table, Given d.captureTable table
  entity : ∃ c, d.entity.Names catalog c
  idColumns : d.idColumns ≠ []
  filled : ∀ column ∈ d.idColumns, ¬ Blank column.captureColumn ∧ ¬ Blank column.sourceColumn
  eventTypeColumn : ∃ name, Given d.eventTypeColumn name
  keyColumn : ∃ name, Given d.keyColumn name
  sourceTable : (∃ name, Given d.sourceTable name) ∨
    ∃ c name, d.entity.Names catalog c ∧ c.hints.tableName? = some name

/-- What a declaration lacks, as the error says it. -/
inductive Lacks (catalog : Catalog) (d : Declaration) : DeclarationError → Prop
  | captureTable (missing : Missing d.captureTable) : Lacks catalog d .noCaptureTable
  | entity {table} (named : Given d.captureTable table) (missing : ∀ c, ¬ d.entity.Names catalog c) :
    Lacks catalog d (.noEntity table)
  | idColumns {table} (named : Given d.captureTable table) (missing : d.idColumns = []) :
    Lacks catalog d (.noIdColumns table)
  | filled {table column} (named : Given d.captureTable table) (h : column ∈ d.idColumns)
    (blank : Blank column.captureColumn ∨ Blank column.sourceColumn) :
    Lacks catalog d (.blankIdColumn table)
  | eventTypeColumn {table} (named : Given d.captureTable table) (missing : Missing d.eventTypeColumn) :
    Lacks catalog d (.noEventTypeColumn table)
  | keyColumn {table} (named : Given d.captureTable table) (missing : Missing d.keyColumn) :
    Lacks catalog d (.noKeyColumn table)
  | sourceTable {table c} (named : Given d.captureTable table) (entity : d.entity.Names catalog c)
    (missing : Missing d.sourceTable) (unknown : c.hints.tableName? = none) :
    Lacks catalog d (.noSourceTable table c.type.name)

/-- A model is what a declaration says, without the blanks around its parts. A source table that is not given
is that of the class. -/
structure Describes (catalog : Catalog) (d : Declaration) (m : CaptureModel) : Prop where
  captureTable : Given d.captureTable m.captureTable
  entity : ∃ c, d.entity.Names catalog c ∧ m.entityType = c.type
  idColumns : m.idColumns = d.idColumns
  eventTypeColumn : Given d.eventTypeColumn m.eventTypeColumn
  keyColumn : Given d.keyColumn m.keyColumn
  sourceTable : Given d.sourceTable m.sourceTable ∨ Missing d.sourceTable ∧
    ∃ c, d.entity.Names catalog c ∧ c.hints.tableName? = some m.sourceTable

/-- Two declarations do not have one capture table. -/
def Apart (d e : Declaration) : Prop := ∀ table, Given d.captureTable table → ¬ Given e.captureTable table

theorem Lacks.incomplete {e : DeclarationError} (h : d.Lacks catalog e) : ¬ d.Complete catalog := by
  intro complete
  cases h with
  | captureTable missing =>
    obtain ⟨table, given⟩ := complete.captureTable
    exact missing.not_given table given
  | entity _ missing =>
    obtain ⟨c, names⟩ := complete.entity
    exact missing c names
  | idColumns _ missing => exact complete.idColumns missing
  | filled _ h blank =>
    obtain ⟨capture, source⟩ := complete.filled _ h
    exact blank.elim capture source
  | eventTypeColumn _ missing =>
    obtain ⟨name, given⟩ := complete.eventTypeColumn
    exact missing.not_given name given
  | keyColumn _ missing =>
    obtain ⟨name, given⟩ := complete.keyColumn
    exact missing.not_given name given
  | @sourceTable table c _ entity missing unknown =>
    rcases complete.sourceTable with ⟨name, given⟩ | ⟨c', name, names, known⟩
    · exact missing.not_given name given
    · rw [names.unique entity, unknown] at known
      cases known

theorem nonBlank?_cases (part : Option String) :
    (∃ value, nonBlank? part = some value ∧ Given part value) ∨ nonBlank? part = none ∧ Missing part := by
  cases part with
  | none => exact .inr ⟨rfl, nofun⟩
  | some text =>
    rw [nonBlank?, Option.bind_some]
    cases h : Text.nonBlank? text with
    | none =>
      refine .inr ⟨rfl, ?_⟩
      rintro _ ⟨⟩
      exact nonBlank?_eq_none_iff.mp h
    | some value => exact .inl ⟨value, rfl, text, rfl, nonBlank?_eq_some_iff.mp h⟩

theorem require_cases (part : Option String) (otherwise : DeclarationError) :
    (∃ value, require part otherwise = .ok value ∧ Given part value) ∨
      require part otherwise = .error (.declaration otherwise) ∧ Missing part := by
  unfold require
  rcases nonBlank?_cases part with ⟨value, h, given⟩ | ⟨h, missing⟩
  · exact .inl ⟨value, by rw [h], given⟩
  · exact .inr ⟨by rw [h], missing⟩

theorem entityClass_cases (table : String) {r : EntityReference} (leads : r.Leads catalog) :
    (∃ c, entityClass catalog table r = .ok c ∧ r.Names catalog c) ∨
      entityClass catalog table r = .error (.declaration (.noEntity table)) ∧
        ∀ c, ¬ r.Names catalog c := by
  cases r with
  | missing => exact .inr ⟨rfl, fun _ => id⟩
  | known c => exact .inl ⟨c, rfl, rfl⟩
  | path text =>
    by_cases blank : Blank text
    · refine .inr ⟨?_, fun _ names => names.1 blank⟩
      rw [entityClass, nonBlank?_eq_none_iff.mpr blank]
      rfl
    · obtain ⟨c, hc⟩ := leads.resolve_left blank
      refine .inl ⟨c, ?_, blank, hc⟩
      rw [entityClass, if_neg, hc]
      rwa [Option.isNone_iff_eq_none, nonBlank?_eq_none_iff]

theorem hasBlank_iff (column : IdColumn) :
    hasBlank column = true ↔ Blank column.captureColumn ∨ Blank column.sourceColumn := by
  rw [hasBlank, Bool.or_eq_true, Option.isNone_iff_eq_none, Option.isNone_iff_eq_none, nonBlank?_eq_none_iff,
    nonBlank?_eq_none_iff]

/-- A declaration is described if it is complete, and otherwise what it lacks is reported. -/
theorem build_cases (leads : d.entity.Leads catalog) :
    (∃ m, d.build catalog = .ok m ∧ d.Complete catalog ∧ d.Describes catalog m) ∨
      ∃ e, d.build catalog = .error (.declaration e) ∧ d.Lacks catalog e := by
  -- the checks in their order; each is passed before the next is made
  rcases require_cases d.captureTable .noCaptureTable with ⟨table, htable, named⟩ | ⟨h, missing⟩
  case inr => exact .inr ⟨_, by simp [build, h, bind, Except.bind], .captureTable missing⟩
  rcases entityClass_cases table leads with ⟨c, hc, names⟩ | ⟨h, missing⟩
  case inr => exact .inr ⟨_, by simp [build, htable, h, bind, Except.bind], .entity named missing⟩
  by_cases ids : d.idColumns = []
  case pos => exact .inr ⟨_, by simp [build, htable, hc, ids, bind, Except.bind], .idColumns named ids⟩
  by_cases filled : d.idColumns.any hasBlank
  case pos =>
    obtain ⟨column, h, blank⟩ := List.any_eq_true.mp filled
    exact .inr ⟨_, by simp [build, htable, hc, ids, filled, bind, Except.bind],
      .filled named h ((hasBlank_iff column).mp blank)⟩
  rcases require_cases d.eventTypeColumn (.noEventTypeColumn table) with ⟨event, hevent, given⟩ | ⟨h, missing⟩
  case inr =>
    exact .inr ⟨_, by simp [build, htable, hc, ids, filled, h, bind, Except.bind],
      .eventTypeColumn named missing⟩
  rcases require_cases d.keyColumn (.noKeyColumn table) with ⟨key, hkey, ordered⟩ | ⟨h, missing⟩
  case inr =>
    exact .inr ⟨_, by simp [build, htable, hc, ids, filled, hevent, h, bind, Except.bind],
      .keyColumn named missing⟩
  have solid : ∀ column ∈ d.idColumns, ¬ Blank column.captureColumn ∧ ¬ Blank column.sourceColumn := by
    intro column h
    rw [← not_or, ← hasBlank_iff]
    exact fun blank => filled (List.any_eq_true.mpr ⟨column, h, blank⟩)
  rcases nonBlank?_cases d.sourceTable with ⟨source, hsource, stated⟩ | ⟨hsource, missing⟩
  · refine .inl ⟨⟨c.type, table, source, d.idColumns, event, key⟩, ?_, ?_, ?_⟩
    · simp [build, htable, hc, ids, filled, hevent, hkey, hsource, bind, Except.bind, pure, Except.pure]
    · exact ⟨⟨table, named⟩, ⟨c, names⟩, ids, solid, ⟨event, given⟩, ⟨key, ordered⟩, .inl ⟨source, stated⟩⟩
    · exact ⟨named, ⟨c, names, rfl⟩, rfl, given, ordered, .inl stated⟩
  · cases known : c.hints.tableName? with
    | some source =>
      refine .inl ⟨⟨c.type, table, source, d.idColumns, event, key⟩, ?_, ?_, ?_⟩
      · simp [build, htable, hc, ids, filled, hevent, hkey, hsource, known, bind, Except.bind, pure,
          Except.pure]
      · exact ⟨⟨table, named⟩, ⟨c, names⟩, ids, solid, ⟨event, given⟩, ⟨key, ordered⟩,
          .inr ⟨c, source, names, known⟩⟩
      · exact ⟨named, ⟨c, names, rfl⟩, rfl, given, ordered, .inr ⟨missing, c, names, known⟩⟩
    | none =>
      exact .inr ⟨_, by simp [build, htable, hc, ids, filled, hevent, hkey, hsource, known, bind, Except.bind],
        .sourceTable named names missing known⟩

theorem buildFrom_cons : buildFrom catalog taken (d :: ds) = .ok ms ↔ ∃ m rest, d.build catalog = .ok m ∧
    m.captureTable ∉ taken ∧ buildFrom catalog (taken ++ [m.captureTable]) ds = .ok rest ∧ ms = m :: rest := by
  constructor
  · intro h
    obtain ⟨m, hm, h⟩ := ok_of_bind h
    split at h
    · cases h
    · rename_i free
      obtain ⟨rest, hrest, h⟩ := ok_of_bind h
      cases h
      exact ⟨m, rest, hm, free, hrest, rfl⟩
  · rintro ⟨m, rest, hm, free, hrest, rfl⟩
    simp only [buildFrom, hm, bind, Except.bind, if_neg free, hrest]
    rfl

/-- Declarations that are accepted are complete, and are described in their order. -/
theorem described_of_buildFrom (leads : ∀ d ∈ ds, d.entity.Leads catalog)
    (h : buildFrom catalog taken ds = .ok ms) :
    (∀ d ∈ ds, d.Complete catalog) ∧ List.Forall₂ (Describes catalog) ds ms := by
  induction ds generalizing taken ms with
  | nil =>
    cases h
    exact ⟨nofun, .nil⟩
  | cons d ds ih =>
    rw [List.forall_mem_cons] at leads
    obtain ⟨m, rest, hm, -, hrest, rfl⟩ := buildFrom_cons.mp h
    obtain ⟨all, each⟩ := ih leads.2 hrest
    rcases build_cases leads.1 with ⟨m', hm', complete, describes⟩ | ⟨e, he, -⟩
    · cases hm.symm.trans hm'
      exact ⟨List.forall_mem_cons.mpr ⟨complete, all⟩, .cons describes each⟩
    · cases hm.symm.trans he

/-- Declarations that are accepted have a capture table each. -/
theorem distinct_buildFrom (h : buildFrom catalog taken ds = .ok ms) :
    (ms.map (·.captureTable)).Nodup ∧ ∀ name ∈ taken, name ∉ ms.map (·.captureTable) := by
  induction ds generalizing taken ms with
  | nil =>
    cases h
    simp
  | cons d ds ih =>
    obtain ⟨m, rest, -, free, hrest, rfl⟩ := buildFrom_cons.mp h
    obtain ⟨distinct, apart⟩ := ih hrest
    rw [List.map_cons, List.nodup_cons]
    refine ⟨⟨apart _ (by simp), distinct⟩, fun name hname => ?_⟩
    rw [List.mem_cons, not_or]
    refine ⟨?_, apart name (List.mem_append_left _ hname)⟩
    rintro rfl
    exact free hname

/-- What is wrong with a declaration after others: it lacks something, or it takes a table again. -/
inductive Fault (catalog : Catalog) (before : List Declaration) (d : Declaration) : Failure → Prop
  | lacks {e} (lacking : d.Lacks catalog e) : Fault catalog before d (.declaration e)
  | repeats {table} (complete : d.Complete catalog) (again : Given d.captureTable table)
    (first : ∃ b ∈ before, Given b.captureTable table) :
    Fault catalog before d (.declaration (.declaredTwice table))

/-- Declarations are refused at the first that cannot be described, or has a table that is taken. -/
theorem refused_of_buildFrom (leads : ∀ d ∈ ds, d.entity.Leads catalog)
    (h : buildFrom catalog taken ds = .error f) :
    ∃ before d after ms, ds = before ++ d :: after ∧ buildFrom catalog taken before = .ok ms ∧
      ((∃ e, f = .declaration e ∧ d.Lacks catalog e) ∨
        ∃ m, d.Complete catalog ∧ d.Describes catalog m ∧
          m.captureTable ∈ taken ++ ms.map (·.captureTable) ∧
          f = .declaration (.declaredTwice m.captureTable)) := by
  induction ds generalizing taken with
  | nil => cases h
  | cons d rest ih =>
    rw [List.forall_mem_cons] at leads
    rcases build_cases leads.1 with ⟨m, hm, complete, describes⟩ | ⟨e, he, lacks⟩
    case inr =>
      simp only [buildFrom, he, bind, Except.bind] at h
      cases h
      exact ⟨[], d, rest, [], rfl, rfl, .inl ⟨e, rfl, lacks⟩⟩
    by_cases again : m.captureTable ∈ taken
    · simp only [buildFrom, hm, bind, Except.bind, if_pos again] at h
      cases h
      exact ⟨[], d, rest, [], rfl, rfl, .inr ⟨m, complete, describes, by simpa using again, rfl⟩⟩
    · cases hrest : buildFrom catalog (taken ++ [m.captureTable]) rest with
      | ok others => cases h.symm.trans (buildFrom_cons.mpr ⟨m, others, hm, again, hrest, rfl⟩)
      | error f' =>
        simp only [buildFrom, hm, bind, Except.bind, if_neg again, hrest] at h
        cases h
        obtain ⟨before, d', after, ms, rfl, hbefore, fault⟩ := ih leads.2 hrest
        refine ⟨d :: before, d', after, m :: ms, rfl, ?_, by simpa using fault⟩
        exact buildFrom_cons.mpr ⟨m, ms, hm, again, hbefore, rfl⟩

/-- The descriptions of declarations have different tables if the declarations are apart. -/
theorem nodup_iff_apart (h : List.Forall₂ (Describes catalog) ds ms) :
    (ms.map (·.captureTable)).Nodup ↔ ds.Pairwise Apart := by
  induction h with
  | nil => simp
  | @cons d m ds ms head each ih =>
    rw [List.map_cons, List.nodup_cons, List.pairwise_cons, ih]
    refine and_congr_left fun _ => ⟨fun fresh e he table given given' => ?_, fun apart again => ?_⟩
    · obtain ⟨n, hn, describes⟩ := exists_right_of_forall₂ each he
      refine fresh (List.mem_map.mpr ⟨n, hn, ?_⟩)
      rw [describes.captureTable.unique given', head.captureTable.unique given]
    · obtain ⟨n, hn, same⟩ := List.mem_map.mp again
      obtain ⟨e, he, describes⟩ := exists_left_of_forall₂ each hn
      exact apart e he _ head.captureTable (same ▸ describes.captureTable)

/-- Declarations are accepted if all of them are complete and apart, and each is described as it says.
Otherwise the first with a fault is reported. -/
theorem accepted_iff_complete (leads : ∀ d ∈ ds, d.entity.Leads catalog) :
    ((∃ ms, buildAll catalog ds = .ok ms) ↔ (∀ d ∈ ds, d.Complete catalog) ∧ ds.Pairwise Apart) ∧
      (∀ ms, buildAll catalog ds = .ok ms → List.Forall₂ (Describes catalog) ds ms) ∧
      ∀ f, buildAll catalog ds = .error f → f.isConfiguration = true ∧
        ∃ before d after, ds = before ++ d :: after ∧ (∀ b ∈ before, b.Complete catalog) ∧
          before.Pairwise Apart ∧ d.Fault catalog before f := by
  have refused : ∀ f, buildAll catalog ds = .error f → f.isConfiguration = true ∧
      ∃ before d after, ds = before ++ d :: after ∧ (∀ b ∈ before, b.Complete catalog) ∧
        before.Pairwise Apart ∧ d.Fault catalog before f := by
    intro f h
    obtain ⟨before, d, after, ms, heq, hbefore, fault⟩ := refused_of_buildFrom leads h
    obtain ⟨all, each⟩ := described_of_buildFrom (fun b hb => leads b (by simp [heq, hb])) hbefore
    have apart := (nodup_iff_apart each).mp (distinct_buildFrom hbefore).1
    rcases fault with ⟨e, rfl, lacking⟩ | ⟨m, complete, describes, again, rfl⟩
    · exact ⟨rfl, before, d, after, heq, all, apart, .lacks lacking⟩
    · rw [List.nil_append] at again
      obtain ⟨n, hn, same⟩ := List.mem_map.mp again
      obtain ⟨b, hb, describes'⟩ := exists_left_of_forall₂ each hn
      exact ⟨rfl, before, d, after, heq, all, apart,
        .repeats complete describes.captureTable ⟨b, hb, same ▸ describes'.captureTable⟩⟩
  refine ⟨⟨?_, ?_⟩, fun ms h => (described_of_buildFrom leads h).2, refused⟩
  · rintro ⟨ms, h⟩
    obtain ⟨all, each⟩ := described_of_buildFrom leads h
    exact ⟨all, (nodup_iff_apart each).mp (distinct_buildFrom h).1⟩
  · rintro ⟨all, apart⟩
    cases h : buildAll catalog ds with
    | ok ms => exact ⟨ms, rfl⟩
    | error f =>
      obtain ⟨-, before, d, after, rfl, -, -, fault⟩ := refused f h
      cases fault with
      | lacks lacking => exact absurd (all d (by simp)) lacking.incomplete
      | repeats _ given first =>
        obtain ⟨b, hb, given'⟩ := first
        exact absurd given ((List.pairwise_append.mp apart).2.2 b hb d (by simp) _ given')

/-- Orders are watched, and their class knows the table they live in. -/
def shop : Catalog :=
  ⟨[("shop", [(["Order"], .entity ⟨.root "shop" "Order", ⟨none, some (.text "orders")⟩⟩)])], []⟩

def orders (table : String) : Declaration where
  entity := .path "shop:Order"
  captureTable := some table
  idColumns := [⟨"orderid", "id", IdColumn.defaultType⟩]
  sourceTable := some " "
  eventTypeColumn := some CaptureModel.defaultEventTypeColumn
  keyColumn := some CaptureModel.defaultKeyColumn

theorem orders_leads (table : String) : (orders table).entity.Leads shop := by
  have found : (shop.resolveEntity "shop:Order").isOk = true := by decide +kernel
  exact .inr (exists_ok_of_isOk found)

/-- Two tables of orders are accepted. One that differs from the first in its blanks only is not. -/
theorem accepted_iff_complete_orders :
    (∀ d ∈ [orders "sold", orders " old "], d.entity.Leads shop) ∧
      (∀ d ∈ [orders "sold", orders " old "], d.Complete shop) ∧
      [orders "sold", orders " old "].Pairwise Apart ∧
      (∀ d ∈ [orders "sold", orders "\tsold"], d.entity.Leads shop) ∧
      ¬ ((∀ d ∈ [orders "sold", orders "\tsold"], d.Complete shop) ∧
        [orders "sold", orders "\tsold"].Pairwise Apart) := by
  have leads (a b : String) : ∀ d ∈ [orders a, orders b], d.entity.Leads shop := by
    simp [orders_leads]
  have accepted : (buildAll shop [orders "sold", orders " old "]).isOk = true := by decide +kernel
  have refused : buildAll shop [orders "sold", orders "\tsold"]
      = .error (.declaration (.declaredTwice "sold")) := by decide +kernel
  obtain ⟨all, apart⟩ := (accepted_iff_complete (leads "sold" " old ")).1.mp (exists_ok_of_isOk accepted)
  refine ⟨leads "sold" " old ", all, apart, leads "sold" "\tsold", fun complete => ?_⟩
  obtain ⟨ms, h⟩ := (accepted_iff_complete (leads "sold" "\tsold")).1.mpr complete
  cases refused.symm.trans h

end Declaration
end IndexSync
