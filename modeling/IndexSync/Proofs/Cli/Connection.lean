import IndexSync.Cli.Run
import IndexSync.Proofs.Url.NormalForm
import IndexSync.Shipped

/-!
# Which database the commands work on

The command that shows what waits resolves its address, and then resolves what it has found once more; the
command that sets up resolves its address once. Both come to the same engine, because a resolved address is
in normal form.
-/
namespace IndexSync.Cli

variable (host : Host) (options : Config.Options) (config : String)

/-- What is shown of the changes that wait in the database of an engine. -/
def tally (s : Config.Settings) (ms : List CaptureModel) (engine : Url.Engine) (dbs : Databases) :
    Attempt Printout := do
  let pending ← guarded (if canOpen host engine then (openDatabase engine dbs).counts ms
    else .error cannotOpen)
  let masked ← guarded (Url.mask engine.url)
  let head := ["Capture table", "Source table", "Entity", "Pending"]
  return ⟨["Connection: " ++ masked], some ⟨"triggersearch status (" ++ s.name ++ ")",
    head :: ms.map fun m => statusRow m pending⟩, []⟩

theorem guarded_ok {α : Type} (a : α) : guarded (.ok a) = (pure a : Attempt α) := rfl

theorem ok_of_guarded {α : Type} {x : Except Failure α} {a : α} (h : guarded x = .ok a) : x = .ok a := by
  cases x with
  | error f => cases h
  | ok b => exact congrArg _ (Except.ok.inj h)

/-- An address that is resolved twice leads to the engine to which it leads when it is resolved once, and
is refused for the same reason. -/
theorem connection_eq {α : Type} (asked environment : Option String)
    (next : String → Url.Engine → Attempt α) :
    (do
      let url ← guarded (Url.resolve asked environment)
      let engine ← guarded (Url.Engine.create (some url) environment)
      next url engine) =
    (do
      let engine ← guarded (Url.Engine.create asked environment)
      next engine.url engine) := by
  cases hresolve : Url.resolve asked environment with
  | error f =>
    have refused : Url.Engine.create asked environment = .error f := by
      rw [Url.Engine.create, hresolve]
      rfl
    rw [refused]
    rfl
  | ok made =>
    have again := Url.create_of_resolve (Url.resolve_resolved hresolve environment)
    rw [guarded_ok, pure_bind, again, Url.create_of_resolve hresolve]
    cases hengine : Url.engineOf made with
    | error f => rfl
    | ok engine => rw [guarded_ok, pure_bind, pure_bind, Url.url_of_engineOf hengine]

/-- The command that shows what waits opens the engine of its address as the command that sets up does. -/
theorem status_eq (dbs : Databases) : status host config dbs options = (do
    let s ← settings host config options
    let ms ← models host s
    let engine ← guarded (Url.Engine.create s.databaseUrl (address host))
    tally host s ms engine dbs) :=
  bind_congr fun s => bind_congr fun _ => connection_eq s.databaseUrl (address host) _

/-- A setup is ready when all its parts are. -/
theorem setupParts_ok_iff {host : Host} {options : Config.Options} {config asked : String}
    {chosen : Trigger.Strategy} {ms : List CaptureModel} {triggers : TriggerSource} {engine : Url.Engine} :
    setupParts host config asked options = .ok (chosen, ms, triggers, engine) ↔
      ∃ s, settings host config options = .ok s ∧ strategy asked s = .ok chosen ∧ models host s = .ok ms ∧
        source host s = .ok triggers ∧ Url.Engine.create s.databaseUrl (address host) = .ok engine := by
  constructor
  · intro h
    obtain ⟨s, hs, h⟩ := ok_of_bind h
    obtain ⟨_, hchosen, h⟩ := ok_of_bind h
    obtain ⟨_, hms, h⟩ := ok_of_bind h
    obtain ⟨_, htriggers, h⟩ := ok_of_bind h
    obtain ⟨_, hengine, h⟩ := ok_of_bind h
    cases h
    exact ⟨s, hs, hchosen, hms, htriggers, ok_of_guarded hengine⟩
  · rintro ⟨s, hs, hchosen, hms, htriggers, hengine⟩
    simp only [setupParts, hs, hchosen, hms, htriggers, hengine, guarded_ok, bind, pure, Except.bind, Except.pure]

/-- An address that is accepted comes into normal form with what follows its mark, and stays in it. The
normal form names a driver, unless the name has a plus in it from the start and stays as it is. The commands for
which the address is chosen work on the engine of its normal form: the command that shows what waits counts
there, where the command that sets up has run its statements. -/
theorem address_stable {given made : String} (h : Url.normalize given = .ok made) :
    (Url.NamesDriver made ∨ made = Text.trim given ∧
      ∃ name rest, Url.Marked (Text.trim given) name rest ∧ '+' ∈ name.toList) ∧
      Text.Bare Text.isBlank made.toList ∧
      (∃ name name' rest, Url.Marked (Text.trim given) name rest ∧ Url.Marked made name' rest) ∧
      Url.normalize made = .ok made ∧
      ∀ (host : Host) (options : Config.Options) (config : String) (s : Config.Settings),
        settings host config options = .ok s → Url.Chosen s.databaseUrl (address host) given →
        (∀ dbs, status host config dbs options = (do
          let ms ← models host s
          let engine ← guarded (Url.engineOf made)
          tally host s ms engine dbs)) ∧
        ∀ asked strategy ms triggers engine,
          setupParts host config asked options = .ok (strategy, ms, triggers, engine) →
          Url.engineOf made = .ok engine ∧ engine.url = made ∧
            ∀ dbs, status host config dbs options = tally host s ms engine dbs := by
  have normalizes := Url.normalize_ok_iff.mp h
  have normal := normalizes.isNormal
  refine ⟨normalizes.names_or_kept, normal.bare, normalizes.rest_kept,
    Url.normalize_self_iff.mpr normal, ?_⟩
  intro host options config s hs chosen
  have resolved := (Url.resolve_of_chosen chosen (Url.solid_of_normalize h)).trans h
  have opened : Url.Engine.create s.databaseUrl (address host) = Url.engineOf made :=
    Url.create_of_resolve resolved
  have counts (dbs : Databases) : status host config dbs options = (do
      let ms ← models host s
      let engine ← guarded (Url.engineOf made)
      tally host s ms engine dbs) := by
    rw [status_eq, hs, ← opened]
    rfl
  refine ⟨counts, fun asked strategy ms triggers engine hsetup => ?_⟩
  obtain ⟨s', hs', -, hms, -, hengine⟩ := setupParts_ok_iff.mp hsetup
  obtain rfl : s = s' := Except.ok.inj (hs.symm.trans hs')
  have hopened : Url.engineOf made = .ok engine := opened ▸ hengine
  refine ⟨hopened, Url.url_of_engineOf hopened, fun dbs => ?_⟩
  rw [counts, hms, hopened]
  rfl

/-- A host without files, where the environment holds the address of the database of a shop. -/
def shopHost : Host :=
  ⟨[(Url.variableName, " SQLite:///shop.db ")], "/", fun _ => .missing, Catalog.shipped⟩

/-- The shop is set up where its changes are counted. -/
theorem shop_address_stable :
    Url.normalize " SQLite:///shop.db " = .ok "sqlite+aiosqlite:///shop.db" ∧
      ∃ s strategy ms triggers engine, settings shopHost "" = .ok s ∧
        Url.Chosen s.databaseUrl (address shopHost) " SQLite:///shop.db " ∧
        setupParts shopHost "" "" = .ok (strategy, ms, triggers, engine) ∧
        engine.url = "sqlite+aiosqlite:///shop.db" ∧
        ∀ dbs, status shopHost "" dbs = tally shopHost s ms engine dbs := by
  have normal : Url.normalize " SQLite:///shop.db " = .ok "sqlite+aiosqlite:///shop.db" := by decide
  have read : (settings shopHost "").toOption.any
      (fun s => s.databaseUrl == some " SQLite:///shop.db ") = true := by decide +kernel
  have ready : (setupParts shopHost "" "").isOk = true := by decide +kernel
  obtain ⟨s, hread, url⟩ := (Option.any_eq_true _ _).mp read
  have hs : settings shopHost "" = .ok s := ok_of_toOption hread
  have chosen : Url.Chosen s.databaseUrl (address shopHost) " SQLite:///shop.db " := .inl (eq_of_beq url)
  obtain ⟨⟨strategy, ms, triggers, engine⟩, hsetup⟩ := exists_ok_of_isOk ready
  obtain ⟨-, -, -, -, stable⟩ := address_stable normal
  obtain ⟨-, same, counts⟩ := (stable shopHost .none "" s hs chosen).2 "" strategy ms triggers engine hsetup
  exact ⟨normal, s, strategy, ms, triggers, engine, hs, chosen, hsetup, same, counts⟩

/-- A plus is enough to be accepted. The name that it stands in need not have a driver after it. -/
theorem address_without_driver :
    ¬ ∀ given made : String, Url.normalize given = .ok made → Url.NamesDriver made ∧
      Text.Bare Text.isBlank made.toList ∧
      (∃ name name' rest, Url.Marked (Text.trim given) name rest ∧ Url.Marked made name' rest) ∧
      Url.normalize made = .ok made := by
  intro all
  have accepted : Url.normalize "postgresql+://h/db" = .ok "postgresql+://h/db" := by decide
  obtain ⟨⟨dialect, driver, rest, -, named, plain, plain', marked⟩, -⟩ := all _ _ accepted
  have same := marked.name_eq ⟨show "postgresql+://h/db" = "postgresql+" ++ "://" ++ "h/db" from rfl, by decide⟩
  have cut : dialect.toList ++ '+' :: driver.toList = "postgresql".toList ++ '+' :: [] := by
    simpa using congrArg String.toList same
  obtain ⟨-, -, none⟩ := (List.append_cons_inj_of_notMem plain plain').mp cut
  exact named (String.toList_inj.mp none)

end IndexSync.Cli
