import IndexSync.Proofs.Outcome
import IndexSync.Proofs.Text.Split
import IndexSync.Proofs.Text.Trim
import IndexSync.Url.Engine
import Mathlib.Data.List.Infix

/-!
# Addresses in normal form

An address is in normal form if its name has a plus in it and no blanks stand around it. Normalization leads
there and changes nothing further, so that an address can be resolved again without harm.
-/
namespace IndexSync.Url

variable {given made url name rest : String}

/-- An address with the mark `://` between its name and the rest. It is the first mark. -/
structure Marked (url name rest : String) : Prop where
  text : url = name ++ "://" ++ rest
  first : ¬ "://".toList <:+: name.toList

theorem unbordered_mark : Text.Unbordered "://".toList := by
  have all : ∀ part ∈ "://".toList.inits, part <:+ "://".toList → part = [] ∨ part = "://".toList := by
    decide
  exact fun part beginning => all part ((List.mem_inits _ _).mpr beginning)

theorem cutText?_mark_iff : Text.cutText? "://" url = some (name, rest) ↔ Marked url name rest := by
  have cut {before after : List Char} : Text.cut? "://".toList url.toList = some (before, after) ↔
      url.toList = before ++ "://".toList ++ after ∧ ¬ "://".toList <:+: before :=
    Text.cut?_eq_some_iff (by decide) unbordered_mark
  rw [Text.cutText?, Option.map_eq_some_iff]
  constructor
  · rintro ⟨⟨before, after⟩, hcut, h⟩
    cases h
    obtain ⟨text, first⟩ := cut.mp hcut
    exact ⟨String.toList_inj.mp (by simpa using text), by simpa using first⟩
  · rintro ⟨text, first⟩
    exact ⟨(name.toList, rest.toList), cut.mpr ⟨by simp [text], first⟩, by simp⟩

/-- No mark begins in a text without a colon. -/
theorem marked_of_no_colon (h : ':' ∉ name.toList) (rest : String) :
    Marked (name ++ "://" ++ rest) name rest :=
  ⟨rfl, fun held => h (held.subset (by decide))⟩

theorem contains_plus_iff : Text.contains "+" name = true ↔ '+' ∈ name.toList := by
  rw [Text.contains, Text.cut?_isSome_iff]
  exact List.singleton_infix_iff _ _

/-- What normalization makes of an address: one with a plus in its name is trimmed, and in one of a known
database the driver takes the place of the name. -/
inductive Normalizes (given : String) : String → Prop
  | trimmed {name rest : String} (marked : Marked (Text.trim given) name rest) (named : '+' ∈ name.toList) :
      Normalizes given (Text.trim given)
  | known {name rest driver : String} (marked : Marked (Text.trim given) name rest)
      (unnamed : '+' ∉ name.toList) (found : drivers.lookup (Text.lower name) = some driver) :
      Normalizes given (driver ++ "://" ++ rest)

theorem normalize_ok_iff : normalize given = .ok made ↔ Normalizes given made := by
  constructor
  · intro h
    simp only [normalize] at h
    split at h
    · cases h
    rename_i name rest hcut
    have marked := cutText?_mark_iff.mp hcut
    split at h
    · rename_i named
      cases h
      exact .trimmed marked (contains_plus_iff.mp named)
    rename_i unnamed
    split at h
    · rename_i driver found
      cases h
      exact .known marked (mt contains_plus_iff.mpr unnamed) found
    · cases h
  · rintro (⟨marked, named⟩ | ⟨marked, unnamed, found⟩)
    · simp only [normalize, cutText?_mark_iff.mpr marked, contains_plus_iff.mpr named, if_true]
    · simp only [normalize, cutText?_mark_iff.mpr marked, mt contains_plus_iff.mp unnamed, found,
        Bool.false_eq_true, if_false]

/-- A plus after the mark names no driver. -/
example : normalize " Postgres://h/a+b://c " = .ok "postgresql+asyncpg://h/a+b://c" := by decide

/-- The name of the address is a dialect and a driver with a plus between them. Whether there is such a driver
is found out when the engine is made. -/
def NamesDriver (url : String) : Prop :=
  ∃ dialect driver rest, dialect ≠ "" ∧ driver ≠ "" ∧ '+' ∉ dialect.toList ∧ '+' ∉ driver.toList ∧
    Marked url (dialect ++ "+" ++ driver) rest

theorem Marked.name_eq {name' rest' : String} (marked : Marked url name rest)
    (marked' : Marked url name' rest') : name = name' := by
  have same := (cutText?_mark_iff.mpr marked).symm.trans (cutText?_mark_iff.mpr marked')
  exact congrArg Prod.fst (Option.some.inj same)

/-- An address whose name has a plus in it, without blanks around it. -/
structure IsNormal (url : String) : Prop where
  plus : ∃ name rest, Marked url name rest ∧ '+' ∈ name.toList
  bare : Text.Bare Text.isBlank url.toList

/-- A dialect and a driver, as normalization puts them in the place of another name. -/
structure IsDriver (name : String) : Prop where
  parts : ∃ dialect driver, dialect ≠ "" ∧ driver ≠ "" ∧ '+' ∉ dialect.toList ∧ '+' ∉ driver.toList ∧
    name = dialect ++ "+" ++ driver
  colon : ':' ∉ name.toList
  bare : Text.Bare Text.isBlank name.toList

theorem IsDriver.plus (h : IsDriver name) : '+' ∈ name.toList := by
  obtain ⟨dialect, driver, -, -, -, -, rfl⟩ := h.parts
  simp

theorem isDriver_of_lookup {key driver : String} (h : drivers.lookup key = some driver) : IsDriver driver := by
  obtain ⟨before, after, split, -⟩ := List.lookup_eq_some_iff.mp h
  have listed : driver ∈ drivers.map (·.2) := by simp [split]
  have each : driver = "postgresql" ++ "+" ++ "asyncpg" ∨ driver = "mysql" ++ "+" ++ "aiomysql" ∨
      driver = "sqlite" ++ "+" ++ "aiosqlite" := by
    simpa [drivers] using listed
  rcases each with rfl | rfl | rfl
  · exact ⟨⟨"postgresql", "asyncpg", by decide, by decide, by decide, by decide, rfl⟩, by decide,
      ⟨by decide, by decide⟩⟩
  · exact ⟨⟨"mysql", "aiomysql", by decide, by decide, by decide, by decide, rfl⟩, by decide,
      ⟨by decide, by decide⟩⟩
  · exact ⟨⟨"sqlite", "aiosqlite", by decide, by decide, by decide, by decide, rfl⟩, by decide,
      ⟨by decide, by decide⟩⟩

/-- An address ends as it did when its name is replaced. -/
theorem bare_replaced {driver : String} (marked : Marked url name rest)
    (bare : Text.Bare Text.isBlank url.toList) (named : IsDriver driver) :
    Text.Bare Text.isBlank (driver ++ "://" ++ rest).toList := by
  have tail (front : String) : (front ++ "://" ++ rest).toList.getLast? = ("://" ++ rest).toList.getLast? := by
    rw [String.append_assoc, String.toList_append]
    exact List.getLast?_append_of_ne_nil _ (by simp)
  constructor
  · rw [String.append_assoc, String.toList_append,
      List.head?_append_of_ne_nil _ (List.ne_nil_of_mem named.plus)]
    exact named.bare.1
  · rw [tail driver, ← tail name, ← marked.text]
    exact bare.2

theorem Normalizes.isNormal (h : Normalizes given made) : IsNormal made := by
  have bare := (Text.trimmed_trim given).bare
  cases h with
  | trimmed marked named => exact ⟨⟨_, _, marked, named⟩, bare⟩
  | known marked unnamed found =>
    have named := isDriver_of_lookup found
    exact ⟨⟨_, _, marked_of_no_colon named.colon _, named.plus⟩, bare_replaced marked bare named⟩

/-- A driver is named unless the name has a plus in it from the start. Such an address stays as it is. -/
theorem Normalizes.names_or_kept (h : Normalizes given made) :
    NamesDriver made ∨
      made = Text.trim given ∧ ∃ name rest, Marked (Text.trim given) name rest ∧ '+' ∈ name.toList := by
  cases h with
  | trimmed marked named => exact .inr ⟨rfl, _, _, marked, named⟩
  | known marked unnamed found =>
    have named := isDriver_of_lookup found
    obtain ⟨dialect, driver, dialected, drived, plain, plain', rfl⟩ := named.parts
    exact .inl ⟨dialect, driver, _, dialected, drived, plain, plain', marked_of_no_colon named.colon _⟩

/-- What follows the mark stays as it is. -/
theorem Normalizes.rest_kept (h : Normalizes given made) :
    ∃ name name' rest, Marked (Text.trim given) name rest ∧ Marked made name' rest := by
  cases h with
  | trimmed marked named => exact ⟨_, _, _, marked, marked⟩
  | known marked unnamed found =>
    exact ⟨_, _, _, marked, marked_of_no_colon (isDriver_of_lookup found).colon _⟩

/-- The addresses that normalization leaves alone are those in normal form. -/
theorem normalize_self_iff : normalize url = .ok url ↔ IsNormal url := by
  constructor
  · exact fun h => (normalize_ok_iff.mp h).isNormal
  · intro normal
    obtain ⟨name, rest, marked, named⟩ := normal.plus
    have same := Text.trim_of_bare normal.bare
    have trimmed : Normalizes url (Text.trim url) := .trimmed (same.symm ▸ marked) named
    rwa [same, ← normalize_ok_iff] at trimmed

theorem solid_of_normalize (h : normalize given = .ok made) : ¬ Text.Blank given := by
  obtain ⟨_, _, _, marked, -⟩ := (normalize_ok_iff.mp h).rest_kept
  rw [← Text.nonBlank?_eq_none_iff, Text.nonBlank?, marked.text]
  simp

/-- The address that counts is the one that is asked for. If there is nothing in that, it is the one of the
environment. -/
def Chosen (asked fromEnvironment : Option String) (url : String) : Prop :=
  asked = some url ∨ (∀ text, asked = some text → Text.Blank text) ∧ fromEnvironment = some url

theorem resolve_of_chosen {asked fromEnvironment : Option String} (h : Chosen asked fromEnvironment url)
    (solid : ¬ Text.Blank url) : resolve asked fromEnvironment = normalize url := by
  have counts : (some url).filter (fun text => (Text.nonBlank? text).isSome) = some url := by
    rw [Option.filter_eq_some_iff, Option.isSome_iff_ne_none, Ne, Text.nonBlank?_eq_none_iff]
    exact ⟨rfl, solid⟩
  rcases h with rfl | ⟨blank, rfl⟩
  · simp only [resolve, counts, Option.some_or]
  · have nothing : asked.filter (fun text => (Text.nonBlank? text).isSome) = none := by
      rw [Option.filter_eq_none_iff]
      intro text given
      simp [Text.nonBlank?_eq_none_iff.mpr (blank text given)]
    simp only [resolve, counts, nothing, Option.none_or]

theorem exists_normalize_of_resolve {asked fromEnvironment : Option String}
    (h : resolve asked fromEnvironment = .ok made) : ∃ given, normalize given = .ok made := by
  simp only [resolve] at h
  split at h
  · exact ⟨_, h⟩
  · cases h

/-- Resolving an address again changes nothing, whatever the environment holds. -/
theorem resolve_resolved {asked fromEnvironment : Option String}
    (h : resolve asked fromEnvironment = .ok made) (environment : Option String) :
    resolve (some made) environment = .ok made := by
  obtain ⟨given, hgiven⟩ := exists_normalize_of_resolve h
  have again := normalize_self_iff.mpr (normalize_ok_iff.mp hgiven).isNormal
  rw [resolve_of_chosen (.inl rfl) (solid_of_normalize again), again]

/-- An engine keeps its address. -/
theorem url_of_engineOf {engine : Engine} (h : engineOf url = .ok engine) : engine.url = url := by
  obtain ⟨parts, -, h⟩ := ok_of_bind h
  obtain ⟨⟨dialect, driver⟩, -, h⟩ := ok_of_bind h
  cases hwaits : knownDrivers.lookup (dialect, driver) with
  | none => simp [hwaits] at h
  | some waits =>
    simp only [hwaits] at h
    split at h
    · cases h
    split at h <;> cases h
    rfl

theorem create_of_resolve {asked fromEnvironment : Option String}
    (h : resolve asked fromEnvironment = .ok made) : Engine.create asked fromEnvironment = engineOf made := by
  rw [Engine.create, h]
  rfl

end IndexSync.Url
