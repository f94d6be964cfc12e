import IndexSync.Proofs.Trigger.Reading
import Mathlib.Data.List.Infix

/-!
# Functions in quotation

The body of a trigger function stands between two pairs of dollars. A name in it is quoted against the token
alone, so that two dollars in a name end the body early.
-/
namespace IndexSync.Trigger

open Text

/-- A piece of a statement. -/
inductive Lexeme
  | word (text : String)
  | name (text : String)
  | quotation (text : String)
  | mark (c : Char)
  deriving DecidableEq, Repr

namespace Lexeme

def startsWord (c : Char) : Bool := c.isAlpha || c = '_' || 128 ≤ c.toNat

def continuesWord (c : Char) : Bool := startsWord c || c.isDigit || c = '$'

/-- The marks around a quotation. -/
def dollars : List Char := ['$', '$']

/-- Takes one piece: a name between double quotes, a quotation between dollars, a word or a mark. -/
def take : Reading.Reader Lexeme
  | [] => none
  | c :: cs =>
    if c = '"' then (Reading.nameRest '"' cs).map fun (text, rest) => (name (String.ofList text), rest)
    else if dollars.isPrefixOf (c :: cs) then
      (cut? dollars (cs.drop 1)).map fun (text, rest) => (quotation (String.ofList text), rest)
    else if startsWord c then
      some (word (String.ofList (c :: cs.takeWhile continuesWord)), cs.dropWhile continuesWord)
    else some (mark c, cs)

theorem length_nameRest {q : Char} {cs text rest : List Char}
    (h : Reading.nameRest q cs = some (text, rest)) : rest.length < cs.length := by
  rw [(Reading.eq_of_nameRest h).1, List.length_append, List.length_cons]
  omega

theorem length_take {cs rest : List Char} {l : Lexeme} (h : take cs = some (l, rest)) :
    rest.length < cs.length := by
  cases cs with
  | nil => cases h
  | cons c cs =>
    rw [take] at h
    split at h
    · obtain ⟨⟨text, more⟩, hread, he⟩ := Option.map_eq_some_iff.mp h
      cases he
      exact Nat.lt_succ_of_lt (length_nameRest hread)
    · split at h
      · obtain ⟨⟨text, more⟩, hcut, he⟩ := Option.map_eq_some_iff.mp h
        cases he
        have := length_of_cut? hcut
        simp only [List.length_drop, List.length_cons] at this ⊢
        omega
      · split at h
        · cases h
          exact Nat.lt_succ_of_le (List.dropWhile_suffix _).length_le
        · cases h
          exact Nat.lt_succ_self _

/-- The pieces of a text, without the blanks between them. A name or a quotation without an end makes the text
unreadable. -/
def all : List Char → Option (List Lexeme)
  | [] => some []
  | c :: cs =>
    if c.isWhitespace then all cs
    else
      match _h : take (c :: cs) with
      | some (l, rest) => (all rest).map (l :: ·)
      | none => none
termination_by cs => cs.length
decreasing_by
  · exact Nat.lt_succ_self _
  · exact length_take _h

theorem all_blank (cs : List Char) : all (' ' :: cs) = all cs := by
  rw [all, if_pos (by decide)]

theorem all_cons {c : Char} {cs : List Char} (solid : c.isWhitespace = false) :
    all (c :: cs) = (take (c :: cs)).bind fun (l, rest) => (all rest).map (l :: ·) := by
  rw [all, solid, if_neg Bool.false_ne_true]
  split <;> rename_i h <;> rw [h] <;> rfl

/-- What starts a word is no blank and none of the marks that open a name or a quotation. -/
theorem ne_of_startsWord {c d : Char} (h : startsWord c = true) (hd : startsWord d = false) : c ≠ d := by
  rintro rfl
  exact absurd (h.symm.trans hd) Bool.noConfusion

theorem solid_of_startsWord {c : Char} (h : startsWord c = true) : c.isWhitespace = false := by
  rw [Char.isWhitespace, Bool.or_eq_false_iff, Bool.or_eq_false_iff, Bool.or_eq_false_iff]
  refine ⟨⟨⟨?_, ?_⟩, ?_⟩, ?_⟩ <;> exact decide_eq_false (ne_of_startsWord h (by decide))

/-- A word ends at the first character that does not continue it. -/
theorem all_word {w : String} {rest : List Char} (starts : w.toList.head?.any startsWord = true)
    (continues : w.toList.all continuesWord = true) (ends : rest.head?.any continuesWord = false) :
    all (w.toList ++ rest) = (all rest).map (word w :: ·) := by
  obtain ⟨htake, hdrop⟩ : rest.takeWhile continuesWord = [] ∧ rest.dropWhile continuesWord = rest := by
    cases rest with
    | nil => exact ⟨rfl, rfl⟩
    | cons d rest =>
      have hd : continuesWord d = false := ends
      simp [hd]
  obtain ⟨c, cs, hw⟩ : ∃ c cs, w.toList = c :: cs :=
    List.exists_cons_of_ne_nil fun h => by simp [h] at starts
  rw [hw] at starts continues
  replace starts : startsWord c = true := starts
  have hall : ∀ d ∈ cs, continuesWord d = true :=
    fun d hd => List.all_eq_true.mp continues d (List.mem_cons_of_mem c hd)
  have hdollar := ne_of_startsWord starts (d := '$') (by decide)
  rw [hw, List.cons_append, all_cons (solid_of_startsWord starts), take,
    if_neg (ne_of_startsWord starts (by decide)), if_neg (by simp [dollars, hdollar.symm]), if_pos starts,
    List.takeWhile_append_of_pos hall, List.dropWhile_append_of_pos hall, htake, hdrop, List.append_nil,
    ← hw, String.ofList_toList]
  rfl

theorem all_word_blank {w : String} {rest : List Char} (starts : w.toList.head?.any startsWord = true)
    (continues : w.toList.all continuesWord = true) :
    all (w.toList ++ ' ' :: rest) = (all rest).map (word w :: ·) := by
  rw [all_word starts continues (by simp [continuesWord, startsWord]), all_blank]

/-- A mark stands for itself. -/
theorem all_mark {c : Char} (cs : List Char) (solid : c.isWhitespace = false) (quote : c ≠ '"')
    (dollar : c ≠ '$') (starts : startsWord c = false) : all (c :: cs) = (all cs).map (mark c :: ·) := by
  rw [all_cons solid, take, if_neg quote, if_neg (by simp [dollars, dollar.symm]), starts,
    if_neg Bool.false_ne_true]
  rfl

/-- A quoted name is one piece, whatever is in it. -/
theorem all_quote {rest : List Char} (h : rest.head? ≠ some '"') (text : String) :
    all ((quote "\"" text).toList ++ rest) = (all rest).map (name text :: ·) := by
  have read : Reading.name '"' ((quote "\"" text).toList ++ rest) = some (text, rest) :=
    Reading.name_quote h text
  generalize (quote "\"" text).toList ++ rest = cs at read ⊢
  cases cs with
  | nil => cases read
  | cons c cs =>
    by_cases hc : c = '"'
    · rw [Reading.name, if_pos hc] at read
      obtain ⟨⟨_, _⟩, hrest, he⟩ := Option.map_eq_some_iff.mp read
      cases he
      rw [all_cons (hc ▸ by decide), take, if_pos hc, hrest]
      rfl
    · rw [Reading.name, if_neg hc] at read
      cases read

/-- A quotation ends at the next two dollars. -/
theorem all_quotation (cs : List Char) :
    all (dollars ++ cs) = (cut? dollars cs).bind fun (text, rest) =>
      (all rest).map (quotation (String.ofList text) :: ·) := by
  have opens : dollars.isPrefixOf ('$' :: '$' :: cs) = true :=
    List.isPrefixOf_iff_prefix.mpr ⟨cs, rfl⟩
  rw [show dollars ++ cs = '$' :: '$' :: cs from rfl, all_cons (by decide), take, if_neg (by decide),
    if_pos opens, List.drop_one, List.tail_cons, Option.bind_map]
  rfl

end Lexeme

variable {xs ys : List Char}

open Lexeme (dollars)

/-- Two dollars in a row are in one of two parts, unless they meet where the parts do. -/
theorem dollars_append (apart : xs.getLast? ≠ some '$' ∨ ys.head? ≠ some '$') :
    dollars <:+: xs ++ ys ↔ dollars <:+: xs ∨ dollars <:+: ys := by
  induction xs with
  | nil => simp [dollars]
  | cons x xs ih =>
    cases xs with
    | nil =>
      have first : ¬ dollars <+: x :: ys := by
        cases ys with
        | nil => simp [dollars]
        | cons y ys =>
          rw [dollars, List.cons_prefix_cons, List.cons_prefix_cons]
          rintro ⟨rfl, rfl, -⟩
          simp at apart
      have alone : ¬ dollars <:+: [x] := fun h => absurd h.length_le (by simp [dollars])
      rw [List.singleton_append, List.infix_cons_iff, or_iff_right first, or_iff_right alone]
    | cons y xs =>
      have first : dollars <+: x :: y :: (xs ++ ys) ↔ dollars <+: x :: y :: xs := by simp [dollars]
      rw [List.cons_append, List.infix_cons_iff, List.infix_cons_iff, List.cons_append, first,
        ← List.cons_append, ih (by simpa using apart), or_assoc]

theorem dollars_cons {c : Char} (h : c ≠ '$') : dollars <:+: c :: xs ↔ dollars <:+: xs := by
  rw [List.infix_cons_iff, or_iff_right]
  rw [dollars, List.cons_prefix_cons]
  exact fun first => h first.1.symm

/-- A text without dollars at its end is found before the next two dollars exactly if there are none in it. -/
theorem ends_dollars_iff (last : xs.getLast? ≠ some '$') : Ends dollars xs ↔ ¬ dollars <:+: xs := by
  constructor
  · rintro ends ⟨front, back, rfl⟩
    obtain ⟨before, after, hcut, hle⟩ := cut?_le dollars front (back ++ dollars)
    rw [Ends, List.append_assoc, hcut] at ends
    cases ends
    simp only [List.length_append, dollars, List.length_cons] at hle
    omega
  · intro free
    obtain ⟨before, after, hcut, hle⟩ := cut?_le dollars xs []
    rw [List.append_nil] at hcut
    have whole := eq_of_cut? hcut
    obtain ⟨late, rfl⟩ : before <+: xs :=
      List.prefix_of_prefix_length_le ⟨dollars ++ after, by rw [whole, List.append_assoc]⟩
        (List.prefix_append xs dollars) hle
    rw [List.append_assoc, List.append_assoc] at whole
    have seam : late ++ dollars = dollars ++ after := List.append_cancel_left whole
    cases late with
    | nil =>
      obtain rfl : after = [] := by simpa using seam
      rw [Ends, hcut, List.append_nil]
    | cons c late =>
      have hc : c = '$' := (List.cons.inj seam).1
      cases late with
      | nil => simp [hc] at last
      | cons d late =>
        have hd : d = '$' := (List.cons.inj (List.cons.inj seam).2).1
        exact absurd ⟨before, late, by simp [dollars, hc, hd]⟩ free

theorem head?_doubled (q : Char) (cs : List Char) : (Reading.doubled q cs).head? = cs.head? := by
  cases cs with
  | nil => rfl
  | cons c cs =>
    by_cases hc : c = q
    · rw [hc, Reading.doubled_token]
      rfl
    · rw [Reading.doubled_other hc]
      rfl

theorem dollars_doubled (cs : List Char) : dollars <:+: Reading.doubled '"' cs ↔ dollars <:+: cs := by
  induction cs with
  | nil => rfl
  | cons c cs ih =>
    by_cases hc : c = '"'
    · rw [hc, Reading.doubled_token, dollars_cons (by decide), dollars_cons (by decide), ih,
        dollars_cons (by decide)]
    · have first (ds : List Char) : dollars <+: c :: ds ↔ c = '$' ∧ ds.head? = some '$' := by
        cases ds <;> simp [dollars, eq_comm]
      rw [Reading.doubled_other hc, List.infix_cons_iff, List.infix_cons_iff, ih, first, first, head?_doubled]

/-- Quoting a name neither makes two dollars meet nor separates them. -/
theorem dollars_quote (text : String) :
    dollars <:+: (quote "\"" text).toList ↔ dollars <:+: text.toList := by
  have alone : ¬ dollars <:+: ['"'] := fun h => absurd h.length_le (by decide)
  rw [show quote "\"" text = quote (String.singleton '"') text from rfl, Reading.toList_quote,
    dollars_append (.inr (by decide)), or_iff_left alone, dollars_cons (by decide),
    dollars_doubled]

theorem dollars_commaSeparated (parts : List String) :
    dollars <:+: (commaSeparated parts).toList ↔ ∃ part ∈ parts, dollars <:+: part.toList := by
  have comma : ¬ dollars <:+: ", ".toList := by decide
  rw [commaSeparated, String.toList_intercalate]
  induction parts with
  | nil => simp [dollars]
  | cons part parts ih =>
    cases parts with
    | nil => simp
    | cons next parts =>
      rw [List.map_cons, List.map_cons, List.intercalate_cons_cons, ← List.map_cons,
        dollars_append (.inl (by simp)), dollars_append (.inr (by decide)), or_iff_left comma]
      refine (or_congr Iff.rfl ih).trans ?_
      simp only [List.mem_cons, exists_eq_or_imp]

theorem dollar_notMem_integer (n : Int) : '$' ∉ (toString n).toList := by
  have digits (m : Nat) : '$' ∉ m.repr.toList := by
    intro h
    rw [Nat.repr_eq_ofList_toDigits, String.toList_ofList] at h
    exact absurd (Nat.isDigit_of_mem_toDigits (b := 10) (by decide) (by decide) h) (by decide)
  rw [Int.toString_eq_repr]
  cases n with
  | ofNat m => exact digits m
  | negSucc m =>
    rw [Int.repr, String.toList_append, List.mem_append]
    exact not_or.mpr ⟨by decide, digits m.succ⟩

/-- The name in the text of a value. -/
def CapturedValue.name? : CapturedValue → Option String
  | column _ name => some name
  | code _ => none

theorem dollars_value (v : CapturedValue) : dollars <:+: (v.text "\"").toList ↔
    ∃ name, v.name? = some name ∧ dollars <:+: name.toList := by
  cases v with
  | column version name =>
    have row : ¬ dollars <:+: (version.name ++ ".").toList := by cases version <;> decide
    rw [CapturedValue.text, String.toList_append, dollars_append (.inl (by simp)), or_iff_right row,
      dollars_quote]
    simp [CapturedValue.name?]
  | code n =>
    have absent : ¬ dollars <:+: ((CapturedValue.code n).text "\"").toList :=
      fun h => dollar_notMem_integer n (h.subset (by decide))
    simp [absent, CapturedValue.name?]

/-- The names in the text of an insertion. -/
def CaptureInsert.names (i : CaptureInsert) : List String :=
  i.table :: (i.columns ++ i.values.filterMap CapturedValue.name?)

/-- The text of an insertion holds two dollars in a row exactly if one of its names does. -/
theorem dollars_insert (i : CaptureInsert) :
    dollars <:+: (i.text "\"").toList ↔ ∃ name ∈ i.names, dollars <:+: name.toList := by
  have words : ¬ dollars <:+: "INSERT INTO ".toList ∧ ¬ dollars <:+: " (".toList ∧
      ¬ dollars <:+: ") VALUES (".toList ∧ ¬ dollars <:+: ")".toList := by decide
  have parts : dollars <:+: (i.text "\"").toList ↔ dollars <:+: i.table.toList ∨
      (∃ name ∈ i.columns, dollars <:+: name.toList) ∨
        ∃ v ∈ i.values, dollars <:+: (v.text "\"").toList := by
    delta CaptureInsert.text
    simp only [String.toList_append, List.append_assoc]
    rw [dollars_append (.inl (by decide)), dollars_append (.inr (by simp)), dollars_append (.inl (by decide)),
      dollars_append (.inr (by simp)), dollars_append (.inl (by decide)), dollars_append (.inr (by simp)),
      dollars_quote, dollars_commaSeparated, dollars_commaSeparated]
    simp only [words, false_or, or_false, List.mem_map, exists_exists_and_eq_and, dollars_quote]
  have values : (∃ v ∈ i.values, dollars <:+: (v.text "\"").toList) ↔
      ∃ name ∈ i.values.filterMap CapturedValue.name?, dollars <:+: name.toList := by
    simp only [dollars_value, List.mem_filterMap]
    constructor
    · rintro ⟨v, hv, name, hname, found⟩
      exact ⟨name, ⟨v, hv, hname⟩, found⟩
    · rintro ⟨name, ⟨v, hv, hname⟩, found⟩
      exact ⟨v, hv, name, hname, found⟩
  rw [parts, values]
  simp only [CaptureInsert.names, List.mem_cons, List.mem_append, or_and_right, exists_or, exists_eq_left]

/-- The body of a trigger function. -/
def functionBody (insert : CaptureInsert) : String :=
  " BEGIN " ++ insert.text "\"" ++ "; RETURN NULL; END; "

/-- What stands before the body. -/
def functionHead (function : String) : List Lexeme :=
  [.word "CREATE", .word "OR", .word "REPLACE", .word "FUNCTION", .name function, .mark '(', .mark ')',
    .word "RETURNS", .word "TRIGGER", .word "AS"]

theorem ends_functionBody_iff (insert : CaptureInsert) : Ends dollars (functionBody insert).toList ↔
    ∀ name ∈ insert.names, ¬ dollars <:+: name.toList := by
  have words : ¬ dollars <:+: " BEGIN ".toList ∧ ¬ dollars <:+: "; RETURN NULL; END; ".toList := by decide
  have last : (functionBody insert).toList.getLast? ≠ some '$' := by
    rw [functionBody, String.toList_append, List.getLast?_append_of_ne_nil _ (by decide)]
    decide
  rw [ends_dollars_iff last]
  simp only [functionBody, String.toList_append, List.append_assoc]
  rw [dollars_append (.inl (by decide)), dollars_append (.inr (by simp)), or_iff_right words.1,
    or_iff_left words.2, dollars_insert]
  simp only [not_exists, not_and]

open Lexeme in
/-- The pieces of the statement that makes a function. What follows comes where its quotation ends. -/
theorem all_createFunction (function : String) (insert : CaptureInsert) :
    all ((Command.createFunction function insert).text .postgresql "\"").toList =
      (cut? dollars ((functionBody insert).toList ++ dollars ++ " LANGUAGE plpgsql".toList)).bind
        fun (body, rest) => (all rest).map fun more =>
          functionHead function ++ quotation (String.ofList body) :: more := by
  have front : ((Command.createFunction function insert).text .postgresql "\"").toList =
      "CREATE".toList ++ ' ' :: ("OR".toList ++ ' ' :: ("REPLACE".toList ++ ' ' :: ("FUNCTION".toList ++
        ' ' :: ((quote "\"" function).toList ++ '(' :: ')' :: ' ' :: ("RETURNS".toList ++ ' ' ::
          ("TRIGGER".toList ++ ' ' :: ("AS".toList ++ ' ' :: (dollars ++ ((functionBody insert).toList ++
            dollars ++ " LANGUAGE plpgsql".toList))))))))) := by
    delta Command.text functionBody
    simp [dollars]
  rw [front]
  rw [all_word_blank (by decide) (by decide), all_word_blank (by decide) (by decide),
    all_word_blank (by decide) (by decide), all_word_blank (by decide) (by decide), all_quote (by simp),
    all_mark _ (by decide) (by decide) (by decide) (by decide),
    all_mark _ (by decide) (by decide) (by decide) (by decide), all_blank,
    all_word_blank (by decide) (by decide), all_word_blank (by decide) (by decide),
    all_word_blank (by decide) (by decide), all_quotation]
  cases cut? dollars ((functionBody insert).toList ++ dollars ++ " LANGUAGE plpgsql".toList) with
  | none => rfl
  | some cut =>
    simp only [Option.bind_some, Option.map_map]
    rfl

/-- A function whose quotation is its body. -/
def intactFunction (function : String) (insert : CaptureInsert) : List Lexeme :=
  functionHead function ++ [.quotation (functionBody insert), .word "LANGUAGE", .word "plpgsql"]

open Lexeme in
theorem all_language : all " LANGUAGE plpgsql".toList = some [word "LANGUAGE", word "plpgsql"] := by
  have front : " LANGUAGE plpgsql".toList = ' ' :: ("LANGUAGE".toList ++ ' ' :: ("plpgsql".toList ++ [])) := rfl
  rw [front, all_blank, all_word_blank (by decide) (by decide), all_word (by decide) (by decide) rfl, all]
  rfl

/-- A function is intact exactly if its body ends where it is made to end. -/
theorem all_createFunction_iff (function : String) (insert : CaptureInsert) :
    Lexeme.all ((Command.createFunction function insert).text .postgresql "\"").toList =
      some (intactFunction function insert) ↔ Ends dollars (functionBody insert).toList := by
  rw [all_createFunction, ← cut?_append_iff dollars _ " LANGUAGE plpgsql".toList]
  constructor
  · intro h
    obtain ⟨⟨body, rest⟩, hcut, h⟩ := Option.bind_eq_some_iff.mp h
    obtain ⟨more, -, h⟩ := Option.map_eq_some_iff.mp h
    have same : String.ofList body = functionBody insert :=
      Lexeme.quotation.inj (List.cons.inj (List.append_cancel_left h)).1
    obtain rfl : body = (functionBody insert).toList := by rw [← same, String.toList_ofList]
    have whole := eq_of_cut? hcut
    rw [hcut, List.append_cancel_left whole]
  · intro h
    rw [h, Option.bind_some]
    simp only [all_language, Option.map_some, String.ofList_toList]
    rfl

/-- The names that stand in the body of the trigger functions of a model. -/
def bodyNames (m : CaptureModel) : List String :=
  m.captureTable :: m.eventTypeColumn :: m.idColumns.flatMap fun c => [c.captureColumn, c.sourceColumn]

theorem mem_names_captureInsert (m : CaptureModel) (kind : EventKind) (code : Int) (name : String) :
    name ∈ (TriggerSource.captureInsert m kind code).names ↔ name ∈ bodyNames m := by
  have sources : (m.idColumns.map fun c => CapturedValue.column (.ofKind kind) c.sourceColumn).filterMap
      CapturedValue.name? = m.idColumns.map (·.sourceColumn) := by
    rw [List.filterMap_map, ← List.filterMap_eq_map]
    rfl
  have codes : [CapturedValue.code code].filterMap CapturedValue.name? = [] := rfl
  simp only [TriggerSource.captureInsert, CaptureInsert.names, CaptureInsert.ofModel, bodyNames,
    List.filterMap_append, sources, codes, List.mem_cons, List.mem_append, List.mem_map, List.mem_flatMap]
  grind

/-- The pieces of the function behind a trigger: the first statement of the trigger. -/
def functionLexemes (m : CaptureModel) (kind : EventKind) (code : Int) : Option (List Lexeme) :=
  (TriggerSource.postgresql.createTrigger m kind code).head?.bind fun c =>
    Lexeme.all (TriggerSource.postgresql.statement c).text.toList

theorem functionLexemes_eq (m : CaptureModel) (kind : EventKind) (code : Int) :
    functionLexemes m kind code = Lexeme.all ((Command.createFunction
      (TriggerSource.defaultTriggerName m kind ++ "_fn")
      (TriggerSource.captureInsert m kind code)).text .postgresql "\"").toList := rfl

/-- The function behind a trigger is made under its quoted name, whatever the names in it are. Its body ends where it
is made to end, and nothing but the language follows, exactly if no name in it holds two dollars in a row. -/
theorem function_intact_iff (m : CaptureModel) (kind : EventKind) (code : Int) :
    let function := TriggerSource.defaultTriggerName m kind ++ "_fn"
    (∀ pieces, functionLexemes m kind code = some pieces → functionHead function <+: pieces) ∧
      (functionLexemes m kind code =
          some (intactFunction function (TriggerSource.captureInsert m kind code)) ↔
        ∀ name ∈ bodyNames m, Text.contains "$$" name = false) := by
  intro function
  constructor
  · intro pieces h
    rw [functionLexemes_eq, all_createFunction] at h
    obtain ⟨⟨body, rest⟩, -, h⟩ := Option.bind_eq_some_iff.mp h
    obtain ⟨more, -, rfl⟩ := Option.map_eq_some_iff.mp h
    exact List.prefix_append ..
  · have free (name : String) : Text.contains "$$" name = false ↔ ¬ dollars <:+: name.toList := by
      rw [← Bool.not_eq_true, ← cut?_isSome_iff]
      rfl
    rw [functionLexemes_eq, all_createFunction_iff, ends_functionBody_iff]
    simp only [mem_names_captureInsert, free]

/-- A model whose capture table has two dollars in its name. -/
def pricedPlaces : CaptureModel :=
  ⟨.root "register" "Place", "a$$b", "place", [⟨"placefk", "id", "BIGINT"⟩], "eventcase", "updateid"⟩

/-- The body of this function ends within the name of the table. -/
theorem pricedPlaces_not_intact : ¬ ∀ (m : CaptureModel) (kind : EventKind) (code : Int),
    kind.code? = some code → functionLexemes m kind code = some (intactFunction
      (TriggerSource.defaultTriggerName m kind ++ "_fn") (TriggerSource.captureInsert m kind code)) := by
  intro intact
  have ends := intact pricedPlaces .insert (-3) rfl
  rw [functionLexemes_eq, all_createFunction_iff, ends_functionBody_iff] at ends
  exact ends "a$$b" List.mem_cons_self ⟨['a'], ['b'], rfl⟩

end IndexSync.Trigger
