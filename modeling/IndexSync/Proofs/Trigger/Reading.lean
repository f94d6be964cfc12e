import IndexSync.Number.Literal
import IndexSync.Proofs.Text.Split
import IndexSync.Trigger.Source

/-!
# Insertions read back

What a database makes of the text of an insertion. A name ends at the first token that is not doubled, so
that names may hold anything, the token itself and the words and marks of the statement too.
-/
namespace IndexSync.Trigger.Reading

open Text

/-- A reader takes a value from the front of a text and leaves the rest. -/
abbrev Reader (α : Type) : Type := List Char → Option (α × List Char)

/-- Takes a fixed word. -/
def word (w : String) : Reader Unit := fun cs =>
  if w.toList.isPrefixOf cs then some ((), cs.drop w.toList.length) else none

/-- Takes what is left of a name, and the token at its end. A doubled token stands for one. -/
def nameRest (q : Char) : Reader (List Char)
  | [] => none
  | [c] => if c = q then some ([], []) else none
  | c :: d :: cs =>
    if c ≠ q then (nameRest q (d :: cs)).map fun (name, rest) => (c :: name, rest)
    else if d = q then (nameRest q cs).map fun (name, rest) => (q :: name, rest)
    else some ([], d :: cs)

/-- Takes a name between two tokens. -/
def name (q : Char) : Reader String
  | [] => none
  | c :: cs => if c = q then (nameRest q cs).map fun (name, rest) => (String.ofList name, rest) else none

/-- Takes an integer with its sign. -/
def code : Reader Int := fun cs =>
  let digit := fun c : Char => c = '-' || c.isDigit
  (Number.readInteger 10 (cs.takeWhile digit)).toOption.map fun n => (n, cs.dropWhile digit)

/-- Takes a column of one version of the changed row, or a code. -/
def value (q : Char) : Reader CapturedValue := fun cs =>
  let column := fun (version : RowVersion) => do
    let (_, cs) ← word (version.name ++ ".") cs
    let (name, cs) ← name q cs
    return (CapturedValue.column version name, cs)
  (column .old).or ((column .new).or ((code cs).map fun (n, cs) => (.code n, cs)))

/-- Takes items that stand between commas. There are no more of them than characters. -/
def items {α : Type} (item : Reader α) : (fuel : Nat) → Reader (List α)
  | 0, _ => none
  | fuel + 1, cs => do
    let (a, cs) ← item cs
    match word ", " cs with
    | some (_, cs) =>
      let (as, cs) ← items item fuel cs
      return (a :: as, cs)
    | none => return ([a], cs)

/-- The insertion that a text states. -/
def insertion (q : Char) (text : String) : Option CaptureInsert := do
  let cs := text.toList
  let (_, cs) ← word "INSERT INTO " cs
  let (table, cs) ← name q cs
  let (_, cs) ← word " (" cs
  let (columns, cs) ← items (name q) cs.length cs
  let (_, cs) ← word ") VALUES (" cs
  let (values, cs) ← items (value q) cs.length cs
  let (_, cs) ← word ")" cs
  if cs.isEmpty then return ⟨table, columns, values⟩ else none

theorem word_append (w : String) (rest : List Char) : word w (w.toList ++ rest) = some ((), rest) := by
  have hpre : w.toList.isPrefixOf (w.toList ++ rest) = true :=
    List.isPrefixOf_iff_prefix.mpr ⟨rest, rfl⟩
  rw [word, if_pos hpre, List.drop_left]

variable {q : Char} {rest : List Char}

/-- The text of a name with each token in it doubled. -/
def doubled (q : Char) (cs : List Char) : List Char := cs.flatMap fun c => if c = q then [q, q] else [c]

theorem doubled_token (cs : List Char) : doubled q (q :: cs) = q :: q :: doubled q cs := by
  simp [doubled]

theorem doubled_other {c : Char} (hc : c ≠ q) (cs : List Char) :
    doubled q (c :: cs) = c :: doubled q cs := by
  simp [doubled, hc]

/-- A name with each token in it doubled is read through to its end. -/
theorem nameRest_append (cs more : List Char) :
    nameRest q (doubled q cs ++ more) = (nameRest q more).map fun (name, rest) => (cs ++ name, rest) := by
  induction cs with
  | nil => simp [doubled]
  | cons c cs ih =>
    by_cases hc : c = q
    · subst hc
      rw [doubled_token, List.cons_append, List.cons_append, nameRest, if_neg (by simp), if_pos rfl, ih]
      simp [Function.comp_def]
    · rw [doubled_other hc, List.cons_append]
      generalize doubled q cs ++ more = left at ih ⊢
      cases left with
      | nil =>
        have unread : nameRest q more = none := by simpa [nameRest] using ih.symm
        simp [nameRest, hc, unread]
      | cons d left =>
        rw [nameRest, if_pos hc, ih]
        simp [Function.comp_def]

/-- A token that is not doubled ends a name. -/
theorem nameRest_token (h : rest.head? ≠ some q) : nameRest q (q :: rest) = some ([], rest) := by
  cases rest with
  | nil => simp [nameRest]
  | cons d rest =>
    have hd : d ≠ q := fun hd => h (by rw [hd, List.head?_cons])
    simp [nameRest, hd]

/-- What is read as the rest of a name is the doubled name, then a token that is not doubled. -/
theorem eq_of_nameRest {cs text rest : List Char} (h : nameRest q cs = some (text, rest)) :
    cs = doubled q text ++ q :: rest ∧ rest.head? ≠ some q := by
  induction cs using nameRest.induct q generalizing text with
  | case1 => cases h
  | case2 =>
    rw [nameRest, if_pos rfl] at h
    cases h
    exact ⟨rfl, by simp⟩
  | case3 c hc => simp [nameRest, hc] at h
  | case4 c d cs hc ih =>
    rw [nameRest, if_pos hc] at h
    obtain ⟨⟨text, rest⟩, hread, he⟩ := Option.map_eq_some_iff.mp h
    cases he
    obtain ⟨hcs, hrest⟩ := ih hread
    rw [doubled_other hc, List.cons_append, ← hcs]
    exact ⟨rfl, hrest⟩
  | case5 c cs hc ih =>
    obtain rfl : c = q := not_not.mp hc
    rw [nameRest, if_neg hc, if_pos rfl] at h
    obtain ⟨⟨text, rest⟩, hread, he⟩ := Option.map_eq_some_iff.mp h
    cases he
    obtain ⟨hcs, hrest⟩ := ih hread
    rw [doubled_token, List.cons_append, List.cons_append, ← hcs]
    exact ⟨rfl, hrest⟩
  | case6 c d cs hc hd =>
    obtain rfl : c = q := not_not.mp hc
    rw [nameRest, if_neg hc, if_neg hd] at h
    cases h
    exact ⟨rfl, fun head => hd (Option.some.inj head)⟩

/-- The characters of a quoted name. -/
theorem toList_quote (q : Char) (text : String) :
    (quote (String.singleton q) text).toList = q :: doubled q text.toList ++ [q] := by
  simp [quote, replace_singleton, doubled]

/-- What is read from a quoted name and what follows it begins with the name. -/
theorem name_quote_append (text : String) (more : List Char) :
    name q ((quote (String.singleton q) text).toList ++ more) =
      (nameRest q (q :: more)).map fun (rest, left) => (text ++ String.ofList rest, left) := by
  rw [toList_quote, List.cons_append, List.cons_append, name, if_pos rfl, List.append_assoc,
    nameRest_append, List.singleton_append, Option.map_map]
  congr 1
  funext ⟨rest, left⟩
  simp

/-- A quoted name reads back, unless one more token follows. -/
theorem name_quote (h : rest.head? ≠ some q) (text : String) :
    name q ((quote (String.singleton q) text).toList ++ rest) = some (text, rest) := by
  rw [name_quote_append, nameRest_token h]
  simp

/-- An item ends here: a comma or the closing parenthesis follows. -/
def Closed (rest : List Char) : Prop := rest.head? = some ',' ∨ rest.head? = some ')'

theorem Closed.head_ne (closed : Closed rest) (comma : q ≠ ',') (parenthesis : q ≠ ')') :
    rest.head? ≠ some q := by
  rintro h
  rcases closed with h' | h' <;> rw [h] at h' <;> cases h'
  · exact comma rfl
  · exact parenthesis rfl

theorem value_column (h : rest.head? ≠ some q) (version : RowVersion) (text : String) :
    value q (((CapturedValue.column version text).text (String.singleton q)).toList ++ rest) =
      some (.column version text, rest) := by
  have front : ((CapturedValue.column version text).text (String.singleton q)).toList ++ rest =
      (version.name ++ ".").toList ++ ((quote (String.singleton q) text).toList ++ rest) := by
    simp [CapturedValue.text]
  rw [front]
  cases version with
  | old => simp only [value, word_append, name_quote h, Option.bind_eq_bind, Option.bind_some]; rfl
  | new =>
    have other : word (RowVersion.old.name ++ ".")
        ((RowVersion.new.name ++ ".").toList ++ ((quote (String.singleton q) text).toList ++ rest)) =
        none := by
      simp [word, RowVersion.name]
    simp only [value, other, word_append, name_quote h, Option.bind_eq_bind, Option.bind_some,
      Option.bind_none, Option.none_or]
    rfl

/-- The codes that triggers write read back. -/
theorem value_code (closed : Closed rest) {kind : EventKind} {n : Int} (h : kind.code? = some n) :
    value q (((CapturedValue.code n).text (String.singleton q)).toList ++ rest) =
      some (.code n, rest) := by
  obtain ⟨c, more, rfl, hc⟩ : ∃ c more, rest = c :: more ∧ (c = '-' || c.isDigit) = false := by
    cases rest with
    | nil => simp [Closed] at closed
    | cons c more =>
      refine ⟨c, more, rfl, ?_⟩
      rcases closed with h | h <;> cases h <;> rfl
  obtain ⟨d, hn, hd, hread⟩ : ∃ d, (toString n).toList = ['-', d] ∧ d.isDigit = true ∧
      Number.readInteger 10 ['-', d] = .ok n := by
    cases kind <;> cases h
    · exact ⟨'3', by decide, by decide, by rfl⟩
    · exact ⟨'2', by decide, by decide, by rfl⟩
    · exact ⟨'1', by decide, by decide, by rfl⟩
  have column (version : RowVersion) : word (version.name ++ ".") ('-' :: d :: c :: more) = none := by
    cases version <;> simp [word, RowVersion.name]
  have read : code ('-' :: d :: c :: more) = some (n, c :: more) := by
    simp only [code, List.takeWhile_cons, List.dropWhile_cons, hd, hc, decide_true, Bool.true_or,
      Bool.or_true, if_true, Bool.false_eq_true, if_false, hread]
    rfl
  simp only [CapturedValue.text, hn, List.cons_append, List.nil_append, value, column, read]
  rfl

/-- Items between commas read back one by one. -/
theorem items_text {α : Type} {item : Reader α} {text : α → List Char} {as : List α} (any : as ≠ [])
    (reads : ∀ a ∈ as, ∀ rest, Closed rest → item (text a ++ rest) = some (a, rest))
    (last : rest.head? = some ')') {fuel : Nat} (enough : as.length ≤ fuel) :
    items item fuel (", ".toList.intercalate (as.map text) ++ rest) = some (as, rest) := by
  induction as generalizing fuel with
  | nil => exact absurd rfl any
  | cons a others ih =>
    obtain ⟨fuel, rfl⟩ : ∃ n, fuel = n + 1 := ⟨fuel - 1, by simp at enough; omega⟩
    have first := reads a List.mem_cons_self
    cases others with
    | nil =>
      obtain ⟨more, rfl⟩ := List.head?_eq_some_iff.mp last
      have closed : word ", " (')' :: more) = none := by simp [word]
      simp [items, first _ (.inr last), closed]
    | cons b others =>
      have later := ih (List.cons_ne_nil b others) (fun a ha => reads a (List.mem_cons_of_mem _ ha))
        (Nat.le_of_succ_le_succ enough)
      rw [List.map_cons, List.map_cons, List.intercalate_cons_cons, List.append_assoc,
        List.append_assoc, ← List.map_cons, items, first _ (.inl rfl)]
      simp only [Option.bind_eq_bind, Option.bind_some, word_append, later]
      rfl

theorem length_le_intercalate {α : Type} (sep : List α) (hsep : sep ≠ []) (parts : List (List α)) :
    parts.length ≤ (sep.intercalate parts).length + 1 := by
  induction parts with
  | nil => simp
  | cons part others ih =>
    cases others with
    | nil => simp
    | cons next others =>
      have := List.length_pos_iff.mpr hsep
      simp only [List.intercalate_cons_cons, List.length_append, List.length_cons] at ih ⊢
      omega

/-- A list of items in parentheses reads back, with as much fuel as there are characters. -/
theorem items_commaSeparated {α : Type} (item : Reader α) {text : α → String} {as : List α}
    (any : as ≠ [])
    (reads : ∀ a ∈ as, ∀ rest, Closed rest → item ((text a).toList ++ rest) = some (a, rest))
    (last : rest.head? = some ')') :
    items item ((commaSeparated (as.map text)).toList ++ rest).length
      ((commaSeparated (as.map text)).toList ++ rest) = some (as, rest) := by
  have apart : (commaSeparated (as.map text)).toList =
      ", ".toList.intercalate (as.map fun a => (text a).toList) := by
    simp [commaSeparated, String.toList_intercalate, Function.comp_def]
  have := length_le_intercalate ", ".toList (by simp) (as.map fun a => (text a).toList)
  obtain ⟨more, rfl⟩ := List.head?_eq_some_iff.mp last
  rw [apart]
  refine items_text any reads last ?_
  simp only [List.length_map, List.length_append, List.length_cons] at this ⊢
  omega

/-- An insertion reads back from its text. Its codes are those that triggers write, and the token is no
mark of the statement. -/
theorem insertion_text (blank : q ≠ ' ') (comma : q ≠ ',') (parenthesis : q ≠ ')') {i : CaptureInsert}
    (columns : i.columns ≠ []) (values : i.values ≠ [])
    (codes : ∀ n, .code n ∈ i.values → ∃ kind : EventKind, kind.code? = some n) :
    insertion q (i.text (String.singleton q)) = some i := by
  have front : (i.text (String.singleton q)).toList =
      "INSERT INTO ".toList ++ ((quote (String.singleton q) i.table).toList ++
        (" (".toList ++ ((commaSeparated (i.columns.map (quote (String.singleton q)))).toList ++
          (") VALUES (".toList ++
            ((commaSeparated (i.values.map (·.text (String.singleton q)))).toList ++
              (")".toList ++ [])))))) := by
    delta CaptureInsert.text
    simp only [String.toList_append, List.append_assoc, List.append_nil]
  have readTable (more : List Char) :
      name q ((quote (String.singleton q) i.table).toList ++ (" (".toList ++ more)) =
        some (i.table, " (".toList ++ more) :=
    name_quote (by simpa using blank.symm) i.table
  have readColumns (more : List Char) :=
    items_commaSeparated (name q) columns (fun text _ rest closed =>
      name_quote (closed.head_ne comma parenthesis) text)
      (show (") VALUES (".toList ++ more).head? = some ')' by simp)
  have readValues :=
    items_commaSeparated (value q) values (fun v hv rest closed => by
      cases v with
      | column version text => exact value_column (closed.head_ne comma parenthesis) version text
      | code n =>
        obtain ⟨kind, hkind⟩ := codes n hv
        exact value_code closed hkind)
      (show (")".toList ++ []).head? = some ')' by simp)
  simp only [insertion, front, word_append, readTable, readColumns, readValues, Option.bind_eq_bind,
    Option.bind_some]
  rfl

end IndexSync.Trigger.Reading
