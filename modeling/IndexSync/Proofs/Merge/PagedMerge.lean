import IndexSync.Proofs.Merge.Refill

/-! The cursor over paged streams hands out the plain merge of what its streams have left. -/
namespace IndexSync
namespace MergeCursor

variable {σ : Type} {fetch : Fetch σ} {Fine : σ → Prop} {tables : List (List CaptureEvent)}

theorem page_eq_nil_of_leastFrom {streams : List Stream} {i : Nat}
    (h : leastFrom i streams = none) : ∀ st ∈ streams, st.page = [] := by
  induction streams generalizing i with
  | nil => simp
  | cons st rest ih =>
    simp only [leastFrom] at h
    split at h
    · rename_i hpage
      exact List.forall_mem_cons.2 ⟨hpage, ih h⟩
    · cases h
    · split at h <;> cases h

/-- The head that is chosen comes before all other heads, counted from `i`. -/
theorem leastFrom_eq_some {streams : List Stream} {i : Nat} {k : Int} {j : Nat}
    (h : leastFrom i streams = some (k, j)) :
    ∃ m st e rest, j = i + m ∧ streams[m]? = some st ∧ st.page = e :: rest ∧ e.key = k ∧
      ∀ m' st' e' rest', streams[m']? = some st' → st'.page = e' :: rest' →
        k < e'.key ∨ k = e'.key ∧ m ≤ m' := by
  induction streams generalizing i k j with
  | nil => simp [leastFrom] at h
  | cons first others ih =>
    have later {k j} (h : leastFrom (i + 1) others = some (k, j))
        (hfirst : ∀ e' rest', first.page = e' :: rest' → k < e'.key) :
        ∃ m st e rest, j = i + m ∧ (first :: others)[m]? = some st ∧ st.page = e :: rest ∧
          e.key = k ∧ ∀ m' st' e' rest', (first :: others)[m']? = some st' →
            st'.page = e' :: rest' → k < e'.key ∨ k = e'.key ∧ m ≤ m' := by
      obtain ⟨m, st, e, rest, hj, hst, hpage, hk, hleast⟩ := ih h
      refine ⟨m + 1, st, e, rest, by omega, hst, hpage, hk, fun m' st' e' rest' hm' hp' => ?_⟩
      cases m' with
      | zero => exact .inl (hfirst e' rest' (Option.some.inj hm' ▸ hp'))
      | succ m' =>
        have := hleast m' st' e' rest' hm' hp'
        omega
    simp only [leastFrom] at h
    split at h
    · rename_i hpage
      exact later h (by simp [hpage])
    · rename_i e rest hpage hnone
      cases h
      refine ⟨0, first, e, rest, rfl, rfl, hpage, rfl, fun m' st' e' rest' hm' hp' => ?_⟩
      cases m' with
      | zero =>
        obtain rfl : first = st' := Option.some.inj hm'
        cases hpage.symm.trans hp'
        exact .inr ⟨rfl, Nat.le_refl _⟩
      | succ m' =>
        have := page_eq_nil_of_leastFrom hnone st' (List.mem_of_getElem? hm')
        simp [this] at hp'
    · rename_i e rest k' j' hpage hsome
      split at h
      · rename_i hlt
        cases h
        refine later hsome fun e' rest' hp' => ?_
        cases hpage.symm.trans hp'
        exact hlt
      · rename_i hge
        cases h
        refine ⟨0, first, e, rest, rfl, rfl, hpage, rfl, fun m' st' e' rest' hm' hp' => ?_⟩
        cases m' with
        | zero =>
          obtain rfl : first = st' := Option.some.inj hm'
          cases hpage.symm.trans hp'
          exact .inr ⟨rfl, Nat.le_refl _⟩
        | succ m' =>
          obtain ⟨m, st, e₁, rest₁, -, -, -, hk, hleast⟩ := ih hsome
          have := hleast m' st' e' rest' hm' hp'
          omega

/-- What is left when a stream has handed out its head. -/
theorem leftOf_set {streams : List Stream} (hlen : streams.length = tables.length) {i : Nat}
    {st : Stream} {e : CaptureEvent} {rest : List CaptureEvent} (hst : streams[i]? = some st)
    (hpage : st.page = e :: rest) :
    ∃ rows, (leftOf tables streams)[i]? = some (e :: rows) ∧
      leftOf tables (streams.set i { st with page := rest }) = (leftOf tables streams).set i rows := by
  have hlt : i < tables.length := hlen ▸ (List.getElem?_eq_some_iff.1 hst).1
  refine ⟨Stream.left tables[i] { st with page := rest }, ?_, List.ext_getElem? fun j => ?_⟩
  · rw [leftOf, List.getElem?_zipWith_eq_some]
    exact ⟨tables[i], st, List.getElem?_eq_getElem hlt, hst, by simp [Stream.left, hpage]⟩
  · simp only [leftOf, List.getElem?_zipWith, List.getElem?_set, List.length_zipWith]
    by_cases hij : i = j
    · subst hij
      simp [hlt, hlen]
    · simp [hij]

/-- The least head comes before all that is left in any stream. -/
theorem precedes_of_least {streams : List Stream}
    (hasc : ∀ rows ∈ leftOf tables streams, Ascending (·.key) rows)
    (hheads : ∀ i, HeadAt streams i) {j : Nat} {e : CaptureEvent}
    (hleast : ∀ i st e' rest, streams[i]? = some st → st.page = e' :: rest →
      e.key < e'.key ∨ e.key = e'.key ∧ j ≤ i) :
    ∀ x ∈ PlainMerge.taggedFrom 0 (leftOf tables streams), PlainMerge.precedes (e, j) x := by
  intro x hx
  obtain ⟨i, rows, hi, hmem, hxi⟩ := PlainMerge.mem_taggedFrom.1 hx
  have hrows := hasc rows (List.mem_of_getElem? hi)
  rw [leftOf, List.getElem?_zipWith_eq_some] at hi
  obtain ⟨table, st, -, hst, rfl⟩ := hi
  rcases hpage : st.page with _ | ⟨e', rest⟩
  · simp [Stream.left, hpage, hheads i st hst hpage] at hmem
  · have hle : e'.key ≤ x.1.key := by
      simp only [Stream.left, hpage, List.cons_append] at hmem hrows
      rcases List.mem_cons.1 hmem with h | h
      · exact h ▸ Int.le_refl _
      · exact Int.le_of_lt (List.rel_of_pairwise_cons hrows h)
    have := hleast i st e' rest hst hpage
    rw [PlainMerge.precedes_iff]
    simp only
    omega

/-- The stream with the least head hands out the first row of the merge of what is left. -/
theorem select_spec {c : MergeCursor} (hlen : c.streams.length = tables.length)
    (hasc : ∀ rows ∈ leftOf tables c.streams, Ascending (·.key) rows)
    (hheads : ∀ i, HeadAt c.streams i) :
    (plainMerge (leftOf tables c.streams) = [] ∧ c.select = (false, c)) ∨
    ∃ i st e rest, c.streams[i]? = some st ∧ st.page = e :: rest ∧
      c.select = (true, c.take i) ∧
      plainMerge (leftOf tables c.streams) =
        e :: plainMerge (leftOf tables (c.streams.set i { st with page := rest })) := by
  rcases hleast : leastFrom 0 c.streams with _ | ⟨k, j⟩
  · refine .inl ⟨plainMerge_eq_nil fun rows hrows => ?_, by simp [select, hleast]⟩
    obtain ⟨i, hi⟩ := List.mem_iff_getElem?.1 hrows
    rw [leftOf, List.getElem?_zipWith_eq_some] at hi
    obtain ⟨table, st, -, hst, rfl⟩ := hi
    have hpage := page_eq_nil_of_leastFrom hleast st (List.mem_of_getElem? hst)
    simp [Stream.left, hpage, hheads i st hst hpage]
  · obtain ⟨m, st, e, rest, hj, hst, hpage, rfl, hbefore⟩ := leastFrom_eq_some hleast
    obtain rfl : j = m := by omega
    obtain ⟨rows, hhead, hset⟩ := leftOf_set hlen hst hpage
    refine .inr ⟨j, st, e, rest, hst, hpage, by simp [select, hleast], ?_⟩
    rw [hset]
    exact plainMerge_eq_cons hasc hhead (precedes_of_least hasc hheads hbefore)

/-- An advance hands out the first row of the merge of what is left, if there is one. -/
theorem advance_spec (hf : fetch.Serves Fine tables)
    (hasc : ∀ rows ∈ tables, Ascending (·.key) rows) {c : MergeCursor} (hc : Ready tables c)
    (hroom : c.limit.any (· ≤ c.returned) = false) {s : σ} (hs : Fine s) :
    (plainMerge (leftOf tables c.streams) = [] ∧
      ∃ c' s', advance fetch (c, s) = (.ok false, c', s')) ∨
    ∃ e c' s', advance fetch (c, s) = (.ok true, c', s') ∧ c'.current = some e ∧
      plainMerge (leftOf tables c.streams) = e :: plainMerge (leftOf tables c'.streams) ∧
      c'.limit = c.limit ∧ c'.returned = c.returned + 1 ∧ Ready tables c' ∧ Fine s' := by
  have hc₀ : Ready tables { c with current := none } :=
    ⟨hc.length, hc.pageSize, hc.ascending, hc.isOpen, hc.fresh, hc.heads⟩
  obtain ⟨streams, s', hprep, hs', hr, hheads⟩ := prepare_spec hf hasc hc₀ hs
  let c₁ : MergeCursor :=
    { c with streams := streams, current := none, started := true, refill := none }
  have hadv : advance fetch (c, s) = (.ok c₁.select.1, c₁.select.2, s') := by
    have hgo : (c.closed || c.limit.any (· ≤ c.returned)) = false := by simp [hc.isOpen, hroom]
    simp only [advance, hgo, Bool.false_eq_true, if_false, hprep, c₁]
  have hlen : c₁.streams.length = tables.length := hr.length.trans hc.length
  have hlefts : ∀ rows ∈ leftOf tables c₁.streams, Ascending (·.key) rows :=
    fun rows hrows => hc.ascending rows (hr.left ▸ hrows)
  rw [hadv, ← show _ = leftOf tables c.streams from hr.left]
  rcases select_spec hlen hlefts hheads with ⟨hnil, hsel⟩ | ⟨i, st, e, rest, hst, hpage, hsel, hcons⟩
  · exact .inl ⟨hnil, c₁, s', by rw [hsel]⟩
  · obtain ⟨rows, hhead, hset⟩ := leftOf_set hlen hst hpage
    refine .inr ⟨e, c₁.take i, s', by rw [hsel], ?_⟩
    have htake : c₁.take i = { c₁ with
        streams := c₁.streams.set i { st with page := rest }
        current := some e
        returned := c₁.returned + 1
        refill := if rest.isEmpty && !st.exhausted then some i else c₁.refill } := by
      simp only [take, hst, hpage, setStream]
    rw [htake]
    refine ⟨rfl, hcons, rfl, rfl, ⟨?_, hc.pageSize, ?_, hc.isOpen, by simp [c₁], ?_⟩, hs'⟩
    · simpa using hlen
    · simp only [hset]
      intro x hx
      rcases List.mem_or_eq_of_mem_set hx with hx | rfl
      · exact hlefts x hx
      · exact List.Pairwise.of_cons (hlefts _ (List.mem_of_getElem? hhead))
    · -- only the stream that has handed out its last row waits for a page
      intro _ k
      by_cases hik : i = k
      · subst hik
        by_cases hwait : (rest.isEmpty && !st.exhausted) = true
        · exact .inl (by simp [hwait])
        · refine .inr fun x hx => ?_
          rw [List.getElem?_set_self (List.getElem?_eq_some_iff.1 hst).1] at hx
          obtain rfl := Option.some.inj hx
          intro hnil
          simp only at hnil
          simpa [hnil] using hwait
      · refine .inr fun x hx => hheads k x ?_
        simpa [List.getElem?_set, hik] using hx

end MergeCursor
end IndexSync
