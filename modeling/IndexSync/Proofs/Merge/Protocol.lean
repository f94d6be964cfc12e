import IndexSync.Proofs.Merge.Orderly

/-!
# What a caller can rely on

Sources may answer anything and fail at any time, and calls come in any order. An event can be read exactly
while an advance that moved is the last thing that was done to the cursor. A cursor that is closed, or has
come to its limit, or has once answered that it does not move, never moves again and asks for no page.
-/
namespace IndexSync

variable {σ : Type}

/-- The same fetches with a record of what was asked for: the stream, the key to start after and the number of
rows. A fetch that fails is recorded as well. -/
def Fetch.logged (fetch : Fetch σ) : Fetch (σ × List (Nat × Option Int × Nat)) :=
  fun i after n (s, log) =>
    let (outcome, s) := fetch i after n s
    (outcome, s, log ++ [(i, after, n)])

namespace MergeCursor

/-- What a caller hears of a call. -/
inductive Answer
  | advanced (outcome : Except Failure Bool)
  | read (outcome : Except Failure CaptureEvent)
  | closed

namespace Answer

def isRead : Answer → Bool
  | read _ => true
  | _ => false

/-- An advance that has moved. -/
def isMove : Answer → Bool
  | advanced (.ok true) => true
  | _ => false

/-- What was done to the cursor last. To read changes nothing. -/
def lastDone? (heard : List Answer) : Option Answer := (heard.filter (!·.isRead)).getLast?

theorem lastDone?_concat (heard : List Answer) (a : Answer) :
    lastDone? (heard ++ [a]) = if a.isRead then lastDone? heard else some a := by
  cases a <;> simp [lastDone?, isRead]

end Answer

/-- One call and its answer. -/
def answer (fetch : Fetch σ) : Call → MergeCursor × σ → Answer × MergeCursor × σ
  | .advance, p => (.advanced (advance fetch p).1, (advance fetch p).2)
  | .read, (c, s) => (.read c.event, c, s)
  | .close, (c, s) => (.closed, c.close, s)

/-- Calls one after the other with all that is heard. A failure does not end them. -/
def answers (fetch : Fetch σ) : List Call → MergeCursor × σ → List Answer × MergeCursor × σ
  | [], p => ([], p)
  | first :: rest, p =>
    let (a, p) := answer fetch first p
    let (more, p) := answers fetch rest p
    (a :: more, p)

variable {fetch : Fetch σ} {c c' : MergeCursor} {s s' : σ} {heard : List Answer} {limit : Option Nat}

theorem answers_append (fetch : Fetch σ) (cs ds : List Call) (p : MergeCursor × σ) :
    answers fetch (cs ++ ds) p = ((answers fetch cs p).1 ++ (answers fetch ds (answers fetch cs p).2).1,
      (answers fetch ds (answers fetch cs p).2).2) := by
  induction cs generalizing p with
  | nil => rfl
  | cons first rest ih => simp only [List.cons_append, answers, ih]

/-- An advance chooses an event: once the pages that are due have been fetched it stands first in its stream, no
other stream begins with one that comes before it, and the advance takes it off. -/
structure Chooses (fetch : Fetch σ) (p : MergeCursor × σ) (e : CaptureEvent) : Prop where
  moves : (advance fetch p).1 = .ok true
  first : ∃ c s i st rest, prepare fetch ({ p.1 with current := none }, p.2) = (.ok (), c, s) ∧
    c.streams[i]? = some st ∧ st.page = e :: rest ∧
    (∀ j st' e' rest', c.streams[j]? = some st' → st'.page = e' :: rest' →
      e.key < e'.key ∨ e.key = e'.key ∧ i ≤ j) ∧
    (advance fetch p).2.1.streams = c.streams.set i { st with page := rest }

/-- An event is that of the last advance, with nothing but reads since. -/
def ChosenLast (fetch : Fetch σ) (cs : List Call) (p : MergeCursor × σ) (e : CaptureEvent) : Prop :=
  ∃ before reads, cs = before ++ .advance :: reads ∧ (∀ r ∈ reads, r = .read) ∧
    Chooses fetch (answers fetch before p).2 e

theorem ChosenLast.read {cs : List Call} {p : MergeCursor × σ} {e : CaptureEvent}
    (h : ChosenLast fetch cs p e) : ChosenLast fetch (cs ++ [.read]) p e := by
  obtain ⟨before, reads, rfl, only, chooses⟩ := h
  refine ⟨before, reads ++ [.read], by simp, fun r hr => ?_, chooses⟩
  rcases List.mem_append.mp hr with hr | hr
  · exact only r hr
  · exact List.mem_singleton.mp hr

/-- Nothing but the pages of streams changes while they are filled. -/
theorem fill_frame (fetch : Fetch σ) (i : Nat) (c : MergeCursor) (s : σ) :
    ∃ streams, (fill fetch i (c, s)).2.1 = { c with streams := streams } := by
  have filled := fill_cases fetch i c s
  generalize fill fetch i (c, s) = next at filled ⊢
  cases filled with
  | idle | failed | refused => exact ⟨c.streams, rfl⟩
  | @received st rows st' s' lacks answer receives => exact ⟨c.streams.set i st', rfl⟩

theorem fillAll_frame (fetch : Fetch σ) (is : List Nat) (c : MergeCursor) (s : σ) :
    ∃ streams, (fillAll fetch is (c, s)).2.1 = { c with streams := streams } := by
  induction is generalizing c s with
  | nil => exact ⟨c.streams, rfl⟩
  | cons i rest ih =>
    obtain ⟨streams, filled⟩ := fill_frame fetch i c s
    simp only [fillAll, Action.bind_apply]
    generalize fill fetch i (c, s) = next at filled ⊢
    obtain ⟨outcome, c', s'⟩ := next
    obtain rfl : c' = { c with streams := streams } := filled
    cases outcome with
    | error f => exact ⟨streams, rfl⟩
    | ok u => exact ih { c with streams := streams } s'

/-- After what an advance prepares no stream is due any more, whether it went well or not. -/
theorem prepare_frame (fetch : Fetch σ) (c : MergeCursor) (s : σ)
    (fresh : c.started = false → c.refill = none) : ∃ streams,
    (prepare fetch (c, s)).2.1 = { c with streams := streams, refill := none, started := true } := by
  cases hstarted : c.started with
  | false =>
    simp only [prepare, hstarted, Bool.not_false, if_true, ← fresh hstarted]
    exact fillAll_frame ..
  | true =>
    simp only [prepare, hstarted, Bool.not_true, Bool.false_eq_true, if_false]
    cases hrefill : c.refill with
    | some i => simpa only [hstarted] using fill_frame fetch i { c with refill := none } s
    | none => exact ⟨c.streams, by simp only [← hrefill, ← hstarted]⟩

/-- A cursor that will not move again: it is closed, or at its limit, or no stream has a page or will get one. -/
def Spent (c : MergeCursor) : Prop :=
  (c.closed || c.limit.any (· ≤ c.returned)) = true ∨
    c.started = true ∧ c.refill = none ∧ ∀ st ∈ c.streams, st.page = []

theorem leastFrom_eq_none {streams : List Stream} (empty : ∀ st ∈ streams, st.page = []) (i : Nat) :
    leastFrom i streams = none := by
  induction streams generalizing i with
  | nil => rfl
  | cons st rest ih =>
    obtain ⟨first, others⟩ := List.forall_mem_cons.mp empty
    simp only [leastFrom, first]
    exact ih others (i + 1)

theorem Spent.advance_eq (h : c.Spent) (fetch : Fetch σ) (s : σ) :
    advance fetch (c, s) = (.ok false, { c with current := none }, s) := by
  unfold advance
  rcases h with full | ⟨hstarted, none_due, empty⟩
  · simp only [full, if_true]
  · simp only [prepare, hstarted, none_due, Bool.not_true, Bool.false_eq_true, if_false, select,
      leastFrom_eq_none empty, ite_self]

/-- Nothing that is done to a spent cursor makes it move or asks for a page. -/
theorem Spent.answers_eq (h : c.Spent) (fetch : Fetch σ) (s : σ) (cs : List Call) :
    (∀ outcome, .advanced outcome ∈ (answers fetch cs (c, s)).1 → outcome = .ok false) ∧
      (answers fetch cs (c, s)).2.2 = s := by
  induction cs generalizing c with
  | nil => exact ⟨nofun, rfl⟩
  | cons first rest ih =>
    cases first with
    | advance =>
      simp only [answers, answer, h.advance_eq, List.mem_cons, Answer.advanced.injEq]
      obtain ⟨stays, same⟩ := ih (c := { c with current := none }) h
      exact ⟨fun outcome heard => heard.elim id (stays outcome), same⟩
    | read =>
      simp only [answers, answer, List.mem_cons, reduceCtorEq, false_or]
      exact ih h
    | close =>
      simp only [answers, answer, List.mem_cons, reduceCtorEq, false_or]
      exact ih (.inl rfl)

/-- How a cursor stands after all that has been heard of it. -/
structure Standing (limit : Option Nat) (heard : List Answer) (c : MergeCursor) : Prop where
  bounded : c.limit = limit
  within : ∀ n ∈ limit, c.returned ≤ n
  counted : c.returned = heard.countP (·.isMove)
  fresh : c.started = false → c.refill = none
  closed : .closed ∈ heard → c.closed = true
  spent : .advanced (.ok false) ∈ heard → c.Spent

/-- What can be read, and when. -/
def Shows (heard : List Answer) (chosen : CaptureEvent → Prop) (c : MergeCursor) : Prop :=
  (∃ e, c.event = .ok e ∧ Answer.lastDone? heard = some (.advanced (.ok true)) ∧ chosen e) ∨
    c.event = .error (.cursor .noCurrentEvent) ∧
      Answer.lastDone? heard ≠ some (.advanced (.ok true))

/-- After an answer other than that an advance has moved nothing can be read. -/
theorem shows_nothing {a : Answer} (chosen : CaptureEvent → Prop) (hidden : c.current = none)
    (stays : a.isMove = false) (done : a.isRead = false) : Shows (heard ++ [a]) chosen c := by
  refine .inr ⟨by simp only [event, hidden], ?_⟩
  rw [Answer.lastDone?_concat, done]
  rintro ⟨⟩
  cases stays

/-- A cursor that has not moved stands as it did, if it is spent wherever it has said so. -/
theorem Standing.stay (h : Standing limit heard c) {a : Answer} (stays : a.isMove = false)
    (bounded : c'.limit = c.limit) (returned : c'.returned = c.returned)
    (fresh : c'.started = false → c'.refill = none)
    (closed : .closed ∈ heard ++ [a] → c'.closed = true)
    (spent : .advanced (.ok false) ∈ heard ++ [a] → c'.Spent) : Standing limit (heard ++ [a]) c' := by
  refine ⟨bounded.trans h.bounded, returned.symm ▸ h.within, ?_, fresh, closed, spent⟩
  rw [returned, h.counted, List.countP_append, List.countP_singleton, stays]
  rfl

theorem standing_advance (h : Standing limit heard c) (fetch : Fetch σ) (s : σ) :
    Standing limit (heard ++ [.advanced (advance fetch (c, s)).1]) (advance fetch (c, s)).2.1 ∧
      Shows (heard ++ [.advanced (advance fetch (c, s)).1]) (Chooses fetch (c, s))
        (advance fetch (c, s)).2.1 := by
  by_cases spent : c.Spent
  · -- What is spent stays so, whatever it has said before.
    rw [spent.advance_eq]
    refine ⟨h.stay rfl rfl rfl h.fresh (fun closed => h.closed ?_) fun _ => spent,
      shows_nothing _ rfl rfl rfl⟩
    simpa using closed
  have quiet : .advanced (.ok false) ∉ heard := fun stayed => spent (h.spent stayed)
  obtain ⟨streams, prepared⟩ := prepare_frame fetch { c with current := none } s h.fresh
  have advanced := advance_cases fetch c s
  generalize hnext : advance fetch (c, s) = next at advanced ⊢
  cases advanced with
  | ended full => exact absurd (.inl full) spent
  | @failed f c' s' open_ ready =>
    rw [ready] at prepared
    obtain rfl := prepared
    refine ⟨h.stay rfl rfl rfl (fun _ => rfl) (fun closed => h.closed ?_) fun stayed => ?_,
      shows_nothing _ rfl rfl rfl⟩
    · simpa using closed
    · exact absurd (by simpa using stayed) quiet
  | @exhausted c' s' open_ ready empty =>
    rw [ready] at prepared
    obtain rfl := prepared
    refine ⟨h.stay rfl rfl rfl (fun _ => rfl) (fun closed => h.closed ?_)
      fun _ => .inr ⟨rfl, rfl, empty⟩, shows_nothing _ rfl rfl rfl⟩
    simpa using closed
  | @moved c' s' i st e rest open_ ready stream page least =>
    rw [ready] at prepared
    obtain rfl := prepared
    refine ⟨⟨h.bounded, fun n hn => ?_, ?_, nofun, fun closed => h.closed ?_, fun stayed => ?_⟩,
      .inl ⟨e, rfl, ?_, ⟨by rw [hnext], _, _, i, st, rest, ready, stream, page, least, ?_⟩⟩⟩
    · have below := (Bool.or_eq_false_iff.mp open_).2
      rw [h.bounded, Option.mem_def.mp hn] at below
      exact Nat.lt_of_not_le (of_decide_eq_false below)
    · rw [List.countP_append, ← h.counted]
      rfl
    · simpa using closed
    · exact absurd (by simpa using stayed) quiet
    · rw [Answer.lastDone?_concat]
      rfl
    · rw [hnext]
      rfl

theorem standing_answer (h : Standing limit heard c) (fetch : Fetch σ) (s : σ) (first : Call) :
    Standing limit (heard ++ [(answer fetch first (c, s)).1]) (answer fetch first (c, s)).2.1 := by
  cases first with
  | advance => exact (standing_advance h fetch s).1
  | read =>
    refine h.stay rfl rfl rfl h.fresh (fun closed => h.closed ?_) fun stayed => h.spent ?_
    · simpa [answer] using closed
    · simpa [answer] using stayed
  | close => exact h.stay rfl rfl rfl (fun _ => rfl) (fun _ => rfl) fun _ => .inl rfl

theorem standing_create {names : List String} {pageSize : Int} {after : Entries String Int}
    {limit : Option Int} (created : create names pageSize after limit = .ok c) :
    ∃ bound : Option Nat, limit = bound.map Int.ofNat ∧ Standing bound [] c ∧ c.current = none := by
  unfold create at created
  split at created
  · cases created
  split at created
  · cases created
  rename_i sensible
  cases created
  refine ⟨limit.map Int.toNat, ?_, ⟨rfl, fun n _ => Nat.zero_le n, rfl, fun _ => rfl, nofun, nofun⟩, rfl⟩
  cases limit with
  | none => rfl
  | some n =>
    have : ¬ n < 0 := by simpa using sensible
    simp only [Option.map_some, Int.ofNat_eq_natCast, Option.some.injEq]
    omega

/-- Any calls on a new cursor: how it stands after them, and what it shows. -/
theorem standing_answers (h : Standing limit [] c) (hidden : c.current = none) (fetch : Fetch σ) (s : σ)
    (cs : List Call) :
    Standing limit (answers fetch cs (c, s)).1 (answers fetch cs (c, s)).2.1 ∧
      Shows (answers fetch cs (c, s)).1 (ChosenLast fetch cs (c, s)) (answers fetch cs (c, s)).2.1 := by
  induction cs using List.reverseRecOn with
  | nil => exact ⟨h, .inr ⟨by simp only [answers, event, hidden], (Option.some_ne_none _).symm⟩⟩
  | append_singleton cs last ih =>
    obtain ⟨standing, shows⟩ := ih
    have step := standing_answer standing fetch (answers fetch cs (c, s)).2.2 last
    simp only [answers_append, answers]
    refine ⟨step, ?_⟩
    cases last with
    | advance =>
      refine (standing_advance standing fetch (answers fetch cs (c, s)).2.2).2.imp_left ?_
      rintro ⟨e, shown, done, chooses⟩
      exact ⟨e, shown, done, cs, [], rfl, List.forall_mem_nil _, chooses⟩
    | read =>
      have same : Answer.lastDone? ((answers fetch cs (c, s)).1 ++ [.read (answers fetch cs (c, s)).2.1.event]) =
          Answer.lastDone? (answers fetch cs (c, s)).1 := Answer.lastDone?_concat ..
      simp only [answer, Shows, same]
      refine shows.imp_left ?_
      rintro ⟨e, shown, done, chosen⟩
      exact ⟨e, shown, done, chosen.read⟩
    | close => exact shows_nothing _ rfl rfl rfl

/-- Whatever sources do and whichever calls are made: the event that the last advance has chosen can be read if
that advance has moved and the cursor has not been closed since, and otherwise nothing can. The advances that
have moved are counted, and are no more than the limit. A cursor that is closed, or at its limit, or that has
once not moved does not move any more, and asks no source for a page. -/
theorem keeps_protocol {names : List String} {pageSize : Int} {after : Entries String Int}
    {limit : Option Int} (created : create names pageSize after limit = .ok c) (fetch : Fetch σ) (s : σ)
    (cs : List Call) :
    let heard := (answers fetch cs (c, s)).1
    let now := (answers fetch cs (c, s)).2
    Shows heard (ChosenLast fetch cs (c, s)) now.1 ∧
      now.1.returned = heard.countP (·.isMove) ∧ (∀ n, limit = some n → (now.1.returned : Int) ≤ n) ∧
      (.closed ∈ heard ∨ limit = some (now.1.returned : Int) ∨ .advanced (.ok false) ∈ heard → ∀ ds,
        (∀ outcome, .advanced outcome ∈ (answers fetch ds now).1 → outcome = .ok false) ∧
          (answers fetch.logged ds (now.1, now.2, [])).2.2 = (now.2, [])) := by
  intro heard now
  obtain ⟨bound, rfl, fresh, hidden⟩ := standing_create created
  obtain ⟨standing, shows⟩ := standing_answers fresh hidden fetch s cs
  refine ⟨shows, standing.counted, fun n hn => ?_, fun ended ds => ?_⟩
  · obtain ⟨k, hk, rfl⟩ := Option.map_eq_some_iff.mp hn
    exact Int.ofNat_le.mpr (standing.within k hk)
  · have spent : now.1.Spent := by
      rcases ended with closed | full | stayed
      · exact .inl (by simp [now, standing.closed closed])
      · obtain ⟨k, hk, hreturned⟩ := Option.map_eq_some_iff.mp full
        exact .inl (by simp [now, standing.bounded, hk, Int.ofNat_inj.mp hreturned])
      · exact standing.spent stayed
    exact ⟨(spent.answers_eq fetch now.2 ds).1, (spent.answers_eq fetch.logged (now.2, []) ds).2⟩

/-- The first advance fails, the three after it move, and the limit lets no other do so. -/
theorem unruly_sources_at_limit :
    ∃ c, create ["items", "orders", "parts"] 2 [("items", 1)] (some 3) = .ok c ∧
      let cs : List Call := [.advance, .read, .advance, .advance, .advance, .read]
      let now := (answers PageSource.fetch cs (c, unrulySources)).2
      now.1.returned = 3 ∧ (∃ e, now.1.event = .ok e ∧ e.key = 3 ∧
        ChosenLast PageSource.fetch cs (c, unrulySources) e) ∧
      ∀ ds, (answers PageSource.fetch.logged ds (now.1, now.2, [])).2.2 = (now.2, []) := by
  have created : ∃ c, create ["items", "orders", "parts"] 2 [("items", 1)] (some 3) = .ok c := ⟨_, rfl⟩
  obtain ⟨c, created⟩ := created
  obtain ⟨shows, -, -, ended⟩ := keeps_protocol created PageSource.fetch unrulySources
    [.advance, .read, .advance, .advance, .advance, .read]
  refine ⟨c, created, ?_⟩
  cases created
  refine ⟨by decide, ?_, fun ds => (ended (.inr (.inl (by decide))) ds).2⟩
  rcases shows with ⟨e, shown, -, chosen⟩ | ⟨hidden, -⟩
  · exact ⟨e, shown, by cases shown; rfl, chosen⟩
  · cases hidden

end MergeCursor
end IndexSync
