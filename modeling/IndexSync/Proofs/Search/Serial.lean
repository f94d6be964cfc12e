import IndexSync.Proofs.Search.Changes
import Mathlib.Data.List.Induction
import Mathlib.Data.List.TakeWhile

/-!
# Transactions side by side

Any number of transactions may be open at once, and calls on them come in any order. At every point the
index is the one that the committed transactions leave, each made as a whole, in the order of their
commits. What is only staged, or has been rolled back, is not seen.
-/
namespace IndexSync.Search.Backend

/-- What a client asks for. Transactions are numbered in the order in which they begin. -/
inductive Call
  | begin
  | stage (id : Nat) (r : Request)
  | commit (id : Nat)
  | rollback (id : Nat)

def call (ms : Mappings) : Call → Action Backend Unit
  | .begin => fun b => (.ok (), (begin b).2)
  | .stage id r => stage ms id r
  | .commit id => commit ms id
  | .rollback id => Action.update (rollback id)

/-- What calls leave behind, whatever they answer. -/
def afterCalls (ms : Mappings) (b : Backend) (cs : List Call) : Backend :=
  cs.foldl (fun b c => (call ms c b).2) b

namespace Call

/-- The call ends a transaction if it is open. -/
def ends (id : Nat) : Call → Bool
  | .commit i | .rollback i => i = id
  | _ => false

def isBegin : Call → Bool
  | .begin => true
  | _ => false

/-- The changes that a call stages in an open transaction. -/
def changes (ms : Mappings) (id : Nat) : Call → List Change
  | .stage i r =>
    match Transaction.requestChange ms r with
    | .ok change => if i = id then change.toList else []
    | .error _ => []
  | _ => []

end Call

/-! What a row of calls says of each transaction, told without a backend. -/

/-- The calls that follow the beginning of a transaction, if it has begun. -/
def since : Nat → List Call → Option (List Call)
  | _, [] => none
  | id, c :: rest =>
    if c.isBegin then
      match id with
      | 0 => some rest
      | id + 1 => since id rest
    else since id rest

/-- A transaction is open from its beginning to its first commit or rollback. -/
def isOpen (id : Nat) (cs : List Call) : Bool := (since id cs).any (·.all (!·.ends id))

/-- The changes that were staged in a transaction while it was open. -/
def changesOf (ms : Mappings) (id : Nat) (cs : List Call) : List Change :=
  (((since id cs).getD []).takeWhile (!·.ends id)).flatMap (·.changes ms id)

/-- The transaction that a call commits after the calls before it. -/
def commits? (before : List Call) : Call → Option Nat
  | .commit id => if isOpen id before then some id else none
  | _ => none

/-- The committed transactions in the order of their commits. -/
def committed (cs : List Call) : List Nat :=
  (List.range cs.length).filterMap fun n => cs[n]?.bind (commits? (cs.take n))

/-- The index that the committed transactions leave, one after the other. -/
def serial (ms : Mappings) (cs : List Call) (ix : Index) : Index :=
  (committed cs).foldl (fun ix id => (Index.applyAll ms (changesOf ms id cs) ix).2) ix

variable {ms : Mappings} {id : Nat} {cs : List Call} {c : Call}

theorem since_append {life : List Call} (h : since id cs = some life) (more : List Call) :
    since id (cs ++ more) = some (life ++ more) := by
  fun_induction since id cs with
  | case1 => cases h
  | case2 c rest hc =>
    cases h
    simp [since, hc]
  | case3 c rest hc id ih => simpa [since, hc] using ih h
  | case4 id c rest hc ih => simpa [since, hc] using ih h

theorem since_eq_none_iff : since id cs = none ↔ cs.countP (·.isBegin) ≤ id := by
  fun_induction since id cs with
  | case1 => simp
  | case2 c rest hc => simp [hc]
  | case3 c rest hc id ih => simp [hc, ih]
  | case4 id c rest hc ih => simp [hc, ih]

theorem since_begin (cs : List Call) :
    since (cs.countP (·.isBegin)) (cs ++ [.begin]) = some [] := by
  induction cs with
  | nil => rfl
  | cons c rest ih => by_cases hc : c.isBegin <;> simpa [since, hc] using ih

theorem exists_since_of_isOpen (h : isOpen id cs) :
    ∃ life, since id cs = some life ∧ ∀ c ∈ life, c.ends id = false := by
  cases hs : since id cs with
  | none => simp [isOpen, hs] at h
  | some life => exact ⟨life, rfl, by simpa [isOpen, hs] using h⟩

theorem changesOf_eq {life : List Call} (h : since id cs = some life)
    (going : ∀ c ∈ life, c.ends id = false) :
    changesOf ms id cs = life.flatMap (·.changes ms id) := by
  rw [changesOf, h, Option.getD_some, List.takeWhile_eq_self_iff.mpr]
  simpa using going

/-- A call that begins nothing leaves a transaction open unless it ends it. -/
theorem isOpen_concat (hc : c.isBegin = false) :
    isOpen id (cs ++ [c]) = (isOpen id cs && !c.ends id) := by
  cases hs : since id cs with
  | none =>
    have hnone : since id (cs ++ [c]) = none := by
      rw [since_eq_none_iff] at hs ⊢
      simpa [List.countP_append, List.countP_singleton, hc] using hs
    simp [isOpen, hs, hnone]
  | some life => simp [isOpen, hs, since_append hs]

theorem isOpen_begin (id : Nat) (cs : List Call) :
    isOpen id (cs ++ [.begin]) = (isOpen id cs || id = cs.countP (·.isBegin)) := by
  cases hs : since id cs with
  | none =>
    rw [since_eq_none_iff] at hs
    by_cases hid : id = cs.countP (·.isBegin)
    · subst hid
      simp [isOpen, since_begin]
    · have hnone : since id (cs ++ [.begin]) = none := by
        rw [since_eq_none_iff, List.countP_append]
        have : cs.countP (·.isBegin) + 1 ≤ id := by omega
        simpa [Call.isBegin] using this
      simp [isOpen, hnone, since_eq_none_iff.mpr hs, hid]
  | some life =>
    have hlt : ¬ cs.countP (·.isBegin) ≤ id := by
      rw [← since_eq_none_iff, hs]
      simp
    have hne : id ≠ cs.countP (·.isBegin) := by omega
    simp [isOpen, hs, since_append hs, hne, Call.ends]

theorem changesOf_concat (ms : Mappings) (h : isOpen id cs) (c : Call) :
    changesOf ms id (cs ++ [c]) = changesOf ms id cs ++ c.changes ms id := by
  obtain ⟨life, hs, going⟩ := exists_since_of_isOpen h
  rw [changesOf_eq hs going, changesOf, since_append hs, Option.getD_some,
    List.takeWhile_append_of_pos (by simpa using going), List.flatMap_append]
  congr 1
  cases c with
  | commit i | rollback i => by_cases hi : i = id <;> simp [Call.ends, Call.changes, hi]
  | _ => simp [Call.ends]

/-- A transaction that has been ended takes in nothing more. -/
theorem changesOf_append {life : List Call} (h : since id cs = some life)
    (ended : life.any (·.ends id)) (more : List Call) :
    changesOf ms id (cs ++ more) = changesOf ms id cs := by
  rw [changesOf, since_append h, changesOf, h, Option.getD_some, Option.getD_some,
    List.takeWhile_append]
  have : (life.takeWhile (!·.ends id)).length ≠ life.length := by
    intro hlen
    have hself : life.takeWhile (!·.ends id) = life :=
      (List.takeWhile_prefix _).eq_of_length hlen
    rw [List.takeWhile_eq_self_iff] at hself
    obtain ⟨c, hc, hends⟩ := List.any_eq_true.mp ended
    simpa [hends] using hself c hc
  rw [if_neg this]

theorem committed_concat (cs : List Call) (c : Call) :
    committed (cs ++ [c]) = committed cs ++ (commits? cs c).toList := by
  unfold committed
  rw [List.length_append, List.length_singleton, List.range_succ, List.filterMap_append]
  congr 1
  · refine List.filterMap_congr fun n hn => ?_
    rw [List.mem_range] at hn
    rw [List.getElem?_append_left hn, List.take_append_of_le_length (Nat.le_of_lt hn)]
  · cases h : commits? cs c <;> simp [h]

theorem commits?_eq_some_iff : commits? cs c = some id ↔ c = .commit id ∧ isOpen id cs := by
  cases c with
  | commit i =>
    by_cases hi : isOpen i cs
    · simp only [commits?, hi, if_true, Option.some.injEq, Call.commit.injEq]
      exact ⟨fun h => ⟨h, h ▸ hi⟩, fun h => h.1⟩
    · simp only [commits?, hi, Bool.false_eq_true, if_false, reduceCtorEq, false_iff, not_and]
      rintro ⟨⟩
      exact hi
  | _ => simp [commits?]

/-- What was committed has ended. -/
theorem since_of_committed (h : id ∈ committed cs) :
    ∃ life, since id cs = some life ∧ life.any (·.ends id) := by
  induction cs using List.reverseRecOn with
  | nil => simp [committed] at h
  | append_singleton cs c ih =>
    rw [committed_concat, List.mem_append, Option.mem_toList] at h
    rcases h with h | h
    · obtain ⟨life, hs, ended⟩ := ih h
      exact ⟨life ++ [c], since_append hs [c], by simp [ended]⟩
    · obtain ⟨rfl, hopen⟩ := commits?_eq_some_iff.mp h
      obtain ⟨life, hs, -⟩ := exists_since_of_isOpen hopen
      exact ⟨life ++ [.commit id], since_append hs _, by simp [Call.ends]⟩

theorem serial_concat (ms : Mappings) (cs : List Call) (c : Call) (ix : Index) :
    serial ms (cs ++ [c]) ix = match commits? cs c with
      | some id => (Index.applyAll ms (changesOf ms id cs) (serial ms cs ix)).2
      | none => serial ms cs ix := by
  have earlier : (committed cs).foldl
      (fun ix id => (Index.applyAll ms (changesOf ms id (cs ++ [c])) ix).2) ix =
      serial ms cs ix := by
    refine List.foldl_ext _ _ _ fun ix id hid => ?_
    obtain ⟨life, hs, ended⟩ := since_of_committed hid
    rw [changesOf_append hs ended]
  rw [serial, committed_concat, List.foldl_append, earlier]
  cases h : commits? cs c with
  | none => rfl
  | some id =>
    obtain ⟨rfl, hopen⟩ := commits?_eq_some_iff.mp h
    have hchanges := changesOf_concat ms hopen (.commit id)
    simp [hchanges, Call.changes]

theorem transaction_setTransaction (b : Backend) (id i : Nat) (t : Transaction) :
    (b.setTransaction id t).transaction i =
      if i = id ∧ id < b.transactions.length then t else b.transaction i := by
  unfold transaction setTransaction
  by_cases hi : i = id
  · subst hi
    by_cases hlt : i < b.transactions.length <;> simp [hlt]
  · simp [hi, List.getElem?_set_ne (Ne.symm hi)]

/-- What a call makes of an open transaction. -/
def Call.madeOf (ms : Mappings) (id : Nat) (c : Call) (t : Transaction) : Transaction :=
  if c.ends id then ⟨[], true⟩ else ⟨t.staged ++ c.changes ms id, false⟩

theorem Call.madeOf_self {t : Transaction} (opened : t.closed = false)
    (going : c.ends id = false) (nothing : c.changes ms id = []) : c.madeOf ms id t = t := by
  obtain ⟨staged, closed⟩ := t
  obtain rfl : closed = false := opened
  simp [madeOf, going, nothing]

/-- After a call each open transaction is what the call makes of it, and each closed one as before. -/
structure Acts (ms : Mappings) (c : Call) (b after : Backend) : Prop where
  begun : after.transactions.length = b.transactions.length
  transaction : ∀ id, after.transaction id =
    if (b.transaction id).closed then b.transaction id else c.madeOf ms id (b.transaction id)

theorem Acts.withIndex {b after : Backend} (h : Acts ms c b after) (ix : Index) :
    Acts ms c b { after with index := ix } :=
  ⟨h.begun, h.transaction⟩

theorem acts_nothing {b : Backend} (h : ∀ id, (b.transaction id).closed = false →
    c.madeOf ms id (b.transaction id) = b.transaction id) : Acts ms c b b := by
  refine ⟨rfl, fun id => ?_⟩
  cases hclosed : (b.transaction id).closed with
  | true => rfl
  | false => exact (h id hclosed).symm

/-- A call on one open transaction. -/
theorem acts_on {b : Backend} (opened : (b.transaction id).closed = false)
    (others : ∀ i, i ≠ id → c.ends i = false ∧ c.changes ms i = []) :
    Acts ms c b (b.setTransaction id (c.madeOf ms id (b.transaction id))) := by
  refine ⟨List.length_set, fun i => ?_⟩
  rw [transaction_setTransaction]
  by_cases hi : i = id
  · subst hi
    simp [lt_of_open opened, opened]
  · simp only [hi, false_and, if_false]
    cases hclosed : (b.transaction i).closed with
    | true => rfl
    | false => exact (Call.madeOf_self hclosed (others i hi).1 (others i hi).2).symm

/-- A closed transaction refuses all calls but a rollback, which does nothing. -/
theorem call_of_closed (ms : Mappings) {b : Backend} (h : (b.transaction id).closed = true) :
    (∀ r, stage ms id r b = (.error (.state .transactionClosed), b)) ∧
      commit ms id b = (.error (.state .transactionClosed), b) ∧ b.rollback id = b := by
  refine ⟨fun r => ?_, ?_, ?_⟩
  · simp [stage, Transaction.stage, h]
  · simp [commit, h]
  · simp [rollback, h]

theorem acts_of_closed {b : Backend} (h : (b.transaction id).closed = true)
    (others : ∀ i, i ≠ id → c.ends i = false ∧ c.changes ms i = []) : Acts ms c b b := by
  refine acts_nothing fun i opened => ?_
  have hi : i ≠ id := by
    rintro rfl
    simp [h] at opened
  exact Call.madeOf_self opened (others i hi).1 (others i hi).2

theorem acts_stage (ms : Mappings) (id : Nat) (r : Request) (b : Backend) :
    Acts ms (.stage id r) b (stage ms id r b).2 := by
  have others : ∀ i, i ≠ id →
      (Call.stage id r).ends i = false ∧ (Call.stage id r).changes ms i = [] := by
    intro i hi
    refine ⟨rfl, ?_⟩
    cases hr : Transaction.requestChange ms r <;> simp [Call.changes, hr, Ne.symm hi]
  cases hclosed : (b.transaction id).closed with
  | true =>
    rw [(call_of_closed ms hclosed).1 r]
    exact acts_of_closed hclosed others
  | false =>
    cases hr : Transaction.requestChange ms r with
    | ok change =>
      rw [stage_of_request hclosed hr]
      have := acts_on (c := .stage id r) hclosed others
      simpa [Call.madeOf, Call.ends, Call.changes, hr] using this
    | error f =>
      have same : stage ms id r b = (.error f, b) := by
        simp only [stage, Transaction.stage, hclosed, Bool.false_eq_true, if_false, hr]
        rfl
      rw [same]
      refine acts_nothing fun i opened => Call.madeOf_self opened rfl ?_
      simp [Call.changes, hr]

theorem acts_commit (ms : Mappings) (id : Nat) (b : Backend) :
    Acts ms (.commit id) b (commit ms id b).2 := by
  have others : ∀ i, i ≠ id → (Call.commit id).ends i = false ∧ (Call.commit id).changes ms i = [] :=
    fun i hi => ⟨by simpa [Call.ends] using Ne.symm hi, rfl⟩
  cases hclosed : (b.transaction id).closed with
  | true =>
    rw [(call_of_closed ms hclosed).2.1]
    exact acts_of_closed hclosed others
  | false =>
    rw [commit_of_open hclosed]
    have := acts_on (c := .commit id) hclosed others
    have made : Acts ms (.commit id) b (b.setTransaction id ⟨[], true⟩) := by
      simpa [Call.madeOf, Call.ends] using this
    exact made.withIndex _

theorem acts_rollback (ms : Mappings) (id : Nat) (b : Backend) :
    Acts ms (.rollback id) b (b.rollback id) := by
  have others : ∀ i, i ≠ id →
      (Call.rollback id).ends i = false ∧ (Call.rollback id).changes ms i = [] :=
    fun i hi => ⟨by simpa [Call.ends] using Ne.symm hi, rfl⟩
  cases hclosed : (b.transaction id).closed with
  | true =>
    rw [(call_of_closed ms hclosed).2.2]
    exact acts_of_closed hclosed others
  | false =>
    have := acts_on (c := .rollback id) hclosed others
    simpa [rollback, hclosed, Call.madeOf, Call.ends] using this

theorem transaction_after_begin (b : Backend) (id : Nat) :
    (begin b).2.transaction id =
      if id = b.transactions.length then .fresh else b.transaction id := by
  by_cases hid : id = b.transactions.length
  · subst hid
    simp [transaction_begin]
  · simp only [hid, if_false, begin, transaction]
    by_cases hlt : id < b.transactions.length
    · rw [List.getElem?_append_left hlt]
    · rw [List.getElem?_eq_none (by simp; omega), List.getElem?_eq_none (Nat.not_lt.mp hlt)]

/-- The backend agrees with what the calls say. -/
structure Follows (ms : Mappings) (ix : Index) (cs : List Call) (b : Backend) : Prop where
  begun : b.transactions.length = cs.countP (·.isBegin)
  transaction : ∀ id, b.transaction id =
    if isOpen id cs then ⟨changesOf ms id cs, false⟩ else ⟨[], true⟩
  index : b.index = serial ms cs ix

namespace Follows

variable {ix : Index} {b after : Backend}

theorem closed (h : Follows ms ix cs b) (id : Nat) :
    (b.transaction id).closed = !isOpen id cs := by
  rw [h.transaction]
  cases isOpen id cs <;> rfl

theorem begins (h : Follows ms ix cs b) : Follows ms ix (cs ++ [.begin]) (begin b).2 := by
  refine ⟨?_, fun id => ?_, ?_⟩
  · simp [begin, h.begun, Call.isBegin]
  · rw [transaction_after_begin, isOpen_begin, h.begun, h.transaction]
    by_cases hid : id = cs.countP (·.isBegin)
    · subst hid
      simp [changesOf, since_begin, Transaction.fresh]
    · cases hopen : isOpen id cs with
      | true => simp [hid, changesOf_concat ms hopen, Call.changes]
      | false => simp [hid]
  · rw [serial_concat]
    exact h.index

theorem acts (h : Follows ms ix cs b) (hc : c.isBegin = false) (acts : Acts ms c b after)
    (index : after.index = serial ms (cs ++ [c]) ix) : Follows ms ix (cs ++ [c]) after := by
  refine ⟨?_, fun id => ?_, index⟩
  · rw [acts.begun, h.begun, List.countP_append]
    simp [hc]
  · rw [acts.transaction, h.closed, isOpen_concat hc, h.transaction]
    cases hopen : isOpen id cs with
    | false => rfl
    | true => cases hends : c.ends id <;> simp [Call.madeOf, hends, changesOf_concat ms hopen]

theorem commits (h : Follows ms ix cs b) (id : Nat) :
    Follows ms ix (cs ++ [.commit id]) (commit ms id b).2 := by
  refine h.acts rfl (acts_commit ms id b) ?_
  rw [serial_concat]
  cases hopen : isOpen id cs with
  | true =>
    have hclosed : (b.transaction id).closed = false := by rw [h.closed, hopen]; rfl
    have hcommits : commits? cs (.commit id) = some id := commits?_eq_some_iff.mpr ⟨rfl, hopen⟩
    simp only [commit_of_open hclosed, hcommits, ← h.index]
    rw [h.transaction, hopen]
    rfl
  | false =>
    have hclosed : (b.transaction id).closed = true := by rw [h.closed, hopen]; rfl
    have hcommits : commits? cs (.commit id) = none := by simp [commits?, hopen]
    rw [(call_of_closed ms hclosed).2.1, hcommits]
    exact h.index

/-- One more call keeps the agreement. -/
theorem call (h : Follows ms ix cs b) (c : Call) :
    Follows ms ix (cs ++ [c]) (Backend.call ms c b).2 := by
  cases c with
  | begin => exact h.begins
  | stage id r =>
    refine h.acts rfl (acts_stage ms id r b) ?_
    rw [serial_concat]
    refine Eq.trans ?_ h.index
    rw [Backend.call, stage]
    split <;> rfl
  | commit id => exact h.commits id
  | rollback id =>
    refine h.acts rfl (acts_rollback ms id b) ?_
    rw [serial_concat]
    exact (index_rollback id b).trans h.index

end Follows

theorem follows_afterCalls (ms : Mappings) (ix : Index) (cs : List Call) :
    Follows ms ix cs (afterCalls ms ⟨ix, []⟩ cs) := by
  induction cs using List.reverseRecOn with
  | nil => exact ⟨rfl, fun _ => rfl, rfl⟩
  | append_singleton cs c ih =>
    rw [afterCalls, List.foldl_append]
    exact ih.call c

/-- Transactions are serializable. After any calls, on any number of transactions, the index is that of
the committed transactions alone, one after the other; a commit answers what making its changes as a block
answers there; and a transaction that is not open refuses every call but a rollback, and nothing changes. -/
theorem serializable (ms : Mappings) (ix : Index) (cs : List Call) :
    let b := afterCalls ms ⟨ix, []⟩ cs
    b.index = serial ms cs ix ∧
      ∀ id, if isOpen id cs then
        (commit ms id b).1 = (Index.applyAll ms (changesOf ms id cs) (serial ms cs ix)).1
      else
        commit ms id b = (.error (.state .transactionClosed), b) ∧
          (∀ r, stage ms id r b = (.error (.state .transactionClosed), b)) ∧ b.rollback id = b := by
  have h := follows_afterCalls ms ix cs
  refine ⟨h.index, fun id => ?_⟩
  cases hopen : isOpen id cs with
  | true =>
    have hclosed : ((afterCalls ms ⟨ix, []⟩ cs).transaction id).closed = false := by
      rw [h.closed, hopen]
      rfl
    rw [if_pos rfl, commit_of_open hclosed, h.index, h.transaction, hopen]
    rfl
  | false =>
    have hclosed : ((afterCalls ms ⟨ix, []⟩ cs).transaction id).closed = true := by
      rw [h.closed, hopen]
      rfl
    obtain ⟨stages, commits, rolls⟩ := call_of_closed ms hclosed
    simp only [Bool.false_eq_true, if_false]
    exact ⟨commits, stages, rolls⟩

/-- The second transaction is committed first; the third is given up, and what is committed again counts
for nothing. -/
example : committed [.begin, .begin, .begin, .commit 1, .rollback 2, .commit 0, .commit 1, .commit 2] =
    [1, 0] := by decide

end IndexSync.Search.Backend
