import IndexSync.Proofs.Dispatch.Atomicity

/-!
# Dispatches side by side

Several dispatches go on at once and share the access to entities, in which there is room for one session.
A dispatch that finds a session open is turned away. Every other one opens a session of its own, reads in
it, gives it up and closes it, whatever fails on the way. Others may go on between the last two: the session
that a dispatch is still closing is no longer open to anybody.
-/
namespace IndexSync

/-- A failure of one step, before the step does anything or after it has. -/
structure Strike where
  early : Bool
  failure : Failure

/-- What was done with sessions, by the number of the dispatch. Sessions are numbered as they open. -/
inductive SessionUse
  | read (caller : Nat) (session : Option Nat)
  | closed (caller session : Nat)

/-- By whom each session was opened, which one is at hand, which ones were given up by whom, and what was
done with them. -/
structure Sessions where
  openedBy : List Nat
  current : Option Nat
  givenUp : List (Nat × Nat)
  uses : List SessionUse

namespace Sessions

def empty : Sessions := ⟨[], none, [], []⟩

def opens (l : Sessions) (caller : Nat) : Sessions :=
  { l with openedBy := l.openedBy ++ [caller], current := some l.openedBy.length }

def reads (l : Sessions) (caller : Nat) : Sessions :=
  { l with uses := l.uses ++ [.read caller l.current] }

/-- The session at hand is given up, which leaves it to the dispatch to close it. -/
def leaves (l : Sessions) (caller : Nat) : Sessions :=
  match l.current with
  | none => l
  | some k => { l with current := none, givenUp := (caller, k) :: l.givenUp }

/-- A dispatch closes the session that it gave up last. Without one there is nothing to close. -/
def closes (l : Sessions) (caller : Nat) : Sessions :=
  match l.givenUp.lookup caller with
  | none => l
  | some k => { l with uses := l.uses ++ [.closed caller k] }

/-- How often a session was closed. -/
def closings (l : Sessions) (k : Nat) : Nat :=
  l.uses.countP fun u => match u with
    | .closed _ session => session = k
    | .read .. => false

/-- A session that the access to entities has open: it was opened and has not been given up. After that it
may still be on its way to being closed, which keeps nobody from opening another. -/
def IsOpen (l : Sessions) (k : Nat) : Prop :=
  k < l.openedBy.length ∧ k ∉ l.givenUp.map Prod.snd

end Sessions

namespace Surroundings

variable {σ τ α : Type}

/-- An action that a failure may strike. -/
def under (strike : Option Strike) (x : Action σ α) : Action σ α := fun s =>
  match strike with
  | none => x s
  | some ⟨true, f⟩ => (.error f, s)
  | some ⟨false, f⟩ => (.error f, (x s).2)

/-- Surroundings in a step that a failure may strike. A session that cannot be made is not opened. To give
one up is an assignment, which cannot fail; to close it may fail after it has been closed. -/
def struck (strike : Option Strike) (world : Surroundings σ τ) : Surroundings σ τ where
  openSession := fun s =>
    match world.openSession s, strike with
    | (.ok _, _), some k => (.error k.failure, s)
    | answer, _ => answer
  snapshot type id := under strike (world.snapshot type id)
  leaveSession := world.leaveSession
  closeSession := under (strike.map fun k => ⟨false, k.failure⟩) world.closeSession
  begin := under strike world.begin
  stage t r := under strike (world.stage t r)
  commit t := under strike (world.commit t)
  rollback t s :=
    match strike with
    | some ⟨true, _⟩ => s
    | _ => world.rollback t s
  report := world.report

/-- Surroundings in which all uses of sessions by one dispatch are noted. -/
def noted (caller : Nat) (world : Surroundings σ τ) : Surroundings (Sessions × σ) τ where
  openSession := fun (l, s) =>
    match world.openSession s with
    | (.ok _, s) => (.ok (), l.opens caller, s)
    | (.error f, s) => (.error f, l, s)
  snapshot type id := do
    Action.update fun (l, s) => (l.reads caller, s)
    Action.onSecond (world.snapshot type id)
  leaveSession := fun (l, s) => (l.leaves caller, world.leaveSession s)
  closeSession := do
    Action.update fun (l, s) => (l.closes caller, s)
    Action.onSecond world.closeSession
  begin := Action.onSecond world.begin
  stage t r := Action.onSecond (world.stage t r)
  commit t := Action.onSecond (world.commit t)
  rollback t := fun (l, s) => (l, world.rollback t s)
  report n := fun (l, s) => (l, world.report n s)

end Surroundings

/-- A rollback that fails puts its own failure in the place of the cause. -/
def Dispatch.Phase.blamed {τ : Type} (strike : Option Strike) : Dispatch.Phase τ → Dispatch.Phase τ
  | .undoing t f => .undoing t (strike.elim f (·.failure))
  | p => p

/-- Dispatches at one site, with their sessions. -/
structure Crowd where
  sessions : Sessions
  site : Site
  calls : List (Dispatch.Phase Nat)

namespace Crowd

/-- A site at which no session is open yet. -/
def start (site : Site) : Crowd := ⟨.empty, { site with sessionOpen := false }, []⟩

inductive Move
  | call (events : List CaptureEvent)
  | advance (c : Nat) (strike : Option Strike)
  | write (db : Store.Database)

variable (mapped : List TableMapping) (ms : Search.Mappings)

/-- One move: a new dispatch, a step of one of them, or a change of the database by others. -/
def step (s : Crowd) : Move → Crowd
  | .call events =>
    let (p, site) := Dispatch.start (Site.surroundings (Site.rows mapped) ms) events s.site
    { s with site := site, calls := s.calls ++ [p] }
  | .advance c strike =>
    match s.calls[c]? with
    | none => s
    | some p =>
      let world := ((Site.surroundings (Site.rows mapped) ms).struck strike).noted c
      let (p, sessions, site) := Dispatch.step world ms (p.blamed strike) (s.sessions, s.site)
      ⟨sessions, site, s.calls.set c p⟩
  | .write db => { s with site := { s.site with database := db } }

def run (s : Crowd) (moves : List Move) : Crowd := moves.foldl (step mapped ms) s

end Crowd

namespace Surroundings

variable {σ τ : Type} (c : Nat) (world : Surroundings σ τ) (l : Sessions) (s : σ)

@[simp] theorem noted_leaveSession :
    (world.noted c).leaveSession (l, s) = (l.leaves c, world.leaveSession s) := rfl

end Surroundings

namespace Dispatch

variable {σ τ : Type} (world : Surroundings σ τ) (ms : Search.Mappings) (c : Nat) (l : Sessions)
  (s : σ)

/-- A session is open for the dispatch. -/
def Phase.isInside {τ : Type} : Phase τ → Bool
  | .opening _ | .closing _ | .done _ => false
  | _ => true

section
variable (mapped : List TableMapping) (ms : Search.Mappings) (strike : Option Strike) (s : Site)

/-- What dispatches side by side work with, in a step that a failure may strike. -/
abbrev shared : Surroundings Site Nat := (Site.surroundings (Site.rows mapped) ms).struck strike

end

end Dispatch

namespace Sessions

variable (l : Sessions) (c k : Nat)

@[simp] theorem closings_reads : (l.reads c).closings k = l.closings k := by
  simp [reads, closings]

theorem leaves_of_current {i : Nat} (h : l.current = some i) :
    l.leaves c = { l with current := none, givenUp := (c, i) :: l.givenUp } := by
  rw [leaves, h]

theorem closes_of_lookup {i : Nat} (h : l.givenUp.lookup c = some i) :
    l.closes c = { l with uses := l.uses ++ [.closed c i] } := by
  rw [closes, h]

theorem closings_closes {i : Nat} (h : l.givenUp.lookup c = some i) :
    (l.closes c).closings k = l.closings k + if i = k then 1 else 0 := by
  simp [closes, closings, h, List.countP_append, List.countP_singleton]

/-- The sessions that were there before are still of those who opened them. -/
theorem opens_earlier {d k : Nat} (h : l.openedBy[k]? = some d) : (l.opens c).openedBy[k]? = some d := by
  rw [opens, List.getElem?_append_left (List.getElem?_eq_some_iff.mp h).1]
  exact h

/-- A session that nobody has closed. -/
theorem closings_eq_zero (h : ∀ c, .closed c k ∉ l.uses) : l.closings k = 0 := by
  rw [closings, List.countP_eq_zero]
  intro u hu
  cases u with
  | read => simp
  | closed c i =>
    have : i ≠ k := by
      rintro rfl
      exact h c hu
    simpa using this

/-- How it stands with session `k` of dispatch `c` in each phase of the dispatch. -/
def Stands (l : Sessions) (c k : Nat) : Dispatch.Phase Nat → Prop
  | .opening _ => False
  | .closing _ => l.current ≠ some k ∧ l.givenUp.lookup c = some k ∧ l.closings k = 0
  | .done _ => l.current ≠ some k ∧ k ∈ l.givenUp.map Prod.snd ∧ l.closings k = 1
  | _ => l.current = some k ∧ k ∉ l.givenUp.map Prod.snd ∧ l.closings k = 0

variable {l c k}

theorem stands_inside {p : Dispatch.Phase Nat} (inside : p.isInside = true) :
    l.Stands c k p ↔ l.current = some k ∧ k ∉ l.givenUp.map Prod.snd ∧ l.closings k = 0 := by
  cases p <;> first | exact Iff.rfl | cases inside

/-- A session stands as before if what is said of it stays the same. -/
theorem Stands.keep {l' : Sessions} {p : Dispatch.Phase Nat} (h : l.Stands c k p)
    (current : l'.current = some k ↔ l.current = some k)
    (lookup : l'.givenUp.lookup c = l.givenUp.lookup c)
    (given : k ∈ l'.givenUp.map Prod.snd ↔ k ∈ l.givenUp.map Prod.snd)
    (closings : l'.closings k = l.closings k) : l'.Stands c k p := by
  cases p with
  | opening => exact h.elim
  | _ => simpa only [Stands, ne_eq, current, lookup, given, closings] using h

theorem mem_of_lookup (h : l.givenUp.lookup c = some k) : (c, k) ∈ l.givenUp := by
  obtain ⟨before, after, split, -⟩ := List.lookup_eq_some_iff.mp h
  simp [split]

end Sessions

namespace Crowd

/-- The session at hand belongs to the one dispatch that is inside. All others have been given up, each by
the dispatch that opened it. -/
structure Orderly (s : Crowd) : Prop where
  current : s.sessions.current.isSome = s.site.sessionOpen
  held : ∀ k, s.sessions.current = some k → k < s.sessions.openedBy.length
  owner : ∀ c p, s.calls[c]? = some p → p.isInside = true → c ∈ s.sessions.openedBy
  stands : ∀ k c, s.sessions.openedBy[k]? = some c →
    ∃ p, s.calls[c]? = some p ∧ s.sessions.Stands c k p
  single : s.sessions.openedBy.Nodup
  givenUp : ∀ c k, (c, k) ∈ s.sessions.givenUp → s.sessions.openedBy[k]? = some c
  reads : ∀ c k, .read c k ∈ s.sessions.uses →
    ∃ i, k = some i ∧ s.sessions.openedBy[i]? = some c
  closes : ∀ c k, .closed c k ∈ s.sessions.uses → s.sessions.openedBy[k]? = some c

namespace Orderly

variable {s : Crowd} {c : Nat} {p p' : Dispatch.Phase Nat}

/-- The session of a dispatch that is inside. -/
theorem inside (h : Orderly s) (hp : s.calls[c]? = some p) (inside : p.isInside = true) :
    ∃ k, s.sessions.openedBy[k]? = some c ∧ s.sessions.current = some k ∧ s.sessions.Stands c k p := by
  obtain ⟨k, mine⟩ := List.mem_iff_getElem?.mp (h.owner c p hp inside)
  obtain ⟨q, hq, stands⟩ := h.stands k c mine
  obtain rfl := Option.some.inj (hq.symm.trans hp)
  exact ⟨k, mine, ((Sessions.stands_inside inside).mp stands).1, stands⟩

/-- No two dispatches have one session, and no two sessions one dispatch. -/
theorem session_ne (h : Orderly s) {d i k : Nat} (hk : s.sessions.openedBy[k]? = some c)
    (hi : s.sessions.openedBy[i]? = some d) : i ≠ k ↔ d ≠ c := by
  refine not_congr ⟨?_, ?_⟩
  · rintro rfl
    exact Option.some.inj (hi.symm.trans hk)
  · rintro rfl
    exact (List.getElem?_inj (List.getElem?_eq_some_iff.mp hi).1 h.single).mp (hi.trans hk.symm)

/-- A dispatch that is about to open a session has opened none. -/
theorem fresh (h : Orderly s) {net : Entries Identity EventKind}
    (hp : s.calls[c]? = some (.opening net)) : c ∉ s.sessions.openedBy := by
  intro hc
  obtain ⟨k, hk⟩ := List.mem_iff_getElem?.mp hc
  obtain ⟨q, hq, stands⟩ := h.stands k c hk
  obtain rfl := Option.some.inj (hq.symm.trans hp)
  exact stands

/-- Nothing was done with a session that is not there yet. -/
theorem untouched (h : Orderly s) :
    s.sessions.openedBy.length ∉ s.sessions.givenUp.map Prod.snd ∧
      s.sessions.closings s.sessions.openedBy.length = 0 := by
  have unused {d : Nat} : s.sessions.openedBy[s.sessions.openedBy.length]? ≠ some d := by simp
  refine ⟨fun given => ?_, Sessions.closings_eq_zero _ _ fun d hd => unused (h.closes d _ hd)⟩
  obtain ⟨⟨d, k⟩, hd, rfl : k = _⟩ := List.mem_map.mp given
  exact unused (h.givenUp d _ hd)

/-- A step of one dispatch, if its own session stands as its new phase says, and the others stand as before. -/
theorem advanced (h : Orderly s) (hp : s.calls[c]? = some p) {l : Sessions} {site : Site}
    (opened : l.openedBy = s.sessions.openedBy) (current : l.current.isSome = site.sessionOpen)
    (held : ∀ k, l.current = some k → s.sessions.current = some k)
    (inside : p'.isInside = true → p.isInside = true)
    (own : ∀ k, s.sessions.openedBy[k]? = some c → s.sessions.Stands c k p → l.Stands c k p')
    (others : ∀ d k q, d ≠ c → s.sessions.openedBy[k]? = some d → s.sessions.Stands d k q →
      l.Stands d k q)
    (givenUp : ∀ d k, (d, k) ∈ l.givenUp → s.sessions.openedBy[k]? = some d)
    (reads : ∀ d k, .read d k ∈ l.uses → ∃ i, k = some i ∧ s.sessions.openedBy[i]? = some d)
    (closes : ∀ d k, .closed d k ∈ l.uses → s.sessions.openedBy[k]? = some d) :
    Orderly ⟨l, site, s.calls.set c p'⟩ := by
  have hlt : c < s.calls.length := (List.getElem?_eq_some_iff.mp hp).1
  obtain ⟨openedBy, current', givenUp', uses'⟩ := l
  obtain rfl : openedBy = s.sessions.openedBy := opened
  refine ⟨current, fun k hk => h.held k (held k hk), ?owner, ?stands, h.single, givenUp, reads, closes⟩
  case owner =>
    intro d q hq hin
    by_cases hcd : c = d
    · subst hcd
      rw [List.getElem?_set_self hlt] at hq
      obtain rfl := Option.some.inj hq
      exact h.owner c p hp (inside hin)
    · rw [List.getElem?_set_ne hcd] at hq
      exact h.owner d q hq hin
  case stands =>
    intro k d hd
    obtain ⟨q, hq, stands⟩ := h.stands k d hd
    by_cases hcd : c = d
    · subst hcd
      obtain rfl := Option.some.inj (hq.symm.trans hp)
      exact ⟨p', List.getElem?_set_self hlt, own k hd stands⟩
    · exact ⟨q, (List.getElem?_set_ne hcd).trans hq, others d k q (Ne.symm hcd) hd stands⟩

/-- A step that touches no session. -/
theorem setPhase (h : Orderly s) (hp : s.calls[c]? = some p)
    (inside : p'.isInside = true → p.isInside = true)
    (stands : ∀ k, s.sessions.Stands c k p → s.sessions.Stands c k p') {site : Site}
    (spared : site.sessionOpen = s.site.sessionOpen) :
    Orderly { s with site := site, calls := s.calls.set c p' } :=
  h.advanced hp rfl (h.current.trans spared.symm) (fun _ hk => hk) inside (fun k _ => stands k)
    (fun _ _ _ _ _ stood => stood) h.givenUp h.reads h.closes

/-- The dispatch that is inside reads in its own session. -/
theorem read (h : Orderly s) (hp : s.calls[c]? = some p) (inside : p.isInside = true) :
    Orderly { s with sessions := s.sessions.reads c } := by
  obtain ⟨k, mine, atHand, -⟩ := h.inside hp inside
  refine ⟨h.current, h.held, h.owner, ?_, h.single, h.givenUp, ?_, ?_⟩
  · intro i d hd
    obtain ⟨q, hq, stood⟩ := h.stands i d hd
    exact ⟨q, hq, stood.keep Iff.rfl rfl Iff.rfl (s.sessions.closings_reads c i)⟩
  · intro d i hd
    rcases List.mem_append.mp hd with hd | hd
    · exact h.reads d i hd
    · obtain ⟨rfl, rfl⟩ : d = c ∧ i = s.sessions.current := by simpa using hd
      exact ⟨k, atHand, mine⟩
  · intro d i hd
    rcases List.mem_append.mp hd with hd | hd
    · exact h.closes d i hd
    · simp at hd

/-- Who finds no session open is alone, and opens one. -/
theorem opened (h : Orderly s) {net : Entries Identity EventKind}
    (hp : s.calls[c]? = some (.opening net)) (free : s.site.sessionOpen = false) :
    Orderly ⟨s.sessions.opens c, { s.site with sessionOpen := true },
      s.calls.set c (.beginning net)⟩ := by
  have hlt : c < s.calls.length := (List.getElem?_eq_some_iff.mp hp).1
  have noneAtHand : s.sessions.current = none := by
    rw [← Option.not_isSome_iff_eq_none, h.current, free]
    exact Bool.false_ne_true
  have newest : (s.sessions.opens c).openedBy[s.sessions.openedBy.length]? = some c := by
    simp [Sessions.opens]
  have fresh := h.fresh hp
  refine ⟨rfl, ?held, ?owner, ?stands, ?single, ?givenUp, ?reads, ?closes⟩
  case held =>
    intro k hk
    obtain rfl := Option.some.inj hk
    exact (List.getElem?_eq_some_iff.mp newest).1
  case owner =>
    intro d q hq hin
    by_cases hcd : c = d
    · subst hcd
      exact List.mem_of_getElem? newest
    · rw [List.getElem?_set_ne hcd] at hq
      exact List.mem_append_left _ (h.owner d q hq hin)
  case stands =>
    intro k d hd
    rw [Sessions.opens, List.getElem?_append] at hd
    split at hd
    · rename_i hk
      obtain ⟨q, hq, stands⟩ := h.stands k d hd
      have hdc : c ≠ d := by
        rintro rfl
        exact fresh (List.mem_of_getElem? hd)
      have elsewhere : (s.sessions.opens c).current = some k ↔ s.sessions.current = some k := by
        simp only [Sessions.opens, noneAtHand, Option.some.injEq, reduceCtorEq, iff_false]
        omega
      exact ⟨q, (List.getElem?_set_ne hdc).trans hq, stands.keep elsewhere rfl Iff.rfl rfl⟩
    · obtain ⟨rfl, rfl⟩ : k = s.sessions.openedBy.length ∧ d = c := by
        rw [List.getElem?_singleton] at hd
        split at hd <;> simp_all
        omega
      exact ⟨_, List.getElem?_set_self hlt, rfl, h.untouched⟩
  case single =>
    rw [Sessions.opens, List.nodup_append]
    refine ⟨h.single, List.nodup_singleton c, ?_⟩
    intro d hd e he
    obtain rfl := List.mem_singleton.mp he
    rintro rfl
    exact fresh hd
  case givenUp => exact fun d k hd => Sessions.opens_earlier _ _ (h.givenUp d k hd)
  case reads =>
    intro d k hd
    obtain ⟨i, hi, hown⟩ := h.reads d k hd
    exact ⟨i, hi, Sessions.opens_earlier _ _ hown⟩
  case closes => exact fun d k hd => Sessions.opens_earlier _ _ (h.closes d k hd)

/-- The dispatch that is inside gives up its own session. -/
theorem left (h : Orderly s) {outcome : Except Failure Unit}
    (hp : s.calls[c]? = some (.leaving outcome)) :
    Orderly ⟨s.sessions.leaves c, { s.site with sessionOpen := false },
      s.calls.set c (.closing outcome)⟩ := by
  obtain ⟨k, mine, atHand, -⟩ := h.inside hp rfl
  rw [s.sessions.leaves_of_current c atHand]
  refine h.advanced hp rfl rfl (fun i hi => nomatch hi) (fun hin => nomatch hin) ?own ?others ?givenUp
    h.reads h.closes
  case own =>
    intro i hi stood
    obtain rfl : i = k := by
      by_contra other
      exact (h.session_ne mine hi).mp other rfl
    exact ⟨nofun, List.lookup_cons_self, stood.2.2⟩
  case others =>
    intro d i q hd hi stood
    have hik := (h.session_ne mine hi).mpr hd
    refine stood.keep ?_ ?_ ?_ rfl
    · simp [atHand, Ne.symm hik]
    · simp [List.lookup_cons, beq_false_of_ne hd]
    · simp [hik]
  case givenUp =>
    intro d i hd
    rcases List.mem_cons.mp hd with hd | hd
    · obtain ⟨rfl, rfl⟩ := Prod.mk.inj hd
      exact mine
    · exact h.givenUp d i hd

/-- A dispatch closes the session that it gave up, whoever has opened another one since. -/
theorem closed (h : Orderly s) {outcome outcome' : Except Failure Unit}
    (hp : s.calls[c]? = some (.closing outcome)) :
    Orderly ⟨s.sessions.closes c, s.site, s.calls.set c (.done outcome')⟩ := by
  cases mine : s.sessions.givenUp.lookup c with
  | none =>
    rw [Sessions.closes, mine]
    refine h.setPhase hp (by nofun) (fun k stood => ?_) rfl
    exact nomatch mine.symm.trans stood.2.1
  | some k =>
    have count := Sessions.closings_closes s.sessions c (i := k)
    have after := s.sessions.closes_of_lookup c mine
    have owned := h.givenUp c k (Sessions.mem_of_lookup mine)
    rw [after] at count ⊢
    refine h.advanced hp rfl h.current (fun _ hi => hi) (by nofun) ?own ?others h.givenUp ?reads ?closes
    case own =>
      intro i hi stood
      obtain rfl : k = i := Option.some.inj (mine.symm.trans stood.2.1)
      have given := List.mem_map_of_mem (f := Prod.snd) (Sessions.mem_of_lookup mine)
      exact ⟨stood.1, given, by rw [count k mine, stood.2.2, if_pos rfl]⟩
    case others =>
      intro d i q hd hi stood
      have hik := (h.session_ne owned hi).mpr hd
      refine stood.keep Iff.rfl rfl Iff.rfl ?_
      rw [count i mine, if_neg (Ne.symm hik), Nat.add_zero]
    case reads =>
      intro d i hd
      refine h.reads d i ?_
      simpa using hd
    case closes =>
      intro d i hd
      rcases List.mem_append.mp hd with hd | hd
      · exact h.closes d i hd
      · obtain ⟨rfl, rfl⟩ : d = c ∧ i = k := by simpa using hd
        exact owned

/-- A new dispatch has done nothing with sessions. -/
theorem called (h : Orderly s) {site : Site} (spared : site.sessionOpen = s.site.sessionOpen)
    (outside : p.isInside = false) :
    Orderly { s with site := site, calls := s.calls ++ [p] } := by
  refine ⟨h.current.trans spared.symm, h.held, ?_, ?_, h.single, h.givenUp, h.reads, h.closes⟩
  · intro d q hq inside
    rw [List.getElem?_append] at hq
    split at hq
    · exact h.owner d q hq inside
    · obtain rfl : q = p := by
        rw [List.getElem?_singleton] at hq
        split at hq <;> simp_all
      exact absurd inside (by simp [outside])
  · intro k d hd
    obtain ⟨q, hq, stands⟩ := h.stands k d hd
    refine ⟨q, ?_, stands⟩
    exact (List.getElem?_append_left (List.getElem?_eq_some_iff.mp hq).1).trans hq

end Orderly

variable {mapped : List TableMapping} {ms : Search.Mappings} {s : Crowd}

theorem step_call (s : Crowd) (events : List CaptureEvent) :
    step mapped ms s (.call events) =
      let next := Dispatch.start (Site.surroundings (Site.rows mapped) ms) events s.site
      { s with site := next.2, calls := s.calls ++ [next.1] } := rfl

theorem step_advance {c : Nat} {p : Dispatch.Phase Nat} (hp : s.calls[c]? = some p)
    (strike : Option Strike) :
    step mapped ms s (.advance c strike) =
      let next := Dispatch.step ((Dispatch.shared mapped ms strike).noted c) ms (p.blamed strike)
        (s.sessions, s.site)
      ⟨next.2.1, next.2.2, s.calls.set c next.1⟩ := by
  simp only [step, hp]

theorem step_advance_of_none {c : Nat} (hp : s.calls[c]? = none) (strike : Option Strike) :
    step mapped ms s (.advance c strike) = s := by
  simp only [step, hp]

/-- The steps that some moves make in dispatch `c`. -/
def turns (c : Nat) (moves : List Move) : Nat :=
  moves.countP fun
    | .advance d _ => d = c
    | _ => false

theorem left_blamed (strike : Option Strike) (p : Dispatch.Phase Nat) :
    (p.blamed strike).left ms = p.left ms := by
  cases p <;> rfl

/-- A move in one dispatch leaves the others where they are. -/
theorem calls_step (s : Crowd) {c : Nat} {p : Dispatch.Phase Nat} (h : s.calls[c]? = some p)
    (move : Move) :
    (step mapped ms s move).calls[c]? = some p ∧ turns c [move] = 0 ∨
      ∃ strike, move = .advance c strike := by
  cases move with
  | call events =>
    refine .inl ⟨?_, rfl⟩
    rw [step_call]
    exact (List.getElem?_append_left (List.getElem?_eq_some_iff.mp h).1).trans h
  | advance d strike =>
    by_cases hd : d = c
    · exact .inr ⟨strike, by rw [hd]⟩
    · refine .inl ⟨?_, by simp [turns, hd]⟩
      cases hq : s.calls[d]? with
      | none => rwa [step_advance_of_none hq]
      | some q =>
        rw [step_advance hq]
        exact (List.getElem?_set_ne hd).trans h
  | write db => exact .inl ⟨h, rfl⟩

/-- Every step of a dispatch brings it nearer to its end. -/
theorem left_step (mapped : List TableMapping) (s : Crowd) {c : Nat} {p : Dispatch.Phase Nat}
    (h : s.calls[c]? = some p) (move : Move) :
    ∃ q, (step mapped ms s move).calls[c]? = some q ∧
      q.left ms ≤ p.left ms - turns c [move] := by
  rcases calls_step s h move with ⟨same, idle⟩ | ⟨strike, rfl⟩
  · exact ⟨p, same, by omega⟩
  · rw [step_advance h]
    refine ⟨_, List.getElem?_set_self (List.getElem?_eq_some_iff.mp h).1, ?_⟩
    have one : turns c [.advance c strike] = 1 := by simp [turns]
    rw [one, ← left_blamed strike p]
    cases going : (p.blamed strike).outcome? with
    | none =>
      have := Dispatch.left_step_lt ((Dispatch.shared mapped ms strike).noted c) ms
        (p.blamed strike) (s.sessions, s.site) going
      omega
    | some outcome =>
      generalize p.blamed strike = q at going ⊢
      cases q <;> cases going
      exact Nat.zero_le _

/-- Every dispatch ends when it has been given its steps, whatever the others do. -/
theorem ends (s : Crowd) {c : Nat} {p : Dispatch.Phase Nat} (h : s.calls[c]? = some p)
    (moves : List Move) (enough : p.left ms ≤ turns c moves) :
    ∃ outcome, (run mapped ms s moves).calls[c]? = some (.done outcome) := by
  induction moves generalizing s p with
  | nil =>
    have none_left : p.left ms = 0 := by simpa [turns] using enough
    cases p <;> simp only [Dispatch.Phase.left] at none_left
    case done outcome => exact ⟨outcome, h⟩
    all_goals omega
  | cons move rest ih =>
    obtain ⟨q, hq, less⟩ := left_step mapped s h move
    refine ih (step mapped ms s move) hq ?_
    have split : turns c (move :: rest) = turns c [move] + turns c rest := by
      simp only [turns, List.countP_cons, List.countP_nil]
      omega
    omega

/-- Sessions that do not disturb each other: no two are open at once, a dispatch opens one at most, reads
in no other and closes no other, and has closed it exactly when it ends. A session that is no longer open
but not closed yet is just being closed by its own dispatch. -/
structure Apart (s : Crowd) : Prop where
  one : ∀ j k, s.sessions.IsOpen j → s.sessions.IsOpen k → j = k
  seen : s.site.sessionOpen = true ↔ ∃ k, s.sessions.IsOpen k
  single : s.sessions.openedBy.Nodup
  reads : ∀ c k, .read c k ∈ s.sessions.uses →
    ∃ i, k = some i ∧ s.sessions.openedBy[i]? = some c
  closes : ∀ c k, .closed c k ∈ s.sessions.uses → s.sessions.openedBy[k]? = some c
  once : ∀ k c, s.sessions.openedBy[k]? = some c → ∃ p, s.calls[c]? = some p ∧
    s.sessions.closings k = if p.outcome?.isSome then 1 else 0
  closing : ∀ k c, s.sessions.openedBy[k]? = some c → ¬ s.sessions.IsOpen k →
    s.sessions.closings k = 0 → ∃ outcome, s.calls[c]? = some (.closing outcome)

theorem Orderly.isOpen_iff (h : Orderly s) (k : Nat) :
    s.sessions.IsOpen k ↔ s.sessions.current = some k := by
  constructor
  · rintro ⟨hk, kept⟩
    obtain ⟨p, -, stands⟩ := h.stands k _ (List.getElem?_eq_getElem hk)
    cases p with
    | opening => exact stands.elim
    | closing => exact absurd (List.mem_map.mpr ⟨_, Sessions.mem_of_lookup stands.2.1, rfl⟩) kept
    | done => exact absurd stands.2.1 kept
    | _ => exact stands.1
  · intro atHand
    have hk := h.held k atHand
    obtain ⟨p, -, stands⟩ := h.stands k _ (List.getElem?_eq_getElem hk)
    cases p with
    | opening => exact stands.elim
    | closing => exact absurd atHand stands.1
    | done => exact absurd atHand stands.1
    | _ => exact ⟨hk, stands.2.1⟩

theorem Orderly.apart (h : Orderly s) : Apart s where
  one j k hj hk := by
    rw [h.isOpen_iff] at hj hk
    exact Option.some.inj (hj.symm.trans hk)
  seen := by
    simp only [h.isOpen_iff, ← h.current, Option.isSome_iff_exists]
  single := h.single
  reads := h.reads
  closes := h.closes
  once k c hc := by
    obtain ⟨p, hp, stands⟩ := h.stands k c hc
    refine ⟨p, hp, ?_⟩
    cases p with
    | opening => exact stands.elim
    | _ => exact stands.2.2
  closing k c hc shut unclosed := by
    obtain ⟨p, hp, stands⟩ := h.stands k c hc
    cases p with
    | opening => exact stands.elim
    | closing outcome => exact ⟨outcome, hp⟩
    | done => exact absurd (stands.2.2.symm.trans unclosed) Nat.one_ne_zero
    | _ => exact absurd ((h.isOpen_iff k).mpr stands.1) shut

variable (mapped ms)

/-- While the first of two dispatches closes the session that it has given up, the second opens its own. -/
example :
    let s := run [] Dispatch.register (start Dispatch.ownerless)
      (.call Dispatch.twoChanges :: .call Dispatch.twoChanges ::
        List.replicate 5 (.advance 0 none) ++ [.advance 1 none])
    s.sessions.openedBy = [0, 1] ∧ s.sessions.current = some 1 ∧ s.sessions.givenUp = [(0, 0)] ∧
      s.sessions.closings 0 = 0 := by
  decide

end Crowd
end IndexSync
