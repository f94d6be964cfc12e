import IndexSync.Poller.Access
import Mathlib.Tactic.Common

/-!
# Collecting without disturbance

What a tick collects depends on its cursors and on the rows that it is shown, and on nothing else: if it
collects at all, it collects what it would collect if nothing disturbed it. Its cursors and the rows stay as
they are, whether it does or not.
-/
namespace IndexSync

variable {σ ρ γ α β : Type}

/-- What can be read of rows: the page of at most so many events of a capture table after a key. -/
abbrev Pages (ρ : Type) := CaptureModel → Option Int → Nat → ρ → Except Failure (List CaptureEvent)

namespace CaptureAccess

/-- Access to rows that nothing disturbs. -/
def undisturbed (pages : Pages ρ) : CaptureAccess ρ where
  connect := Pure.pure ()
  page := fun m after n rows => (pages m after n rows, rows)
  delete := fun _ => Pure.pure ()
  report := fun _ rows => rows

/-- Access that shows rows. Whatever is asked leaves them as they are, an answered page is a page of them,
and a deletion that fails deletes nothing. In a calm state all that can be read is answered. -/
structure Shows (access : CaptureAccess σ) (rows : σ → ρ) (pages : Pages ρ) (calm : σ → Prop) : Prop where
  connecting : ∀ s, rows (access.connect s).2 = rows s
  paging : ∀ m after n s, rows (access.page m after n s).2 = rows s
  reporting : ∀ notice s, rows (access.report notice s) = rows s
  answered : ∀ m after n s events, (access.page m after n s).1 = .ok events →
    pages m after n (rows s) = .ok events
  undeleted : ∀ keys s f, (access.delete keys s).1 = .error f → rows (access.delete keys s).2 = rows s
  connects : ∀ s, calm s → (access.connect s).1 = .ok () ∧ calm (access.connect s).2
  serves : ∀ m after n s, calm s →
    pages m after n (rows s) = (access.page m after n s).1 ∧ calm (access.page m after n s).2
  reports : ∀ notice s, calm s → calm (access.report notice s)

end CaptureAccess

/-- No connection is going to fail. -/
def Site.Connects (s : Site) : Prop := s.outages.get? .connect = none

/-- The capture tables of a site show its database, and are calm as long as connections are made. -/
theorem Site.captures_shows : Site.captures.Shows (·.database) Store.Database.page Site.Connects where
  connecting _ := rfl
  paging _ _ _ _ := rfl
  reporting _ _ := rfl
  answered _ _ _ _ _ h := h
  undeleted keys s f h := by
    simp only [Site.captures, Site.pass, Action.bind_apply] at h ⊢
    cases hpass : (s.outages.pass .beginDelete).1 with
    | error g => rfl
    | ok u =>
      simp only [hpass, Site.change] at h ⊢
      cases hdelete : Site.deleteAll keys s.database with
      | error g => rfl
      | ok next =>
        rw [hdelete] at h
        cases h
  connects s h := by
    have passes : s.outages.get? .connect = none := h
    simp only [Site.captures, Site.pass, Outages.pass, passes, Site.Connects, and_self]
  serves _ _ _ _ h := ⟨rfl, h⟩
  reports _ _ h := h

/-- One outcome mirrors another: the rows are those of the state before, and where that is calm, or what was
asked for has been reached, nothing differs but the state behind the rows. -/
structure Mirrored (rows : σ → ρ) (calm : σ → Prop) (s : σ) (x : Except Failure α × γ × σ)
    (y : Except Failure α × γ × ρ) : Prop where
  kept : rows x.2.2 = rows s
  stays : calm s → calm x.2.2
  same : (calm s ∨ ∃ a, x.1 = .ok a) → y = (x.1, x.2.1, rows s)

namespace Mirrored

variable {rows : σ → ρ} {calm : σ → Prop} {s : σ}

theorem here (outcome : Except Failure α) (c : γ) :
    Mirrored rows calm s (outcome, c, s) (outcome, c, rows s) :=
  ⟨rfl, id, fun _ => rfl⟩

/-- What follows on outcomes that mirror each other mirrors each other, too. -/
theorem bind {x : Action (γ × σ) α} {y : Action (γ × ρ) α} {next : α → Action (γ × σ) β}
    {next' : α → Action (γ × ρ) β} {c : γ} (h : Mirrored rows calm s (x (c, s)) (y (c, rows s)))
    (hnext : ∀ a c s, Mirrored rows calm s (next a (c, s)) (next' a (c, rows s))) :
    Mirrored rows calm s ((x >>= next) (c, s)) ((y >>= next') (c, rows s)) := by
  simp only [Action.bind_apply]
  generalize x (c, s) = answer at h ⊢
  generalize y (c, rows s) = answer' at h ⊢
  obtain ⟨outcome, c', s'⟩ := answer
  have hkept : rows s' = rows s := h.kept
  cases outcome with
  | error f =>
    refine ⟨hkept, h.stays, ?_⟩
    rintro (hcalm | ⟨a, ha⟩)
    · rw [h.same (.inl hcalm)]
    · cases ha
  | ok a =>
    obtain rfl := h.same (.inr ⟨a, rfl⟩)
    have hrest := hnext a c' s'
    rw [hkept] at hrest
    refine ⟨hrest.kept.trans hkept, fun hcalm => hrest.stays (h.stays hcalm), fun good => ?_⟩
    have same := hrest.same (good.imp_left h.stays)
    rw [hkept] at same
    exact same

end Mirrored

namespace Poller

variable {access : CaptureAccess σ} {rows : σ → ρ} {pages : Pages ρ} {calm : σ → Prop} {p : Poller}
  {c : MergeCursor} {s : σ}

theorem fetch_mirrored (shows : access.Shows rows pages calm) (i : Nat) (after : Option Int) (n : Nat) :
    rows (fetch access p i after n s).2 = rows s ∧
      (calm s → calm (fetch access p i after n s).2) ∧
      ((calm s ∨ ∃ a, (fetch access p i after n s).1 = .ok a) →
        fetch (.undisturbed pages) p i after n (rows s) = ((fetch access p i after n s).1, rows s)) := by
  unfold fetch
  cases p.models[i]? with
  | none => exact ⟨rfl, id, fun _ => rfl⟩
  | some m =>
    refine ⟨shows.paging .., fun hcalm => (shows.serves _ _ _ s hcalm).2, ?_⟩
    rintro (hcalm | ⟨events, hevents⟩)
    · exact congrArg (·, rows s) (shows.serves _ _ _ s hcalm).1
    · simp only at hevents ⊢
      rw [hevents]
      exact congrArg (·, rows s) (shows.answered _ _ _ s events hevents)

theorem fill_mirrored (shows : access.Shows rows pages calm) (i : Nat) :
    Mirrored rows calm s (MergeCursor.fill (fetch access p) i (c, s))
      (MergeCursor.fill (fetch (.undisturbed pages) p) i (c, rows s)) := by
  simp only [MergeCursor.fill]
  cases c.streams[i]? with
  | none => exact .here ..
  | some st =>
    simp only
    split
    · exact .here ..
    · obtain ⟨hkept, hcalm, hsame⟩ :=
        fetch_mirrored (p := p) (s := s) shows i st.lastKey c.pageSize
      generalize fetch access p i st.lastKey c.pageSize s = answer at hkept hcalm hsame ⊢
      obtain ⟨outcome, s'⟩ := answer
      cases outcome with
      | error f =>
        refine ⟨hkept, hcalm, ?_⟩
        rintro (good | ⟨a, ha⟩)
        · rw [hsame (.inl good)]
        · cases ha
      | ok events =>
        rw [hsame (.inr ⟨events, rfl⟩)]
        simp only
        split <;> exact ⟨hkept, hcalm, fun _ => rfl⟩

theorem fillAll_mirrored (shows : access.Shows rows pages calm) (is : List Nat) :
    Mirrored rows calm s (MergeCursor.fillAll (fetch access p) is (c, s))
      (MergeCursor.fillAll (fetch (.undisturbed pages) p) is (c, rows s)) := by
  induction is generalizing c s with
  | nil => exact .here ..
  | cons i rest ih => exact (fill_mirrored shows i).bind fun _ _ _ => ih

theorem prepare_mirrored (shows : access.Shows rows pages calm) :
    Mirrored rows calm s (MergeCursor.prepare (fetch access p) (c, s))
      (MergeCursor.prepare (fetch (.undisturbed pages) p) (c, rows s)) := by
  simp only [MergeCursor.prepare]
  split
  · exact fillAll_mirrored shows _
  · split
    · exact fill_mirrored shows _
    · exact .here ..

end Poller

namespace MergeCursor

/-- The least head as the outcome of an action. -/
def pick : Action (MergeCursor × σ) Bool := fun (c, s) => (.ok c.select.1, c.select.2, s)

/-- An advance that is not over prepares the streams and then hands out a head. -/
theorem advance_eq (fetch : Fetch σ) (c : MergeCursor) (s : σ) :
    advance fetch (c, s) =
      if c.closed || c.limit.any (· ≤ c.returned) then (.ok false, { c with current := none }, s)
      else (prepare fetch >>= fun _ => pick) ({ c with current := none }, s) := by
  simp only [advance, Action.bind_apply]
  split
  · rfl
  · obtain ⟨outcome, c', s'⟩ := prepare fetch ({ c with current := none }, s)
    cases outcome <;> rfl

end MergeCursor

namespace Poller

variable {access : CaptureAccess σ} {rows : σ → ρ} {pages : Pages ρ} {calm : σ → Prop} {p : Poller}
  {c : MergeCursor} {s : σ}

theorem advance_mirrored (shows : access.Shows rows pages calm) :
    Mirrored rows calm s (MergeCursor.advance (fetch access p) (c, s))
      (MergeCursor.advance (fetch (.undisturbed pages) p) (c, rows s)) := by
  rw [MergeCursor.advance_eq, MergeCursor.advance_eq]
  split
  · exact .here ..
  · exact (prepare_mirrored shows).bind fun _ _ _ => .here ..

/-- What is gathered once an advance has moved, or has not. -/
def gatherOn (access : CaptureAccess σ) (p : Poller) (n : Nat) (done : Collected) (moved : Bool) :
    Action (MergeCursor × σ) Collected := fun (c, s) =>
  match moved, c.current with
  | true, some e =>
    (Action.update (fun (c, s) => (c, noticeOf access e s)) >>= fun _ => gather access p n (done.add e))
      (c, s)
  | _, _ => (.ok done, c, s)

theorem gather_succ (access : CaptureAccess σ) (p : Poller) (n : Nat) (done : Collected)
    (c : MergeCursor) (s : σ) : gather access p (n + 1) done (c, s) =
      (MergeCursor.advance (fetch access p) >>= gatherOn access p n done) (c, s) := by
  simp only [gather, Action.bind_apply]
  obtain ⟨outcome, c', s'⟩ := MergeCursor.advance (fetch access p) (c, s)
  cases outcome with
  | error f => rfl
  | ok moved =>
    cases moved with
    | false => rfl
    | true =>
      simp only [gatherOn]
      cases c'.current <;> rfl

theorem notice_mirrored (shows : access.Shows rows pages calm) (e : CaptureEvent) :
    Mirrored rows calm s (Action.update (fun (c, s) => (c, noticeOf access e s)) (c, s))
      (Action.update (fun (c, s) => (c, noticeOf (.undisturbed pages) e s)) (c, rows s)) := by
  have still : noticeOf (.undisturbed pages) e (rows s) = rows s := by
    unfold noticeOf
    split <;> rfl
  unfold noticeOf at still ⊢
  simp only [Action.update, still]
  split
  · exact ⟨shows.reporting .., shows.reports _ _, fun _ => rfl⟩
  · exact .here ..

theorem gather_mirrored (shows : access.Shows rows pages calm) (n : Nat) (done : Collected) :
    Mirrored rows calm s (gather access p n done (c, s))
      (gather (.undisturbed pages) p n done (c, rows s)) := by
  induction n generalizing done c s with
  | zero => exact .here ..
  | succ n ih =>
    rw [gather_succ, gather_succ]
    refine (advance_mirrored shows).bind fun moved c s => ?_
    simp only [gatherOn]
    cases moved with
    | false => exact .here ..
    | true =>
      cases c.current with
      | none => exact .here ..
      | some e => exact (notice_mirrored shows e).bind fun _ _ _ => ih _

/-- What a tick collects if nothing disturbs it. -/
def planned (pages : Pages ρ) (p : Poller) (cursors : Cursors) (rows : ρ) : Except Failure Collected :=
  (collect (.undisturbed pages) p (cursors, rows)).1

/-- A tick that collects does not move its cursors. It collects what is planned, in a calm state or if it
collects at all. -/
theorem collect_mirrored (shows : access.Shows rows pages calm) (cursors : Cursors) (s : σ) :
    (collect access p (cursors, s)).2.1 = cursors ∧
      rows (collect access p (cursors, s)).2.2 = rows s ∧
      (calm s → calm (collect access p (cursors, s)).2.2) ∧
      ((calm s ∨ ∃ c, (collect access p (cursors, s)).1 = .ok c) →
        planned pages p cursors (rows s) = (collect access p (cursors, s)).1) := by
  have hkept := shows.connecting s
  have hcalm := shows.connects s
  simp only [planned, collect]
  generalize access.connect s = connected at hkept hcalm ⊢
  obtain ⟨outcome, s'⟩ := connected
  cases outcome with
  | error f =>
    refine ⟨rfl, hkept, fun good => (hcalm good).2, ?_⟩
    rintro (good | ⟨c, hc⟩)
    · cases (hcalm good).1
    · cases hc
  | ok u =>
    simp only [CaptureAccess.undisturbed, Action.pure_apply]
    cases MergeCursor.create (p.models.map (·.captureTable)) p.pageSize cursors
        (some (p.batchSize : Int)) with
    | error f => exact ⟨rfl, hkept, fun good => (hcalm good).2, fun _ => rfl⟩
    | ok c =>
      have hgather := gather_mirrored (p := p) (c := c) (s := s') shows p.batchSize .empty
      rw [show rows s' = rows s from hkept] at hgather
      refine ⟨rfl, hgather.kept.trans hkept, fun good => hgather.stays (hcalm good).2, fun good => ?_⟩
      have same := hgather.same (good.imp_left fun good => (hcalm good).2)
      exact congrArg Prod.fst same

end Poller
end IndexSync
