import AttentionScheduler.Proofs.Retirement
import AttentionScheduler.Proofs.SessionEvolution

/-!
What a call makes of each record, up to the mark: an equation for each call, from the record as it was
before and from what the call answers. A history then says of every record what was written last.
-/

namespace AttentionScheduler

variable {n : Nat} {p q : Fin n}

namespace Roster

variable {r s t : Roster n} {f g : Fin n → Record → Record}

/-- Every record of `s` is the one of `r` as `f` revises it, its mark apart. -/
def Becomes (f : Fin n → Record → Record) (r s : Roster n) : Prop :=
  ∀ q : Fin n, s[q] = { f q r[q] with mark := s[q].mark }

def only (p : Fin n) (f : Record → Record) (q : Fin n) (r : Record) : Record :=
  if q = p then f r else r

def stamped (ps : List (Fin n)) (now : Tick) (q : Fin n) (r : Record) : Record :=
  if ps.contains q then r.withVector (·.stamp now) else r

theorem Remarked.becomes (h : r.Remarked s) : r.Becomes (fun _ x => x) s := h

theorem Becomes.refl (r : Roster n) : r.Becomes (fun _ x => x) r := fun _ => rfl

theorem Becomes.vector (h : r.Becomes f s) (q : Fin n) : s[q].vector = (f q r[q]).vector := by
  rw [h q]

theorem Becomes.tracked (h : r.Becomes f s) (q : Fin n) : s[q].tracked = (f q r[q]).tracked := by
  rw [h q]

theorem Becomes.remarked (h : r.Becomes f s) (h' : s.Remarked t) : r.Becomes f t := by
  intro q
  rw [h' q, h q]

theorem Becomes.trans (h : r.Becomes f s) (h' : s.Becomes g t)
    (hg : ∀ q x mark, g q { x with mark } = { g q x with mark }) :
    r.Becomes (fun q x => g q (f q x)) t := by
  intro q
  rw [h' q, h q, hg]

theorem Becomes.congr (h : r.Becomes f s) (hfg : ∀ q, f q r[q] = g q r[q]) : r.Becomes g s := by
  intro q
  rw [← hfg q]
  exact h q

theorem only_keeps {α : Type} {x : Record → α} {f : Record → Record} {y : Record} (h : x (f y) = x y) :
    x (only p f q y) = x y := by
  unfold only
  split
  · exact h
  · rfl

/-- What a call writes when it touches `p`, as a value that takes the place of the old one. -/
theorem only_writes {α : Type} {x : Record → α} {C : Record → Prop} [DecidablePred C]
    {f : Record → Record} {y : Record} {v : α} (hv : x (f y) = v) :
    x (only p (fun r => if C r then f r else r) q y) =
      (if p = q ∧ C y then some v else none).getD (x y) := by
  by_cases hq : q = p
  · subst hq
    rw [only, if_pos rfl]
    by_cases hy : C y
    · rw [if_pos hy, if_pos ⟨rfl, hy⟩]
      exact hv
    · rw [if_neg hy, if_neg fun h => hy h.2]
      rfl
  · rw [only, if_neg hq, if_neg fun h => hq h.1.symm]
    rfl

theorem becomes_update (r : Roster n) (p : Fin n) (f : Record → Record) :
    r.Becomes (only p f) (r.update p f) := by
  intro q
  by_cases hq : q = p
  · subst hq
    rw [getElem_update_self, only, if_pos rfl]
  · rw [getElem_update_ne _ hq, only, if_neg hq]

theorem becomes_update_of {f g : Record → Record} (h : f r[p] = g r[p]) :
    r.Becomes (only p f) (r.update p g) := by
  rw [← update_congr h]
  exact becomes_update r p f

theorem update_self {f : Record → Record} (h : f r[p] = r[p]) : r.update p f = r := by
  rw [update, h]
  exact Vector.set_getElem_self p.isLt

theorem becomes_self {f : Record → Record} (h : f r[p] = r[p]) : r.Becomes (only p f) r := by
  have hupdate := becomes_update r p f
  rwa [update_self h] at hupdate

/-- A second stamp in the same tick leaves the record as the first one made it. -/
theorem stamped_stamped (p : Fin n) (ps : List (Fin n)) (now : Tick) (q : Fin n) (x : Record) :
    stamped ps now q (stamped [p] now q x) = stamped (p :: ps) now q x := by
  have htwice : (x.withVector (·.stamp now)).withVector (·.stamp now) =
      x.withVector (·.stamp now) := rfl
  unfold stamped
  by_cases hp : q = p <;> by_cases hps : q ∈ ps <;> simp [hp, hps, htwice]

end Roster

namespace Ending

variable {σ α β : Type} {P Q : σ → Prop} {e : Ending σ α}

theorem Leaves.and (hp : e.Leaves P) (hq : e.Leaves Q) : e.Leaves fun s => P s ∧ Q s := by
  cases e with
  | returned => exact ⟨hp, hq⟩
  | faulted => exact ⟨hp, hq⟩
  | stuck => trivial

theorem Leaves.stateOr (he : e.Leaves P) {s : σ} (hs : P s) : P (e.stateOr s) := by
  cases e with
  | returned => exact he
  | faulted => exact he
  | stuck => exact hs

theorem Leaves.mapAnswer (he : e.Leaves P) (g : α → β) : (e.mapAnswer g).Leaves P :=
  he.map fun _ hs => hs

end Ending

namespace Host

open Roster (only stamped)

variable {h k : Host n} {core : Core n}

theorem not_started_of_start {fault : Fault} (hs : h.start = .faulted k fault) :
    k.allocator.isStarted = false := by
  unfold start at hs
  dsimp only at hs
  split at hs
  · cases hs
  · next hfailed =>
    cases hs
    rw [Allocator.isStarted, Allocator.core?, hfailed]
    rfl
  · split at hs <;> cases hs
    rfl

theorem enrol_enters (hc : h.allocator.core? = some core) (p : Fin n) :
    (h.enrol core p).Leaves fun k => k.allocator.isStarted = true ∧
      k.procs = h.procs.update p fun r => { r with tracked := true } := by
  unfold enrol
  split
  · next ht =>
    refine ⟨Allocator.isStarted_of_core? hc, (Roster.update_self ?_).symm⟩
    rw [← ht]
  · cases core.tensor.track with
    | ok tensor => exact ⟨rfl, rfl⟩
    | error fault => exact ⟨Allocator.isStarted_of_core? hc, rfl⟩

theorem enter_enters (h : Host n) (p : Fin n) :
    (h.enter p).Leaves fun k => k.procs =
      if k.allocator.isStarted then h.procs.update p (·.entered) else h.procs := by
  have hprocs := h.start_procs
  unfold enter
  cases hs : h.start with
  | stuck stop => trivial
  | faulted k fault =>
    rw [hs] at hprocs
    change k.procs = _
    rw [not_started_of_start hs, hprocs]
    rfl
  | returned g core =>
    rw [hs] at hprocs
    have hg : g.procs = h.procs := hprocs
    have hcore : g.allocator.core? = some core := core?_of_start hs
    have henrol := enrol_enters (h := g.touch p (·.withVector (·.rescore))) hcore p
    refine henrol.imp fun k hk => ?_
    rw [hk.1, hk.2, procs_touch, Roster.update_update, hg]
    rfl

theorem place_started (hc : h.allocator.core? = some core) (p : Fin n) (score : Single) :
    (h.place core p score).Leaves fun k => k.allocator.isStarted = true := by
  have hstarted := Allocator.isStarted_of_core? hc
  unfold place
  cases Level.ofScore h.allocator.config.levels score with
  | error fault => exact hstarted
  | ok level =>
    simp only [Ending.ofExcept, Ending.bind_returned]
    cases (h.shelf core).file level p with
    | stuck stop => trivial
    | faulted s fault => exact rfl
    | returned s filing => cases filing <;> exact rfl

theorem ready_becomes (h : Host n) (p : Fin n) :
    (h.ready p).Leaves fun k => h.procs.Becomes
      (only p fun r => if r.cognitive ∧ k.allocator.isStarted then r.entered else r) k.procs := by
  cases hcog : h.procs[p].cognitive with
  | false =>
    rw [ready, hcog]
    exact Roster.becomes_self (by simp [hcog])
  | true =>
    have entered {k : Host n} (hk : k.procs =
        if k.allocator.isStarted then h.procs.update p (·.entered) else h.procs) : h.procs.Becomes
          (only p fun r => if r.cognitive ∧ k.allocator.isStarted then r.entered else r) k.procs := by
      rw [hk]
      split
      · next hstarted => exact Roster.becomes_update_of (if_pos ⟨hcog, hstarted⟩)
      · next hstarted => exact Roster.becomes_self (if_neg fun hk => hstarted hk.2)
    rw [ready_eq hcog]
    have henter := h.enter_enters p
    have hends := h.enter_ends p
    generalize h.enter p = e at henter hends
    cases hends with
    | unstarted procs => exact entered henter
    | full untracked procs => exact entered henter
    | @entered g core built procs =>
      have hg := entered henter
      rw [Allocator.isStarted_of_core? built] at hg
      refine ((g.place_remarked core p _).and (place_started built p _)).imp fun k hk => ?_
      rw [hk.2]
      exact hg.remarked hk.1

theorem selectNext_becomes (h : Host n) (now : Tick) :
    h.procs.Becomes (stamped (h.selectNext now).2.toList now) (h.selectNext now).1.procs := by
  cases hc : h.allocator.core? with
  | none =>
    rw [selectNext, hc]
    exact (Roster.Becomes.refl _).congr fun q => rfl
  | some core =>
    rw [selectNext_eq_handOut hc]
    have hshifts := Shelf.shifts_along h.procs core.buckets
    generalize Sweep.along core.buckets h.procs = w at hshifts
    have hmarks : h.procs.Remarked w.shelf.procs := hshifts.procs
    unfold handOut
    dsimp only
    cases w.taken with
    | none =>
      rw [noteBusy_procs]
      exact hmarks.becomes.congr fun q => rfl
    | some taken =>
      obtain ⟨level, p⟩ := taken
      change h.procs.Becomes (stamped [p] now)
        (((h.withShelf core w.shelf).noteBusy w.busy).procs.update p (·.withVector (·.stamp now)))
      have hstamp := Roster.becomes_update ((h.withShelf core w.shelf).noteBusy w.busy).procs p
        (·.withVector (·.stamp now))
      rw [noteBusy_procs] at hstamp ⊢
      refine (hmarks.becomes.trans hstamp fun q x mark => ?_).congr fun q => ?_
      · unfold only
        split <;> rfl
      · simp only [only, stamped, List.contains_iff_mem, List.mem_singleton]

theorem drainFor_becomes (k : Nat) (h : Host n) (now : Tick) :
    h.procs.Becomes (stamped (h.drainFor k now).2 now) (h.drainFor k now).1.procs := by
  induction k generalizing h with
  | zero => exact (Roster.Becomes.refl _).congr fun q => rfl
  | succ k ih =>
    have hselect := h.selectNext_becomes now
    rw [drainFor]
    generalize h.selectNext now = r at hselect
    obtain ⟨g, p?⟩ := r
    cases p? with
    | none => exact hselect.congr fun q => rfl
    | some p =>
      have hrest := ih g
      dsimp only at hselect hrest ⊢
      generalize g.drainFor k now = rest at hrest
      refine (hselect.trans hrest fun q x mark => ?_).congr fun q => ?_
      · unfold stamped
        split <;> rfl
      · exact Roster.stamped_stamped p rest.2 now q _

theorem untrack_procs (h : Host n) (p : Fin n) :
    (h.untrack p).procs = h.procs.update p fun r => { r with tracked := false } := by
  unfold untrack
  split
  · dsimp only
    split <;> rfl
  · next ht =>
    rw [Bool.not_eq_true] at ht
    refine (Roster.update_self ?_).symm
    rw [← ht]

theorem retire_becomes (h : Host n) (p : Fin n) :
    h.procs.Becomes
      (only p fun r => if (h.retire p).2 ≠ .contended then { r with tracked := false } else r)
      (h.retire p).1.procs := by
  have hremove := (h.remove_remarked p).becomes
  unfold retire
  generalize h.remove p = r at hremove
  obtain ⟨g, removal⟩ := r
  cases removal with
  | contended => exact hremove.congr fun q => (ite_self _).symm
  | notFound | removed =>
    have huntrack := Roster.becomes_update g.procs p fun r => { r with tracked := false }
    rw [← untrack_procs] at huntrack
    refine (hremove.trans huntrack fun q x mark => ?_).congr fun q => rfl
    unfold only
    split <;> rfl

theorem refresh_becomes (hc : h.allocator.config.interactiveDivisor ≠ 0) (clock : Clock) (p : Fin n) :
    (h.refresh clock p).Leaves fun k => h.procs.Becomes (only p fun r =>
      if r.cognitive ∧ r.gap clock.now ≠ 0 then r.refreshed h.allocator.config clock else r)
      k.procs := by
  unfold refresh
  dsimp only
  rw [if_neg hc]
  split
  · next hcog =>
    split
    · next hgap => exact Roster.becomes_self (if_neg fun hr => hr.2 hgap)
    · next hgap =>
      let g := h.touch p (·.refreshed h.allocator.config clock)
      refine ((g.stampRing_procs clock.now).imp fun k hk => ?_).bind fun k _ hk => hk
      rw [hk, procs_touch]
      exact Roster.becomes_update_of (if_pos ⟨hcog, hgap⟩)
  · next hcog => exact Roster.becomes_self (if_neg fun hr => hcog hr.1)

theorem setFeature_becomes (h : Host n) (p : Fin n) (i : Nat) (x : Single) :
    h.procs.Becomes (only p fun r => if r.cognitive then r.withVector (·.set i x) else r)
      (h.setFeature p i x).procs := by
  unfold setFeature
  split
  · next hset => exact Roster.becomes_update_of (if_pos hset.1)
  · next hset =>
    refine Roster.becomes_self ?_
    split
    · next hcog =>
      have hi : 8 ≤ i := Nat.le_of_not_lt fun hi => hset ⟨hcog, hi⟩
      rw [Record.withVector, FeatureVector.set_of_le _ hi]
    · rfl

end Host

namespace Session

variable {s t : Session n} {a : Nat} {seat : Seat n} {d : Done n}

def started (s : Session n) (a : Nat) : Bool := (s.allocator? a).any (·.isStarted)

def configOf (s : Session n) (a : Nat) : Config := ((s.allocator? a).map (·.config)).getD {}

def clockOf (s : Session n) (a : Nat) : Clock :=
  match s.seat a with
  | .ok seat => s.clock seat
  | .error _ => { hz := 0 }

theorem clockOf_of_seat (hs : s.seat a = .ok seat) : s.clockOf a = s.clock seat := by
  rw [clockOf, hs]

theorem configOf_of_seat (hs : s.seat a = .ok seat) : s.configOf a = seat.allocator.config := by
  rw [configOf, allocator?_of_seat hs]
  rfl

theorem started_of_seat (hs : s.seat a = .ok seat) : s.started a = seat.allocator.isStarted := by
  rw [started, allocator?_of_seat hs]
  rfl

theorem started_putHost (hs : s.seat a = .ok seat) (k : Host n) :
    (s.putHost a k).started a = k.allocator.isStarted := by
  rw [started, allocator?_putHost hs, if_pos rfl]
  rfl

end Session

namespace Event

open Roster (only stamped)

/-- What the call of an event makes of a record, its mark apart. -/
def revise (e : Event n) : Fin n → Record → Record :=
  match e.call with
  | .host a (.ready p) => only p fun r =>
    if r.cognitive ∧ e.done.session.started a then r.entered else r
  | .host _ (.retire p) => only p fun r =>
    if e.done.answer ≠ .host (.removal .contended) then { r with tracked := false } else r
  | .host a (.refresh p) => only p fun r =>
    if r.cognitive ∧ r.gap (e.before.clockOf a).now ≠ 0 then
      r.refreshed (e.before.configOf a) (e.before.clockOf a)
    else r
  | .host _ (.setFeature p i x) => only p fun r =>
    if r.cognitive then r.withVector (·.set i x) else r
  | .host a .select | .host a .drain => stamped e.yields (e.before.clockOf a).now
  | .record p call => only p fun r => (r.call call).1
  | _ => fun _ r => r

end Event

namespace Session

open Roster (only stamped)

variable {s t : Session n} {a : Nat} {seat : Seat n} {c : Call n} {d : Done n}

theorem host_revises {call : HostCall n}
    (hdiv : ∀ a x, s.allocator? a = some x → x.config.interactiveDivisor ≠ 0)
    (hc : s.call (.host a call) = .ok d) :
    s.procs.Becomes (Event.revise ⟨s, .host a call, d⟩) d.session.procs := by
  obtain ⟨seat, hs⟩ := seat_of_call hc
  have same (h : ((s.host seat).call (s.clock seat) call).Leaves fun k => s.procs.Remarked k.procs) :
      s.procs.Becomes (fun _ r => r) d.session.procs := by
    obtain ⟨k, hk, hd⟩ := leaves_of_call hs hc h
    rw [hd]
    exact hk.becomes
  have kept {α : Type} {e : Ending (Host n) α} (h : e.Leaves fun k => k.procs = s.procs) :
      e.Leaves fun k => s.procs.Remarked k.procs := h.imp fun k hk => hk ▸ .refl _
  cases call with
  | ready p =>
    obtain ⟨k, hk, hd⟩ := leaves_of_call hs hc
      (((s.host seat).ready_becomes p).bind fun _ _ hk => hk)
    rw [hd]
    refine hk.congr fun q => ?_
    simp only [Event.revise, hd, started_putHost hs]
  | retire p =>
    obtain ⟨seat', hs', rfl⟩ := retire_ok hc
    cases hs.symm.trans hs'
    refine ((s.host seat).retire_becomes p).congr fun q => ?_
    simp only [Event.revise, ne_eq, Answer.host.injEq, HostAnswer.removal.injEq]
  | select =>
    cases (call_select hs).symm.trans hc
    refine ((s.host seat).selectNext_becomes (s.clock seat).now).congr fun q => ?_
    simp only [Event.revise, clockOf_of_seat hs]
    rfl
  | drain =>
    simp only [Session.call, callHost, hs] at hc
    cases hc
    refine ((s.host seat).drainFor_becomes _ (s.clock seat).now).congr fun q => ?_
    simp only [Event.revise, clockOf_of_seat hs]
    rfl
  | refresh p =>
    have hseat : (s.host seat).allocator.config.interactiveDivisor ≠ 0 :=
      hdiv a _ (allocator?_of_seat hs)
    obtain ⟨k, hk, hd⟩ := leaves_of_call hs hc
      (((s.host seat).refresh_becomes hseat (s.clock seat) p).mapAnswer _)
    rw [hd]
    refine hk.congr fun q => ?_
    simp only [Event.revise, clockOf_of_seat hs, configOf_of_seat hs]
    rfl
  | setFeature p i x =>
    simp only [Session.call, callHost, hs] at hc
    cases hc
    exact (s.host seat).setFeature_becomes p i x
  | remove p => exact same ((s.host seat).remove_remarked p)
  | start => exact same ((kept (s.host seat).start_procs).bind fun _ _ hk => hk)
  | levelFor score =>
    refine same ?_
    change (Ending.mapAnswer _ (.ofExcept (s.host seat) _)).Leaves _
    cases Level.ofScore (s.host seat).allocator.config.levels score <;> exact .refl _
  | dump => exact same ((kept (s.host seat).dump_procs).mapAnswer _)
  | dumpToLog => exact same ((kept (s.host seat).dumpToLog_procs).mapAnswer _)
  | buckets => exact same ((kept (s.host seat).viewBuckets_procs).mapAnswer _)
  | tensor call => exact same ((kept ((s.host seat).callTensor_procs call)).mapAnswer _)
  | attention | setEmergency | setBudget | lastUpdate | stats | config =>
    exact same (Roster.Remarked.refl _)

/-- The records after a call, up to their marks. -/
theorem call_revises (hdiv : ∀ a x, s.allocator? a = some x → x.config.interactiveDivisor ≠ 0)
    (hc : s.call c = .ok d) : s.procs.Becomes (Event.revise ⟨s, c, d⟩) d.session.procs := by
  cases c with
  | host a call => exact host_revises hdiv hc
  | record p call =>
    cases hc
    exact Roster.becomes_update _ p _
  | clock a call =>
    obtain ⟨seat, k, hd, -⟩ := putClock_of_call hc
    rw [hd]
    exact .refl _
  | bucket place call =>
    rcases (putFiled_of_call hc).1 with hd | ⟨b, f, -, hf, hd⟩
    · rw [hd]
      exact .refl _
    · rw [hd]
      exact hf.procs.becomes

/-- What a history writes to a part of the session that no lock touches stays until the next write. -/
theorem Leads.last_at {α : Type} {es : List (Event n)} {x : Session n → α} {write? : Event n → Option α}
    (h : s.Leads es t) (hput : ∀ (s : Session n) b place, x (s.putBucket b place) = x s)
    (hw : ∀ e ∈ es, x e.done.session = (write? e).getD (x e.before)) :
    x t = (es.filterMap write?).getLast?.getD (x s) := by
  induction h with
  | refl s => rfl
  | @call s t c d es hc _ ih =>
    have hlast := ih fun e he => hw e (List.mem_cons_of_mem _ he)
    have hfirst : x d.session = (write? ⟨s, c, d⟩).getD (x s) := hw _ List.mem_cons_self
    rw [hlast, hfirst, List.filterMap_cons]
    cases write? ⟨s, c, d⟩ with
    | none => rfl
    | some y => rw [List.getLast?_cons, Option.getD_some, Option.getD_some]
  | seize hb hs _ ih => rw [ih hw, same_of_seize x hput hs]
  | release place _ ih => rw [ih hw, same_of_release x hput]

theorem Leads.last_of {α : Type} {es : List (Event n)} {x : Roster n → α} {write? : Event n → Option α}
    (h : s.Leads es t)
    (hw : ∀ e ∈ es, x e.done.session.procs = (write? e).getD (x e.before.procs)) :
    x t.procs = (es.filterMap write?).getLast?.getD (x s.procs) :=
  h.last_at (x := fun s => x s.procs) (fun s b place => congrArg x (procs_putBucket s b place)) hw

theorem Leads.accepted {os : List Opening} {queues : List (Nat × Single)} {procs : Roster n}
    {es : List (Event n)} {x : Allocator n} (h : (fresh os queues procs).Leads es t)
    (hx : t.allocator? a = some x) : x.config.Accepted := by
  obtain ⟨y, hy, hevolves⟩ := h.evolves a x hx
  rw [hevolves.config]
  exact (fresh_sturdy hy).1.config

theorem Leads.revises {os : List Opening} {queues : List (Nat × Single)} {procs : Roster n}
    {es : List (Event n)} {e : Event n} (h : (fresh os queues procs).Leads es t) (he : e ∈ es) :
    e.before.procs.Becomes e.revise e.done.session.procs := by
  obtain ⟨⟨past, hbefore⟩, hc⟩ := h.call_of_mem he
  exact call_revises (fun a x hx => (hbefore.accepted hx).divisor) hc

end Session

end AttentionScheduler
