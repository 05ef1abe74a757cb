import AttentionScheduler.Proofs.Movements
import Mathlib.Algebra.GroupWithZero.Nat

/-!
What the counters of an allocator count, wrapping around like machine words.
-/

namespace AttentionScheduler

variable {n : Nat}

namespace Counters

def plus (c d : Counters) : Counters where
  enqueued := c.enqueued + d.enqueued
  dispatched := c.dispatched + d.dispatched
  contended := c.contended + d.contended
  refreshes := c.refreshes + d.refreshes

theorem plus_zero (c : Counters) : c.plus {} = c := by
  simp [plus]

end Counters

namespace Event

def refreshes (a : Nat) (e : Event n) : Bool :=
  match e.call with
  | .host x (.refresh p) =>
    x = a ∧ e.done.answer = .host .done ∧ e.done.session.procs[p].vector ≠ e.before.procs[p].vector
  | _ => false

/-- How often the call has found a bucket of `a` contended. A selection finds so every busy bucket that
it meets. -/
def contentions (a : Nat) (e : Event n) : Nat :=
  if e.call.allocator? = some a then
    match e.call, e.done.answer with
    | .host _ .select, .host _ => Bucket.met (e.before.bucketsOf a)
    | .host _ (.remove _), .host (.removal .contended)
    | .host _ (.retire _), .host (.removal .contended) => 1
    | _, _ => 0
  else 0

end Event

namespace Session

variable {s t : Session n} {a : Nat} {seat : Seat n} {call : HostCall n} {k : Host n}
  {answer : Answer n} {lines : List Line} {c : Call n} {d : Done n} {es fs : List (Event n)}

def tally (a : Nat) (es : List (Event n)) : Counters where
  enqueued := .ofNat (es.countP fun e => (e.readied? a).isSome)
  dispatched := .ofNat (es.countP fun e => (e.dispatched? a).isSome)
  contended := .ofNat (es.map (·.contentions a)).sum
  refreshes := .ofNat (es.countP (·.refreshes a))

theorem tally_append (a : Nat) (es fs : List (Event n)) :
    tally a (es ++ fs) = (tally a es).plus (tally a fs) := by
  simp [tally, Counters.plus, UInt64.ofNat_add]

theorem tally_singleton (a : Nat) (e : Event n) :
    tally a [e] =
      { enqueued := if (e.readied? a).isSome then 1 else 0
        dispatched := if (e.dispatched? a).isSome then 1 else 0
        contended := .ofNat (e.contentions a)
        refreshes := if e.refreshes a then 1 else 0 } := by
  simp only [tally, List.countP_singleton, List.map_singleton, List.sum_singleton,
    apply_ite UInt64.ofNat]
  rfl

theorem tally_of_none {e : Event n} (hr : e.readied? a = none) (hd : e.dispatched? a = none)
    (hc : e.contentions a = 0) (hf : e.refreshes a = false) : tally a [e] = {} := by
  rw [tally_singleton, hr, hd, hc, hf]
  rfl

theorem contentions_of_ne {e : Event n} (h : e.call.allocator? ≠ some a) : e.contentions a = 0 :=
  if_neg h

theorem contentions_of_select {d : Done n} {answer : HostAnswer n} (hd : d.answer = .host answer) :
    Event.contentions a ⟨s, .host a .select, d⟩ = Bucket.met (s.bucketsOf a) := by
  simp [Event.contentions, Call.allocator?, hd]

theorem tally_of_elsewhere (h : ∀ call, c ≠ .host a call) : tally a [⟨s, c, d⟩] = {} := by
  cases c with
  | host x call =>
    have hx : x ≠ a := fun e => h call (e ▸ rfl)
    have hcall : (Call.host x call).allocator? ≠ some a := fun e => hx (Option.some.inj e)
    apply tally_of_none _ _ (contentions_of_ne hcall) <;>
      cases call <;> simp [Event.readied?, Event.dispatched?, Event.refreshes, hx]
  | clock x call =>
    apply tally_of_none rfl rfl _ rfl
    simp [Event.contentions]
  | record p call => exact tally_of_none rfl rfl rfl rfl
  | bucket place call =>
    apply tally_of_none rfl rfl _ rfl
    simp [Event.contentions]

theorem tally_of_quiet (hq : call.quiet = true) : tally a [⟨s, .host a call, d⟩] = {} := by
  apply tally_of_none <;>
    cases call <;> first | rfl | (cases hq; done) | simp [Event.contentions]

theorem tally_of_fault {fault : Fault} :
    tally a [⟨s, .host a call, ⟨t, .fault fault, lines⟩⟩] = {} := by
  apply tally_of_none <;> cases call <;>
    simp [Event.readied?, Event.filed?, Event.dispatched?, Event.contentions, Event.refreshes,
      Answer.taken?]

theorem tally_of_not_filed {p : Fin n} (h : Event.filed? ⟨s, .host a (.ready p), d⟩ = none) :
    tally a [⟨s, .host a (.ready p), d⟩] = {} := by
  apply tally_of_none _ rfl _ rfl
  · simp [Event.readied?, h]
  · simp [Event.contentions]

theorem host_tally (hseat : s.seat a = .ok seat)
    (hd : (s.host seat).Does s.files a call k answer) :
    k.allocator.counters =
      seat.allocator.counters.plus (tally a [⟨s, .host a call, ⟨s.putHost a k, answer, lines⟩⟩]) := by
  have hbuckets : s.bucketsOf a = seat.allocator.buckets := bucketsOf_of_seat hseat
  cases hd with
  | quiet kind quiet mute =>
    rw [tally_of_quiet kind, Counters.plus_zero]
    exact quiet.2
  | faulted counters edits =>
    rw [tally_of_fault, Counters.plus_zero]
    exact counters
  | started counters edits =>
    rw [tally_of_none rfl rfl (by simp [Event.contentions]) rfl, Counters.plus_zero]
    exact counters
  | ignored plain =>
    rw [tally_of_not_filed (filed?_of_plain plain), Counters.plus_zero]
    rfl
  | refused cognitive counters absent edits marked =>
    rw [tally_of_not_filed (filed?_of_absent hseat absent), Counters.plus_zero]
    exact counters
  | filed cognitive counters scored there edits =>
    rw [counters, tally_singleton]
    simp [Counters.plus, Event.readied?, filed?_of_there hseat cognitive there, Event.dispatched?,
      Event.contentions, Event.refreshes, host]
  | nobody none_yields alike counters =>
    rw [counters, tally_singleton, contentions_of_select rfl, hbuckets]
    simp [Counters.plus, Event.readied?, Event.dispatched?, Event.refreshes, Answer.taken?, host]
  | taken there free first none_yields started counters edit =>
    rw [counters, tally_singleton, contentions_of_select rfl, hbuckets]
    simp [Counters.plus, Event.readied?, Event.dispatched?, Event.refreshes, Answer.taken?, host]
  | contended kind marked there held alike procs counters =>
    rw [counters, tally_singleton]
    rcases kind with rfl | rfl <;>
      simp [Counters.plus, Event.readied?, Event.dispatched?, Event.contentions, Event.refreshes,
        Call.allocator?, host]
  | notFound kind absent alike counters =>
    rw [tally_of_none, Counters.plus_zero]
    · exact counters
    all_goals rcases kind with rfl | rfl <;> first | rfl | simp [Event.contentions]
  | removed kind marked started counters edit =>
    rw [tally_of_none, Counters.plus_zero]
    · exact counters
    all_goals rcases kind with rfl | rfl <;> first | rfl | simp [Event.contentions]
  | idle =>
    rw [tally_of_none rfl rfl (by simp [Event.contentions]), Counters.plus_zero]
    · rfl
    · simp [Event.refreshes, putHost, host]
  | @written p k alike changed counters =>
    have hvector : (s.putHost a k).procs[p].vector ≠ s.procs[p].vector := changed
    rw [counters, tally_singleton]
    simp [Counters.plus, Event.readied?, Event.dispatched?, Event.contentions,
      Event.refreshes, hvector, host]

theorem Does.counters (hd : s.Does c d) (a : Nat) :
    (d.session.allocator? a).map (·.counters) =
      (s.allocator? a).map fun x => x.counters.plus (tally a [⟨s, c, d⟩]) := by
  have elsewhere (hc : ∀ call, c ≠ .host a call)
      (hk : (d.session.allocator? a).map (·.counters) = (s.allocator? a).map (·.counters)) :
      (d.session.allocator? a).map (·.counters) =
        (s.allocator? a).map fun x => x.counters.plus (tally a [⟨s, c, d⟩]) := by
    rw [hk, tally_of_elsewhere hc]
    simp only [Counters.plus_zero]
  cases hd with
  | @host x seat call k answer seated does =>
    by_cases hx : a = x
    · subst hx
      rw [allocator?_putHost seated, if_pos rfl, allocator?_of_seat seated, Option.map_some,
        Option.map_some]
      exact congrArg some (host_tally seated does)
    · refine elsewhere ?_ ?_
      · rintro call' ⟨⟩
        exact hx rfl
      · rw [allocator?_putHost seated, if_neg hx]
  | aside kind files keeps mute =>
    refine elsewhere ?_ (keeps a)
    rintro call rfl
    cases kind
  | absent nowhere => exact elsewhere (fun _ h => by cases h) rfl
  | marked there marked files keeps => exact elsewhere (fun _ h => by cases h) (keeps a)
  | joined there unmarked edit keeps => exact elsewhere (fun _ h => by cases h) (keeps a)
  | contended kind there held files keeps => exact elsewhere (fun _ h => by cases h) (keeps a)
  | empty there free empty files keeps => exact elsewhere (fun _ h => by cases h) (keeps a)
  | missing there free missing files keeps => exact elsewhere (fun _ h => by cases h) (keeps a)
  | popped there free first edit keeps => exact elsewhere (fun _ h => by cases h) (keeps a)
  | removed there free member edit keeps => exact elsewhere (fun _ h => by cases h) (keeps a)

theorem Leads.counters {os : List Opening} {queues : List (Nat × Single)}
    {ps : Vector (UInt64 × Bool) n} {x : Allocator n}
    (h : (fresh os queues (freshRoster ps)).Leads es t) (hx : t.allocator? a = some x) :
    x.counters = tally a (es.flatMap Event.parts) := by
  refine h.induct (I := fun u past => ∀ x, u.allocator? a = some x → x.counters = tally a past)
    (fresh_sound os queues ps) ?_ ?_ ?_ x hx
  · intro u past c d _ _ hd hI y hy
    have hcounters := hd.counters a
    rw [hy] at hcounters
    obtain ⟨x, hx, hxy⟩ := Option.map_eq_some_iff.mp hcounters.symm
    rw [tally_append, ← hI x hx, hxy]
  · intro u v past _ hl hI y hy
    have hkeeps := hl.keeps a
    rw [hy] at hkeeps
    obtain ⟨x, hx, hxy⟩ := Option.map_eq_some_iff.mp hkeeps.symm
    rw [← hI x hx, hxy]
  · intro x hx
    exact (allocator?_fresh hx).1

end Session

end AttentionScheduler
