import AttentionScheduler.Proofs.Activity
import AttentionScheduler.Proofs.Clamping
import AttentionScheduler.Proofs.Refiling
import AttentionScheduler.Proofs.Rounds
import AttentionScheduler.Proofs.Withdrawals

/-!
A process that is queued under a mark for which an allocator has no bucket is refused by it, but only
after it has been scored and enrolled. What a refusal leaves behind is the session after a plain start,
with a new score in the record, and with one more process that is tracked if it was not before.
-/

namespace AttentionScheduler

variable {n : Nat}

namespace Record

theorem entered_eq (r : Record) : r.entered =
    { r with vector := { r.vector with attention := Score.attention r.vector.signals }
             tracked := true } := by
  have hvector : r.vector.rescore =
      { r.vector with attention := Score.attention r.vector.signals } := by
    rw [FeatureVector.rescore, FeatureVector.setAttention,
      Single.clampUnit_of_inUnit (Score.attention_inUnit _)]
  rw [entered, withVector, hvector]

theorem entered_eq_self {r : Record} : r.entered = r ↔
    r.tracked = true ∧ r.vector.attention = Score.attention r.vector.signals := by
  rw [entered_eq]
  constructor
  · intro h
    exact ⟨(congrArg tracked h).symm, (congrArg (·.vector.attention) h).symm⟩
  · rintro ⟨htracked, hscore⟩
    rw [← hscore, ← htracked]

end Record

namespace Shelf

variable {s : Shelf n} {level mark : Nat} {p : Fin n}

/-- The locks do not matter: a refusal comes before any of them is asked for. -/
theorem file_of_absent (hl : level < s.buckets.length) (hm : s.procs[p].mark = some mark)
    (habsent : s.buckets[mark]? = none) : s.file level p = .returned s (.refused mark) := by
  have hround : s.round level p = .returned s (some (.refused mark)) := by
    simp only [round, filed?, List.getElem?_eq_getElem hl, hm, habsent, Option.map_some,
      Option.map_none]
  rw [file, rounds, hround]
  rfl

end Shelf

namespace Allocator

def enrolled (tracked : Bool) (x : Allocator n) : Allocator n :=
  match x.core? with
  | some core => x.withCore (core.enrolled tracked)
  | none => x

theorem enrolled_of_tracked (x : Allocator n) : x.enrolled true = x := by
  obtain ⟨config, startup, _, _, _, _⟩ := x
  cases startup <;> rfl

theorem enrolled_of_core? {x : Allocator n} {core : Core n} (hc : x.core? = some core)
    (tracked : Bool) : x.enrolled tracked = x.withCore (core.enrolled tracked) := by
  simp only [enrolled, hc]

end Allocator

namespace Host

variable {h g k : Host n} {core : Core n} {p : Fin n} {level mark : Nat} {score : Single}

theorem place_of_absent (hc : k.allocator.core? = some core)
    (hl : Level.ofScore k.allocator.config.levels score = .ok level)
    (hlt : level < core.buckets.length) (hm : k.procs[p].mark = some mark)
    (habsent : core.buckets[mark]? = none) :
    k.place core p score = .returned (k.say (.foreign k.procs[p].pid mark)) () := by
  have hfile : (k.shelf core).file level p = .returned (k.shelf core) (.refused mark) :=
    Shelf.file_of_absent hlt hm habsent
  rw [place, hl, Ending.ofExcept, Ending.bind_returned, hfile]
  change Ending.returned ((k.withShelf core (k.shelf core)).say _) () = _
  rw [withShelf_self hc]

/-- The host after the refusal of `p`, which finds it started as `g`. -/
def refused (g : Host n) (core : Core n) (p : Fin n) (mark : Nat) : Host n where
  allocator := g.allocator.withCore (core.enrolled g.procs[p].tracked)
  procs := g.procs.update p (·.entered)
  lines := g.lines ++ [.foreign g.procs[p].pid mark]

theorem ready_of_absent (hstart : h.start = .returned g core) (hcog : h.procs[p].cognitive = true)
    (hadmits : core.Admits g.procs[p].tracked)
    (hl : Level.ofScore g.allocator.config.levels (Score.attention h.procs[p].vector.signals) =
      .ok level)
    (hlt : level < core.buckets.length) (hm : h.procs[p].mark = some mark)
    (habsent : core.buckets[mark]? = none) : h.ready p = .returned (g.refused core p mark) () := by
  have hmark : (g.procs.update p (·.entered))[p].mark = some mark := by
    rw [mark_of_entered, procs_of_start hstart, hm]
  have hpid : (g.procs.update p (·.entered))[p].pid = g.procs[p].pid := by
    rw [Roster.getElem_update_self]
    rfl
  rw [ready_eq hcog, enter_of_start hstart, enrol_of_admits (core?_of_start hstart) hadmits,
    Ending.bind_returned, refused, ← hpid]
  exact place_of_absent rfl hl hlt hmark habsent

theorem ready_of_start_faulted {fault : Fault} (hstart : h.start = .faulted k fault)
    (hcog : h.procs[p].cognitive = true) : h.ready p = .faulted k fault := by
  rw [ready, if_pos hcog, hstart, Ending.bind_faulted]

theorem ready_of_full (hstart : h.start = .returned g core) (hcog : h.procs[p].cognitive = true)
    (hfull : ¬ core.Admits g.procs[p].tracked) : ∃ k, h.ready p = .faulted k .addOverflow := by
  obtain ⟨hnot, hroom⟩ := not_or.mp hfull
  have htrack : core.tensor.track = .error .addOverflow := by
    rw [Tensor.track, Word.add, if_neg hroom]
    rfl
  rw [ready_eq hcog, enter_of_start hstart, enrol, tracked_rescored, if_neg hnot, htrack]
  exact ⟨_, rfl⟩

end Host

namespace Session

variable {s t : Session n} {a mark : Nat} {seat : Seat n} {p : Fin n} {es : List (Event n)}

/-- The session in which `p` is scored, tracked and, if it was not tracked before, counted by `a`. -/
def enrolledAt (s : Session n) (a : Nat) (p : Fin n) : Session n :=
  { s.adjust a (·.enrolled s.procs[p].tracked) with procs := s.procs.update p (·.entered) }

/-- `p` is refused by `a`, which a plain call would have started as `started` tells. -/
structure Refuses (s : Session n) (p : Fin n) (a mark : Nat) (started d : Done n) : Prop where
  start : started.answer = .host (.started true)
  answer : d.answer = .host (.mark (some mark))
  lines : d.lines = started.lines ++ [.foreign s.procs[p].pid mark]
  session : d.session = started.session.enrolledAt a p
  atomic_iff : d.session = started.session ↔
    s.procs[p].tracked = true ∧ s.procs[p].vector.attention = Score.attention s.procs[p].vector.signals

theorem enrolledAt_eq_self (hs : s.seat a = .ok seat) : s.enrolledAt a p = s ↔
    s.procs[p].tracked = true ∧
      s.procs[p].vector.attention = Score.attention s.procs[p].vector.signals := by
  rw [← Record.entered_eq_self]
  constructor
  · intro h
    have hprocs : (s.procs.update p (·.entered))[p] = s.procs[p] :=
      congrArg (fun u : Session n => u.procs[p]) h
    rw [Roster.getElem_update_self] at hprocs
    exact hprocs
  · intro h
    have htracked : s.procs[p].tracked = true := (Record.entered_eq_self.mp h).1
    have hprocs : s.procs.update p (·.entered) = s.procs := Roster.update_self h
    have hsame : s.adjust a (·.enrolled true) = s :=
      (putHost_eq_adjust hs _ seat.allocator.enrolled_of_tracked.symm).symm.trans (putHost_self hs)
    rw [enrolledAt, htracked, hsame, hprocs]

theorem putHost_refused {g : Host n} {core : Core n} (hs : s.seat a = .ok seat)
    (hc : g.allocator.core? = some core) :
    s.putHost a (g.refused core p mark) = (s.putHost a g).enrolledAt a p := by
  have henrolled : (g.refused core p mark).allocator = g.allocator.enrolled g.procs[p].tracked :=
    (Allocator.enrolled_of_core? hc _).symm
  rw [← putHost_putHost s a g]
  exact putHost_eq_adjust (seat_putHost hs g) (·.enrolled g.procs[p].tracked) henrolled

theorem call_start (hs : s.seat a = .ok seat) {g : Host n} {core : Core n}
    (hstart : (s.host seat).start = .returned g core) :
    s.call (.host a .start) = .ok ⟨s.putHost a g, .host (.started true), g.lines⟩ := by
  have hstarted := Allocator.isStarted_of_core? (Host.core?_of_start hstart)
  simp only [call, callHost, hs, Host.call, hstart, Ending.bind_returned, hstarted]

theorem call_start_faulted (hs : s.seat a = .ok seat) {g : Host n} {fault : Fault}
    (hstart : (s.host seat).start = .faulted g fault) :
    s.call (.host a .start) = .ok ⟨s.putHost a g, .fault fault, g.lines⟩ := by
  simp only [call, callHost, hs, Host.call, hstart, Ending.bind_faulted]

variable {os : List Opening} {queues : List (Nat × Single)} {ps : Vector (UInt64 × Bool) n}

/-- A call that finds a process queued beyond the buckets of `a` breaks off while `a` is started, or
because no more can be counted, or it refuses the process. -/
theorem Leads.refuses (h : (fresh os queues (freshRoster ps)).Leads es t)
    (hseat : t.seat a = .ok seat) (hcog : t.procs[p].cognitive = true)
    (hmark : t.procs[p].mark = some mark) (hbeyond : seat.allocator.config.levels ≤ mark) :
    ∃ started d, t.call (.host a .start) = .ok started ∧ t.call (.host a (.ready p)) = .ok d ∧
      ((∃ fault, started.answer = .fault fault ∧ d = started) ∨
        (d.answer = .fault .addOverflow ∧ t.procs[p].tracked = false ∧
          Word.limit ≤ seat.allocator.active + 1) ∨
        t.Refuses p a mark started d) := by
  have hshaped : (t.host seat).allocator.Shaped := h.shaped (allocator?_of_seat hseat)
  have hevolves := (t.host seat).start_evolves
  have hcounts := Host.start_counts (h := t.host seat) hshaped.config
  cases hstart : (t.host seat).start with
  | stuck stop => exact absurd hstart (Host.start_ne_stuck _ stop)
  | faulted g fault =>
    refine ⟨_, _, call_start_faulted hseat hstart,
      call_of_ready_faulted hseat (Host.ready_of_start_faulted hstart hcog), .inl ⟨fault, rfl, rfl⟩⟩
  | returned g core =>
    rw [hstart] at hevolves hcounts
    have hcore : g.allocator.core? = some core := Host.core?_of_start hstart
    have hprocs : g.procs = t.procs := Host.procs_of_start hstart
    have hlength : core.buckets.length = seat.allocator.config.levels :=
      ((hevolves.shaped hshaped).core core hcore).length.trans (congrArg Config.levels hevolves.config)
    have hactive : core.tensor.active = seat.allocator.active :=
      (Allocator.active_of_core? hcore).symm.trans hcounts
    by_cases hadmits : core.Admits g.procs[p].tracked
    · obtain ⟨level, hlt, hl⟩ := Level.exists_ofScore hshaped.config.levels
        (Score.attention t.procs[p].vector.signals)
      have hconfig : g.allocator.config = seat.allocator.config := hevolves.config
      have hready := Host.ready_of_absent hstart hcog hadmits (hconfig ▸ hl) (hlength ▸ hlt) hmark
        (List.getElem?_eq_none (hlength ▸ hbeyond))
      have hstill : (g.refused core p mark).procs[p].mark = some mark := by
        change (g.procs.update p (·.entered))[p].mark = _
        rw [Host.mark_of_entered, hprocs, hmark]
      have hsession : t.putHost a (g.refused core p mark) = (t.putHost a g).enrolledAt a p :=
        putHost_refused hseat hcore
      refine ⟨_, _, call_start hseat hstart, call_of_ready hseat hready,
        .inr (.inr ⟨rfl, ?_, ?_, hsession, ?_⟩)⟩
      · rw [hstill]
      · rw [Host.refused, hprocs]
      · have hput : (t.putHost a g).procs = t.procs := hprocs
        rw [hsession, enrolledAt_eq_self (seat_putHost hseat g), hput]
    · obtain ⟨k, hready⟩ := Host.ready_of_full hstart hcog hadmits
      obtain ⟨huntracked, hfull⟩ := not_or.mp hadmits
      refine ⟨_, _, call_start hseat hstart, call_of_ready_faulted hseat hready,
        .inr (.inl ⟨rfl, ?_, ?_⟩)⟩
      · rw [← hprocs]
        exact Bool.eq_false_iff.mpr huntracked
      · rw [← hactive]
        exact Nat.not_lt.mp hfull

/-- A process in a loose bucket, with a signal that it has not been scored for. -/
def strayed : List (Step 1) :=
  [.call (.bucket (.loose 0) (.push 0)), .call (.host 0 (.setFeature 0 0 .one))]

theorem refuses_while_starting : ∃ es, ∃ t : Session 1, ∃ seat started d,
    (fresh [{ hz := 1000 }, { hz := 1000, config? := some {} }] [(7, .zero)]
      (freshRoster #v[(0, true)])).Leads es t ∧
    t.seat 1 = .ok seat ∧ t.procs[(0 : Fin 1)].cognitive = true ∧
    t.procs[(0 : Fin 1)].mark = some 7 ∧ seat.allocator.config.levels ≤ 7 ∧
    seat.allocator.isStarted = false ∧ t.call (.host 1 .start) = .ok started ∧
    t.call (.host 1 (.ready 0)) = .ok d ∧ t.Refuses 0 1 7 started d := by
  let s₀ : Session 1 := fresh [{ hz := 1000 }, { hz := 1000, config? := some {} }] [(7, .zero)]
    (freshRoster #v[(0, true)])
  let answered (t : Session 1) : Option (Answer 1) :=
    (t.call (.host 1 (.ready 0))).toOption.map (·.answer)
  obtain ⟨t, h, hfacts⟩ := exists_leads s₀ strayed
    (fun t => (t.procs[(0 : Fin 1)].cognitive, t.procs[(0 : Fin 1)].mark,
      (t.seat 1).toOption.map fun seat => (seat.allocator.config.levels, seat.allocator.isStarted),
      answered t))
    (x := (true, some 7, some (4, false), some (.host (.mark (some 7))))) (by decide +kernel)
  simp only [Prod.mk.injEq] at hfacts
  obtain ⟨hcog, hmark, hat, hanswer⟩ := hfacts
  cases hseat : t.seat 1 with
  | error stop =>
    rw [hseat] at hat
    cases hat
  | ok seat =>
    rw [hseat] at hat
    obtain ⟨hlevels, hpending⟩ := Prod.mk.inj (Option.some.inj hat)
    obtain ⟨started, d, hstart, hready, hends⟩ := h.refuses hseat hcog hmark (by omega)
    have hrefused : d.answer = .host (.mark (some 7)) := by
      simp only [answered, hready] at hanswer
      exact Option.some.inj hanswer
    rcases hends with ⟨fault, hfault, rfl⟩ | ⟨hfault, -⟩ | hrefuses
    · cases hfault.symm.trans hrefused
    · cases hfault.symm.trans hrefused
    · exact ⟨_, t, seat, started, d, h, hseat, hcog, hmark, by omega, hpending, hstart, hready,
        hrefuses⟩

theorem refusal_not_atomic : ∃ es, ∃ t : Session 1, ∃ started d,
    (fresh [{ hz := 1000 }, { hz := 1000, config? := some {} }] [(7, .zero)]
      (freshRoster #v[(0, true)])).Leads es t ∧
    t.call (.host 1 .start) = .ok started ∧ t.call (.host 1 (.ready 0)) = .ok d ∧
    d.answer = .host (.mark (some 7)) ∧
    started.session.procs[(0 : Fin 1)].tracked = false ∧
    d.session.procs[(0 : Fin 1)].tracked = true ∧
    started.session.procs[(0 : Fin 1)].vector.attention ≠
      d.session.procs[(0 : Fin 1)].vector.attention ∧
    started.session.active 1 = 0 ∧ d.session.active 1 = 1 := by
  let s₀ : Session 1 := fresh [{ hz := 1000 }, { hz := 1000, config? := some {} }] [(7, .zero)]
    (freshRoster #v[(0, true)])
  let refusal (t : Session 1) : Option (Done 1 × Done 1) := do
    let started ← (t.call (.host 1 .start)).toOption
    let d ← (t.call (.host 1 (.ready 0))).toOption
    return (started, d)
  obtain ⟨t, h, hfacts⟩ := exists_leads s₀ strayed
    (fun t => (refusal t).map fun (r : Done 1 × Done 1) => (r.2.answer,
      [r.1.session.procs[(0 : Fin 1)].tracked, r.2.session.procs[(0 : Fin 1)].tracked,
        decide (r.1.session.procs[(0 : Fin 1)].vector.attention =
          r.2.session.procs[(0 : Fin 1)].vector.attention)],
      [r.1.session.active 1, r.2.session.active 1]))
    (x := some (.host (.mark (some 7)), [false, true, false], [0, 1])) (by decide +kernel)
  obtain ⟨⟨started, d⟩, hrefusal, hfacts⟩ := Option.map_eq_some_iff.mp hfacts
  simp only [Prod.mk.injEq, List.cons.injEq, and_true, decide_eq_false_iff_not] at hfacts
  obtain ⟨hanswer, ⟨hbefore, hafter, hscore⟩, hnone, hone⟩ := hfacts
  simp only [refusal] at hrefusal
  cases hstart : t.call (.host 1 .start) with
  | error stop =>
    rw [hstart] at hrefusal
    cases hrefusal
  | ok started' =>
    cases hready : t.call (.host 1 (.ready 0)) with
    | error stop =>
      rw [hstart, hready] at hrefusal
      cases hrefusal
    | ok d' =>
      rw [hstart, hready] at hrefusal
      cases hrefusal
      exact ⟨_, t, _, _, h, hstart, hready, hanswer, hbefore, hafter, hscore, hnone, hone⟩

end Session

end AttentionScheduler
