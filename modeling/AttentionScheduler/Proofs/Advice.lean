import AttentionScheduler.Proofs.Alignment

/-!
Advice never influences scheduling. The calls that set or read the policy, turn a ring or only look at a
session may be added to a run or taken out of it anywhere, and no other call can tell.
-/

namespace AttentionScheduler

variable {n : Nat} {l : Leeway}

/-- The policy of the allocators and their rings are free. -/
def Leeway.counsel : Leeway := { Leeway.strict with advice := true }

namespace HostCall

def advisory : HostCall n → Bool
  | setEmergency _ | setBudget _ | lastUpdate | stats | config | dump | dumpToLog | buckets
    | tensor _ => true
  | _ => false

end HostCall

namespace Call

/-- Whether the call only sets or reads the policy, turns a ring, or reads an allocator, a clock or a
record. -/
def advisory : Call n → Bool
  | host _ call => call.advisory
  | clock _ .read | record _ (.feature _) | record _ .info => true
  | _ => false

theorem plain_of_not_advisory {c : Call n} (hc : c.advisory = false) : c.plain .counsel = true := by
  cases c with
  | host a call => cases call <;> first | rfl | cases hc
  | clock a call => rfl
  | record p call => cases call <;> first | rfl | cases hc
  | bucket place call => rfl

end Call

namespace Tensor

variable {t u : Tensor}

theorem Akin.advise (h : t.Akin l u) (hl : l.advice = true) (call : TensorCall) :
    (t.call call).Leaves (·.Akin l u) := by
  cases call with
  | advance now =>
    obtain ⟨ht, hu⟩ := h.turns hl
    obtain ⟨k, hk, hadvance⟩ := ht.advance now
    rw [Tensor.call, hadvance]
    exact { h with
      size := h.size.trans Array.size_setIfInBounds.symm
      slot := fun hfalse => by cases hl.symm.trans hfalse
      stamps := fun hfalse => by cases hl.symm.trans hfalse
      turns := fun _ => ⟨ht.turned hk now, hu⟩ }
  | sample proc feature time =>
    rw [Tensor.call]
    cases t.sample proc feature time <;> exact h
  | slot | timestamp | timestamps | info => exact h

end Tensor

namespace Host

variable {h k : Host n} {call : HostCall n}

theorem Akin.callTensor_left (hk : h.Akin l k) (hl : l.advice = true) (call : TensorCall) :
    (h.callTensor call).Leaves fun g => g.allocator.Akin l k.allocator ∧ g.procs = h.procs := by
  have hstartup := hk.allocator.startup
  unfold Host.callTensor Allocator.core?
  cases hs : h.allocator.startup with
  | pending | failed => exact ⟨hk.allocator, rfl⟩
  | built core =>
    rw [hs] at hstartup
    generalize ht : k.allocator.startup = v at hstartup
    cases hstartup with
    | built hc =>
      refine (hc.tensor.advise hl call).map fun tensor htensor => ⟨{ hk.allocator with startup := ?_ }, rfl⟩
      rw [ht]
      exact .built ⟨hc.buckets, htensor⟩

/-- An advisory call on the first of two hosts alone. -/
theorem Akin.advise (hk : h.Akin l k) (hl : l.advice = true) (hc : call.advisory = true) (clock : Clock) :
    (h.call clock call).Leaves fun g => g.allocator.Akin l k.allocator ∧ g.procs = h.procs := by
  have same {α : Type} {e : Ending (Host n) α} (he : e.Leaves (· = h)) :
      e.Leaves fun g => g.allocator.Akin l k.allocator ∧ g.procs = h.procs :=
    he.imp fun g hg => by rw [hg]; exact ⟨hk.allocator, rfl⟩
  cases call with
  | setEmergency on =>
    exact ⟨{ hk.allocator with emergency := fun hfalse => by cases hl.symm.trans hfalse }, rfl⟩
  | setBudget budget =>
    exact ⟨{ hk.allocator with budget := fun hfalse => by cases hl.symm.trans hfalse }, rfl⟩
  | lastUpdate | stats | config => exact ⟨hk.allocator, rfl⟩
  | dump => exact (same h.dump_same).mapAnswer _
  | dumpToLog =>
    have hdump : h.dumpToLog.Leaves fun g => g.allocator.Akin l k.allocator ∧ g.procs = h.procs :=
      h.dumpToLog_same.imp fun g hg => ⟨hg.1 ▸ hk.allocator, hg.2⟩
    exact hdump.mapAnswer _
  | buckets => exact (same h.viewBuckets_same).mapAnswer _
  | tensor call => exact (hk.callTensor_left hl call).mapAnswer _
  | start | ready | select | drain | remove | retire | refresh | setFeature | attention | levelFor =>
    cases hc

end Host

namespace Session

variable {s t : Session n} {c : Call n} {d : Done n} {xs ys : List (Step n)} {os : List Opening}
  {queues : List (Nat × Single)} {procs : Roster n}

theorem putClock_self (s : Session n) (seat : Seat n) : s.putClock seat (s.clock seat) = s := by
  have hset : s.clocks.set seat.clock (s.clock seat) = s.clocks := by
    by_cases hlt : seat.clock < s.clocks.length
    · rw [Session.clock, List.getElem?_eq_getElem hlt]
      exact List.set_getElem_self hlt
    · exact List.set_eq_of_length_le (Nat.le_of_not_lt hlt)
  rw [putClock, hset]

/-- An advisory call in the first of two sessions alone. -/
theorem Akin.advise (h : s.Akin l t) (hl : l.advice = true) (hc : c.advisory = true)
    (hd : s.call c = .ok d) : d.session.Akin l t := by
  cases c with
  | host a call =>
    obtain ⟨x, hs⟩ := seat_of_call hd
    have hseat := h.seats a
    rw [hs] at hseat
    generalize ht : t.seat a = e at hseat
    cases hseat with
    | @ok _ y hx =>
      obtain ⟨g, ⟨hallocator, hprocs⟩, hg⟩ := leaves_of_call hs hd
        ((h.host hx).advise hl hc (s.clock x))
      rw [hg]
      have hprocs' : g.procs = s.procs := hprocs
      refine { h with procs := by rw [Session.putHost, hprocs']; exact h.procs, seats := fun b => ?_ }
      have hmodify : (s.putHost a g).seat b = _ :=
        seat_modify s a (fun seat => { seat with allocator := g.allocator }) b
      rw [hmodify]
      split
      · next hb =>
        rw [hb, hs, ht]
        exact .ok { hx with allocator := hallocator }
      · exact h.seats b
  | clock a call =>
    cases call with
    | read =>
      cases hs : s.seat a with
      | error stop =>
        simp only [Session.call, Session.callClock, hs] at hd
        cases hd
      | ok x =>
        simp only [Session.call, Session.callClock, hs] at hd
        cases hd
        rwa [putClock_self]
    | set | advance => cases hc
  | record p call =>
    cases hd
    have hsame : (s.callRecord p call).session = s := by
      cases call with
      | feature | info =>
        have hupdate : s.procs.update p (fun record => record) = s.procs := Roster.update_self rfl
        exact congrArg (fun procs => { s with procs }) hupdate
      | setCognitive | setCpu | setPriority => cases hc
    rwa [hsame]
  | bucket place call => cases hc

theorem idles_advisory : Idles (n := n) .counsel Call.advisory where
  later c := congrArg Call.advisory (congrFun Call.later_zero c)
  left h hc hd := h.advise rfl hc hd
  right h hc hd := ((h.symm rfl).advise rfl hc hd).symm rfl

theorem fresh_akin (os : List Opening) (queues : List (Nat × Single)) (procs : Roster n) :
    (fresh os queues procs).Akin .counsel (fresh os queues procs) :=
  akin_of_seats (fun _ => Record.akin_self rfl _) (clocks_later rfl _).symm rfl rfl
    (fun _ _ _ hx => (fresh_sturdy hx).1) nofun

/-- Two runs of one session whose steps differ in advisory calls only. The other calls answer the same in
both, and at the end only the policy, the rings and what is read of them can differ. -/
theorem run_alike_of_advice (os : List Opening) (queues : List (Nat × Single)) (procs : Roster n)
    (hsteps : Step.Aligned Call.advisory id xs ys)
    (hx : ¬ (fresh os queues procs).Stalls Call.advisory xs)
    (hy : ¬ (fresh os queues procs).Stalls Call.advisory ys) :
    Outcomes (fun r r' => r.1.Akin .counsel r'.1 ∧
      ∀ c, Outcomes (fun d d' => d.session.Akin .counsel d'.session ∧ d.answer.Akin .counsel d'.answer)
        (r.1.call c) (r'.1.call c))
      ((fresh os queues procs).run xs) ((fresh os queues procs).run ys) ∧
    List.Forall₂ (fun e f => e.Akin .counsel f ∧ f.call = e.call ∧ f.done.answer = e.done.answer)
      (besides Call.advisory ((fresh os queues procs).events xs))
      (besides Call.advisory ((fresh os queues procs).events ys)) := by
  have hrun := (fresh_akin os queues procs).run idles_advisory (Call.later_zero ▸ hsteps) hx hy
  have hlater (c : Call n) : c.later Leeway.counsel.ahead = c := congrFun Call.later_zero c
  refine ⟨hrun.ends.imp fun r r' h => ⟨h, fun c => ?_⟩, ?_⟩
  · have hcall := h.call c
    rw [hlater] at hcall
    exact hcall.imp fun d d' hd => ⟨hd.session, hd.answer fun hahead => absurd rfl hahead⟩
  · have hevents := (List.forall₂_and_left _ _).mpr ⟨fun e he => of_mem_besides he, hrun.events⟩
    refine hevents.imp fun e f h => ⟨h.2, h.2.call.trans (hlater _), h.2.same ?_⟩
    exact Call.plain_of_not_advisory h.1

theorem run_alike_past_an_alarm : ∃ (s : Session 2) (xs ys : List (Step 2)),
    s = fresh [{ hz := 1000, config? := some { attentionLevels := 3 } }] []
      (freshRoster (.ofFn fun p => (.ofNat p, true))) ∧
    Outcomes (fun r r' => r.1.Akin .counsel r'.1 ∧
      ∀ c, Outcomes (fun d d' => d.session.Akin .counsel d'.session ∧ d.answer.Akin .counsel d'.answer)
        (r.1.call c) (r'.1.call c)) (s.run xs) (s.run ys) ∧
    List.Forall₂ (fun e f => e.Akin .counsel f ∧ f.call = e.call ∧ f.done.answer = e.done.answer)
      (besides Call.advisory (s.events xs)) (besides Call.advisory (s.events ys)) ∧
    (besides Call.advisory (s.events ys)).map (·.done.answer) =
      [.host (.mark (some 2)), .host (.mark (some 2)), .host (.selected (some 0)), .clock (.tick 5),
        .host .done, .host (.removal .contended), .host (.selected (some 1))] ∧
    (s.run xs).toOption.map (fun r => (r.1.allocator? 0).map fun x => (x.budget, x.stats.slot)) =
      some (some (1000, 1)) ∧
    (s.run ys).toOption.map (fun r => (r.1.allocator? 0).map fun x => (x.budget, x.stats.slot)) =
      some (some (7, 2)) := by
  let s : Session 2 := fresh [{ hz := 1000, config? := some { attentionLevels := 3 } }] []
    (freshRoster (.ofFn fun p => (.ofNat p, true)))
  let xs : List (Step 2) :=
    [.call (.host 0 (.ready 0)), .call (.host 0 (.ready 1)), .call (.host 0 .select),
      .call (.clock 0 (.advance 5)), .call (.host 0 (.refresh 0)),
      .hold (.own 0 2) [.call (.host 0 (.remove 1))], .call (.host 0 .select)]
  let ys : List (Step 2) :=
    [.call (.host 0 (.setEmergency true)), .call (.host 0 (.ready 0)), .call (.host 0 (.ready 1)),
      .call (.host 0 (.setBudget 7)), .call (.host 0 (.tensor (.advance 3))), .call (.host 0 .dump),
      .call (.host 0 .select), .call (.clock 0 (.advance 5)), .call (.clock 0 .read),
      .call (.host 0 (.refresh 0)),
      .hold (.own 0 2) [.call (.host 0 (.setEmergency true)), .call (.host 0 (.remove 1)),
        .call (.record 1 .info)],
      .call (.host 0 .stats), .call (.host 0 .select), .call (.host 0 .dumpToLog)]
  have hsteps : Step.Aligned Call.advisory id xs ys :=
    .right rfl <| .call _ <| .call _ <| .right rfl <| .right rfl <| .right rfl <| .call _ <| .call _ <|
      .right rfl <| .call _ <| .hold _ (.right rfl <| .call _ <| .right rfl .nil) <| .right rfl <|
      .call _ <| .right rfl .nil
  have hx : ¬ s.Stalls Call.advisory xs := fun h => absurd h.run_eq_none (by decide +kernel)
  have hy : ¬ s.Stalls Call.advisory ys := fun h => absurd h.run_eq_none (by decide +kernel)
  obtain ⟨hends, hevents⟩ := run_alike_of_advice _ _ _ hsteps hx hy
  exact ⟨s, xs, ys, rfl, hends, hevents, by decide +kernel, by decide +kernel, by decide +kernel⟩

end Session

end AttentionScheduler
