import AttentionScheduler.Proofs.Twins

/-!
An allocator that starts at the first process made ready schedules like one that was started before:
the same calls answer the same, and only what scheduling never reads can tell the two sessions apart.
-/

namespace AttentionScheduler

variable {n : Nat}

def Call.schedules : Call n → Bool
  | host _ call => call.schedules
  | clock _ _ | record _ _ => true
  | bucket _ _ => false

def Answer.untimed : Answer n → Answer n
  | host answer => host answer.untimed
  | answer => answer

def Report.answer? : Report n → Option (Answer n)
  | called answer _ _ => some answer.untimed
  | held _ _ => none

namespace Session

variable {s t : Session n} {a : Nat} {c : Call n}

/-- Two sessions of one allocator each. -/
structure Twins (s t : Session n) : Prop where
  clocks : t.clocks = s.clocks
  seats : ∃ clock x y, s.seats = [some ⟨clock, x⟩] ∧ t.seats = [some ⟨clock, y⟩] ∧
    Host.Twins ⟨x, s.procs, []⟩ ⟨y, t.procs, []⟩

inductive TwinSeats (s t : Session n) : Nat → Except Stop (Seat n) → Except Stop (Seat n) → Prop where
  | here {seat seat' : Seat n} (clock : seat'.clock = seat.clock)
      (twins : (s.host seat).Twins (t.host seat'))
      (put : ∀ h k : Host n, h.Twins k → (s.putHost 0 h).Twins (t.putHost 0 k)) :
      TwinSeats s t 0 (.ok seat) (.ok seat')
  | nowhere (a : Nat) : TwinSeats s t a (.error (.noAllocator a)) (.error (.noAllocator a))

theorem Twins.seat (h : s.Twins t) (a : Nat) : s.TwinSeats t a (s.seat a) (t.seat a) := by
  obtain ⟨hclocks, clock, x, y, hs, ht, htwins⟩ := h
  cases a with
  | zero =>
    have hseat : s.seat 0 = .ok ⟨clock, x⟩ := by
      rw [Session.seat, hs]
      rfl
    have hseat' : t.seat 0 = .ok ⟨clock, y⟩ := by
      rw [Session.seat, ht]
      rfl
    rw [hseat, hseat']
    refine .here rfl htwins fun h k hk => ⟨hclocks, clock, h.allocator, k.allocator, ?_, ?_, hk.unsaid⟩
    · simp [putHost, putAllocator, hs]
    · simp [putHost, putAllocator, ht]
  | succ a =>
    have hseat : s.seat (a + 1) = .error (.noAllocator (a + 1)) := by
      rw [Session.seat, hs]
      rfl
    have hseat' : t.seat (a + 1) = .error (.noAllocator (a + 1)) := by
      rw [Session.seat, ht]
      rfl
    rw [hseat, hseat']
    exact .nowhere (a + 1)

theorem Twins.call (h : s.Twins t) (hc : c.schedules = true) :
    Outcomes (fun d d' => d.session.Twins d'.session ∧ d'.answer.untimed = d.answer.untimed)
      (s.call c) (t.call c) := by
  have hclock {seat seat' : Seat n} (hseat : seat'.clock = seat.clock) :
      t.clock seat' = s.clock seat := by
    rw [Session.clock, Session.clock, h.clocks, hseat]
  cases c with
  | bucket place call => cases hc
  | record p call =>
    obtain ⟨hclocks, clock, x, y, hs, ht, htwins⟩ := h
    have hprocs : t.procs = s.procs := htwins.procs
    have htouched := htwins.touch p fun record => (record.call call).1
    refine .ok ⟨⟨hclocks, clock, x, y, hs, ht, htouched⟩, ?_⟩
    rw [callRecord, callRecord, hprocs]
  | clock a call =>
    have hseats := h.seat a
    simp only [Session.call, callClock]
    generalize s.seat a = e at hseats
    generalize t.seat a = e' at hseats
    cases hseats with
    | nowhere => exact .error _
    | @here seat seat' clock twins put =>
      have hput (k : Clock) : (s.putClock seat k).Twins (t.putClock seat' k) := by
        obtain ⟨hclocks, hseats⟩ := h
        exact ⟨by simp only [putClock, hclocks, clock], hseats⟩
      simp only [hclock clock]
      cases (s.clock seat).call call with
      | returned k answer => exact .ok ⟨hput k, rfl⟩
      | faulted k fault => exact .ok ⟨hput k, rfl⟩
      | stuck stop => exact .error stop
  | host a call =>
    have hseats := h.seat a
    simp only [Session.call, callHost]
    generalize s.seat a = e at hseats
    generalize t.seat a = e' at hseats
    cases hseats with
    | nowhere => exact .error _
    | @here seat seat' clock twins put =>
      simp only [hclock clock]
      have hcall := twins.call (s.clock seat) hc
      generalize (s.host seat).call (s.clock seat) call = r at hcall
      generalize (t.host seat').call (s.clock seat) call = r' at hcall
      cases hcall with
      | returned hk => exact .ok ⟨put _ _ hk.1, congrArg Answer.host hk.2⟩
      | faulted hk fault => exact .ok ⟨put _ _ hk, rfl⟩
      | stuck stop => exact .error stop

theorem run_calls_cons (s : Session n) (c : Call n) (cs : List (Call n)) :
    s.run ((c :: cs).map .call) =
      match s.call c with
      | .error stop => .error stop
      | .ok d => (d.session.run (cs.map .call)).map fun r =>
        (r.1, report d c.process? c.allocator? :: r.2) := by
  rw [List.map_cons, run, step]
  cases s.call c <;> rfl

theorem Twins.run (h : s.Twins t) (cs : List (Call n)) (hcs : ∀ c ∈ cs, c.schedules = true) :
    Outcomes (fun r r' => r.1.Twins r'.1 ∧ r'.2.map Report.answer? = r.2.map Report.answer?)
      (s.run (cs.map .call)) (t.run (cs.map .call)) := by
  induction cs generalizing s t with
  | nil => exact .ok ⟨h, rfl⟩
  | cons c cs ih =>
    have hcall := h.call (hcs c List.mem_cons_self)
    rw [run_calls_cons, run_calls_cons]
    generalize s.call c = e at hcall
    generalize t.call c = e' at hcall
    cases hcall with
    | error stop => exact .error stop
    | @ok d d' hd =>
      obtain ⟨hsession, hanswer⟩ := hd
      have hrest := ih hsession fun c hc => hcs c (List.mem_cons_of_mem _ hc)
      dsimp only
      generalize d.session.run (cs.map .call) = r at hrest
      generalize d'.session.run (cs.map .call) = r' at hrest
      cases hrest with
      | error stop => exact .error stop
      | ok hr =>
        refine .ok ⟨hr.1, ?_⟩
        simp only [List.map_cons, hr.2, report, Report.answer?, hanswer]

/-- The processes queued in a bucket. A bucket that is not there has none. -/
def queued (s : Session n) (a level : Nat) : List (Fin n) :=
  ((s.bucketAt (.own a level)).map (·.members)).getD []

/-- What of two sessions scheduling goes by. -/
structure Alike (s t : Session n) : Prop where
  clocks : t.clocks = s.clocks
  procs : t.procs = s.procs
  queued : ∀ a level, t.queued a level = s.queued a level
  buckets : ∀ a level b, s.bucketAt (.own a level) = some b → t.bucketAt (.own a level) = some b
  config : ∀ a, (t.allocator? a).map (·.config) = (s.allocator? a).map (·.config)
  counters : ∀ a, (t.allocator? a).map (·.counters) = (s.allocator? a).map (·.counters)
  active : ∀ a, t.active a = s.active a

theorem Twins.allocator? (h : s.Twins t) (a : Nat) : (s.allocator? a = none ∧ t.allocator? a = none) ∨
    ∃ x y, s.allocator? a = some x ∧ t.allocator? a = some y ∧
      Host.Twins ⟨x, s.procs, []⟩ ⟨y, t.procs, []⟩ := by
  have hseats := h.seat a
  rw [Session.allocator?, Session.allocator?]
  generalize s.seat a = e at hseats
  generalize t.seat a = e' at hseats
  cases hseats with
  | nowhere => exact .inl ⟨rfl, rfl⟩
  | here clock twins put => exact .inr ⟨_, _, rfl, rfl, twins⟩

theorem Twins.procs (h : s.Twins t) : t.procs = s.procs := by
  obtain ⟨_, clock, x, y, _, _, htwins⟩ := h
  exact htwins.procs

theorem Twins.alike (h : s.Twins t) : s.Alike t where
  clocks := h.clocks
  procs := h.procs
  queued a level := by
    obtain ⟨hx, hy⟩ | ⟨x, y, hx, hy, htwins⟩ := h.allocator? a
    · simp only [Session.queued, bucketAt, bucketsOf, hx, hy]
    · simp only [Session.queued, bucketAt, bucketsOf, hx, hy]
      exact htwins.members level
  buckets a level b := by
    obtain ⟨hx, hy⟩ | ⟨x, y, hx, hy, htwins⟩ := h.allocator? a
    · simp only [bucketAt, bucketsOf, hx, hy]
      exact id
    · simp only [bucketAt, bucketsOf, hx, hy]
      exact htwins.buckets
  config a := by
    obtain ⟨hx, hy⟩ | ⟨x, y, hx, hy, htwins⟩ := h.allocator? a
    · rw [hx, hy]
    · rw [hx, hy]
      exact congrArg some htwins.config
  counters a := by
    obtain ⟨hx, hy⟩ | ⟨x, y, hx, hy, htwins⟩ := h.allocator? a
    · rw [hx, hy]
    · rw [hx, hy]
      exact congrArg some htwins.counters
  active a := by
    obtain ⟨hx, hy⟩ | ⟨x, y, hx, hy, htwins⟩ := h.allocator? a
    · rw [Session.active, Session.active, hx, hy]
    · rw [Session.active, Session.active, hx, hy]
      exact htwins.active

variable {o : Opening} {config : Config} {procs : Roster n} {d : Done n}

theorem seats_of_pending (ho : o.config? = some config)
    (hs : ∃ seat, (fresh [o] [] procs).seat 0 = .ok seat) :
    config.Accepted ∧ ∃ clock, (fresh [o] [] procs).seats = [some ⟨clock, { config }⟩] := by
  have hmake : o.make procs = config.validate.map fun _ => ({ config }, []) := by
    rw [Opening.make, ho]
    dsimp only
    rw [Allocator.create]
    cases config.validate <;> rfl
  obtain ⟨clock, hclock⟩ : ∃ clock, Opening.clockPlaces [o] = [clock] := ⟨_, rfl⟩
  have hseats : (fresh [o] [] procs).seats =
      [config.validate.toOption.map fun _ => ⟨clock, { config }⟩] := by
    simp only [fresh, hclock, List.zip, List.zipWith, List.map, hmake]
    cases config.validate <;> rfl
  cases hvalid : config.validate with
  | error defect =>
    rw [hvalid] at hseats
    obtain ⟨seat, hs⟩ := hs
    rw [Session.seat, hseats] at hs
    cases hs
  | ok =>
    rw [hvalid] at hseats
    exact ⟨Config.accepted_of_validate hvalid, clock, hseats⟩

theorem twins_of_start (ho : o.config? = some config)
    (hstart : (fresh [o] [] procs).call (.host 0 .start) = .ok d)
    (hd : ∀ fault, d.answer ≠ .fault fault) :
    (fresh [o] [] procs).Twins d.session := by
  obtain ⟨haccepted, clock, hseats⟩ := seats_of_pending ho (seat_of_call hstart)
  let h : Host n := ⟨{ config }, procs, []⟩
  have hseat : (fresh [o] [] procs).seat 0 = .ok ⟨clock, { config }⟩ := by
    rw [Session.seat, hseats]
    rfl
  have hhost : (fresh [o] [] procs).host ⟨clock, { config }⟩ = h := rfl
  simp only [Session.call, callHost, hseat, hhost, Host.call] at hstart
  cases hbuild : Core.build (n := n) config with
  | error fault =>
    have hfaulted :
        h.start = .faulted (h.withAllocator fun a => { a with startup := .failed }) fault := by
      simp only [Host.start, h, hbuild]
    rw [hfaulted] at hstart
    cases hstart
    exact absurd rfl (hd fault)
  | ok core =>
    obtain ⟨l, hbegun⟩ : ∃ l, h.start = .returned ((h.begun core).say l) core := by
      simp only [Host.start, h, hbuild]
      exact ⟨_, rfl⟩
    rw [hbegun] at hstart
    cases hstart
    have hshaped := (Core.shaped_of_build haccepted hbuild).1.tensor
    refine ⟨rfl, clock, { config }, (h.begun core).allocator, hseats, ?_,
      .inr ⟨core, core, rfl, hbuild, ?_⟩⟩
    · simp [putHost, putAllocator, hseats, Host.say]
    · exact ⟨rfl, rfl, rfl, rfl, rfl, rfl, rfl, haccepted, hshaped, hshaped⟩

/-- Whether the allocator starts by itself or is started before, the same calls end alike. As they may be
the first few of a longer list, the two runs agree at every step. -/
theorem run_alike_of_start (ho : o.config? = some config)
    (hstart : (fresh [o] [] procs).call (.host 0 .start) = .ok d)
    (hd : ∀ fault, d.answer ≠ .fault fault)
    (cs : List (Call n)) (hcs : ∀ c ∈ cs, c.schedules = true) :
    Outcomes (fun r r' => r.1.Alike r'.1 ∧ r'.2.map Report.answer? = r.2.map Report.answer?)
      ((fresh [o] [] procs).run (cs.map .call)) (d.session.run (cs.map .call)) :=
  ((twins_of_start ho hstart hd).run cs hcs).imp fun _ _ h => ⟨h.1.alike, h.2⟩

theorem run_alike_past_a_refresh : ∃ s : Session 2, ∃ d : Done 2, ∃ calls : List (Call 2),
    s.call (.host 0 .start) = .ok d ∧
    Outcomes (fun r r' => r.1.Alike r'.1 ∧ r'.2.map Report.answer? = r.2.map Report.answer?)
      (s.run (calls.map .call)) (d.session.run (calls.map .call)) ∧
    (s.run (calls.map .call)).toOption.map (fun r => r.2.map Report.answer?) =
      some [some (.host (.selected none)), some (.host (.removal .notFound)),
        some (.clock (.tick 5)), some (.host .done), some (.host (.mark (some 2))),
        some (.host (.selected (some 0)))] := by
  let s : Session 2 := fresh [{ hz := 1000, config? := some { attentionLevels := 3 } }] []
    (freshRoster (.ofFn fun p => (.ofNat p, true)))
  let calls : List (Call 2) := [.host 0 .select, .host 0 (.retire 1), .clock 0 (.advance 5),
    .host 0 (.refresh 0), .host 0 (.ready 0), .host 0 .select]
  have hanswer : (s.call (.host 0 .start)).toOption.map (·.answer) = some (.host (.started true)) := by
    decide +kernel
  obtain ⟨d, hd, hstarted⟩ := Option.map_eq_some_iff.mp hanswer
  have hstart : s.call (.host 0 .start) = .ok d := by
    cases hcall : s.call (.host 0 .start) with
    | error stop =>
      rw [hcall] at hd
      cases hd
    | ok d' =>
      rw [hcall] at hd
      exact congrArg Except.ok (Option.some.inj hd)
  refine ⟨s, d, calls, hstart, ?_, by decide +kernel⟩
  exact run_alike_of_start (o := { hz := 1000, config? := some { attentionLevels := 3 } }) rfl hstart
    (fun fault hfault => by cases hstarted.symm.trans hfault) calls (by decide)

end Session

end AttentionScheduler
