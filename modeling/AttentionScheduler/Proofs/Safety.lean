import AttentionScheduler.Dump
import AttentionScheduler.Proofs.SessionEvolution

/-!
No call of a session faults, but for one: the clock that is advanced past its last tick. Each index is in
range and each sum in bounds for a reason found elsewhere, in the checks on the configuration, in the shape
that every call keeps, or in the number of calls made so far.
-/

namespace AttentionScheduler

variable {n : Nat}

namespace Core

/-- The places that are looked up in a core are there. -/
structure Indexed (c : Config) (core : Core n) : Prop where
  level : ∀ score, ∃ level < core.buckets.length, Level.ofScore c.levels score = .ok level
  threshold : ∀ level < core.buckets.length,
    threshold? level c.levels = .ok (AttentionScheduler.threshold level c.levels)
  slot : core.tensor.slot < core.tensor.stamps.size
  cell : ∀ proc < core.tensor.maxProcs, ∀ feature < Feature.count,
    ∀ time < core.tensor.timeWindow, ∃ index < core.tensor.history.size,
      core.tensor.cellIndex proc feature time = .ok index

theorem Shaped.indexed {c : Config} {core : Core n} (h : core.Shaped c) (hc : c.Accepted) :
    core.Indexed c where
  level score := by
    rw [h.length]
    exact Level.exists_ofScore hc.levels score
  threshold level hlevel := by
    rw [h.length] at hlevel
    exact threshold?_eq_ok (Nat.le_of_lt hlevel)
  slot := by
    rw [h.tensor.stamps]
    exact h.tensor.slot
  cell _ hproc _ hfeature _ htime := h.tensor.cellIndex hc hproc hfeature htime

end Core

namespace Dump

theorem length_signals (r : Record) : (Entry.ofRecord r).signals.length = Feature.dumped := by
  simp only [Entry.ofRecord, List.length_take, Vector.length_toList]
  rfl

end Dump

namespace Filed

theorem call_faultless (f : Filed n) (call : BucketCall n) : (f.call call).Faultless := by
  cases call with
  | push p => exact (f.push_faultless p).map
  | popFront | remove | size => trivial
  | view =>
    rw [Filed.call]
    split <;> trivial

end Filed

namespace Session

variable {s t : Session n} {c : Call n} {d : Done n} {es : List (Event n)} {os : List Opening}
  {queues : List (Nat × Single)} {ps : Vector (UInt64 × Bool) n} {fault : Fault}

/-- Whether the call advances a clock past its last tick. -/
def Overruns (s : Session n) (c : Call n) : Prop :=
  ∃ a delta seat, c = .clock a (.advance delta) ∧ s.seat a = .ok seat ∧
    UInt64.size ≤ (s.clock seat).now.toNat + delta.toNat

theorem host_faults {a : Nat} {call : HostCall n} (h : s.callHost a call = .ok d)
    (hd : d.answer = .fault fault) : ∃ x, s.allocator? a = some x ∧ ¬ x.Sturdy 1 := by
  unfold callHost at h
  split at h
  · cases h
  · next seat hs =>
    have hcall := (s.host seat).call_evolves (s.clock seat) call
    split at h <;> cases h
    · cases hd
    · next hr =>
      rw [hr] at hcall
      exact ⟨seat.allocator, allocator?_of_seat hs, hcall.2⟩

theorem overruns_iff {a : Nat} {delta : Tick} {seat : Seat n} (hs : s.seat a = .ok seat) :
    s.Overruns (.clock a (.advance delta)) ↔
      UInt64.size ≤ (s.clock seat).now.toNat + delta.toNat := by
  constructor
  · rintro ⟨_, _, _, h, hs', hover⟩
    cases h
    cases hs.symm.trans hs'
    exact hover
  · exact fun hover => ⟨a, delta, seat, rfl, hs, hover⟩

theorem clock_fault_iff {a : Nat} {call : ClockCall} (h : s.callClock a call = .ok d) :
    d.answer = .fault fault ↔ fault = .addOverflow ∧ s.Overruns (.clock a call) := by
  have calm (hcall : ∀ delta, call ≠ .advance delta) : ¬ s.Overruns (.clock a call) := by
    rintro ⟨_, delta, _, hc, _⟩
    cases hc
    exact hcall delta rfl
  unfold callClock at h
  split at h
  · cases h
  · next seat hs =>
    cases call with
    | set tick =>
      cases h
      exact ⟨by simp, fun hover => absurd hover.2 (calm (by simp))⟩
    | read =>
      cases h
      exact ⟨by simp, fun hover => absurd hover.2 (calm (by simp))⟩
    | advance delta =>
      rw [overruns_iff hs]
      by_cases hover : (s.clock seat).now.toNat + delta.toNat < UInt64.size
      · simp only [Clock.call, Clock.advance, hover, ↓reduceIte] at h
        cases h
        exact ⟨by simp, fun hfault => absurd hover (Nat.not_lt.mpr hfault.2)⟩
      · simp only [Clock.call, Clock.advance, hover, ↓reduceIte] at h
        cases h
        exact ⟨fun hfault => ⟨(Answer.fault.inj hfault).symm, Nat.not_lt.mp hover⟩,
          fun hfault => hfault.1 ▸ rfl⟩

theorem bucket_ne_fault {place : Place} {call : BucketCall n}
    (h : s.callBucket place call = .ok d) : d.answer ≠ .fault fault := by
  unfold callBucket at h
  split at h
  · cases h
  · cases h
    simp
  · split at h <;> cases h
    · simp
    · next b _ hr => exact absurd hr ((Filed.call_faultless _ call).ne _ _)

theorem call_fault_iff (hs : ∀ a x, s.allocator? a = some x → x.Sturdy 1) (h : s.call c = .ok d) :
    d.answer = .fault fault ↔ fault = .addOverflow ∧ s.Overruns c := by
  have calm (hc : ∀ a call, c ≠ .clock a call) (hd : d.answer ≠ .fault fault) :
      d.answer = .fault fault ↔ fault = .addOverflow ∧ s.Overruns c := by
    refine ⟨fun hfault => absurd hfault hd, ?_⟩
    rintro ⟨_, a, delta, _, hcall, _⟩
    exact absurd hcall (hc a (.advance delta))
  cases c with
  | clock a call => exact clock_fault_iff h
  | host a call =>
    refine calm (by simp) fun hfault => ?_
    obtain ⟨x, hx, hweak⟩ := host_faults h hfault
    exact hweak (hs a x hx)
  | record p call =>
    cases h
    exact calm (by simp) (by simp [callRecord])
  | bucket place call => exact calm (by simp) (bucket_ne_fault h)

/-- There is room for the buckets of every allocator. -/
def Roomy (s : Session n) : Prop :=
  ∀ a x, s.allocator? a = some x → Core.bucketBytes * x.config.levels ≤ Word.maxBytes

theorem Leads.sturdy {procs : Roster n} {k : Nat} (h : (fresh os queues procs).Leads es t)
    (hroom : (fresh os queues procs : Session n).Roomy) (hk : es.length + k < Word.limit) {a : Nat}
    {y : Allocator n} (hy : t.allocator? a = some y) : y.Sturdy k := by
  obtain ⟨x, hx, hevolves⟩ := h.evolves a y hy
  obtain ⟨hshaped, hunbroken, hactive⟩ := fresh_sturdy hx
  exact hevolves.sturdy ⟨hshaped, hunbroken, hroom a x hx, by rwa [hactive, Nat.zero_add]⟩

/-- In a history of fewer than `2 ^ 64` calls none faults, except that a clock does which is advanced past
its last tick. -/
theorem Leads.faults_on_overrun (h : (fresh os queues (freshRoster ps)).Leads es t)
    (hlength : es.length < UInt64.size) (hroom : (fresh os queues (freshRoster ps)).Roomy) :
    (∀ e ∈ es, ∀ fault, e.done.answer = .fault fault ↔
      fault = .addOverflow ∧ e.before.Overruns e.call) ∧
    (∀ a x core, t.allocator? a = some x → x.core? = some core → core.Indexed x.config) ∧
    ∀ p : Fin n, (Dump.Entry.ofRecord t.procs[p]).signals.length = Feature.dumped := by
  refine ⟨fun e he fault => ?_, fun a x core hx hcore => ?_, fun p => Dump.length_signals _⟩
  · obtain ⟨before, after, rfl⟩ := List.append_of_mem he
    obtain ⟨hbefore, hcall, _⟩ := h.split
    have hcount : before.length + 1 < Word.limit := by
      rw [List.length_append, List.length_cons] at hlength
      rw [Word.limit]
      omega
    exact call_fault_iff (fun a x hx => hbefore.sturdy hroom hcount hx) hcall
  · obtain ⟨y, hy, hevolves⟩ := h.evolves a x hx
    have hshaped : x.Shaped := hevolves.shaped (fresh_sturdy hy).1
    exact (hshaped.core core hcore).indexed hshaped.config

theorem faults_on_overrun_of_last_tick : ∃ es, ∃ t : Session 1,
    (fresh [{ hz := 1000, config? := some { attentionLevels := 3, maxProcs := 2, timeWindow := 2 } }]
      [] (freshRoster (.ofFn fun p => (.ofNat p, true)))).Leads es t ∧
    es.map (·.done.answer) =
      [.host (.mark (some 2)), .host .done, .clock (.tick 1), .host .done,
        .host (.tensor (some (.sample .zero))), .host (.removal (.removed 0)),
        .clock (.tick 0xfffffffffffffffe), .clock (.tick 0xffffffffffffffff), .fault .addOverflow] ∧
    ∃ e ∈ es, e.before.Overruns e.call := by
  let c : Config := { attentionLevels := 3, maxProcs := 2, timeWindow := 2 }
  let s : Session 1 :=
    fresh [{ hz := 1000, config? := some c }] [] (freshRoster (.ofFn fun p => (.ofNat p, true)))
  let steps : List (Step 1) :=
    [.call (.host 0 (.ready 0)), .call (.host 0 (.refresh 0)), .call (.clock 0 (.set 1)),
      .call (.host 0 (.refresh 0)), .call (.host 0 (.tensor (.sample 1 7 1))),
      .call (.host 0 (.retire 0)), .call (.clock 0 (.set 0xfffffffffffffffe)),
      .call (.clock 0 (.advance 1)), .call (.clock 0 (.advance 1))]
  obtain ⟨t, h, _⟩ := exists_leads s steps (fun _ => ()) (x := ()) (by decide +kernel)
  have hanswers : (s.events steps).map (·.done.answer) =
      [.host (.mark (some 2)), .host .done, .clock (.tick 1), .host .done,
        .host (.tensor (some (.sample .zero))), .host (.removal (.removed 0)),
        .clock (.tick 0xfffffffffffffffe), .clock (.tick 0xffffffffffffffff),
        .fault .addOverflow] := by decide +kernel
  have hlength : (s.events steps).length < UInt64.size := by decide +kernel
  have hroom : s.Roomy := by
    intro a x hx
    cases a with
    | zero =>
      have hx' : s.allocator? 0 = some { config := c } := by decide +kernel
      cases hx.symm.trans hx'
      decide
    | succ a =>
      have hx' : s.allocator? (a + 1) = none := rfl
      cases hx.symm.trans hx'
  obtain ⟨e, he, hfault⟩ : ∃ e ∈ s.events steps, e.done.answer = .fault .addOverflow := by
    apply List.mem_map.mp
    rw [hanswers]
    simp
  exact ⟨_, t, h, hanswers, e, he, (((h.faults_on_overrun hlength hroom).1 e he _).mp hfault).2⟩

end Session

end AttentionScheduler
