import AttentionScheduler.Proofs.Arithmetic
import AttentionScheduler.Proofs.Recollection
import AttentionScheduler.Proofs.Withdrawals

/-!
A refresh, down to all that it leaves alone. It does nothing for a process that is not cognitive or whose
stamp is the tick of the clock; so the second one in a tick does nothing, whoever makes it.
-/

namespace AttentionScheduler

variable {n : Nat}

theorem Config.baseline_of_validate {c : Config} (h : c.validate = .ok ()) :
    .zero ≤ c.memoryBaseline ∧ c.memoryBaseline ≤ .one := by
  obtain ⟨-, h⟩ := passed h
  obtain ⟨-, h⟩ := passed h
  obtain ⟨-, h⟩ := passed h
  obtain ⟨-, h⟩ := passed h
  obtain ⟨-, h⟩ := passed h
  obtain ⟨hbaseline, -⟩ := passed h
  exact Classical.not_not.mp hbaseline

namespace Tensor

variable {t : Tensor}

theorem Turns.timestamp_stepped (ht : t.Turns) (now : Tick) (slot : Nat) :
    (t.stepped now).timestamp slot =
      if slot = (t.slot + 1) % t.timeWindow then now else t.timestamp slot := by
  have hnext := ht.next_lt
  rw [Tensor.timestamp, stepped, Array.getElem?_setIfInBounds]
  by_cases hs : slot = (t.slot + 1) % t.timeWindow
  · subst hs
    rw [if_pos rfl, if_pos hnext, if_pos rfl, Option.getD_some]
  · rw [if_neg (Ne.symm hs), if_neg hs, Tensor.timestamp]

end Tensor

namespace Record

theorem gap_eq_zero {r : Record} {now : Tick} : r.gap now = 0 ↔ now = r.vector.lastUpdate := by
  rw [gap, UInt64.sub_eq_iff_eq_add, UInt64.zero_add]

theorem interactiveSignal_gap (r : Record) (now window : Tick) :
    interactiveSignal (r.gap now) window =
      if (UInt64.size - r.vector.lastUpdate.toNat + now.toNat) % UInt64.size < window.toNat then .one
      else .ofFraction 1 10 := by
  apply if_congr _ rfl rfl
  rw [gap, UInt64.lt_iff_toNat_lt, UInt64.toNat_sub]

theorem clampUnit_interactiveSignal (gap window : Tick) :
    (interactiveSignal gap window).clampUnit = interactiveSignal gap window := by
  unfold interactiveSignal
  split
  · rfl
  · decide

theorem withVector_eq (r : Record) (f : FeatureVector → FeatureVector) :
    r.withVector f = { r with vector := (r.withVector f).vector } := rfl

theorem refreshed_eq (r : Record) (c : Config) (clock : Clock) :
    r.refreshed c clock = { r with
      vector := { r.vector with
        signals := (r.refreshed c clock).vector.signals, lastUpdate := clock.now } } := by
  have hrecord : r.refreshed c clock = { r with vector := (r.refreshed c clock).vector } := by
    rw [refreshed]
    exact r.withVector_eq _
  have hvector {v w : FeatureVector} (h : v.attention = w.attention) (h' : v.lastUpdate = clock.now) :
      v = { w with signals := v.signals, lastUpdate := clock.now } := by
    rw [← h, ← h']
  exact hrecord.trans (congrArg (fun v => { r with vector := v })
    (hvector (r.attention_refreshed c clock) (r.lastUpdate_refreshed c clock)))

end Record

namespace Allocator

variable {x : Allocator n} {core : Core n}

/-- The ring of an allocator goes on. One that has not started has none. -/
def stepped (x : Allocator n) (now : Tick) : Allocator n :=
  match x.core? with
  | some core => x.withCore { core with tensor := core.tensor.stepped now }
  | none => x

def refreshed (x : Allocator n) (now : Tick) : Allocator n :=
  { x.stepped now with
    lastUpdate := now, counters := { x.counters with refreshes := x.counters.refreshes + 1 } }

theorem core?_refreshed (x : Allocator n) (now : Tick) :
    (x.refreshed now).core? =
      x.core?.map fun core => { core with tensor := core.tensor.stepped now } := by
  change (x.stepped now).core? = _
  unfold stepped
  cases hc : x.core? with
  | none => exact hc
  | some core => rfl

theorem config_stepped (x : Allocator n) (now : Tick) : (x.stepped now).config = x.config := by
  unfold stepped
  split <;> rfl

theorem counters_stepped (x : Allocator n) (now : Tick) : (x.stepped now).counters = x.counters := by
  unfold stepped
  split <;> rfl

theorem buckets_refreshed (x : Allocator n) (now : Tick) : (x.refreshed now).buckets = x.buckets := by
  unfold buckets
  rw [core?_refreshed]
  cases x.core? <;> rfl

theorem isStarted_refreshed (x : Allocator n) (now : Tick) :
    (x.refreshed now).isStarted = x.isStarted := by
  rw [isStarted, isStarted, core?_refreshed, Option.isSome_map]

end Allocator

namespace Host

variable {h : Host n} {p : Fin n} {clock : Clock}

/-- The host after a refresh that is due. -/
def refreshed (h : Host n) (clock : Clock) (p : Fin n) : Host n where
  allocator := h.allocator.refreshed clock.now
  procs := h.procs.update p (·.refreshed h.allocator.config clock)
  lines := h.lines ++ [.refreshed h.procs[p].pid clock.now]

theorem config_of_start (h : Host n) : (h.start.stateOr h).allocator.config = h.allocator.config := by
  have hstart := h.start_evolves
  cases hs : h.start with
  | stuck stop => rfl
  | faulted g fault =>
    rw [hs] at hstart
    exact hstart.1.config
  | returned g core =>
    rw [hs] at hstart
    exact Allocator.Evolves.config hstart

theorem alike_refreshed (h : Host n) (clock : Clock) (p : Fin n) : h.Alike (h.refreshed clock p) where
  buckets := h.allocator.buckets_refreshed clock.now
  mark := h.mark_touch (p := p) rfl
  started := h.allocator.isStarted_refreshed clock.now
  config := h.allocator.config_stepped clock.now

theorem stampRing_eq (hx : h.allocator.Shaped) (now : Tick) :
    h.stampRing now = .returned (h.withAllocator (·.stepped now)) () := by
  unfold stampRing
  cases hc : h.allocator.core? with
  | none =>
    have hstepped : h.allocator.stepped now = h.allocator := by rw [Allocator.stepped, hc]
    rw [withAllocator, hstepped]
  | some core =>
    have hstepped : h.allocator.stepped now =
        h.allocator.withCore { core with tensor := core.tensor.stepped now } := by
      rw [Allocator.stepped, hc]
    simp only [((hx.core core hc).tensor.turns hx.config).advance_eq]
    rw [withAllocator, hstepped]
    rfl

theorem refresh_of_idle (hx : h.allocator.Shaped)
    (hidle : h.procs[p].cognitive = false ∨ clock.now = h.procs[p].vector.lastUpdate) :
    h.refresh clock p = .returned h () := by
  unfold refresh
  dsimp only
  split
  · next hcog =>
    have hgap : h.procs[p].gap clock.now = 0 := by
      rw [Record.gap_eq_zero]
      rcases hidle with hnot | hnow
      · exact absurd hcog (Bool.eq_false_iff.mp hnot)
      · exact hnow
    rw [if_neg hx.config.divisor, if_pos hgap]
  · rfl

theorem refresh_of_due (hx : h.allocator.Shaped) (hcog : h.procs[p].cognitive = true)
    (hdue : clock.now ≠ h.procs[p].vector.lastUpdate) :
    h.refresh clock p = .returned (h.refreshed clock p) () := by
  have hgap : ¬ h.procs[p].gap clock.now = 0 := fun hgap => hdue (Record.gap_eq_zero.mp hgap)
  unfold refresh
  dsimp only
  rw [if_pos hcog, if_neg hx.config.divisor, if_neg hgap, stampRing_eq (h := h.touch p _) hx]
  have hpid : (h.touch p (·.refreshed h.allocator.config clock)).procs[p].pid = h.procs[p].pid :=
    touch_keeps (x := (·.pid)) rfl p
  have hcounters := h.allocator.counters_stepped clock.now
  rw [touch] at hpid
  rw [Ending.bind_returned, refreshed, Allocator.refreshed, ← hpid, ← hcounters]
  rfl

end Host

namespace Session

variable {s t : Session n} {a b : Nat} {seat : Seat n} {x y : Allocator n} {p : Fin n} {es : List (Event n)}
  {os : List Opening} {queues : List (Nat × Single)} {ps : Vector (UInt64 × Bool) n}

theorem Leads.validated (h : (fresh os queues (freshRoster ps)).Leads es s)
    (hx : s.allocator? a = some x) : x.config.validate = .ok () := by
  obtain ⟨y, hy, hevolves⟩ := h.evolves a x hx
  rw [hevolves.config]
  obtain ⟨seat, hseat, rfl⟩ := seat_of_allocator? hy
  obtain ⟨o, lines, -, hmake⟩ := make_of_seat hseat
  rcases make_cases hmake with ⟨c, hvalid, hallocator, -⟩ | ⟨k, hk, hallocator, -⟩
  · rw [hallocator]
    exact hvalid
  · rw [hallocator, hk, Host.config_of_start]
    exact Config.validate_default

theorem call_of_refresh {k : Host n} (hseat : s.seat a = .ok seat)
    (hr : (s.host seat).refresh (s.clockOf a) p = .returned k ()) :
    s.call (.host a (.refresh p)) = .ok ⟨s.putHost a k, .host .done, k.lines⟩ := by
  rw [clockOf_of_seat hseat] at hr
  simp only [call, callHost, hseat, Host.call, hr]
  rfl

/-- The session `t` after `s` in which `p` has been refreshed at `a`, as one that is due. -/
structure Refreshes (s : Session n) (a : Nat) (p : Fin n) (x : Allocator n) (t : Session n) : Prop where
  load : t.procs[p].vector.get Feature.load.index =
    (Single.ofNat s.procs[p].cpu.toNat / .ofNat 1000).clampUnit
  memory : t.procs[p].vector.get Feature.memory.index = x.config.memoryBaseline
  interactive : t.procs[p].vector.get Feature.interactive.index =
    if (UInt64.size - s.procs[p].vector.lastUpdate.toNat + (s.clockOf a).now.toNat) % UInt64.size <
      (s.clockOf a).hz.toNat / x.config.interactiveDivisor.toNat then .one else .ofFraction 1 10
  priority : t.procs[p].vector.get Feature.priority.index =
    (Single.ofNat s.procs[p].priority.toNat / .ofNat x.config.priorityLevels.toNat).clampUnit
  kept : ∀ f : Feature, f.hostFed = true →
    t.procs[p].vector.get f.index = s.procs[p].vector.get f.index
  record : t.procs[p] = { s.procs[p] with
    vector := { s.procs[p].vector with
      signals := t.procs[p].vector.signals, lastUpdate := (s.clockOf a).now } }
  others : ∀ q, q ≠ p → t.procs[q] = s.procs[q]
  session : t = { s.adjust a (·.refreshed (s.clockOf a).now) with procs := t.procs }
  files : t.files = s.files
  allocators : ∀ b, t.allocator? b =
    if b = a then some (x.refreshed (s.clockOf a).now) else s.allocator? b
  ring : ∀ core, x.core? = some core →
    (x.refreshed (s.clockOf a).now).core? =
      some { core with tensor := core.tensor.stepped (s.clockOf a).now } ∧
    (core.tensor.stepped (s.clockOf a).now).slot = (core.tensor.slot + 1) % x.config.timeWindow.toNat ∧
    ∀ slot, (core.tensor.stepped (s.clockOf a).now).timestamp slot =
      if slot = (core.tensor.slot + 1) % x.config.timeWindow.toNat then (s.clockOf a).now
      else core.tensor.timestamp slot
  started : ∀ b, t.started b = s.started b
  clocks : ∀ b, t.clockOf b = s.clockOf b

theorem clockOf_putHost (hseat : s.seat a = .ok seat) (k : Host n) (b : Nat) :
    (s.putHost a k).clockOf b = s.clockOf b := by
  by_cases hb : b = a
  · rw [hb, clockOf_of_seat hseat, clockOf_of_seat (seat_putHost hseat k)]
    rfl
  · have hother : (s.putHost a k).seat b = _ :=
      seat_modify s a (fun seat => { seat with allocator := k.allocator }) b
    rw [clockOf, hother, if_neg hb]
    rfl

theorem refreshes_of_due (hseat : s.seat a = .ok seat) (hx : seat.allocator.Shaped)
    (hvalid : seat.allocator.config.validate = .ok ()) :
    s.Refreshes a p seat.allocator (s.putHost a ((s.host seat).refreshed (s.clockOf a) p)) := by
  have hself : (s.putHost a ((s.host seat).refreshed (s.clockOf a) p)).procs[p] =
      s.procs[p].refreshed seat.allocator.config (s.clockOf a) := Roster.getElem_update_self ..
  have hmeasure (f : Feature) := s.procs[p].get_refreshed seat.allocator.config (s.clockOf a) f
  rw [← hself] at hmeasure
  have halike := (s.host seat).alike_refreshed (s.clockOf a) p
  constructor
  · rw [hmeasure .load, Record.measure?, Option.getD_some, Record.loadSignal]
  · rw [hmeasure .memory, Record.measure?, Option.getD_some]
    obtain ⟨hlow, hhigh⟩ := Config.baseline_of_validate hvalid
    rw [Single.clampUnit_of_nonneg hlow, if_pos hhigh]
  · rw [hmeasure .interactive, Record.measure?, Option.getD_some, Record.clampUnit_interactiveSignal,
      Record.interactiveSignal_gap, UInt64.toNat_div]
  · rw [hmeasure .priority, Record.measure?, Option.getD_some, Record.prioritySignal]
  · intro f hf
    rw [hmeasure f, Record.measure?_of_hostFed hf, Option.getD_none]
  · rw [hself]
    exact s.procs[p].refreshed_eq seat.allocator.config (s.clockOf a)
  · exact fun q hq => Roster.getElem_update_ne _ hq _
  · exact putHost_eq_adjust hseat (·.refreshed (s.clockOf a).now) rfl
  · exact files_putHost_alike hseat halike
  · exact allocator?_putHost hseat _
  · intro core hcore
    have hring := (hx.core core hcore).tensor
    refine ⟨?_, ?_, ?_⟩
    · rw [Allocator.core?_refreshed, hcore, Option.map_some]
    · rw [← hring.timeWindow]
      rfl
    · rw [← hring.timeWindow]
      exact (hring.turns hx.config).timestamp_stepped _
  · intro b
    rw [started, started, allocator?_putHost hseat]
    split
    · next hb =>
      rw [hb, allocator?_of_seat hseat]
      exact halike.started
    · rfl
  · exact clockOf_putHost hseat _

theorem call_of_idle (hseat : s.seat a = .ok seat) (hx : seat.allocator.Shaped)
    (hidle : s.procs[p].cognitive = false ∨ (s.clockOf a).now = s.procs[p].vector.lastUpdate) :
    s.call (.host a (.refresh p)) = .ok ⟨s, .host .done, []⟩ := by
  rw [call_of_refresh hseat (Host.refresh_of_idle hx hidle), putHost_self hseat]
  rfl

/-- A refresh always comes back. It is either the identity or changes what `Refreshes` lists, and after it
every refresh of the same process in the same tick is the identity. -/
theorem Leads.refreshes (h : (fresh os queues (freshRoster ps)).Leads es s)
    (hx : s.allocator? a = some x) (p : Fin n) :
    ∃ d, s.call (.host a (.refresh p)) = .ok d ∧ d.answer = .host .done ∧
      (s.procs[p].cognitive = false ∨ (s.clockOf a).now = s.procs[p].vector.lastUpdate →
        d.session = s ∧ d.lines = []) ∧
      (s.procs[p].cognitive = true → (s.clockOf a).now ≠ s.procs[p].vector.lastUpdate →
        s.Refreshes a p x d.session ∧ d.lines = [.refreshed s.procs[p].pid (s.clockOf a).now]) ∧
      ∀ b y, d.session.allocator? b = some y → (d.session.clockOf b).now = (s.clockOf a).now →
        ∃ d', d.session.call (.host b (.refresh p)) = .ok d' ∧ d'.session = d.session := by
  have hshaped {es t b y} (h : (fresh os queues (freshRoster ps)).Leads es t)
      (hy : t.allocator? b = some y) : y.Shaped := by
    obtain ⟨x, hx, hevolves⟩ := h.evolves b y hy
    exact hevolves.shaped (fresh_sturdy hx).1
  obtain ⟨seat, hseat, rfl⟩ := seat_of_allocator? hx
  by_cases hidle : s.procs[p].cognitive = false ∨ (s.clockOf a).now = s.procs[p].vector.lastUpdate
  · refine ⟨_, call_of_idle hseat (hshaped h hx) hidle, rfl, fun _ => ⟨rfl, rfl⟩, fun hcog hdue => ?_,
      fun b y hy hnow => ?_⟩
    · rcases hidle with hnot | hnow
      · exact absurd hcog (Bool.eq_false_iff.mp hnot)
      · exact absurd hnow hdue
    · obtain ⟨seat', hseat', rfl⟩ := seat_of_allocator? hy
      exact ⟨_, call_of_idle hseat' (hshaped h hy) (hnow ▸ hidle), rfl⟩
  · obtain ⟨hnot, hdue⟩ := not_or.mp hidle
    have hcog : s.procs[p].cognitive = true := Bool.eq_true_of_not_eq_false hnot
    have hcall := call_of_refresh hseat (Host.refresh_of_due (hshaped h hx) hcog hdue)
    have hrefreshes := refreshes_of_due (p := p) hseat (hshaped h hx) (h.validated hx)
    refine ⟨_, hcall, rfl, fun h => absurd h hidle, fun _ _ => ⟨hrefreshes, rfl⟩, fun b y hy hnow => ?_⟩
    obtain ⟨seat', hseat', rfl⟩ := seat_of_allocator? hy
    refine ⟨_, call_of_idle hseat' (hshaped (h.trans (.call hcall (.refl _))) hy) (.inr ?_), rfl⟩
    exact hnow.trans (congrArg (·.vector.lastUpdate) hrefreshes.record).symm

/-- The clock has been set back past the stamp, and the allocator has not started. -/
theorem refreshes_on_an_earlier_tick : ∃ es, ∃ s : Session 1, ∃ d d',
    (fresh [{ hz := 1000, config? := some {} }, { hz := 1000, share? := some 0 }] []
      (freshRoster #v[(7, true)])).Leads es s ∧
    s.procs[(0 : Fin 1)].vector.lastUpdate = 5 ∧ s.call (.host 0 (.refresh 0)) = .ok d ∧
    d.session.procs[(0 : Fin 1)].vector.get Feature.interactive.index = .ofFraction 1 10 ∧
    d.session.procs[(0 : Fin 1)].vector.lastUpdate = 3 ∧ d.session.started 0 = false ∧
    d.session.call (.host 1 (.refresh 0)) = .ok d' ∧ d'.session = d.session := by
  let s₀ : Session 1 := fresh [{ hz := 1000, config? := some {} }, { hz := 1000, share? := some 0 }] []
    (freshRoster #v[(7, true)])
  obtain ⟨s, h, hend⟩ := exists_leads s₀
    [.call (.clock 0 (.set 5)), .call (.host 1 (.refresh 0)), .call (.clock 1 (.set 3))]
    (fun s => (((s.allocator? 0).map (·.config.interactiveDivisor), (s.allocator? 1).isSome, s.started 0),
      (s.clockOf 0, (s.clockOf 1).now),
      s.procs[(0 : Fin 1)].cognitive, s.procs[(0 : Fin 1)].vector.lastUpdate))
    (x := ((some 10, true, false), ({ now := 3, hz := 1000 }, 3), true, 5)) (by decide +kernel)
  simp only [Prod.mk.injEq] at hend
  obtain ⟨⟨hdivisor, hpresent, hpending⟩, ⟨hclock, hshared⟩, hcog, hstamp⟩ := hend
  obtain ⟨x, hx, hdivisor⟩ := Option.map_eq_some_iff.mp hdivisor
  obtain ⟨y, hy⟩ := Option.isSome_iff_exists.mp hpresent
  obtain ⟨d, hd, -, -, hdue, hagain⟩ := h.refreshes hx 0
  obtain ⟨hrefreshes, -⟩ := hdue hcog (by rw [hclock, hstamp]; decide)
  obtain ⟨d', hd', hsame⟩ := hagain 1 y ((hrefreshes.allocators 1).trans hy)
    (by rw [hrefreshes.clocks, hshared, hclock])
  refine ⟨_, s, d, d', h, hstamp, hd, ?_, ?_, (hrefreshes.started 0).trans hpending, hd', hsame⟩
  · rw [hrefreshes.interactive, hstamp, hclock, hdivisor]
    decide
  · rw [hrefreshes.record, hclock]

end Session

end AttentionScheduler
