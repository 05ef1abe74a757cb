import AttentionScheduler.Proofs.Outline
import AttentionScheduler.Proofs.Refreshing
import Mathlib.Data.List.Rotate

/-!
The ring of a tensor holds the last ticks that it was advanced with, one for each slot, and the first tick
of all goes to slot one. In an allocator these are the ticks of its refreshes since it started, and those
that the host puts in itself.
-/

namespace AttentionScheduler

variable {n : Nat}

namespace Tensor

variable {window procs : Nat} {past ns : List Tick} {t : Tensor}

theorem rotate_set {α : Type} {xs : List α} {i : Nat} (hi : i < xs.length) (x : α) :
    (xs.set i x).rotate (i + 1) = (xs.rotate i).tail ++ [x] := by
  obtain ⟨l, y, r, rfl, rfl⟩ : ∃ l y r, xs = l ++ y :: r ∧ l.length = i :=
    ⟨xs.take i, xs[i], xs.drop (i + 1), by rw [List.getElem_cons_drop, List.take_append_drop],
      List.length_take_of_le (Nat.le_of_lt hi)⟩
  have hset : (l ++ y :: r).set l.length x = (l ++ [x]) ++ r := by simp
  have hlength : l.length + 1 = (l ++ [x]).length := by simp
  rw [hset, hlength, List.rotate_append_length_eq, List.rotate_append_length_eq, List.cons_append,
    List.tail_cons, List.append_assoc]

/-- The ticks that have gone to a slot. -/
def laps (window slot : Nat) (ns : List Tick) : List Tick :=
  ((ns.zipIdx 1).filter fun x => x.2 % window = slot).map (·.1)

theorem laps_concat (window slot : Nat) (ns : List Tick) (now : Tick) :
    laps window slot (ns ++ [now]) =
      laps window slot ns ++ if slot = (ns.length + 1) % window then [now] else [] := by
  have hlast : ([now].zipIdx (1 + ns.length)).filter (fun x => x.2 % window = slot) =
      if slot = (ns.length + 1) % window then [(now, 1 + ns.length)] else [] := by
    rw [List.zipIdx_singleton, List.filter_singleton, Nat.add_comm, Bool.cond_decide]
    exact if_congr eq_comm rfl rfl
  rw [laps, List.zipIdx_append, List.filter_append, hlast, List.map_append, laps]
  split <;> rfl

/-- The ring that `ns` have been put into, one after the other. -/
structure Stamped (window : Nat) (ns : List Tick) (t : Tensor) : Prop where
  timeWindow : t.timeWindow = window
  size : t.stamps.size = window
  slot : t.slot = ns.length % window
  timestamp : ∀ slot, t.timestamp slot = (laps window slot ns).getLast?.getD 0
  /-- Once round from the slot after the current one: the last ticks of all, and zeros where none has come. -/
  ring : t.stamps.toList.rotate (t.slot + 1) =
    List.replicate (window - ns.length) 0 ++ ns.drop (ns.length - window)

theorem Stamped.turns (ht : t.Stamped window ns) (hpos : 0 < window) (hlimit : window < Word.limit) :
    t.Turns := by
  refine ⟨?_, ht.size.trans ht.timeWindow.symm, ht.timeWindow ▸ hlimit⟩
  rw [ht.slot, ht.timeWindow]
  exact Nat.mod_lt _ hpos

theorem Stamped.next (ht : t.Stamped window ns) :
    (t.slot + 1) % t.timeWindow = (ns.length + 1) % window := by
  rw [ht.slot, ht.timeWindow, Nat.mod_add_mod]

theorem tail_ring (hpos : 0 < window) (ns : List Tick) (now : Tick) :
    (List.replicate (window - ns.length) 0 ++ ns.drop (ns.length - window)).tail ++ [now] =
      List.replicate (window - (ns.length + 1)) 0 ++ (ns ++ [now]).drop (ns.length + 1 - window) := by
  by_cases hroom : ns.length < window
  · have hfirst : window - ns.length = window - (ns.length + 1) + 1 := by omega
    have hkept : ns.length - window = 0 := by omega
    have hkept' : ns.length + 1 - window = 0 := by omega
    rw [hfirst, List.replicate_succ, List.cons_append, List.tail_cons, hkept, hkept', List.drop_zero,
      List.drop_zero, List.append_assoc]
  · have hnone : window - ns.length = 0 := by omega
    have hnone' : window - (ns.length + 1) = 0 := by omega
    have hnext : ns.length + 1 - window = ns.length - window + 1 := by omega
    rw [hnone, hnone', List.replicate_zero, List.nil_append, List.nil_append, List.tail_drop, hnext,
      List.drop_append_of_le_length (by omega)]

theorem Stamped.stepped (ht : t.Stamped window ns) (hpos : 0 < window) (hlimit : window < Word.limit)
    (now : Tick) : (t.stepped now).Stamped window (ns ++ [now]) := by
  have hturns := ht.turns hpos hlimit
  refine ⟨ht.timeWindow, ?_, ?_, fun slot => ?_, ?_⟩
  · exact Array.size_setIfInBounds.trans ht.size
  · rw [List.length_append, List.length_singleton, ← ht.next]
    rfl
  · rw [hturns.timestamp_stepped, ht.next, ht.timestamp, laps_concat]
    split
    · rw [List.getLast?_concat, Option.getD_some]
    · rw [List.append_nil]
  · have hnext : (t.slot + 1) % t.timeWindow < t.stamps.toList.length := hturns.next_lt
    change (t.stamps.setIfInBounds _ now).toList.rotate ((t.slot + 1) % t.timeWindow + 1) = _
    rw [Array.toList_setIfInBounds, rotate_set hnext, ← hturns.stamps, ← Array.length_toList, List.rotate_mod,
      ht.ring, List.length_append, List.length_singleton]
    exact tail_ring hpos ns now

theorem stamped_of_create (h : create procs window = .ok t) :
    t.Stamped window [] ∧ window < Word.limit := by
  obtain ⟨rfl, -, hlimit⟩ := eq_of_create h
  refine ⟨⟨rfl, Array.size_replicate, (Nat.zero_mod _).symm, fun slot => ?_, ?_⟩, hlimit⟩
  · change (Array.replicate window (0 : Tick))[slot]?.getD 0 = 0
    rw [Array.getElem?_replicate]
    split <;> rfl
  · change (Array.replicate window (0 : Tick)).toList.rotate 1 = _
    rw [Array.toList_replicate, List.rotate_replicate, List.drop_nil, List.append_nil]
    rfl

/-- Advances with each tick in turn, and lists the slots that are answered. -/
def advanceAll : Tensor → List Tick → Except Fault (Tensor × List Nat)
  | t, [] => .ok (t, [])
  | t, now :: ns => do
    let (t, slot) ← t.advance now
    let (t, slots) ← t.advanceAll ns
    return (t, slot :: slots)

theorem Stamped.advanceAll (ht : t.Stamped window past) (hpos : 0 < window)
    (hlimit : window < Word.limit) (ns : List Tick) : ∃ t',
      t.advanceAll ns = .ok (t', (List.range' (past.length + 1) ns.length).map (· % window)) ∧
      t'.Stamped window (past ++ ns) := by
  induction ns generalizing t past with
  | nil => exact ⟨t, rfl, by rwa [List.append_nil]⟩
  | cons now ns ih =>
    obtain ⟨t', hrest, ht'⟩ := ih (ht.stepped hpos hlimit now)
    rw [List.append_assoc, List.singleton_append] at ht'
    refine ⟨t', ?_, ht'⟩
    rw [Tensor.advanceAll, (ht.turns hpos hlimit).advance_eq, ht.next]
    simp only [bind, Except.bind, hrest]
    rw [List.length_append, List.length_singleton, List.length_cons, List.range'_succ]
    rfl

theorem Stamped.current (ht : t.Stamped window ns) : t.timestamp t.slot = ns.getLast?.getD 0 := by
  rw [ht.timestamp, ht.slot]
  rcases List.eq_nil_or_concat ns with rfl | ⟨ns, now, rfl⟩
  · rfl
  · rw [List.concat_eq_append, laps_concat, List.length_append, List.length_singleton, if_pos rfl,
      List.getLast?_concat, List.getLast?_concat]

end Tensor

theorem Core.tensor_of_build {c : Config} {core : Core n} (h : build c = .ok core) :
    Tensor.create c.maxProcs.toNat c.timeWindow.toNat = .ok core.tensor := by
  obtain ⟨_, -, h⟩ := Word.ok_of_bind h
  obtain ⟨tensor, hcreate, h⟩ := Word.ok_of_bind h
  cases h
  exact hcreate

/-- The ring holds `ns`, and the last update is the last of `ms`. There are none before the start. -/
def Outline.Told (ns ms : List Tick) (o : Outline) : Prop :=
  match o.ring? with
  | none => ns = [] ∧ ms = []
  | some t => t.Stamped o.config.timeWindow.toNat ns ∧ o.lastUpdate = ms.getLast?.getD 0

namespace Allocator

variable {x y : Allocator n} {core : Core n} {ns ms : List Tick}

theorem told_of_pending (hc : x.core? = none) : x.outline.Told ns ms ↔ ns = [] ∧ ms = [] := by
  rw [Outline.Told, outline, hc]
  rfl

theorem told_of_core (hc : x.core? = some core) : x.outline.Told ns ms ↔
    core.tensor.Stamped x.config.timeWindow.toNat ns ∧ x.lastUpdate = ms.getLast?.getD 0 := by
  rw [Outline.Told, outline, hc]
  exact and_congr_left' ⟨fun h => { h with }, fun h => { h with }⟩

theorem Begins.told (h : x.Begins y) (hx : x.outline.Told ns ms) : y.outline.Told ns ms := by
  obtain ⟨hnone, core, hbuild, hy⟩ := h
  obtain ⟨rfl, rfl⟩ := (told_of_pending hnone).mp hx
  rw [hy, told_of_core (core?_begun x core)]
  exact ⟨(Tensor.stamped_of_create (Core.tensor_of_build hbuild)).1, rfl⟩

theorem stamped_stepped (hx : x.Shaped) {t : Tensor} (ht : t.Stamped x.config.timeWindow.toNat ns)
    (now : Tick) : (t.stepped now).Stamped x.config.timeWindow.toNat (ns ++ [now]) :=
  ht.stepped hx.config.window (UInt64.toNat_lt _) now

theorem told_refreshed (hx : x.Shaped) (h : x.outline.Told ns ms) (now : Tick) :
    (x.refreshed now).outline.Told (ns ++ (if x.isStarted then some now else none).toList)
      (ms ++ (if x.isStarted then some now else none).toList) := by
  have hring := core?_refreshed x now
  cases hc : x.core? with
  | none =>
    rw [hc, Option.map_none] at hring
    rw [told_of_pending hring, isStarted, hc]
    obtain ⟨rfl, rfl⟩ := (told_of_pending hc).mp h
    exact ⟨rfl, rfl⟩
  | some core =>
    rw [hc, Option.map_some] at hring
    have hconfig : (x.refreshed now).config = x.config := x.config_stepped now
    rw [told_of_core hring, isStarted_of_core? hc, hconfig]
    refine ⟨stamped_stepped hx ((told_of_core hc).mp h).1 now, ?_⟩
    change now = (ms ++ [now]).getLast?.getD 0
    rw [List.getLast?_concat, Option.getD_some]

end Allocator

namespace Host

variable {h k : Host n} {core : Core n} {call : TensorCall} {ns ms : List Tick}

theorem Moves.told (hk : h.Moves k) (hh : h.allocator.outline.Told ns ms) :
    k.allocator.outline.Told ns ms := by
  obtain hkeeps | hbegins := hk
  · exact (congrArg (Outline.Told ns ms) hkeeps).mpr hh
  · exact hbegins.told hh

theorem told_of_start (hh : h.allocator.outline.Told ns ms) :
    (h.start.stateOr h).allocator.outline.Told ns ms :=
  h.moves_of_start.told hh

theorem callTensor_of_none (hc : h.allocator.core? = none) : h.callTensor call = .returned h none := by
  rw [callTensor, hc]

theorem callTensor_of_core (hc : h.allocator.core? = some core) : h.callTensor call =
    (core.tensor.call call).map (fun tensor => h.withCore { core with tensor }) some := by
  rw [callTensor, hc]

end Host

namespace Event

variable {e : Event n} {a : Nat}

/-- The tick of a refresh that is due, by an allocator that has started. -/
def restamp? (a : Nat) (e : Event n) : Option Tick :=
  match e.call with
  | .host b (.refresh p) =>
    if b = a ∧ e.before.started a ∧ (e.refreshed? p).isSome then some (e.before.clockOf a).now else none
  | _ => none

/-- The tick that the host puts into the ring of an allocator that has started. -/
def advance? (a : Nat) (e : Event n) : Option Tick :=
  match e.call with
  | .host b (.tensor (.advance now)) => if b = a ∧ e.before.started a then some now else none
  | _ => none

theorem advance?_of_ne (h : ∀ now, e.call ≠ .host a (.tensor (.advance now))) : e.advance? a = none := by
  unfold advance?
  split
  · next b now hcall =>
    rw [if_neg]
    rintro ⟨rfl, -⟩
    exact h now hcall
  · rfl

def stamp? (a : Nat) (e : Event n) : Option Tick := (e.restamp? a).or (e.advance? a)

/-- What is told of the allocator after the event, if `ns` and `ms` were told of it before. -/
def Tells (a : Nat) (ns ms : List Tick) (e : Event n) : Prop :=
  ∃ o, e.done.session.outlineAt a = some o ∧
    o.Told (ns ++ (e.stamp? a).toList) (ms ++ (e.restamp? a).toList)

theorem tells_of_unstamped {ns ms : List Tick} {o : Outline} (ho : e.done.session.outlineAt a = some o)
    (h : o.Told ns ms) (hrestamp : e.restamp? a = none) (hadvance : e.advance? a = none) :
    e.Tells a ns ms := by
  refine ⟨o, ho, ?_⟩
  rw [stamp?, hrestamp, hadvance, Option.or_none, Option.toList_none, List.append_nil, List.append_nil]
  exact h

end Event

namespace Session

variable {s t : Session n} {a : Nat} {seat : Seat n} {p : Fin n} {call : HostCall n} {c : Call n}
  {d : Done n} {ns ms : List Tick} {es : List (Event n)} {os : List Opening}
  {queues : List (Nat × Single)} {ps : Vector (UInt64 × Bool) n} {x : Allocator n}

theorem restamp?_of_refresh (a : Nat) (p : Fin n) (d : Done n) :
    Event.restamp? a ⟨s, .host a (.refresh p), d⟩ =
      if s.started a ∧ s.procs[p].cognitive ∧ (s.clockOf a).now ≠ s.procs[p].vector.lastUpdate then
        some (s.clockOf a).now
      else none := by
  have hrefreshed : (Event.refreshed? p ⟨s, .host a (.refresh p), d⟩).isSome ↔
      s.procs[p].cognitive ∧ (s.clockOf a).now ≠ s.procs[p].vector.lastUpdate := by
    simp [Event.refreshed?, Record.gap_eq_zero]
  refine if_congr ?_ rfl rfl
  rw [hrefreshed]
  exact and_iff_right rfl

theorem tells_of_refresh (hs : s.seat a = .ok seat) (hx : seat.allocator.Shaped)
    (hc : s.call (.host a (.refresh p)) = .ok d) (h : seat.allocator.outline.Told ns ms) :
    Event.Tells a ns ms ⟨s, .host a (.refresh p), d⟩ := by
  have hrestamp := restamp?_of_refresh (s := s) a p d
  have hstamp : Event.stamp? a ⟨s, .host a (.refresh p), d⟩ =
      Event.restamp? a ⟨s, .host a (.refresh p), d⟩ := Option.or_none
  by_cases hidle : s.procs[p].cognitive = false ∨ (s.clockOf a).now = s.procs[p].vector.lastUpdate
  · cases hc.symm.trans (call_of_idle hs hx hidle)
    refine Event.tells_of_unstamped (outlineAt_of_seat hs) h (hrestamp.trans (if_neg ?_)) rfl
    rintro ⟨-, hcog, hdue⟩
    rcases hidle with hnot | hnow
    · exact absurd hcog (Bool.eq_false_iff.mp hnot)
    · exact hdue hnow
  · obtain ⟨hnot, hdue⟩ := not_or.mp hidle
    have hcog : s.procs[p].cognitive = true := Bool.eq_true_of_not_eq_false hnot
    cases hc.symm.trans (call_of_refresh hs (Host.refresh_of_due hx hcog hdue))
    have hcond : (s.started a = true ∧ s.procs[p].cognitive = true ∧
        (s.clockOf a).now ≠ s.procs[p].vector.lastUpdate) ↔ seat.allocator.isStarted = true := by
      rw [started_of_seat hs]
      exact and_iff_left ⟨hcog, hdue⟩
    refine ⟨_, (outlineAt_putHost hs _ a).trans (if_pos rfl), ?_⟩
    rw [hstamp, hrestamp, if_congr hcond rfl rfl]
    exact Allocator.told_refreshed hx h _

theorem call_of_advance (hs : s.seat a = .ok seat) (hx : seat.allocator.Shaped) {core : Core n}
    (hcore : seat.allocator.core? = some core) (now : Tick) :
    s.call (.host a (.tensor (.advance now))) =
      .ok ⟨s.putHost a ((s.host seat).withCore { core with tensor := core.tensor.stepped now }),
        .host (.tensor (some (.slot ((core.tensor.slot + 1) % core.tensor.timeWindow)))), []⟩ := by
  have hadvance := ((hx.core core hcore).tensor.turns hx.config).advance_eq now
  have hcall : (s.host seat).callTensor (.advance now) = .returned
      ((s.host seat).withCore { core with tensor := core.tensor.stepped now })
      (some (.slot ((core.tensor.slot + 1) % core.tensor.timeWindow))) := by
    rw [Host.callTensor_of_core hcore]
    simp only [Tensor.call, hadvance]
    rfl
  simp only [call, callHost, hs, Host.call, hcall]
  rfl

theorem tells_of_advance (hs : s.seat a = .ok seat) (hx : seat.allocator.Shaped) {now : Tick}
    (hc : s.call (.host a (.tensor (.advance now))) = .ok d) (h : seat.allocator.outline.Told ns ms) :
    Event.Tells a ns ms ⟨s, .host a (.tensor (.advance now)), d⟩ := by
  have hadvance : Event.advance? a ⟨s, .host a (.tensor (.advance now)), d⟩ =
      if seat.allocator.isStarted then some now else none := by
    rw [← started_of_seat hs]
    exact if_congr (and_iff_right rfl) rfl rfl
  cases hcore : seat.allocator.core? with
  | none =>
    have hcall : ((s.host seat).callTensor (.advance now)).Leaves (·.allocator = seat.allocator) := by
      rw [Host.callTensor_of_none hcore]
      exact rfl
    obtain ⟨k, hk, hd⟩ := leaves_of_call hs hc (hcall.mapAnswer _)
    refine Event.tells_of_unstamped ?_ h rfl (hadvance.trans ?_)
    · rw [hd, outlineAt_putHost hs, if_pos rfl, hk]
    · rw [Allocator.isStarted, hcore]
      rfl
  | some core =>
    have hstamp : Event.stamp? a ⟨s, .host a (.tensor (.advance now)), d⟩ = some now := by
      rw [Event.stamp?, hadvance, Allocator.isStarted_of_core? hcore]
      rfl
    have hrestamp : Event.restamp? a ⟨s, .host a (.tensor (.advance now)), d⟩ = none := rfl
    obtain ⟨hstamped, hlast⟩ := (Allocator.told_of_core hcore).mp h
    let k := (s.host seat).withCore { core with tensor := core.tensor.stepped now }
    have hd : d.session = s.putHost a k := by
      cases hc.symm.trans (call_of_advance hs hx hcore now)
      rfl
    refine ⟨k.allocator.outline, by rw [hd, outlineAt_putHost hs, if_pos rfl], ?_⟩
    rw [hstamp, hrestamp, Option.toList_none, List.append_nil]
    have hcore' : k.allocator.core? = some { core with tensor := core.tensor.stepped now } := rfl
    exact (Allocator.told_of_core hcore').mpr ⟨Allocator.stamped_stepped hx hstamped now, hlast⟩

theorem tells_of_call (hs : s.seat a = .ok seat) (hx : seat.allocator.Shaped)
    (hc : s.call (.host a call) = .ok d) (h : seat.allocator.outline.Told ns ms) :
    Event.Tells a ns ms ⟨s, .host a call, d⟩ := by
  have unstamped {P : Host n → Prop} (hcall : ((s.host seat).call (s.clock seat) call).Leaves P)
      (hP : ∀ k, P k → k.allocator.outline.Told ns ms)
      (hrestamp : Event.restamp? a ⟨s, .host a call, d⟩ = none)
      (hadvance : Event.advance? a ⟨s, .host a call, d⟩ = none) :
      Event.Tells a ns ms ⟨s, .host a call, d⟩ := by
    obtain ⟨k, hk, hd⟩ := leaves_of_call hs hc hcall
    refine Event.tells_of_unstamped ?_ (hP k hk) hrestamp hadvance
    rw [hd, outlineAt_putHost hs, if_pos rfl]
  cases hcall : call.outlines with
  | false =>
    refine unstamped ((s.host seat).call_moves (s.clock seat) hcall) (fun k hk => hk.told h) ?_ ?_
    · cases call with
      | refresh => cases hcall
      | _ => rfl
    · cases call with
      | tensor call =>
        cases call with
        | advance => cases hcall
        | _ => rfl
      | _ => rfl
  | true =>
    cases call with
    | setEmergency | setBudget =>
      exact unstamped (P := fun k => k.allocator.outline.Told ns ms) h (fun _ hk => hk) rfl rfl
    | refresh p => exact tells_of_refresh hs hx hc h
    | tensor call =>
      cases call with
      | advance now => exact tells_of_advance hs hx hc h
      | _ => cases hcall
    | _ => cases hcall

theorem told_of_make {o : Opening} {procs : Roster n} {lines : List Line}
    (h : o.make procs = .ok (x, lines)) : x.outline.Told [] [] := by
  have hpending (c : Config) : ({ config := c } : Allocator n).outline.Told [] [] :=
    (Allocator.told_of_pending rfl).mpr ⟨rfl, rfl⟩
  rcases make_cases h with ⟨c, -, rfl, -⟩ | ⟨k, hk, rfl, -⟩
  · exact hpending c
  · rw [hk]
    refine Host.told_of_start ?_
    exact hpending {}

theorem told_of_fresh (h : (fresh os queues (freshRoster ps)).allocator? a = some x) :
    x.outline.Told [] [] := by
  obtain ⟨seat, hseat, rfl⟩ := seat_of_allocator? h
  obtain ⟨o, lines, -, hmake⟩ := make_of_seat hseat
  exact told_of_make hmake

theorem unstamped_of_elsewhere {e : Event n} (helse : ∀ call, e.call ≠ .host a call) :
    e.restamp? a = none ∧ e.advance? a = none := by
  constructor
  · unfold Event.restamp?
    split
    · next b p hcall =>
      rw [if_neg]
      rintro ⟨rfl, -⟩
      exact helse _ hcall
    · rfl
  · exact Event.advance?_of_ne fun now => helse _

theorem tells_of_event {e : Event n} (hc : e.before.call e.call = .ok e.done)
    (hx : e.before.allocator? a = some x) (hshaped : x.Shaped) (h : x.outline.Told ns ms) :
    e.Tells a ns ms := by
  obtain ⟨s, c, d⟩ := e
  obtain ⟨seat, hseat, rfl⟩ := seat_of_allocator? hx
  by_cases hhere : ∃ call, c = .host a call
  · obtain ⟨call, rfl⟩ := hhere
    exact tells_of_call hseat hshaped hc h
  · have helse : ∀ call, c ≠ .host a call := fun call hcall => hhere ⟨call, hcall⟩
    obtain ⟨hrestamp, hadvance⟩ := unstamped_of_elsewhere (e := ⟨s, c, d⟩) helse
    exact Event.tells_of_unstamped ((outlineAt_of_elsewhere hc helse).trans (outlineAt_of_seat hseat)) h
      hrestamp hadvance

theorem outlineAt_of_locks (h : s.Leads [] t) : t.outlineAt a = s.outlineAt a := by
  have hlast : t.outlineAt a =
      (([] : List (Event n)).filterMap fun _ => none).getLast?.getD (s.outlineAt a) :=
    h.last_at (x := (·.outlineAt a)) (fun s b place => outlineAt_putBucket s b place a)
      fun e he => absurd he List.not_mem_nil
  rwa [List.filterMap_nil] at hlast

theorem Leads.outlined (h : (fresh os queues (freshRoster ps)).Leads es t)
    (hx : t.allocator? a = some x) :
    x.outline.Told (es.filterMap (Event.stamp? a)) (es.filterMap (Event.restamp? a)) := by
  induction es using List.reverseRecOn generalizing t x with
  | nil =>
    have hsame := outlineAt_of_locks (a := a) h
    obtain ⟨y, hy, -⟩ := h.evolves a x hx
    rw [outlineAt, outlineAt, hx, hy] at hsame
    have houtline : x.outline = y.outline := Option.some.inj hsame
    rw [houtline]
    exact told_of_fresh hy
  | append_singleton past e ih =>
    obtain ⟨hpast, hc, hafter⟩ := h.split
    obtain ⟨y, hy, -⟩ := (Leads.call hc hafter).evolves a x hx
    obtain ⟨o, ho, htold⟩ := tells_of_event hc hy (hpast.shaped hy) (ih hpast hy)
    -- After the event only locks are taken and released, and they leave the outline as it is.
    have hnow := (outlineAt_of_locks hafter).trans ho
    rw [outlineAt, hx] at hnow
    have houtline : x.outline = o := Option.some.inj hnow
    have hconcat (f : Event n → Option Tick) :
        (past ++ [e]).filterMap f = past.filterMap f ++ (f e).toList := by
      rw [List.filterMap_append, List.filterMap_eq_flatMap_toList f [e], List.flatMap_singleton]
    rw [hconcat, hconcat, houtline]
    exact htold

theorem Leads.answers_advance {e : Event n} {past rest : List (Event n)} {now : Tick}
    (h : (fresh os queues (freshRoster ps)).Leads (past ++ e :: rest) t) (hx : t.allocator? a = some x)
    (hcall : e.call = .host a (.tensor (.advance now))) (hon : e.before.started a = true) :
    e.done.answer = .host (.tensor (some (.slot
      (((past.filterMap (Event.stamp? a)).length + 1) % x.config.timeWindow.toNat)))) := by
  obtain ⟨hpast, hc, hrest⟩ := h.split
  obtain ⟨y, hy, hevolves⟩ := (Leads.call hc hrest).evolves a x hx
  obtain ⟨seat, hs, rfl⟩ := seat_of_allocator? hy
  rw [started_of_seat hs] at hon
  obtain ⟨core, hcore⟩ := Option.isSome_iff_exists.mp hon
  obtain ⟨hstamped, -⟩ := (Allocator.told_of_core hcore).mp (hpast.outlined hy)
  rw [hcall] at hc
  have hdone := Except.ok.inj (hc.symm.trans (call_of_advance hs (hpast.shaped hy) hcore now))
  rw [hdone, hevolves.config]
  dsimp only
  rw [hstamped.next]

/-- A ring holds what its tensor was advanced with, the ring of an allocator the ticks of its refreshes
since the start. As long as the host advances none itself, the last update is the tick in the current slot. -/
theorem rings_keep_the_last_ticks :
    (∀ {procs window : Nat} {t₀ : Tensor}, 1 ≤ window → Tensor.create procs window = .ok t₀ →
      ∀ ns : List Tick, ∃ t,
        t₀.advanceAll ns = .ok (t, (List.range' 1 ns.length).map (· % window)) ∧
        t.Stamped window ns) ∧
    ∀ {n : Nat} {os : List Opening} {queues : List (Nat × Single)} {ps : Vector (UInt64 × Bool) n}
      {es : List (Event n)} {t : Session n} {a : Nat} {x : Allocator n} {core : Core n},
      (fresh os queues (freshRoster ps)).Leads es t → t.allocator? a = some x → x.core? = some core →
      core.tensor.Stamped x.config.timeWindow.toNat (es.filterMap (Event.stamp? a)) ∧
      (∀ past (e : Event n) rest now, es = past ++ e :: rest → e.call = .host a (.tensor (.advance now)) →
        e.before.started a = true → e.done.answer = .host (.tensor (some (.slot
          (((past.filterMap (Event.stamp? a)).length + 1) % x.config.timeWindow.toNat))))) ∧
      ((∀ e ∈ es, ∀ now, e.call ≠ .host a (.tensor (.advance now))) →
        x.lastUpdate = core.tensor.timestamp core.tensor.slot) := by
  constructor
  · intro procs window t₀ hpos hcreate ns
    obtain ⟨hstamped, hlimit⟩ := Tensor.stamped_of_create hcreate
    exact hstamped.advanceAll hpos hlimit ns
  · intro n os queues ps es t a x core h hx hcore
    obtain ⟨hstamped, hlast⟩ := (Allocator.told_of_core hcore).mp (h.outlined hx)
    refine ⟨hstamped, ?_, fun hnone => ?_⟩
    · rintro past e rest now rfl hcall hon
      exact h.answers_advance hx hcall hon
    · have hsame : es.filterMap (Event.stamp? a) = es.filterMap (Event.restamp? a) := by
        refine List.filterMap_congr fun e he => ?_
        rw [Event.stamp?, Event.advance?_of_ne (hnone e he), Option.or_none]
      rw [hstamped.current, hlast, hsame]

/-- The refresh in tick five comes before the start, and those in ticks seven to nine go once round. -/
theorem rings_keep_the_last_ticks_past_a_start : ∃ es, ∃ t : Session 1, ∃ x core ring,
    (fresh [{ hz := 1000, config? := some { timeWindow := 2 } }, { hz := 1000 }] []
      (freshRoster #v[(7, true)])).Leads es t ∧ t.allocator? 0 = some x ∧ x.core? = some core ∧
    es.filterMap (Event.stamp? 0) = [7, 8, 9] ∧ core.tensor.slot = 1 ∧ core.tensor.timestamp 0 = 8 ∧
    x.lastUpdate = 9 ∧
    (∃ e ∈ es, e.call = .host 1 (.tensor (.advance 6)) ∧
      e.done.answer = .host (.tensor (some (.slot 2)))) ∧
    (Tensor.create 3 1 >>= (·.advanceAll [5, 6])) = .ok (ring, [0, 0]) ∧ ring.timestamp 0 = 6 := by
  let s : Session 1 := fresh [{ hz := 1000, config? := some { timeWindow := 2 } }, { hz := 1000 }] []
    (freshRoster #v[(7, true)])
  let calls : List (Call 1) :=
    [.clock 0 (.set 5), .host 0 (.refresh 0), .host 0 .start, .clock 0 (.set 7), .host 0 (.refresh 0),
      .clock 0 (.set 8), .host 0 (.refresh 0), .clock 0 (.set 9), .host 0 (.refresh 0),
      .host 1 (.tensor (.advance 4)), .host 1 (.tensor (.advance 6))]
  let steps : List (Step 1) := calls.map .call
  let view (t : Session 1) (a : Nat) := (t.allocator? a).map fun x => (x.isStarted, x.config.timeWindow)
  obtain ⟨t, h, hend⟩ := exists_leads s steps (fun t => (view t 0, view t 1))
    (x := (some (true, 2), some (true, 32))) (by decide +kernel)
  have started {a : Nat} {window : UInt64} (hview : view t a = some (true, window)) :
      ∃ x core, t.allocator? a = some x ∧ x.core? = some core ∧ x.config.timeWindow = window := by
    obtain ⟨x, hx, hvalues⟩ := Option.map_eq_some_iff.mp hview
    obtain ⟨hon, hwindow⟩ := Prod.mk.inj hvalues
    obtain ⟨core, hcore⟩ := Option.isSome_iff_exists.mp hon
    exact ⟨x, core, hx, hcore, hwindow⟩
  obtain ⟨x, core, hx, hcore, hwindow⟩ := started (congrArg Prod.fst hend)
  obtain ⟨y, core', hy, hcore', hwindow'⟩ := started (congrArg Prod.snd hend)
  obtain ⟨hpure, hrings⟩ := rings_keep_the_last_ticks
  obtain ⟨hstamped, -, hlast⟩ := hrings h hx hcore
  obtain ⟨-, hanswers, -⟩ := hrings h hy hcore'
  have hticks : (s.events steps).filterMap (Event.stamp? 0) = [7, 8, 9] := by decide +kernel
  rw [hticks, hwindow] at hstamped
  have hcurrent : core.tensor.slot = 1 := hstamped.slot
  have hevent : (s.events steps)[10]?.map (fun e => (e.call, e.before.started 1)) =
      some (.host 1 (.tensor (.advance 6)), true) := by decide +kernel
  obtain ⟨e, he, hvalues⟩ := Option.map_eq_some_iff.mp hevent
  obtain ⟨hcall, hon⟩ := Prod.mk.inj hvalues
  obtain ⟨hcount, hget⟩ := List.getElem?_eq_some_iff.mp he
  have hsplit : s.events steps = (s.events steps).take 10 ++ e :: (s.events steps).drop 11 := by
    rw [← hget, List.getElem_cons_drop, List.take_append_drop]
  have hanswer := hanswers _ e _ 6 hsplit hcall hon
  have hbefore : ((s.events steps).take 10).filterMap (Event.stamp? 1) = [4] := by decide +kernel
  have hrefreshed : ∀ e ∈ s.events steps, ∀ now, e.call ≠ .host 0 (.tensor (.advance now)) := by
    intro e he now hadvance
    have hcalls : (s.events steps).map (·.call) = calls := by decide +kernel
    have hcall : e.call ∈ calls := hcalls ▸ List.mem_map_of_mem he
    rw [hadvance] at hcall
    simp [calls] at hcall
  obtain ⟨ring₀, hcreate⟩ : ∃ ring, Tensor.create 3 1 = .ok ring := ⟨_, rfl⟩
  obtain ⟨ring, hring, hround⟩ := hpure (Nat.le_refl 1) hcreate [5, 6]
  refine ⟨_, t, x, core, ring, h, hx, hcore, hticks, hcurrent, ?_, ?_,
    ⟨e, List.mem_of_getElem? he, hcall, ?_⟩, ?_, ?_⟩
  · exact (hstamped.timestamp 0).trans (by decide)
  · rw [hlast hrefreshed, hcurrent]
    exact (hstamped.timestamp 1).trans (by decide)
  · rw [hanswer, hbefore, hwindow']
    rfl
  · rw [hcreate]
    exact hring
  · exact (hround.timestamp 0).trans (by decide)

end Session

end AttentionScheduler
