import AttentionScheduler.Proofs.Rings
import Mathlib.Logic.Equiv.Fin.Basic

/-!
Every cell of a history has a place of its own in the block, and every place is that of a cell. Outside
the bounds a read needs no place. What is read is zero, for no access writes to a cell, whatever the
sizes of the history and in whatever state of a session.
-/

namespace AttentionScheduler

variable {n : Nat}

namespace Tensor

variable {procs window proc feature time : Nat} {t u : Tensor}

def place (procs window : Nat) :
    Fin procs × Fin Feature.count × Fin window ≃ Fin (procs * Feature.count * window) :=
  (Equiv.prodAssoc _ _ _).symm.trans ((finProdFinEquiv.prodCongr (.refl _)).trans finProdFinEquiv)

theorem val_place (proc : Fin procs) (feature : Fin Feature.count) (time : Fin window) :
    (place procs window (proc, feature, time)).val =
      (proc * Feature.count + feature) * window + time := by
  change time.val + window * (feature.val + Feature.count * proc.val) = _
  ring

/-- A read that is given its index from elsewhere. -/
def sampleBy (t : Tensor) (index : Nat → Nat → Nat → Except Fault Nat) (proc feature time : Nat) :
    Except Fault Single :=
  if proc < t.maxProcs ∧ feature < Feature.count ∧ time < t.timeWindow then do
    let i ← index proc feature time
    match t.history[i]? with
    | some x => .ok x
    | none => .error (.outOfBounds t.history.size i)
  else .ok .zero

theorem sampleBy_cellIndex (t : Tensor) : t.sampleBy t.cellIndex = t.sample := rfl

/-- The index of a cell is found without a fault, no two cells share one, and none is left over. A read
outside the bounds is answered whatever its index would be, a fault included. -/
structure LaidOut (procs window : Nat) (t : Tensor) : Prop where
  places : ∃ place : Fin procs × Fin 8 × Fin window ≃ Fin t.history.size, ∀ proc feature time,
    (place (proc, feature, time)).val = (proc * 8 + feature) * window + time ∧
    t.cellIndex proc feature time = .ok (place (proc, feature, time)) ∧
    ∀ cells : Fin t.history.size → Single,
      { t with history := .ofFn cells }.sample proc feature time = .ok (cells (place (proc, feature, time)))
  reads : t.sampleBy t.cellIndex = t.sample
  outside : ∀ proc feature time, ¬ (proc < procs ∧ feature < 8 ∧ time < window) →
    ∀ index, t.sampleBy index proc feature time = .ok .zero

/-- One access, also one that breaks off. The active count may become anything. -/
inductive Access : Tensor → Tensor → Prop
  | called (t : Tensor) (call : TensorCall) : Access t ((t.call call).stateOr t)
  | counted (t : Tensor) (active : Nat) : Access t { t with active }

/-- A tensor of these sizes, after any accesses to the one that was made. -/
def Reached (procs window : Nat) (t : Tensor) : Prop :=
  ∃ t₀, create procs window = .ok t₀ ∧ Relation.ReflTransGen Access t₀ t

theorem Reached.access (ht : t.Reached procs window) (h : t.Access u) : u.Reached procs window := by
  obtain ⟨t₀, hcreate, hreach⟩ := ht
  exact ⟨t₀, hcreate, hreach.tail h⟩

structure Blank (procs window : Nat) (t : Tensor) : Prop where
  maxProcs : t.maxProcs = procs
  timeWindow : t.timeWindow = window
  history : t.history = .replicate (procs * Feature.count * window) .zero
  room : procs * Feature.count * window < Word.limit

theorem blank_of_create (h : create procs window = .ok t) : t.Blank procs window := by
  obtain ⟨rfl, hroom, -⟩ := eq_of_create h
  exact ⟨rfl, rfl, rfl, hroom⟩

theorem eq_of_advance {now : Tick} {slot : Nat} (h : t.advance now = .ok (u, slot)) :
    u = { t with slot, stamps := t.stamps.setIfInBounds slot now } := by
  obtain ⟨next, -, h⟩ := Word.ok_of_bind h
  obtain ⟨slot, -, h⟩ := Word.ok_of_bind h
  split at h <;> cases h
  rfl

theorem Blank.access (ht : t.Blank procs window) (h : t.Access u) : u.Blank procs window := by
  cases h with
  | counted active => exact { ht with }
  | called call =>
    cases call with
    | advance now =>
      rw [Tensor.call]
      cases hadvance : t.advance now with
      | error fault => exact ht
      | ok r =>
        change r.1.Blank procs window
        rw [eq_of_advance hadvance]
        exact { ht with }
    | sample proc feature time =>
      rw [Tensor.call]
      cases t.sample proc feature time <;> exact ht
    | slot | timestamp | timestamps | info => exact ht

theorem Reached.blank (ht : t.Reached procs window) : t.Blank procs window := by
  obtain ⟨t₀, hcreate, hreach⟩ := ht
  induction hreach with
  | refl => exact blank_of_create hcreate
  | tail _ h ih => exact ih.access h

theorem Blank.cellIndex (ht : t.Blank procs window) (proc : Fin procs) (feature : Fin Feature.count)
    (time : Fin window) :
    t.cellIndex proc feature time = .ok (place procs window (proc, feature, time)) := by
  obtain ⟨rfl, rfl, -, hroom⟩ := ht
  rw [val_place]
  exact cellIndex_eq proc.isLt feature.isLt time.isLt (Nat.le_of_lt hroom)

theorem sample_of_index {index : Nat} {x : Single}
    (hin : proc < t.maxProcs ∧ feature < Feature.count ∧ time < t.timeWindow)
    (hindex : t.cellIndex proc feature time = .ok index) (hx : t.history[index]? = some x) :
    t.sample proc feature time = .ok x := by
  rw [sample, if_pos hin, hindex]
  simp only [bind, Except.bind, hx]

theorem Blank.laidOut (ht : t.Blank procs window) : t.LaidOut procs window := by
  have hsize : t.history.size = procs * Feature.count * window := by
    rw [ht.history, Array.size_replicate]
  let place := (place procs window).trans (finCongr hsize.symm)
  refine ⟨⟨place, fun proc feature time => ⟨val_place proc feature time, ?_, fun cells => ?_⟩⟩,
    t.sampleBy_cellIndex, ?_⟩
  · exact ht.cellIndex proc feature time
  · have hcell : (Array.ofFn cells)[(place (proc, feature, time)).val]? =
        some (cells (place (proc, feature, time))) := by
      rw [Array.getElem?_ofFn, dif_pos (place (proc, feature, time)).isLt]
    refine sample_of_index ?_ (ht.cellIndex proc feature time) hcell
    exact ⟨ht.maxProcs ▸ proc.isLt, feature.isLt, ht.timeWindow ▸ time.isLt⟩
  · intro proc feature time hout index
    refine if_neg ?_
    rwa [ht.maxProcs, ht.timeWindow]

theorem Blank.sample (ht : t.Blank procs window) (proc feature time : Nat) :
    t.sample proc feature time = .ok .zero := by
  by_cases hin : proc < procs ∧ feature < Feature.count ∧ time < window
  · obtain ⟨hproc, hfeature, htime⟩ := hin
    have hplace := (place procs window (⟨proc, hproc⟩, ⟨feature, hfeature⟩, ⟨time, htime⟩)).isLt
    refine sample_of_index ?_ (ht.cellIndex ⟨proc, hproc⟩ ⟨feature, hfeature⟩ ⟨time, htime⟩) ?_
    · exact ⟨ht.maxProcs ▸ hproc, hfeature, ht.timeWindow ▸ htime⟩
    · rw [ht.history, Array.getElem?_replicate, if_pos hplace]
  · exact ht.laidOut.outside proc feature time hin t.cellIndex

end Tensor

def Outline.Reached (o : Outline) : Prop :=
  ∀ t, o.ring? = some t → t.Reached o.config.maxProcs.toNat o.config.timeWindow.toNat

namespace Allocator

variable {x y : Allocator n}

theorem reached_iff : x.outline.Reached ↔ ∀ core, x.core? = some core →
    core.tensor.Reached x.config.maxProcs.toNat x.config.timeWindow.toNat := by
  -- The outline leaves out the active count, and an access may set it to anything.
  have hcount (t : Tensor) : Tensor.Access { t with active := 0 } t := .counted _ t.active
  constructor
  · intro h core hc
    have hring : x.outline.ring? = some { core.tensor with active := 0 } := by rw [outline, hc]; rfl
    exact (h _ hring).access (hcount core.tensor)
  · intro h t ht
    obtain ⟨core, hc, rfl⟩ := Option.map_eq_some_iff.mp ht
    exact (h core hc).access (.counted _ 0)

theorem reached_of_pending (hc : x.core? = none) : x.outline.Reached :=
  reached_iff.mpr fun core h => by cases hc.symm.trans h

theorem Begins.reached (h : x.Begins y) : y.outline.Reached := by
  obtain ⟨-, core, hbuild, hy⟩ := h
  rw [hy, reached_iff]
  intro core' hcore
  cases (core?_begun x core).symm.trans hcore
  exact ⟨core.tensor, Core.tensor_of_build hbuild, .refl⟩

end Allocator

namespace Host

variable {h k : Host n} {core : Core n} {t : Tensor}

theorem Moves.reached (hk : h.Moves k) (hh : h.allocator.outline.Reached) :
    k.allocator.outline.Reached := by
  obtain hkeeps | hbegins := hk
  · exact (congrArg Outline.Reached hkeeps).mpr hh
  · exact hbegins.reached

theorem reached_withCore (hc : h.allocator.core? = some core) (hh : h.allocator.outline.Reached)
    (ht : core.tensor.Access t) :
    (h.withCore { core with tensor := t }).allocator.outline.Reached := by
  refine Allocator.reached_iff.mpr fun core' hcore => ?_
  cases (Allocator.core?_withCore h.allocator { core with tensor := t }).symm.trans hcore
  exact (Allocator.reached_iff.mp hh core hc).access ht

theorem callTensor_reached (hh : h.allocator.outline.Reached) (call : TensorCall) :
    (h.callTensor call).Leaves (·.allocator.outline.Reached) := by
  cases hc : h.allocator.core? with
  | none =>
    rw [callTensor_of_none hc]
    exact hh
  | some core =>
    have haccess := Tensor.Access.called core.tensor call
    rw [callTensor_of_core hc]
    cases hcall : core.tensor.call call with
    | stuck stop => trivial
    | returned t answer =>
      rw [hcall] at haccess
      exact reached_withCore hc hh haccess
    | faulted t fault =>
      rw [hcall] at haccess
      exact reached_withCore hc hh haccess

theorem stampRing_reached (hh : h.allocator.outline.Reached) (now : Tick) :
    (h.stampRing now).Leaves (·.allocator.outline.Reached) := by
  unfold stampRing
  split
  · exact hh
  · next core hc =>
    have haccess := Tensor.Access.called core.tensor (.advance now)
    rw [Tensor.call] at haccess
    split
    · next t slot hadvance =>
      rw [hadvance] at haccess
      exact reached_withCore hc hh haccess
    · exact hh

theorem refresh_reached (hh : h.allocator.outline.Reached) (clock : Clock) (p : Fin n) :
    (h.refresh clock p).Leaves (·.allocator.outline.Reached) := by
  unfold refresh
  dsimp only
  split
  · split
    · exact hh
    · split
      · exact hh
      · exact (stampRing_reached (h := h.touch p _) hh clock.now).bind fun k _ hk => hk
  · exact hh

theorem call_reached (hh : h.allocator.outline.Reached) (clock : Clock) (call : HostCall n) :
    (h.call clock call).Leaves (·.allocator.outline.Reached) := by
  cases hcall : call.outlines with
  | false => exact (h.call_moves clock hcall).imp fun k hk => hk.reached hh
  | true =>
    cases call with
    | setEmergency | setBudget => exact hh
    | refresh p => exact (refresh_reached hh clock p).mapAnswer _
    | tensor call => exact (callTensor_reached hh call).mapAnswer _
    | _ => cases hcall

end Host

namespace Session

variable {s t : Session n} {a : Nat} {c : Call n} {d : Done n} {es : List (Event n)}
  {os : List Opening} {queues : List (Nat × Single)} {ps : Vector (UInt64 × Bool) n}

def Reached (s : Session n) : Prop := ∀ a o, s.outlineAt a = some o → o.Reached

theorem reached_of_call (hc : s.call c = .ok d) (hs : s.Reached) : d.session.Reached := by
  intro a o ho
  by_cases hhere : ∃ call, c = .host a call
  · obtain ⟨call, rfl⟩ := hhere
    obtain ⟨seat, hseat⟩ := seat_of_call hc
    have hh := hs a _ (outlineAt_of_seat hseat)
    obtain ⟨k, hk, hd⟩ := leaves_of_call hseat hc (Host.call_reached (h := s.host seat) hh _ call)
    rw [hd, outlineAt_putHost hseat, if_pos rfl] at ho
    cases ho
    exact hk
  · rw [outlineAt_of_elsewhere hc fun call hcall => hhere ⟨call, hcall⟩] at ho
    exact hs a o ho

theorem Leads.reached (h : s.Leads es t) (hs : s.Reached) : t.Reached := by
  induction h with
  | refl => exact hs
  | call hc _ ih => exact ih (reached_of_call hc hs)
  | seize hb hseize _ ih =>
    refine ih fun a o ho => hs a o ?_
    rwa [same_of_seize (·.outlineAt a) (fun s b place => outlineAt_putBucket s b place a) hseize] at ho
  | @release s t place es _ ih =>
    refine ih fun a o ho => hs a o ?_
    rwa [same_of_release (·.outlineAt a) (fun s b place => outlineAt_putBucket s b place a)] at ho

theorem fresh_reached (os : List Opening) (queues : List (Nat × Single))
    (ps : Vector (UInt64 × Bool) n) : (fresh os queues (freshRoster ps)).Reached := by
  intro a o ho
  obtain ⟨x, hx, rfl⟩ := Option.map_eq_some_iff.mp ho
  obtain ⟨seat, hseat, rfl⟩ := seat_of_allocator? hx
  obtain ⟨o, lines, -, hmake⟩ := make_of_seat hseat
  rcases make_cases hmake with ⟨c, -, hx, -⟩ | ⟨k, hk, hx, -⟩
  · rw [hx]
    exact Allocator.reached_of_pending rfl
  · rw [hx, hk]
    exact (Host.moves_of_start _).reached (Allocator.reached_of_pending rfl)

theorem Leads.answers_sample {e : Event n} (h : (fresh os queues (freshRoster ps)).Leads es t)
    (he : e ∈ es) {proc feature time : Nat}
    (hcall : e.call = .host a (.tensor (.sample proc feature time)))
    (hon : e.before.started a = true) :
    e.done.answer = .host (.tensor (some (.sample .zero))) := by
  obtain ⟨⟨past, hpast⟩, hc⟩ := h.call_of_mem he
  rw [hcall] at hc
  obtain ⟨seat, hs⟩ := seat_of_call hc
  rw [started_of_seat hs] at hon
  obtain ⟨core, hcore⟩ := Option.isSome_iff_exists.mp hon
  have hseat := hpast.reached (fresh_reached os queues ps) a _ (outlineAt_of_seat hs)
  have hzero := (Allocator.reached_iff.mp hseat core hcore).blank.sample proc feature time
  have hread : (e.before.host seat).callTensor (.sample proc feature time) = .returned
      ((e.before.host seat).withCore core) (some (.sample .zero)) := by
    rw [Host.callTensor_of_core hcore, Tensor.call, hzero]
    rfl
  simp only [Session.call, callHost, hs, Host.call, hread] at hc
  rw [← Except.ok.inj hc]

/-- Every cell has a place of its own, found without a fault, and a read outside the bounds asks for none.
The rings of a session are such tensors, and no read of theirs is ever answered but with zero. -/
theorem cells_have_places_of_their_own :
    (∀ {procs window : Nat} {t : Tensor}, t.Reached procs window →
      t.LaidOut procs window ∧ ∀ proc feature time, t.sample proc feature time = .ok .zero) ∧
    ∀ {n : Nat} {os : List Opening} {queues : List (Nat × Single)} {ps : Vector (UInt64 × Bool) n}
      {es : List (Event n)} {t : Session n}, (fresh os queues (freshRoster ps)).Leads es t →
      (∀ a x core, t.allocator? a = some x → x.core? = some core →
        core.tensor.Reached x.config.maxProcs.toNat x.config.timeWindow.toNat) ∧
      ∀ e ∈ es, ∀ a proc feature time, e.call = .host a (.tensor (.sample proc feature time)) →
        e.before.started a = true → e.done.answer = .host (.tensor (some (.sample .zero))) := by
  constructor
  · intro procs window t ht
    exact ⟨ht.blank.laidOut, ht.blank.sample⟩
  · intro n os queues ps es t h
    refine ⟨fun a x core hx hcore => ?_, fun e he a proc feature time hcall hon => ?_⟩
    · have houtline : t.outlineAt a = some x.outline := by rw [outlineAt, hx]; rfl
      exact Allocator.reached_iff.mp (h.reached (fresh_reached os queues ps) a _ houtline) core hcore
    · exact h.answers_sample he hcall hon

/-- The last cell of two processes and three slots has the last of 48 places, and process `2 ^ 64 - 1` is
answered though its index would overflow. -/
theorem cells_have_places_of_their_own_after_a_refresh : ∃ t : Tensor,
    ∃ place : Fin 2 × Fin 8 × Fin 3 ≃ Fin t.history.size, ∃ es, ∃ s : Session 1, ∃ x core,
    t.Reached 2 3 ∧ t.slot = 1 ∧ t.active = 1 ∧
    t.cellIndex 1 7 2 = .ok (place (1, 7, 2)) ∧ (place (1, 7, 2)).val = 47 ∧
    t.sample 1 7 2 = .ok .zero ∧ t.cellIndex (2 ^ 64 - 1) 0 0 = .error .mulOverflow ∧
    t.sample (2 ^ 64 - 1) 0 0 = .ok .zero ∧
    (fresh [{ hz := 1000, config? := some { maxProcs := 2, timeWindow := 3 } }] []
      (freshRoster #v[(7, true)])).Leads es s ∧
    s.allocator? 0 = some x ∧ x.core? = some core ∧ core.tensor.Reached 2 3 ∧
    ∃ e ∈ es, e.call = .host 0 (.tensor (.sample 1 7 2)) ∧
      e.done.answer = .host (.tensor (some (.sample .zero))) := by
  obtain ⟨hpure, hsessions⟩ := cells_have_places_of_their_own
  let t₀ : Tensor := {
    maxProcs := 2, timeWindow := 3
    history := .replicate 48 .zero, stamps := .replicate 3 0 }
  let t : Tensor := { t₀ with slot := 1, stamps := #[0, 5, 0], active := 1 }
  have hreached : t.Reached 2 3 :=
    ⟨t₀, rfl, (Relation.ReflTransGen.single (.called t₀ (.advance 5))).tail (.counted _ 1)⟩
  obtain ⟨⟨⟨place, hplaces⟩, hreads, houtside⟩, hzero⟩ := hpure hreached
  obtain ⟨hval, hindex, -⟩ := hplaces 1 7 2
  let s₀ : Session 1 := fresh [{ hz := 1000, config? := some { maxProcs := 2, timeWindow := 3 } }] []
    (freshRoster #v[(7, true)])
  let calls : List (Call 1) := [.host 0 (.ready 0), .clock 0 (.set 5), .host 0 (.refresh 0),
    .host 0 (.tensor (.sample 1 7 2))]
  let steps : List (Step 1) := calls.map .call
  obtain ⟨s, h, hend⟩ := exists_leads s₀ steps
    (fun s => (s.allocator? 0).map fun x => (x.isStarted, x.config.maxProcs, x.config.timeWindow))
    (x := some (true, 2, 3)) (by decide +kernel)
  obtain ⟨x, hx, hvalues⟩ := Option.map_eq_some_iff.mp hend
  simp only [Prod.mk.injEq] at hvalues
  obtain ⟨hon, hprocs, hwindow⟩ := hvalues
  obtain ⟨core, hcore⟩ := Option.isSome_iff_exists.mp hon
  obtain ⟨hrings, hanswers⟩ := hsessions h
  have hring := hrings 0 x core hx hcore
  rw [hprocs, hwindow] at hring
  have hevent : (s₀.events steps)[3]?.map (fun e => (e.call, e.before.started 0)) =
      some (.host 0 (.tensor (.sample 1 7 2)), true) := by decide +kernel
  obtain ⟨e, he, hvalues⟩ := Option.map_eq_some_iff.mp hevent
  obtain ⟨hcall, hstarted⟩ := Prod.mk.inj hvalues
  have hmem := List.mem_of_getElem? he
  refine ⟨t, place, _, s, x, core, hreached, rfl, rfl, hindex, hval, hzero 1 7 2, by decide, ?_, h, hx,
    hcore, hring, e, hmem, hcall, hanswers e hmem 0 1 7 2 hcall hstarted⟩
  rw [← hreads]
  exact houtside _ 0 0 (by decide) _

end Session

end AttentionScheduler
