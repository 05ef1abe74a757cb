import AttentionScheduler.Proofs.Outline

/-!
The policy of an allocator is what the host has set last, and the start of the allocator is a write of its
own: it takes the budget from the configuration and clears the emergency flag.
-/

namespace AttentionScheduler

variable {n : Nat} {x y : Allocator n}

/-- Whether the allocator has started, and what the host is advised. -/
structure Policy where
  started : Bool
  emergency : Bool
  budget : UInt64

def Outline.policy (o : Outline) : Policy := ⟨o.ring?.isSome, o.emergency, o.budget⟩

namespace Allocator

def policy (x : Allocator n) : Policy := ⟨x.isStarted, x.emergency, x.budget⟩

theorem policy_eq (x : Allocator n) : x.policy = x.outline.policy := by
  rw [policy, isStarted, outline, Outline.policy, Option.isSome_map]

theorem policy_of_outline (h : y.outline = x.outline) : y.policy = x.policy := by
  rw [policy_eq, policy_eq, h]

theorem policy_withCore {core : Core n} (hc : x.core? = some core) (core' : Core n) :
    (x.withCore core').policy = x.policy := by
  rw [policy, policy, isStarted_of_core? hc]
  rfl

/-- What the policy is before the host sets it. -/
def Preset (x : Allocator n) : Prop :=
  x.policy = ⟨x.isStarted, false, if x.isStarted then x.config.attentionBudget else 0⟩

theorem preset_of_pending (h : x.policy = ⟨false, false, 0⟩) : x.Preset := by
  have hstarted : x.isStarted = false := congrArg Policy.started h
  rw [Preset, h, hstarted]
  rfl

/-- The allocator has not been started before, and the start has set the policy. -/
def Opens (x y : Allocator n) : Prop :=
  x.isStarted = false ∧ y.policy = ⟨true, false, x.config.attentionBudget⟩

theorem Begins.opens (h : x.Begins y) : x.Opens y := by
  obtain ⟨hnone, core, -, hbegun⟩ := h
  exact ⟨by rw [isStarted, hnone]; rfl, policy_of_outline hbegun⟩

end Allocator

namespace HostCall

def emergency? : HostCall n → Option Bool
  | setEmergency on => some on
  | _ => none

def budget? : HostCall n → Option UInt64
  | setBudget budget => some budget
  | _ => none

end HostCall

namespace Host

variable {h k : Host n}

def Steady (h k : Host n) : Prop := k.allocator.policy = h.allocator.policy

/-- What becomes of the policy in a call that does not set it. -/
def Settles (h k : Host n) : Prop := h.Steady k ∨ h.allocator.Opens k.allocator

theorem Keeps.steady (hk : h.Keeps k) : h.Steady k := Allocator.policy_of_outline hk

theorem Moves.settles (hk : h.Moves k) : h.Settles k := hk.imp Keeps.steady Allocator.Begins.opens

theorem start_preset (h : Host n) (hpending : h.allocator.policy = ⟨false, false, 0⟩) :
    (h.start.stateOr h).allocator.Preset := by
  have hmoves := h.moves_of_start
  generalize h.start.stateOr h = k at hmoves
  obtain hsteady | ⟨_, hpolicy⟩ := hmoves.settles
  · exact Allocator.preset_of_pending (Eq.trans hsteady hpending)
  · have hstarted : k.allocator.isStarted = true := congrArg Policy.started hpolicy
    rw [Allocator.Preset, hpolicy, hstarted, hmoves.config]
    rfl

theorem stampRing_steady (h : Host n) (now : Tick) : (h.stampRing now).Leaves h.Steady := by
  unfold stampRing
  split
  · exact rfl
  · next core hc =>
    split
    · exact Allocator.policy_withCore hc _
    · exact rfl

theorem refresh_steady (h : Host n) (clock : Clock) (p : Fin n) :
    (h.refresh clock p).Leaves h.Steady := by
  unfold refresh
  dsimp only
  split
  · split
    · exact rfl
    · split
      · exact rfl
      · have hring : ((h.touch p _).stampRing clock.now).Leaves h.Steady :=
          (h.touch p (·.refreshed h.allocator.config clock)).stampRing_steady clock.now
        exact hring.bind fun k _ hk => hk
  · exact rfl

theorem callTensor_steady (h : Host n) (call : TensorCall) : (h.callTensor call).Leaves h.Steady := by
  unfold callTensor
  split
  · exact rfl
  · next core hc =>
    cases core.tensor.call call <;> first | trivial | exact Allocator.policy_withCore hc _

theorem call_settles (h : Host n) (clock : Clock) {call : HostCall n} (hon : call.emergency? = none)
    (hbudget : call.budget? = none) : (h.call clock call).Leaves h.Settles := by
  cases houtlines : call.outlines with
  | false => exact (h.call_moves clock houtlines).imp fun _ => Moves.settles
  | true =>
    cases call with
    | setEmergency => cases hon
    | setBudget => cases hbudget
    | refresh p => exact ((h.refresh_steady clock p).imp fun _ => .inl).mapAnswer _
    | tensor call => exact ((h.callTensor_steady call).imp fun _ => .inl).mapAnswer _
    | _ => cases houtlines

end Host

namespace Call

def emergency? (a : Nat) : Call n → Option Bool
  | host b call => if b = a then call.emergency? else none
  | _ => none

def budget? (a : Nat) : Call n → Option UInt64
  | host b call => if b = a then call.budget? else none
  | _ => none

theorem emergency?_self (a : Nat) (call : HostCall n) :
    (Call.host a call).emergency? a = call.emergency? := if_pos rfl

theorem budget?_self (a : Nat) (call : HostCall n) :
    (Call.host a call).budget? a = call.budget? := if_pos rfl

end Call

namespace Session

variable {s t : Session n} {a : Nat} {seat : Seat n}

def policyAt (s : Session n) (a : Nat) : Option Policy := (s.allocator? a).map (·.policy)

def emergencyOf (s : Session n) (a : Nat) : Bool := ((s.policyAt a).map (·.emergency)).getD false

def budgetOf (s : Session n) (a : Nat) : UInt64 := ((s.policyAt a).map (·.budget)).getD 0

theorem started_eq (s : Session n) (a : Nat) :
    s.started a = ((s.policyAt a).map (·.started)).getD false := by
  rw [started, policyAt]
  cases s.allocator? a <;> rfl

theorem policyAt_of_seat (hs : s.seat a = .ok seat) : s.policyAt a = some seat.allocator.policy := by
  rw [policyAt, allocator?_of_seat hs]
  rfl

theorem policyAt_putHost (hs : s.seat a = .ok seat) (k : Host n) (b : Nat) :
    (s.putHost a k).policyAt b = if b = a then some k.allocator.policy else s.policyAt b := by
  rw [policyAt, allocator?_putHost hs]
  split <;> rfl

theorem policyAt_of_outlineAt (h : t.outlineAt a = s.outlineAt a) : t.policyAt a = s.policyAt a := by
  have heq (s : Session n) : s.policyAt a = (s.outlineAt a).map Outline.policy := by
    rw [policyAt, outlineAt, Option.map_map]
    exact congrArg (fun f => (s.allocator? a).map f) (funext Allocator.policy_eq)
  rw [heq, heq, h]

theorem policyAt_putBucket (s : Session n) (b : Bucket n) (place : Place) (a : Nat) :
    (s.putBucket b place).policyAt a = s.policyAt a :=
  policyAt_of_outlineAt (outlineAt_putBucket s b place a)

end Session

namespace Event

def starts (a : Nat) (e : Event n) : Bool := !e.before.started a && e.done.session.started a

/-- The emergency flag that the event gives to the allocator. -/
def emergency? (a : Nat) (e : Event n) : Option Bool :=
  if e.starts a then some false else e.call.emergency? a

/-- The budget that the event gives to the allocator. -/
def budget? (a : Nat) (e : Event n) : Option UInt64 :=
  if e.starts a then some (e.before.configOf a).attentionBudget else e.call.budget? a

/-- The allocator has the policy that the event gives to it, or else the one from before. -/
structure Heeded (a : Nat) (e : Event n) : Prop where
  started : e.before.started a = true → e.done.session.started a = true
  emergency : e.done.session.emergencyOf a = (e.emergency? a).getD (e.before.emergencyOf a)
  budget : e.done.session.budgetOf a = (e.budget? a).getD (e.before.budgetOf a)

end Event

namespace Session

variable {s t : Session n} {a b : Nat} {seat : Seat n} {c : Call n} {d : Done n}
  {es : List (Event n)} {os : List Opening} {queues : List (Nat × Single)}
  {ps : Vector (UInt64 × Bool) n} {x : Allocator n}

theorem starts_of_eq (h : d.session.started a = s.started a) : Event.starts a ⟨s, c, d⟩ = false := by
  rw [Event.starts, h, Bool.not_and_self]

theorem heeded_of_steady (h : d.session.policyAt a = s.policyAt a) (hon : c.emergency? a = none)
    (hbudget : c.budget? a = none) : Event.Heeded a ⟨s, c, d⟩ := by
  have hstarted : d.session.started a = s.started a := by rw [started_eq, started_eq, h]
  have hstarts : Event.starts a ⟨s, c, d⟩ = false := starts_of_eq hstarted
  refine ⟨hstarted.trans, ?_, ?_⟩
  · rw [Event.emergency?, hstarts, hon, emergencyOf, h]
    rfl
  · rw [Event.budget?, hstarts, hbudget, budgetOf, h]
    rfl

theorem heeded_of_set (hs : s.seat a = .ok seat) {on : Bool} {budget : UInt64}
    (h : d.session.policyAt a = some ⟨seat.allocator.isStarted, on, budget⟩)
    (hon : on = (c.emergency? a).getD seat.allocator.emergency)
    (hbudget : budget = (c.budget? a).getD seat.allocator.budget) : Event.Heeded a ⟨s, c, d⟩ := by
  have hbefore := policyAt_of_seat hs
  have hstarted : d.session.started a = s.started a := by
    rw [started_eq, started_eq, h, hbefore]
    rfl
  have hstarts : Event.starts a ⟨s, c, d⟩ = false := starts_of_eq hstarted
  refine ⟨hstarted.trans, ?_, ?_⟩
  · rw [Event.emergency?, hstarts, emergencyOf, emergencyOf, h, hbefore]
    exact hon
  · rw [Event.budget?, hstarts, budgetOf, budgetOf, h, hbefore]
    exact hbudget

theorem heeded_of_opens (hs : s.seat a = .ok seat) {k : Host n} (hd : d.session = s.putHost a k)
    (hopens : seat.allocator.Opens k.allocator) : Event.Heeded a ⟨s, c, d⟩ := by
  obtain ⟨hpending, hpolicy⟩ := hopens
  have hbefore : s.started a = false := by
    rw [started_eq, policyAt_of_seat hs]
    exact hpending
  have hafter : d.session.policyAt a = some ⟨true, false, (s.configOf a).attentionBudget⟩ := by
    rw [hd, policyAt_putHost hs, if_pos rfl, hpolicy, configOf_of_seat hs]
  have hstarted : d.session.started a = true := by
    rw [started_eq, hafter]
    rfl
  have hstarts : Event.starts a ⟨s, c, d⟩ = true := by
    rw [Event.starts, hbefore, hstarted]
    rfl
  refine ⟨fun _ => hstarted, ?_, ?_⟩
  · rw [Event.emergency?, hstarts, emergencyOf, hafter]
    rfl
  · rw [Event.budget?, hstarts, budgetOf, hafter]
    rfl

theorem host_heeded {call : HostCall n} (hs : s.seat a = .ok seat)
    (hc : s.call (.host a call) = .ok d) : Event.Heeded a ⟨s, .host a call, d⟩ := by
  have hafter {k : Host n} {policy : Policy} (hd : d.session = s.putHost a k)
      (hk : k.allocator.policy = policy) : d.session.policyAt a = some policy := by
    rw [hd, policyAt_putHost hs, if_pos rfl, hk]
  have moves (hon : call.emergency? = none) (hbudget : call.budget? = none) :
      Event.Heeded a ⟨s, .host a call, d⟩ := by
    obtain ⟨k, hk, hd⟩ := leaves_of_call hs hc ((s.host seat).call_settles (s.clock seat) hon hbudget)
    obtain hsteady | hopens := hk
    · refine heeded_of_steady ?_ ((Call.emergency?_self a call).trans hon)
        ((Call.budget?_self a call).trans hbudget)
      exact (hafter hd hsteady).trans (policyAt_of_seat hs).symm
    · exact heeded_of_opens hs hd hopens
  cases call with
  | setEmergency on =>
    obtain ⟨k, hk, hd⟩ := leaves_of_call hs hc (P := fun k =>
      k.allocator.policy = { seat.allocator.policy with emergency := on }) rfl
    exact heeded_of_set hs (hafter hd hk) (by rw [Call.emergency?_self]; rfl)
      (by rw [Call.budget?_self]; rfl)
  | setBudget budget =>
    obtain ⟨k, hk, hd⟩ := leaves_of_call hs hc (P := fun k =>
      k.allocator.policy = { seat.allocator.policy with budget }) rfl
    exact heeded_of_set hs (hafter hd hk) (by rw [Call.emergency?_self]; rfl)
      (by rw [Call.budget?_self]; rfl)
  | _ => exact moves rfl rfl

theorem call_heeded (hc : s.call c = .ok d) (a : Nat) : Event.Heeded a ⟨s, c, d⟩ := by
  have elsewhere (helse : ∀ call, c ≠ .host a call) (hon : c.emergency? a = none)
      (hbudget : c.budget? a = none) : Event.Heeded a ⟨s, c, d⟩ :=
    heeded_of_steady (policyAt_of_outlineAt (outlineAt_of_elsewhere hc helse)) hon hbudget
  cases c with
  | host b call =>
    by_cases hb : b = a
    · subst hb
      obtain ⟨seat, hs⟩ := seat_of_call hc
      exact host_heeded hs hc
    · exact elsewhere (by simp [hb]) (if_neg hb) (if_neg hb)
  | clock | record | bucket => exact elsewhere (by simp) rfl rfl

theorem make_preset {o : Opening} {procs : Roster n} {lines : List Line}
    (h : o.make procs = .ok (x, lines)) : x.Preset := by
  rcases make_cases h with ⟨c, -, rfl, -⟩ | ⟨k, hk, rfl, -⟩
  · exact Allocator.preset_of_pending rfl
  · rw [hk]
    exact Host.start_preset _ rfl

theorem preset_fresh (h : (fresh os queues (freshRoster ps)).allocator? a = some x) : x.Preset := by
  cases hs : (fresh os queues (freshRoster ps)).seat a with
  | error stop =>
    rw [allocator?, hs] at h
    cases h
  | ok seat =>
    rw [allocator?_of_seat hs] at h
    cases h
    obtain ⟨o, lines, -, hmake⟩ := make_of_seat hs
    exact make_preset hmake

theorem started_putBucket (s : Session n) (b : Bucket n) (place : Place) (a : Nat) :
    (s.putBucket b place).started a = s.started a := by
  rw [started_eq, started_eq, policyAt_putBucket]

theorem Leads.counts_starts (h : s.Leads es t) (a : Nat) :
    es.countP (Event.starts a) + (s.started a).toNat = (t.started a).toNat := by
  have hput (s : Session n) b place := s.started_putBucket b place a
  induction h with
  | refl s => rw [List.countP_nil, Nat.zero_add]
  | @call s t c d es hc _ ih =>
    have hkept : s.started a = true → d.session.started a = true := (call_heeded hc a).started
    rw [← ih, List.countP_cons, Nat.add_assoc, Nat.add_right_inj, Event.starts]
    dsimp only
    cases hbefore : s.started a with
    | false => cases d.session.started a <;> rfl
    | true =>
      rw [hkept hbefore]
      rfl
  | seize hb hs _ ih => rw [← ih, same_of_seize (·.started a) hput hs]
  | release place _ ih => rw [← ih, same_of_release (·.started a) hput]

/-- The policy is what the host has set last, and the one start of the allocator sets it too. -/
theorem Leads.heeds (h : (fresh os queues (freshRoster ps)).Leads es t)
    (hx : t.allocator? a = some x) :
    x.emergency = (es.filterMap (Event.emergency? a)).getLast?.getD false ∧
    x.budget = (es.filterMap (Event.budget? a)).getLast?.getD
      (if (fresh os queues (freshRoster ps)).started a then x.config.attentionBudget else 0) ∧
    es.countP (Event.starts a) ≤ 1 := by
  obtain ⟨x₀, hx₀, hevolves⟩ := h.evolves a x hx
  have hfresh : (fresh os queues (freshRoster ps)).policyAt a = some
      ⟨x₀.isStarted, false, if x₀.isStarted then x.config.attentionBudget else 0⟩ := by
    rw [policyAt, hx₀, hevolves.config]
    exact congrArg some (preset_fresh hx₀)
  have hnow : t.policyAt a = some x.policy := by
    rw [policyAt, hx]
    rfl
  have hemergency : t.emergencyOf a = (es.filterMap (Event.emergency? a)).getLast?.getD
      ((fresh os queues (freshRoster ps)).emergencyOf a) :=
    h.last_at (x := fun s => s.emergencyOf a)
      (fun s b place => congrArg (fun p? => (p?.map Policy.emergency).getD false)
        (policyAt_putBucket s b place a))
      fun e he => (call_heeded (h.call_of_mem he).2 a).emergency
  have hbudget : t.budgetOf a = (es.filterMap (Event.budget? a)).getLast?.getD
      ((fresh os queues (freshRoster ps)).budgetOf a) :=
    h.last_at (x := fun s => s.budgetOf a)
      (fun s b place => congrArg (fun p? => (p?.map Policy.budget).getD 0)
        (policyAt_putBucket s b place a))
      fun e he => (call_heeded (h.call_of_mem he).2 a).budget
  rw [emergencyOf, emergencyOf, hnow, hfresh] at hemergency
  rw [budgetOf, budgetOf, hnow, hfresh] at hbudget
  refine ⟨hemergency, ?_, ?_⟩
  · rw [started_eq, hfresh]
    exact hbudget
  · have hstarts := h.counts_starts a
    have honce := (t.started a).toNat_le
    omega

theorem heeds_past_a_late_start : ∃ es, ∃ t : Session 1, ∃ x,
    (fresh [{ hz := 1000, config? := some { attentionBudget := 42 } }] []
      (freshRoster (.ofFn fun p => (.ofNat p, true)))).Leads es t ∧
    t.allocator? 0 = some x ∧ es.countP (Event.starts 0) = 1 ∧
    es.filterMap (Event.emergency? 0) = [true, false, false, true] ∧
    es.filterMap (Event.budget? 0) = [7, 42] ∧ x.emergency = true ∧ x.budget = 42 := by
  let s : Session 1 := fresh [{ hz := 1000, config? := some { attentionBudget := 42 } }] []
    (freshRoster (.ofFn fun p => (.ofNat p, true)))
  let steps : List (Step 1) :=
    [.call (.host 0 (.setEmergency true)), .call (.host 0 (.setBudget 7)), .call (.host 0 (.ready 0)),
      .call (.host 0 (.setEmergency false)), .call (.host 0 .select),
      .call (.host 0 (.setEmergency true)), .call (.host 0 .start)]
  obtain ⟨t, h, ht⟩ := exists_leads s steps (fun t => (t.allocator? 0).isSome) (x := true)
    (by decide +kernel)
  obtain ⟨x, hx⟩ := Option.isSome_iff_exists.mp ht
  obtain ⟨hemergency, hbudget, -⟩ := h.heeds hx
  have hon : (s.events steps).filterMap (Event.emergency? 0) = [true, false, false, true] := by
    decide +kernel
  have hset : (s.events steps).filterMap (Event.budget? 0) = [7, 42] := by decide +kernel
  exact ⟨_, t, x, h, hx, by decide +kernel, hon, hset, hemergency.trans (by rw [hon]; rfl),
    hbudget.trans (by rw [hset]; rfl)⟩

/-- What is set before the start is lost to it. -/
theorem policy_lost_to_the_start : ∃ es, ∃ t : Session 1, ∃ x,
    (fresh [{ hz := 1000, config? := some {} }] []
      (freshRoster (.ofFn fun p => (.ofNat p, true)))).Leads es t ∧ t.allocator? 0 = some x ∧
    (es.filterMap fun e => e.call.emergency? 0).getLast? = some true ∧ x.emergency = false ∧
    (es.filterMap fun e => e.call.budget? 0).getLast? = some 7 ∧ x.budget = 1000 := by
  let s : Session 1 := fresh [{ hz := 1000, config? := some {} }] []
    (freshRoster (.ofFn fun p => (.ofNat p, true)))
  let steps : List (Step 1) := [.call (.host 0 (.setEmergency true)), .call (.host 0 (.setBudget 7)),
    .call (.host 0 (.ready 0))]
  obtain ⟨t, h, ht⟩ := exists_leads s steps
    (fun t => (t.allocator? 0).map fun x => (x.emergency, x.budget)) (x := some (false, 1000))
    (by decide +kernel)
  obtain ⟨x, hx, hvalues⟩ := Option.map_eq_some_iff.mp ht
  obtain ⟨hemergency, hbudget⟩ := Prod.mk.inj hvalues
  exact ⟨_, t, x, h, hx, by decide +kernel, hemergency, by decide +kernel, hbudget⟩

end Session

end AttentionScheduler
