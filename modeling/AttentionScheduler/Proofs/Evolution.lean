import AttentionScheduler.Proofs.Records
import AttentionScheduler.Proofs.Shapes

/-!
No call takes an allocator out of its shape, and each call tracks one process at most. A call on an
allocator faults only if there was no room for its buckets, or for one more process in its active count.
-/

namespace AttentionScheduler

variable {n k m : Nat} {p : Fin n} {x y : Allocator n}

theorem Filed.push_faultless (f : Filed n) (p : Fin n) : (f.push p).Faultless := by
  unfold push
  split
  · trivial
  · split <;> trivial

namespace Shelf

variable {s t : Shelf n} {level : Nat}

theorem Shifts.length (h : s.Shifts t) : t.buckets.length = s.buckets.length := by
  have hlength := congrArg List.length h.labels
  simpa only [List.length_map] using hlength

theorem round_faultless (hl : level < s.buckets.length) (p : Fin n) :
    (s.round level p).Faultless := by
  unfold round
  split
  · next hf => simp [filed?, hl] at hf
  · next target _ =>
    split
    · exact (target.push_faultless p).map
    · split
      · trivial
      · split <;> trivial

theorem rounds_faultless (k : Nat) (hl : level < s.buckets.length) (p : Fin n) :
    (s.rounds k level p).Faultless := by
  induction k generalizing s with
  | zero => trivial
  | succ k ih =>
    have hshifts := s.shifts_round level p
    refine (round_faultless hl p).bind fun t filing? hr => ?_
    rw [hr] at hshifts
    cases filing? with
    | some filing => trivial
    | none => exact ih (hshifts.length ▸ hl)

end Shelf

namespace Host

variable {h g : Host n} {core : Core n} {α β : Type}

/-- How a call on `x` ends that tracks `k` processes at most. -/
def Evolves (k : Nat) (x : Allocator n) : Ending (Host n) α → Prop
  | .returned h _ => x.Evolves k h.allocator
  | .faulted h _ => x.Evolves k h.allocator ∧ ¬ x.Sturdy k
  | .stuck _ => True

theorem evolves_of_leaves {e : Ending (Host n) α} (he : e.Leaves fun g => x.Evolves k g.allocator)
    (hx : x.Sturdy k → e.Faultless) : Evolves k x e := by
  cases e with
  | returned g a => exact he
  | faulted g fault => exact ⟨he, hx⟩
  | stuck stop => trivial

theorem Evolves.bind {e : Ending (Host n) α} {f : Host n → α → Ending (Host n) β}
    (he : Evolves k x e) (hf : ∀ h a, e = .returned h a → Evolves m h.allocator (f h a)) :
    Evolves (k + m) x (e.bind f) := by
  cases e with
  | stuck stop => trivial
  | faulted h fault =>
    exact ⟨he.1.mono (Nat.le_add_right k m), fun hx => he.2 (hx.mono (Nat.le_add_right k m))⟩
  | returned h a =>
    have hlast := hf h a rfl
    rw [Ending.bind_returned]
    cases hg : f h a with
    | stuck stop => trivial
    | returned g b =>
      rw [hg] at hlast
      exact he.trans hlast
    | faulted g fault =>
      rw [hg] at hlast
      exact ⟨he.trans hlast.1, fun hx => hlast.2 (he.sturdy hx)⟩

theorem Evolves.returns {e : Ending (Host n) α} (he : Evolves k x e)
    {f : Host n → α → Host n} {g : Host n → α → β}
    (hf : ∀ h a, e = .returned h a → h.allocator.Evolves 0 (f h a).allocator) :
    Evolves k x (e.bind fun h a => .returned (f h a) (g h a)) :=
  he.bind (m := 0) hf

theorem start_evolves (h : Host n) : Evolves 0 h.allocator h.start := by
  unfold start
  dsimp only
  split
  · exact .refl _
  · next hs => exact ⟨.refl _, fun hx => hx.unbroken hs⟩
  · split
    · next fault hb =>
      constructor
      · exact {
          config := rfl
          shaped := fun hx => ⟨hx.config, fun _ h => by cases h⟩
          active := fun _ => Nat.zero_le _
          unbroken := fun _ => .inr fun core h => by cases hb.symm.trans h }
      · intro hx
        obtain ⟨core, _, _, hbuild⟩ := Core.build_of_room (n := n) hx.shaped.config hx.room
        cases hb.symm.trans hbuild
    · next core hb =>
      refine ⟨rfl, fun hx => ⟨hx.config, fun core' hcore' => ?_⟩, ?_, fun hfailed => by cases hfailed⟩
      · cases hcore'
        exact (Core.shaped_of_build hx.config hb).1
      · intro hx
        change core.tensor.active ≤ _
        rw [(Core.shaped_of_build hx.config hb).2]
        exact Nat.zero_le _

theorem sturdy_of_start (hh : h.allocator.Sturdy 0) :
    (h.start.stateOr h).allocator.Sturdy 0 ∧
      (h.start.stateOr h).allocator.active ≤ h.allocator.active := by
  have hstart := h.start_evolves
  cases hs : h.start with
  | stuck stop => exact ⟨hh, Nat.le_refl _⟩
  | faulted g fault =>
    rw [hs] at hstart
    exact absurd hh hstart.2
  | returned g core =>
    rw [hs] at hstart
    exact ⟨Allocator.Evolves.sturdy (m := 0) hstart hh, hstart.active hh.shaped⟩

theorem enrol_evolves (hc : h.allocator.core? = some core) (p : Fin n) :
    Evolves 1 h.allocator (h.enrol core p) := by
  unfold enrol
  split
  · exact (Allocator.Evolves.refl h.allocator).mono (Nat.zero_le 1)
  · dsimp only
    by_cases hroom : core.tensor.active + 1 < Word.limit
    · have htrack : core.tensor.track = .ok { core.tensor with active := core.tensor.active + 1 } := by
        rw [Tensor.track, Word.add_eq_ok hroom]
        rfl
      rw [htrack]
      exact Allocator.evolves_of_tensor hc fun _ ht =>
        ⟨⟨ht.maxProcs, ht.timeWindow, ht.history, ht.stamps, ht.slot⟩, Nat.le_refl _⟩
    · have htrack : core.tensor.track = .error .addOverflow := by
        rw [Tensor.track, Word.add, if_neg hroom]
        rfl
      rw [htrack]
      refine ⟨(Allocator.Evolves.refl h.allocator).mono (Nat.zero_le 1), fun hx => hroom ?_⟩
      rw [← Allocator.active_of_core? hc]
      exact hx.active

theorem enter_evolves (h : Host n) (p : Fin n) : Evolves 1 h.allocator (h.enter p) := by
  refine Evolves.bind (m := 1) h.start_evolves fun g core hg => ?_
  have hcore : g.allocator.core? = some core := core?_of_start hg
  exact enrol_evolves (h := g.touch p _) hcore p

theorem place_faultless (hc : h.allocator.core? = some core) (hx : h.allocator.Shaped) (p : Fin n)
    (score : Single) : (h.place core p score).Faultless := by
  obtain ⟨level, hlevel, hscore⟩ := Level.exists_ofScore hx.config.levels score
  rw [← (hx.core core hc).length] at hlevel
  rw [place, hscore, Ending.ofExcept, Ending.bind_returned]
  have hfile : ((h.shelf core).file level p).Faultless := Shelf.rounds_faultless _ hlevel p
  refine hfile.map.bind fun k filing _ => ?_
  cases filing <;> trivial

theorem place_evolves (hc : h.allocator.core? = some core) (p : Fin n) (score : Single) :
    Evolves 0 h.allocator (h.place core p score) := by
  refine evolves_of_leaves ?_ fun hx => place_faultless hc hx.shaped p score
  unfold place
  cases Level.ofScore h.allocator.config.levels score with
  | error fault => exact .refl _
  | ok level =>
    have hfile := (h.shelf core).shifts_file level p
    simp only [Ending.ofExcept, Ending.bind_returned]
    refine (hfile.map (Q := fun k : Host n => h.allocator.Evolves 0 k.allocator) ?_).bind ?_
    · exact fun s hs => Allocator.evolves_of_labels hc hs.labels
    · intro k filing hk
      cases filing <;> exact hk.same rfl rfl

theorem ready_evolves (h : Host n) (p : Fin n) : Evolves 1 h.allocator (h.ready p) := by
  cases hcog : h.procs[p].cognitive with
  | false =>
    rw [ready, hcog]
    exact (Allocator.Evolves.refl h.allocator).mono (Nat.zero_le 1)
  | true =>
    rw [ready_eq hcog]
    refine Evolves.bind (m := 0) (h.enter_evolves p) fun k core hk => ?_
    have hends := h.enter_ends p
    rw [hk] at hends
    cases hends with
    | entered built procs => exact place_evolves built p _

theorem noteBusy_startup (levels : List Nat) (h : Host n) :
    (h.noteBusy levels).allocator.config = h.allocator.config ∧
      (h.noteBusy levels).allocator.startup = h.allocator.startup := by
  induction levels generalizing h with
  | nil => exact ⟨rfl, rfl⟩
  | cons level rest ih => exact ih _

theorem selectNext_evolves (h : Host n) (now : Tick) :
    h.allocator.Evolves 0 (h.selectNext now).1.allocator := by
  unfold selectNext
  split
  · exact .refl _
  · next core hc =>
    have hlabels := (Shelf.shifts_along h.procs core.buckets).labels
    obtain ⟨hconfig, hstartup⟩ := noteBusy_startup (h.shelf core).sweep.busy
      (h.withShelf core (h.shelf core).sweep.shelf)
    have hwalk := (Allocator.evolves_of_labels hc hlabels).same hconfig hstartup
    dsimp only
    split
    · exact hwalk
    · exact hwalk.same rfl rfl

theorem drainFor_evolves (k : Nat) (h : Host n) (now : Tick) :
    h.allocator.Evolves 0 (h.drainFor k now).1.allocator := by
  induction k generalizing h with
  | zero => exact .refl _
  | succ k ih =>
    have hfirst := h.selectNext_evolves now
    rw [drainFor]
    split
    · next g hg =>
      rw [hg] at hfirst
      exact hfirst
    · next g q hg =>
      rw [hg] at hfirst
      exact hfirst.trans (ih g)

theorem remove_evolves (h : Host n) (p : Fin n) :
    h.allocator.Evolves 0 (h.remove p).1.allocator := by
  unfold remove
  split
  · exact .refl _
  · next core hc =>
    have hshelf : h.allocator.Evolves 0
        (h.withShelf core ((h.shelf core).withdraw p).1).allocator :=
      Allocator.evolves_of_labels hc ((h.shelf core).shifts_withdraw p).labels
    dsimp only
    split
    · exact hshelf
    · exact hshelf.same rfl rfl
    · exact hshelf

theorem untrack_evolves (h : Host n) (p : Fin n) :
    h.allocator.Evolves 0 (h.untrack p).allocator := by
  unfold untrack
  split
  · dsimp only
    split
    · exact .refl _
    · next core hc =>
      exact Allocator.evolves_of_tensor hc fun _ ht =>
        ⟨⟨ht.maxProcs, ht.timeWindow, ht.history, ht.stamps, ht.slot⟩, Nat.sub_le _ _⟩
  · exact .refl _

theorem retire_evolves (h : Host n) (p : Fin n) :
    h.allocator.Evolves 0 (h.retire p).1.allocator := by
  have hremove := h.remove_evolves p
  unfold retire
  dsimp only
  split
  · exact hremove
  · exact hremove.trans (untrack_evolves _ p)

theorem callTensor_evolves (h : Host n) (call : TensorCall) :
    Evolves 0 h.allocator (h.callTensor call) := by
  unfold callTensor
  split
  · exact .refl _
  · next core hc =>
    cases he : core.tensor.call call with
    | stuck stop => trivial
    | returned t answer =>
      refine Allocator.evolves_of_tensor hc fun hconfig ht => ?_
      obtain ⟨t', _, hcall, ht', hactive⟩ := ht.call hconfig call
      cases he.symm.trans hcall
      exact ⟨ht', Nat.le_of_eq hactive⟩
    | faulted t fault =>
      constructor
      · refine Allocator.evolves_of_tensor hc fun hconfig ht => ?_
        obtain ⟨_, _, hcall, _, _⟩ := ht.call hconfig call
        cases he.symm.trans hcall
      · intro hx
        obtain ⟨_, _, hcall, _, _⟩ := (hx.shaped.core core hc).tensor.call hx.shaped.config call
        cases he.symm.trans hcall

theorem stampRing_evolves (h : Host n) (now : Tick) :
    Evolves 0 h.allocator (h.stampRing now) := by
  unfold stampRing
  split
  · exact .refl _
  · next core hc =>
    split
    · next t slot hadvance =>
      refine Allocator.evolves_of_tensor hc fun hconfig ht => ?_
      obtain ⟨t', _, hnext, ht', hactive⟩ := ht.advance hconfig now
      cases hadvance.symm.trans hnext
      exact ⟨ht', Nat.le_of_eq hactive⟩
    · next fault hadvance =>
      refine ⟨.refl _, fun hx => ?_⟩
      obtain ⟨_, _, hnext, _, _⟩ := (hx.shaped.core core hc).tensor.advance hx.shaped.config now
      cases hadvance.symm.trans hnext

theorem refresh_evolves (h : Host n) (clock : Clock) (p : Fin n) :
    Evolves 0 h.allocator (h.refresh clock p) := by
  unfold refresh
  dsimp only
  split
  · split
    · next hdivisor => exact ⟨.refl _, fun hx => hx.shaped.config.divisor hdivisor⟩
    · split
      · exact .refl _
      · refine (stampRing_evolves (h.touch p _) clock.now).returns (g := fun _ _ => ()) ?_
        exact fun _ _ _ => Allocator.evolves_of_startup rfl rfl
  · exact .refl _

theorem setFeature_evolves (h : Host n) (p : Fin n) (i : Nat) (x : Single) :
    h.allocator.Evolves 0 (h.setFeature p i x).allocator := by
  unfold setFeature
  split <;> exact .refl _

theorem dump_evolves (h : Host n) : Evolves 0 h.allocator h.dump := by
  unfold dump
  split
  · exact .refl _
  · split
    · trivial
    · exact .refl _

theorem dumpToLog_evolves (h : Host n) : Evolves 0 h.allocator h.dumpToLog := by
  refine h.dump_evolves.returns (g := fun _ _ => ()) fun k d? _ => ?_
  rw [foldl_say]
  exact .refl _

theorem viewBuckets_evolves (h : Host n) : Evolves 0 h.allocator h.viewBuckets := by
  unfold viewBuckets
  split
  · trivial
  · exact .refl _

theorem Evolves.mapAnswer {e : Ending (Host n) α} (he : Evolves k x e) (f : α → β) :
    Evolves k x (e.mapAnswer f) := by
  cases e <;> exact he

theorem Evolves.mono {e : Ending (Host n) α} (he : Evolves k x e) (hk : k ≤ m) :
    Evolves m x e := by
  cases e with
  | stuck stop => trivial
  | returned h a => exact Allocator.Evolves.mono he hk
  | faulted h fault => exact ⟨he.1.mono hk, fun hx => he.2 (hx.mono hk)⟩

theorem call_evolves (h : Host n) (clock : Clock) (call : HostCall n) :
    Evolves 1 h.allocator (h.call clock call) := by
  have still {e : Ending (Host n) (HostAnswer n)} (he : Evolves 0 h.allocator e) :
      Evolves 1 h.allocator e := he.mono (Nat.zero_le 1)
  cases call with
  | start => exact still (h.start_evolves.returns fun _ _ _ => .refl _)
  | ready p => exact (h.ready_evolves p).returns fun _ _ _ => .refl _
  | select => exact still (h.selectNext_evolves clock.now)
  | drain => exact still (h.drainFor_evolves _ clock.now)
  | remove p => exact still (h.remove_evolves p)
  | retire p => exact still (h.retire_evolves p)
  | refresh p => exact still ((h.refresh_evolves clock p).mapAnswer _)
  | setFeature p i x => exact still (h.setFeature_evolves p i x)
  | levelFor score =>
    refine still (Evolves.mapAnswer (e := .ofExcept h (Level.ofScore _ score)) ?_ _)
    cases hl : Level.ofScore h.allocator.config.levels score with
    | ok level => exact .refl _
    | error fault =>
      refine ⟨.refl _, fun hx => ?_⟩
      obtain ⟨_, _, hlevel⟩ := Level.exists_ofScore hx.shaped.config.levels score
      cases hl.symm.trans hlevel
  | setEmergency on | setBudget budget => exact still (Allocator.evolves_of_startup rfl rfl)
  | dump => exact still (h.dump_evolves.mapAnswer _)
  | dumpToLog => exact still (h.dumpToLog_evolves.mapAnswer _)
  | buckets => exact still (h.viewBuckets_evolves.mapAnswer _)
  | tensor call => exact still ((h.callTensor_evolves call).mapAnswer _)
  | attention | lastUpdate | stats | config => exact still (.refl _)

end Host

end AttentionScheduler
