import AttentionScheduler.Proofs.Readings

/-!
Two hosts within a leeway. Every call ends alike on both, with answers that differ as far as the leeway
allows, and leaves the two within it.
-/

namespace AttentionScheduler

variable {n : Nat} {l : Leeway} {p : Fin n}

structure Core.Akin (l : Leeway) (c d : Core n) : Prop where
  buckets : d.buckets = c.buckets
  tensor : c.tensor.Akin l d.tensor

theorem Core.akin_of_build {config : Config} {c : Core n} (hc : l.advice = true → config.Accepted)
    (hbuild : Core.build config = .ok c) : c.Akin l c := by
  have hturns (hl : l.advice = true) : c.tensor.Turns :=
    (Core.shaped_of_build (hc hl) hbuild).1.tensor.turns (hc hl)
  exact ⟨rfl, Tensor.akin_self hturns⟩

inductive Startup.Akin (l : Leeway) : Startup n → Startup n → Prop where
  | pending : Akin l .pending .pending
  | failed : Akin l .failed .failed
  | built {c d : Core n} (h : c.Akin l d) : Akin l (.built c) (.built d)

namespace Allocator

variable {x y : Allocator n}

structure Akin (l : Leeway) (x y : Allocator n) : Prop where
  config : y.config = x.config
  accepted : l.advice = true → x.config.Accepted
  startup : x.startup.Akin l y.startup
  budget : l.advice = false → y.budget = x.budget
  emergency : l.advice = false → y.emergency = x.emergency
  lastUpdate : l.ticks = false → y.lastUpdate = x.lastUpdate
  counters : y.counters = x.counters

theorem Akin.symm (h : x.Akin l y) : y.Akin l x := by
  refine ⟨h.config.symm, fun hl => h.config ▸ h.accepted hl, ?_, fun hl => (h.budget hl).symm,
    fun hl => (h.emergency hl).symm, fun hticks => (h.lastUpdate hticks).symm, h.counters.symm⟩
  have hstartup := h.startup
  generalize x.startup = u at hstartup
  generalize y.startup = v at hstartup
  cases hstartup with
  | pending => exact .pending
  | failed => exact .failed
  | built hc => exact .built ⟨hc.buckets.symm, hc.tensor.symm⟩

theorem akin_self (hx : l.advice = true → x.Shaped) : x.Akin l x := by
  have hturns {core : Core n} (hcore : x.core? = some core) (hl : l.advice = true) :
      core.tensor.Turns := ((hx hl).core core hcore).tensor.turns (hx hl).config
  refine ⟨rfl, fun hl => (hx hl).config, ?_, fun _ => rfl, fun _ => rfl, fun _ => rfl, rfl⟩
  cases hstartup : x.startup with
  | pending => exact .pending
  | failed => exact .failed
  | built core =>
    exact .built ⟨rfl, Tensor.akin_self (hturns (by rw [Allocator.core?, hstartup]))⟩

theorem Akin.core? (h : x.Akin l y) : Option.Rel (Core.Akin l) x.core? y.core? := by
  have hstartup := h.startup
  unfold Allocator.core?
  generalize x.startup = u at hstartup
  generalize y.startup = v at hstartup
  cases hstartup with
  | pending | failed => exact .none
  | built h => exact .some h

theorem Akin.buckets (h : x.Akin l y) : y.buckets = x.buckets := by
  have hcore := h.core?
  unfold Allocator.buckets
  generalize x.core? = c? at hcore
  generalize y.core? = d? at hcore
  cases hcore with
  | none => rfl
  | some h => exact h.buckets

theorem Akin.isStarted (h : x.Akin l y) : y.isStarted = x.isStarted := by
  have hcore := h.core?
  unfold Allocator.isStarted
  generalize x.core? = c? at hcore
  generalize y.core? = d? at hcore
  cases hcore <;> rfl

theorem Akin.withCore (h : x.Akin l y) {c d : Core n} (hc : c.Akin l d) :
    (x.withCore c).Akin l (y.withCore d) :=
  { h with startup := .built hc }

theorem Akin.begun (h : x.Akin l y) {c d : Core n} (hc : c.Akin l d) : (x.begun c).Akin l (y.begun d) :=
  { h with
    startup := .built hc
    budget := fun _ => congrArg Config.attentionBudget h.config
    emergency := fun _ => rfl
    lastUpdate := fun _ => rfl }

theorem Akin.putBucket (h : x.Akin l y) (level : Nat) (b : Bucket n) :
    (x.putBucket level b).Akin l (y.putBucket level b) := by
  have hcore := h.core?
  unfold Allocator.putBucket
  generalize x.core? = c? at hcore
  generalize y.core? = d? at hcore
  cases hcore with
  | none => exact h
  | some hc => exact h.withCore ⟨congrArg (·.set level b) hc.buckets, hc.tensor⟩

theorem Akin.stats (h : x.Akin l y) : x.stats.Akin l y.stats := by
  have hcore := h.core?
  have hbuckets := h.buckets
  have hactive : y.stats.active = x.stats.active := by
    unfold Allocator.stats
    generalize x.core? = c? at hcore
    generalize y.core? = d? at hcore
    cases hcore with
    | none => rfl
    | some hc => exact hc.tensor.active
  have hslot (hl : l.advice = false) : y.stats.slot = x.stats.slot := by
    unfold Allocator.stats
    generalize x.core? = c? at hcore
    generalize y.core? = d? at hcore
    cases hcore with
    | none => rfl
    | some hc => exact hc.tensor.slot hl
  exact ⟨h.counters, congrArg (List.map _) hbuckets, hactive, h.emergency, h.budget, hslot, h.lastUpdate⟩

end Allocator

/-- Whether the answer shows nothing of what a leeway may leave free. -/
def HostCall.plain : HostCall n → Bool
  | lastUpdate | stats | dump | tensor _ => false
  | _ => true

namespace Host

variable {h k : Host n} {c d : Core n} {now now' : Tick} {x y : Line}

structure Akin (l : Leeway) (h k : Host n) : Prop where
  allocator : h.allocator.Akin l k.allocator
  procs : h.procs.Akin l k.procs
  lines : List.Forall₂ (Line.Akin l) h.lines k.lines

namespace Akin

theorem say (hk : h.Akin l k) (hline : x.Akin l y) : (h.say x).Akin l (k.say y) :=
  { hk with lines := List.rel_append hk.lines (.cons hline .nil) }

theorem touch (hk : h.Akin l k) {f g : Record → Record} (hf : (f h.procs[p]).Akin l (g k.procs[p])) :
    (h.touch p f).Akin l (k.touch p g) :=
  { hk with procs := hk.procs.update hf }

theorem count (hk : h.Akin l k) (f : Counters → Counters) : (h.count f).Akin l (k.count f) :=
  { hk with allocator := { hk.allocator with counters := congrArg f hk.allocator.counters } }

theorem withCore (hk : h.Akin l k) (hc : c.Akin l d) : (h.withCore c).Akin l (k.withCore d) :=
  { hk with allocator := hk.allocator.withCore hc }

theorem shelf (hk : h.Akin l k) (hc : c.Akin l d) : (h.shelf c).Akin l (k.shelf d) :=
  ⟨hc.buckets, hk.procs⟩

theorem withShelf (hk : h.Akin l k) (hc : c.Akin l d) {s t : Shelf n} (hs : s.Akin l t) :
    (h.withShelf c s).Akin l (k.withShelf d t) :=
  ⟨hk.allocator.withCore ⟨hs.buckets, hc.tensor⟩, hs.procs, hk.lines⟩

theorem start (hk : h.Akin l k) : h.start.Akin (Host.Akin l) (Core.Akin l) k.start := by
  have hstartup := hk.allocator.startup
  unfold Host.start
  dsimp only
  rw [hk.allocator.config]
  generalize h.allocator.startup = u at hstartup
  generalize k.allocator.startup = v at hstartup
  cases hstartup with
  | failed => exact .faulted hk _
  | built hc => exact .returned ⟨hk, hc⟩
  | pending =>
    dsimp only
    cases hbuild : Core.build (n := n) h.allocator.config with
    | error fault =>
      exact .faulted { hk with allocator := { hk.allocator with startup := .failed } } fault
    | ok core =>
      have hcore : core.Akin l core := Core.akin_of_build hk.allocator.accepted hbuild
      have hbegun : Host.Akin l (h.withAllocator (·.begun core)) (k.withAllocator (·.begun core)) :=
        { hk with allocator := hk.allocator.begun hcore }
      exact .returned ⟨hbegun.say (.line (.started ..) 0 fun _ => rfl), hcore⟩

theorem enrol (hk : h.Akin l k) (hc : c.Akin l d) (p : Fin n) :
    (h.enrol c p).Akin (Host.Akin l) (Core.Akin l) (k.enrol d p) := by
  unfold Host.enrol
  rw [(hk.procs p).tracked]
  split
  · exact .returned ⟨hk, hc⟩
  · have htracked := hk.touch (p := p) (f := fun record => { record with tracked := true })
      (g := fun record => { record with tracked := true }) { hk.procs p with tracked := rfl }
    simp only [Tensor.track, hc.tensor.active]
    cases Word.add c.tensor.active 1 with
    | error fault => exact .faulted htracked fault
    | ok active =>
      have hcore : Core.Akin l { c with tensor := { c.tensor with active } }
          { d with tensor := { d.tensor with active } } := ⟨hc.buckets, hc.tensor.withActive active⟩
      exact .returned ⟨htracked.withCore hcore, hcore⟩

theorem place (hk : h.Akin l k) (hc : c.Akin l d) (p : Fin n) (score : Single) :
    (h.place c p score).Akin (Host.Akin l) Eq (k.place d p score) := by
  unfold Host.place
  rw [hk.allocator.config]
  cases Level.ofScore h.allocator.config.levels score with
  | error fault => exact .faulted hk fault
  | ok level =>
    have hpid := (hk.procs p).pid
    simp only [Ending.ofExcept, Ending.bind_returned]
    refine (((hk.shelf hc).file level p).map (fun _ _ hs => hk.withShelf hc hs)
      fun _ _ hf => hf).bind ?_
    rintro g filing g' _ hg rfl
    cases filing with
    | refused mark =>
      exact .returned ⟨hg.say (.line (.foreign _ mark) _ fun hl => by rw [hpid hl]; rfl), rfl⟩
    | linked =>
      exact .returned
        ⟨(hg.count _).say (.line (.filed _ score level) _ fun hl => by rw [hpid hl]; rfl), rfl⟩

theorem ready (hk : h.Akin l k) (p : Fin n) : (h.ready p).Akin (Host.Akin l) Eq (k.ready p) := by
  unfold Host.ready
  rw [(hk.procs p).cognitive]
  split
  · refine hk.start.bind fun g c g' d hg hc => ?_
    have hscore : Score.attention g'.procs[p].vector.signals =
        Score.attention g.procs[p].vector.signals := by
      rw [(hg.procs p).vector]
      rfl
    have hscored := hg.touch (p := p) (f := (·.withVector (·.rescore)))
      (g := (·.withVector (·.rescore))) ((hg.procs p).withVector rfl)
    dsimp only
    rw [hscore]
    exact (hscored.enrol hc p).bind fun _ _ _ _ hk hc => hk.place hc p _
  · exact .returned ⟨hk, rfl⟩

theorem noteBusy (hk : h.Akin l k) (levels : List Nat) : (h.noteBusy levels).Akin l (k.noteBusy levels) := by
  induction levels generalizing h k with
  | nil => exact hk
  | cons level levels ih => exact ih ((hk.count _).say (.line (.skipped level) 0 fun _ => rfl))

theorem selectNext (hk : h.Akin l k) (now : Tick) :
    (h.selectNext now).1.Akin l (k.selectNext (now + l.ahead)).1 ∧
      (k.selectNext (now + l.ahead)).2 = (h.selectNext now).2 := by
  have hcore := hk.allocator.core?
  unfold Host.selectNext
  generalize h.allocator.core? = c? at hcore
  generalize k.allocator.core? = d? at hcore
  cases hcore with
  | none => exact ⟨hk, rfl⟩
  | @some c d hc =>
    have hsweep : (h.shelf c).sweep.Akin l (k.shelf d).sweep := by
      rw [Shelf.sweep, Shelf.sweep, (hk.shelf hc).buckets]
      exact Sweep.akin_along hk.procs _
    dsimp only
    generalize (h.shelf c).sweep = v at hsweep
    generalize (k.shelf d).sweep = w at hsweep
    have hbusy := (hk.withShelf hc hsweep.shelf).noteBusy v.busy
    rw [hsweep.busy, hsweep.taken]
    cases v.taken with
    | none => exact ⟨hbusy, rfl⟩
    | some taken =>
      obtain ⟨level, p⟩ := taken
      have hstamped := hbusy.touch (p := p) (f := (·.withVector (·.stamp now)))
        (g := (·.withVector (·.stamp (now + l.ahead)))) ((hbusy.procs p).withVector rfl)
      have hcounted := hstamped.count fun c => { c with dispatched := c.dispatched + 1 }
      have hpid := (hcounted.procs p).pid
      exact ⟨hcounted.say (.line (.dispatched _ level) _ fun hl => by rw [hpid hl]; rfl), rfl⟩

theorem drainFor (hk : h.Akin l k) (fuel : Nat) (now : Tick) :
    (h.drainFor fuel now).1.Akin l (k.drainFor fuel (now + l.ahead)).1 ∧
      (k.drainFor fuel (now + l.ahead)).2 = (h.drainFor fuel now).2 := by
  induction fuel generalizing h k with
  | zero => exact ⟨hk, rfl⟩
  | succ fuel ih =>
    obtain ⟨hnext, hp⟩ := hk.selectNext now
    rw [Host.drainFor, Host.drainFor]
    generalize h.selectNext now = r at hnext hp
    generalize k.selectNext (now + l.ahead) = r' at hnext hp
    obtain ⟨g, p?⟩ := r
    obtain ⟨g', q?⟩ := r'
    cases hp
    cases p? with
    | none => exact ⟨hnext, rfl⟩
    | some p =>
      obtain ⟨hrest, hps⟩ := ih hnext
      exact ⟨hrest, congrArg (p :: ·) hps⟩

theorem drain (hk : h.Akin l k) (now : Tick) :
    (h.drain now).1.Akin l (k.drain (now + l.ahead)).1 ∧
      (k.drain (now + l.ahead)).2 = (h.drain now).2 := by
  rw [Host.drain, Host.drain, hk.allocator.buckets]
  exact hk.drainFor _ now

theorem remove (hk : h.Akin l k) (p : Fin n) :
    (h.remove p).1.Akin l (k.remove p).1 ∧ (k.remove p).2 = (h.remove p).2 := by
  have hcore := hk.allocator.core?
  have hpid := (hk.procs p).pid
  unfold Host.remove
  generalize h.allocator.core? = c? at hcore
  generalize k.allocator.core? = d? at hcore
  cases hcore with
  | none => exact ⟨hk, rfl⟩
  | @some c d hc =>
    obtain ⟨hshelf, hremoval⟩ := (hk.shelf hc).withdraw p
    dsimp only
    generalize (h.shelf c).withdraw p = w at hshelf hremoval
    generalize (k.shelf d).withdraw p = w' at hshelf hremoval
    obtain ⟨s, removal⟩ := w
    obtain ⟨t, removal'⟩ := w'
    cases hremoval
    have hw := hk.withShelf hc hshelf
    cases removal with
    | removed q => exact ⟨hw.say (.line (.removed _) _ fun hl => by rw [hpid hl]; rfl), rfl⟩
    | contended =>
      exact ⟨(hw.count _).say (.line (.removalContended _) _ fun hl => by rw [hpid hl]; rfl), rfl⟩
    | notFound => exact ⟨hw, rfl⟩

theorem untrack (hk : h.Akin l k) (p : Fin n) : (h.untrack p).Akin l (k.untrack p) := by
  unfold Host.untrack
  rw [(hk.procs p).tracked]
  split
  · have huntracked := hk.touch (p := p) (f := fun record => { record with tracked := false })
      (g := fun record => { record with tracked := false }) { hk.procs p with tracked := rfl }
    have hcore := huntracked.allocator.core?
    dsimp only
    generalize (h.touch p _).allocator.core? = c? at hcore ⊢
    generalize (k.touch p _).allocator.core? = d? at hcore ⊢
    cases hcore with
    | none => exact huntracked
    | some hc => exact huntracked.withCore ⟨hc.buckets, hc.tensor.untrack⟩
  · exact hk

theorem retire (hk : h.Akin l k) (p : Fin n) :
    (h.retire p).1.Akin l (k.retire p).1 ∧ (k.retire p).2 = (h.retire p).2 := by
  obtain ⟨hremove, hremoval⟩ := hk.remove p
  unfold Host.retire
  generalize h.remove p = r at hremove hremoval
  generalize k.remove p = r' at hremove hremoval
  obtain ⟨g, removal⟩ := r
  obtain ⟨g', removal'⟩ := r'
  cases hremoval
  dsimp only
  split
  · exact ⟨hremove, rfl⟩
  · exact ⟨hremove.untrack p, rfl⟩

theorem stampRing (hk : h.Akin l k) (hnow : l.ticks = false → now' = now) :
    (h.stampRing now).Akin (Host.Akin l) Eq (k.stampRing now') := by
  have hcore := hk.allocator.core?
  unfold Host.stampRing
  generalize h.allocator.core? = c? at hcore
  generalize k.allocator.core? = d? at hcore
  cases hcore with
  | none => exact .returned ⟨hk, rfl⟩
  | @some c d hc =>
    have hsteps := hc.tensor.advance hnow
    dsimp only
    generalize c.tensor.advance now = e at hsteps
    generalize d.tensor.advance now' = e' at hsteps
    cases hsteps with
    | turned ht slot => exact .returned ⟨hk.withCore ⟨hc.buckets, ht⟩, rfl⟩
    | fault fault => exact .faulted hk fault

theorem refresh (hk : h.Akin l k) (clock : Clock) (p : Fin n) :
    (h.refresh clock p).Akin (Host.Akin l) Eq (k.refresh (clock.later l.ahead) p) := by
  have hgap : k.procs[p].gap (clock.later l.ahead).now = h.procs[p].gap clock.now :=
    (hk.procs p).gap clock.now
  have hnow (hticks : l.ticks = false) : (clock.later l.ahead).now = clock.now := by
    rw [l.ticks_of_ahead hticks, Clock.later_zero]
  unfold Host.refresh
  dsimp only
  rw [hk.allocator.config, (hk.procs p).cognitive, hgap]
  split
  · split
    · exact .faulted hk _
    · split
      · exact .returned ⟨hk, rfl⟩
      · refine ((hk.touch ((hk.procs p).refreshed _ clock)).stampRing hnow).bind ?_
        rintro g _ g' _ hg -
        have hstamped : Host.Akin l (g.withAllocator fun a => { a with lastUpdate := clock.now })
            (g'.withAllocator fun a => { a with lastUpdate := (clock.later l.ahead).now }) :=
          { hg with allocator := { hg.allocator with lastUpdate := hnow } }
        have hcounted := hstamped.count fun k => { k with refreshes := k.refreshes + 1 }
        have hpid := (hcounted.procs p).pid
        exact .returned ⟨hcounted.say
          (.line (.refreshed _ clock.now) _ fun hl => by rw [hpid hl]; rfl), rfl⟩
  · exact .returned ⟨hk, rfl⟩

theorem setFeature (hk : h.Akin l k) (p : Fin n) (i : Nat) (x : Single) :
    (h.setFeature p i x).Akin l (k.setFeature p i x) := by
  unfold Host.setFeature
  rw [(hk.procs p).cognitive]
  split
  · exact hk.touch ((hk.procs p).withVector (FeatureVector.later_set _ i x _))
  · exact hk

theorem attention (hk : h.Akin l k) (p : Fin n) : k.attention p = h.attention p := by
  rw [Host.attention, Host.attention, (hk.procs p).cognitive, (hk.procs p).vector]
  rfl

theorem viewBuckets (hk : h.Akin l k) : h.viewBuckets.Akin (Host.Akin l) Eq k.viewBuckets := by
  unfold Host.viewBuckets
  rw [hk.allocator.buckets]
  split
  · exact .stuck _
  · exact .returned ⟨hk, rfl⟩

theorem callTensor (hk : h.Akin l k) (call : TensorCall) :
    (h.callTensor call).Akin (Host.Akin l) (Option.Rel (TensorAnswer.Akin l)) (k.callTensor call) := by
  have hcore := hk.allocator.core?
  unfold Host.callTensor
  generalize h.allocator.core? = c? at hcore
  generalize k.allocator.core? = d? at hcore
  cases hcore with
  | none => exact .returned ⟨hk, .none⟩
  | some hc =>
    exact (hc.tensor.call call).map (fun _ _ ht => hk.withCore ⟨hc.buckets, ht⟩) fun _ _ ha => .some ha

theorem dump (hk : h.Akin l k) : h.dump.Akin (Host.Akin l) (Option.Rel (Dump.Akin l)) k.dump := by
  have hcore := hk.allocator.core?
  unfold Host.dump
  generalize h.allocator.core? = c? at hcore
  generalize k.allocator.core? = d? at hcore
  cases hcore with
  | none => exact .returned ⟨hk, .none⟩
  | @some c d hc =>
    dsimp only
    rw [hc.buckets]
    split
    · exact .stuck _
    · refine .returned ⟨hk, .some ⟨hk.allocator.budget, hk.allocator.emergency, hc.tensor.active, ?_⟩⟩
      rw [Dump.ofCore, Dump.ofCore, hc.buckets, List.forall₂_map_left_iff, List.forall₂_map_right_iff,
        List.forall₂_same]
      exact fun b _ => Dump.Group.akin_ofBucket hk.procs b

theorem dumpToLog (hk : h.Akin l k) : h.dumpToLog.Akin (Host.Akin l) Eq k.dumpToLog := by
  refine hk.dump.bind fun g d? g' e? hg hd => .returned ⟨?_, rfl⟩
  have hreport := Dump.akin_report hd
  generalize Dump.report d? = xs at hreport
  generalize Dump.report e? = ys at hreport
  induction hreport generalizing g g' with
  | nil => exact hg
  | cons hline _ ih => exact ih _ _ (hg.say (.dumped hline))

/-- A call ends alike on two hosts within a leeway, and leaves them so. -/
theorem call (hk : h.Akin l k) (clock : Clock) (call : HostCall n) :
    (h.call clock call).Akin (Host.Akin l) (fun x y => x.Akin l y ∧ (call.plain = true → y = x))
      (k.call (clock.later l.ahead) call) := by
  have same {α : Type} {e e' : Ending (Host n) α} (he : e.Akin (Host.Akin l) Eq e')
      (g : α → HostAnswer n) : (e.mapAnswer g).Akin (Host.Akin l)
        (fun x y => x.Akin l y ∧ (call.plain = true → y = x)) (e'.mapAnswer g) :=
    he.mapAnswer fun a _ ha => ha ▸ ⟨.same (g a), fun _ => rfl⟩
  have pair {α : Type} {r r' : Host n × α} (hr : r.1.Akin l r'.1 ∧ r'.2 = r.2) (g : α → HostAnswer n) :
      ((Ending.ofPair r).mapAnswer g).Akin (Host.Akin l)
        (fun x y => x.Akin l y ∧ (call.plain = true → y = x)) ((Ending.ofPair r').mapAnswer g) :=
    same (.returned ⟨hr.1, hr.2.symm⟩) g
  have answered {g g' : Host n} (hg : g.Akin l g') {x y : HostAnswer n} (hxy : y = x) :
      (Ending.returned g x).Akin (Host.Akin l)
        (fun x y => x.Akin l y ∧ (call.plain = true → y = x)) (.returned g' y) := by
    cases hxy
    exact .returned ⟨hg, .same x, fun _ => rfl⟩
  cases call with
  | start =>
    exact hk.start.bind fun g c g' d hg _ =>
      answered hg (congrArg HostAnswer.started hg.allocator.isStarted)
  | ready p =>
    exact (hk.ready p).bind fun g _ g' _ hg _ =>
      answered hg (congrArg HostAnswer.mark (hg.procs p).mark)
  | select => exact pair (hk.selectNext clock.now) .selected
  | drain => exact pair (hk.drain clock.now) .drained
  | remove p => exact pair (hk.remove p) .removal
  | retire p => exact pair (hk.retire p) .removal
  | refresh p => exact same (hk.refresh clock p) fun _ => .done
  | setFeature p i x => exact answered (hk.setFeature p i x) rfl
  | attention p => exact answered hk (by rw [hk.attention, (hk.procs p).cognitive])
  | levelFor score =>
    refine same ?_ .level
    rw [hk.allocator.config]
    cases Level.ofScore h.allocator.config.levels score with
    | error fault => exact .faulted hk fault
    | ok level => exact .returned ⟨hk, rfl⟩
  | setEmergency on =>
    have hset : Host.Akin l (h.withAllocator fun a => { a with emergency := on })
        (k.withAllocator fun a => { a with emergency := on }) :=
      { hk with allocator := { hk.allocator with emergency := fun _ => rfl } }
    refine answered (hset.say ?_) rfl
    cases on with
    | true => exact .line .emergencyOn 0 fun _ => rfl
    | false => exact .line .emergencyOff 0 fun _ => rfl
  | setBudget budget =>
    have hset : Host.Akin l (h.withAllocator fun a => { a with budget })
        (k.withAllocator fun a => { a with budget }) :=
      { hk with allocator := { hk.allocator with budget := fun _ => rfl } }
    exact answered (hset.say (.line (.budgetSet budget) 0 fun _ => rfl)) rfl
  | config => exact answered hk (congrArg HostAnswer.config hk.allocator.config)
  | dumpToLog => exact same hk.dumpToLog fun _ => .done
  | buckets => exact same hk.viewBuckets .buckets
  | lastUpdate => exact .returned ⟨hk, .tick hk.allocator.lastUpdate, nofun⟩
  | stats => exact .returned ⟨hk, .stats hk.allocator.stats, nofun⟩
  | dump => exact hk.dump.mapAnswer fun _ _ hd => ⟨.dump hd, nofun⟩
  | tensor call => exact (hk.callTensor call).mapAnswer fun _ _ ha => ⟨.tensor ha, nofun⟩

end Akin

end Host

end AttentionScheduler
