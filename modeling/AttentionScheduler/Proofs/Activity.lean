import AttentionScheduler.Proofs.Revision

/-!
The active count of an allocator moves only when a process is made ready or retired through it, by one
and along with the tracked flag of that process. A count of zero is not taken below zero.
-/

namespace AttentionScheduler

variable {n : Nat} {p : Fin n}

/-- The count after a flag was set or taken off. -/
def recount (was is : Bool) (k : Nat) : Nat :=
  match was, is with
  | false, true => k + 1
  | true, false => k - 1
  | _, _ => k

@[simp] theorem recount_self (b : Bool) (k : Nat) : recount b b k = k := by
  cases b <;> rfl

namespace Tensor

variable {t t' : Tensor}

theorem active_of_advance {now : Tick} {slot : Nat} (h : t.advance now = .ok (t', slot)) :
    t'.active = t.active := by
  unfold advance at h
  cases hadd : Word.add t.slot 1 with
  | error fault =>
    rw [hadd] at h
    cases h
  | ok next =>
    rw [hadd] at h
    cases hmod : Word.mod next t.timeWindow with
    | error fault =>
      simp only [bind, Except.bind, hmod] at h
      cases h
    | ok k =>
      simp only [bind, Except.bind, hmod] at h
      split at h <;> cases h
      rfl

theorem call_active (t : Tensor) (call : TensorCall) :
    (t.call call).Leaves fun t' => t'.active = t.active := by
  cases call with
  | advance now =>
    simp only [Tensor.call]
    split
    · next t' slot h => exact active_of_advance h
    · rfl
  | sample proc feature time =>
    simp only [Tensor.call]
    cases t.sample proc feature time <;> rfl
  | slot | timestamp | timestamps | info => rfl

end Tensor

namespace Allocator

variable {x y : Allocator n}

theorem active_of_startup (h : y.startup = x.startup) : y.active = x.active := by
  unfold active core?
  rw [h]

theorem active_of_not_started (h : x.core? = none) : x.active = 0 := by
  rw [active, h]
  rfl

theorem active_putBucket (x : Allocator n) (level : Nat) (b : Bucket n) :
    (x.putBucket level b).active = x.active := by
  unfold putBucket
  split
  · next core hc => rw [active_of_core? (core?_withCore _ _), active_of_core? hc]
  · rfl

end Allocator

namespace Host

variable {h k : Host n} {core : Core n}

/-- The allocator counts as many as before. -/
def Counts (h k : Host n) : Prop := k.allocator.active = h.allocator.active

theorem counts_withCore (hc : h.allocator.core? = some core) {core' : Core n}
    (ha : core'.tensor.active = core.tensor.active) : h.Counts (h.withCore core') := by
  rw [Counts, Allocator.active_of_core? hc, ← ha]
  rfl

theorem start_counts (hc : h.allocator.config.Accepted) : h.start.Leaves h.Counts := by
  unfold start
  dsimp only
  split
  · rfl
  · rfl
  · next hpending =>
    have hzero : h.allocator.active = 0 :=
      Allocator.active_of_not_started (by rw [Allocator.core?, hpending])
    split
    · exact hzero.symm
    · next core hbuild => exact (Core.shaped_of_build hc hbuild).2.trans hzero.symm

theorem place_counts (hc : h.allocator.core? = some core) (p : Fin n) (score : Single) :
    (h.place core p score).Leaves h.Counts := by
  have hshelf (s : Shelf n) : h.Counts (h.withShelf core s) := counts_withCore hc rfl
  unfold place
  cases Level.ofScore h.allocator.config.levels score with
  | error fault => rfl
  | ok level =>
    simp only [Ending.ofExcept, Ending.bind_returned]
    cases (h.shelf core).file level p with
    | stuck stop => trivial
    | faulted s fault => exact hshelf s
    | returned s filing => cases filing <;> exact hshelf s

theorem noteBusy_counts (levels : List Nat) (h : Host n) : h.Counts (h.noteBusy levels) :=
  Allocator.active_of_startup (noteBusy_startup levels h).2

theorem selectNext_counts (h : Host n) (now : Tick) : h.Counts (h.selectNext now).1 := by
  unfold selectNext
  split
  · rfl
  · next core hc =>
    have hshelf (s : Shelf n) : h.Counts (h.withShelf core s) := counts_withCore hc rfl
    have hbusy := (noteBusy_counts (h.shelf core).sweep.busy _).trans
      (hshelf (h.shelf core).sweep.shelf)
    dsimp only
    split <;> exact hbusy

theorem drainFor_counts (k : Nat) (h : Host n) (now : Tick) : h.Counts (h.drainFor k now).1 := by
  induction k generalizing h with
  | zero => rfl
  | succ k ih =>
    have hselect := h.selectNext_counts now
    rw [drainFor]
    generalize h.selectNext now = r at hselect
    obtain ⟨g, p?⟩ := r
    cases p? with
    | none => exact hselect
    | some p => exact (ih g).trans hselect

theorem remove_counts (h : Host n) (p : Fin n) : h.Counts (h.remove p).1 := by
  unfold remove
  split
  · rfl
  · next core hc =>
    have hshelf (s : Shelf n) : h.Counts (h.withShelf core s) := counts_withCore hc rfl
    dsimp only
    split <;> exact hshelf _

theorem stampRing_counts (h : Host n) (now : Tick) : (h.stampRing now).Leaves h.Counts := by
  unfold stampRing
  split
  · rfl
  · next core hc =>
    split
    · next tensor _ ha => exact counts_withCore hc (Tensor.active_of_advance ha)
    · rfl

theorem refresh_counts (h : Host n) (clock : Clock) (p : Fin n) :
    (h.refresh clock p).Leaves h.Counts := by
  unfold refresh
  dsimp only
  split
  · split
    · rfl
    · split
      · rfl
      · exact ((h.touch p _).stampRing_counts clock.now).bind fun k _ hk => hk
  · rfl

theorem callTensor_counts (h : Host n) (call : TensorCall) : (h.callTensor call).Leaves h.Counts := by
  unfold callTensor
  split
  · rfl
  · next core hc => exact (core.tensor.call_active call).map fun tensor ht => counts_withCore hc ht

theorem dump_counts (h : Host n) : h.dump.Leaves h.Counts :=
  h.dump_same.imp fun _ hk => congrArg (fun k : Host n => k.allocator.active) hk

theorem dumpToLog_counts (h : Host n) : h.dumpToLog.Leaves h.Counts :=
  h.dumpToLog_same.imp fun _ hk => congrArg Allocator.active hk.1

theorem viewBuckets_counts (h : Host n) : h.viewBuckets.Leaves h.Counts :=
  h.viewBuckets_same.imp fun _ hk => congrArg (fun k : Host n => k.allocator.active) hk

theorem setFeature_counts (h : Host n) (p : Fin n) (i : Nat) (x : Single) :
    h.Counts (h.setFeature p i x) := by
  unfold setFeature
  split <;> rfl

/-- The count follows the tracked flag of `p`. -/
def Recounts (p : Fin n) (h k : Host n) : Prop :=
  k.allocator.active = recount h.procs[p].tracked k.procs[p].tracked h.allocator.active

theorem Counts.recounts (h : Host n) (hk : h.Counts k) (hp : k.procs[p].tracked = h.procs[p].tracked) :
    h.Recounts p k := by
  rw [Recounts, hp, recount_self]
  exact hk

theorem enrol_recounts (hc : h.allocator.core? = some core) (p : Fin n)
    (hroom : h.procs[p].tracked = false → h.allocator.active + 1 < Word.limit) :
    (h.enrol core p).Leaves (h.Recounts p) := by
  unfold enrol
  split
  · exact Counts.recounts h rfl rfl
  · next ht =>
    rw [Bool.not_eq_true] at ht
    have hactive := Allocator.active_of_core? hc
    have htrack : core.tensor.track = .ok { core.tensor with active := core.tensor.active + 1 } := by
      rw [Tensor.track, Word.add_eq_ok (hactive ▸ hroom ht)]
      rfl
    simp only [htrack]
    change core.tensor.active + 1 = recount h.procs[p].tracked (h.procs.update p _)[p].tracked _
    rw [Roster.getElem_update_self, ht, hactive]
    rfl

theorem Recounts.after {g : Host n} (hg : h.Counts g) (hp : g.procs[p].tracked = h.procs[p].tracked)
    (hk : g.Recounts p k) : h.Recounts p k := by
  rw [Recounts, ← hp, ← hg]
  exact hk

theorem Recounts.before {g : Host n} (hg : h.Recounts p g) (hk : g.Counts k)
    (hp : k.procs[p].tracked = g.procs[p].tracked) : h.Recounts p k := by
  rw [Recounts, hp, hk]
  exact hg

theorem enter_recounts (hc : h.allocator.config.Accepted) (p : Fin n)
    (hroom : h.procs[p].tracked = false → h.allocator.active + 1 < Word.limit) :
    (h.enter p).Leaves (h.Recounts p) := by
  have hprocs := h.start_procs
  have hcounts := start_counts hc
  unfold enter
  cases hs : h.start with
  | stuck stop => trivial
  | faulted k fault =>
    rw [hs] at hprocs hcounts
    have hk : k.procs = h.procs := hprocs
    exact Counts.recounts h hcounts (by rw [hk])
  | returned g core =>
    rw [hs] at hprocs hcounts
    have hg : g.procs = h.procs := hprocs
    let g' := g.touch p (·.withVector (·.rescore))
    have htracked : g'.procs[p].tracked = h.procs[p].tracked := by
      rw [procs_touch, Roster.getElem_update_self, hg]
      rfl
    have hcore : g.allocator.core? = some core := core?_of_start hs
    have hactive : g'.allocator.active = h.allocator.active := hcounts
    have henrol := enrol_recounts (h := g') hcore p (by rwa [htracked, hactive])
    exact henrol.imp fun k hk => hk.after hactive htracked

theorem ready_recounts (hc : h.allocator.config.Accepted) (p : Fin n)
    (hroom : h.procs[p].tracked = false → h.allocator.active + 1 < Word.limit) :
    (h.ready p).Leaves (h.Recounts p) := by
  cases hcog : h.procs[p].cognitive with
  | false =>
    rw [ready, hcog]
    exact Counts.recounts h rfl rfl
  | true =>
    rw [ready_eq hcog]
    have henter := enter_recounts hc p hroom
    have hends := h.enter_ends p
    generalize h.enter p = e at henter hends
    cases hends with
    | unstarted procs => exact henter
    | full untracked procs => exact henter
    | @entered g core built procs =>
      have hplace := (place_counts built p (Score.attention h.procs[p].vector.signals)).and
        (g.place_remarked core p _)
      exact hplace.imp fun k hk => Recounts.before henter hk.1 (hk.2.becomes.tracked p)

theorem untrack_recounts (h : Host n) (p : Fin n) : h.Recounts p (h.untrack p) := by
  have htracked := h.untrack_tracked p
  rw [Recounts, htracked]
  unfold untrack
  split
  · next ht =>
    rw [ht]
    dsimp only
    split
    · next hc =>
      have hzero : h.allocator.active = 0 := Allocator.active_of_not_started hc
      exact hzero.trans (by rw [hzero]; rfl)
    · next core hc =>
      have hactive : h.allocator.active = core.tensor.active := Allocator.active_of_core? hc
      rw [hactive]
      rfl
  · next ht =>
    rw [Bool.not_eq_true] at ht
    rw [ht, recount_self]

theorem retire_recounts (h : Host n) (p : Fin n) : h.Recounts p (h.retire p).1 := by
  have hcounts := h.remove_counts p
  have htracked := (h.remove_remarked p).becomes.tracked p
  unfold retire
  dsimp only
  split
  · exact Counts.recounts h hcounts htracked
  · exact (untrack_recounts _ p).after hcounts htracked

end Host

namespace Call

/-- The allocator and the process whose flag and count a call may change. -/
def counts? : Call n → Option (Nat × Fin n)
  | .host a (.ready p) | .host a (.retire p) => some (a, p)
  | _ => none

end Call

namespace Session

variable {s t : Session n} {a b : Nat} {seat : Seat n} {place : Place} {c : Call n} {d : Done n}

def active (s : Session n) (a : Nat) : Nat := ((s.allocator? a).map (·.active)).getD 0

theorem active_of_seat (hs : s.seat a = .ok seat) : s.active a = seat.allocator.active := by
  rw [active, allocator?_of_seat hs]
  rfl

theorem active_putHost (hs : s.seat a = .ok seat) (k : Host n) (b : Nat) :
    (s.putHost a k).active b = if b = a then k.allocator.active else s.active b := by
  rw [active, allocator?_putHost hs]
  split <;> rfl

theorem active_putBucket (s : Session n) (b : Bucket n) (place : Place) (a : Nat) :
    (s.putBucket b place).active a = s.active a := by
  rw [active, allocator?_putBucket]
  cases place with
  | loose q => rfl
  | own a' level =>
    dsimp only
    split
    · next ha =>
      subst ha
      rw [active]
      cases s.allocator? a with
      | none => rfl
      | some x => exact x.active_putBucket level b
    · rfl

theorem active_seize {b : Bucket n} (h : s.seize place b = .ok t) (a : Nat) :
    t.active a = s.active a :=
  same_of_seize (·.active a) (fun s b place => active_putBucket s b place a) h

theorem active_release (s : Session n) (place : Place) (a : Nat) :
    (s.release place).active a = s.active a :=
  same_of_release (·.active a) (fun s b place => active_putBucket s b place a) s place

theorem active_of_counts (hs : s.seat a = .ok seat) {k : Host n} (hk : (s.host seat).Counts k)
    (b : Nat) : (s.putHost a k).active b = s.active b := by
  rw [active_putHost hs]
  split
  · next hb =>
    rw [hb, active_of_seat hs]
    exact hk
  · rfl

theorem host_active {call : HostCall n} (hc : s.call (.host a call) = .ok d)
    (hx : ∀ x, s.allocator? a = some x → x.config.Accepted)
    (hn : Call.counts? (.host a call) = none) (b : Nat) : d.session.active b = s.active b := by
  obtain ⟨seat, hs⟩ := seat_of_call hc
  have counts (h : ((s.host seat).call (s.clock seat) call).Leaves (s.host seat).Counts) :
      d.session.active b = s.active b := by
    obtain ⟨k, hk, hd⟩ := leaves_of_call hs hc h
    rw [hd]
    exact active_of_counts hs hk b
  cases call with
  | ready | retire => cases hn
  | start =>
    have hconfig : (s.host seat).allocator.config.Accepted := hx _ (allocator?_of_seat hs)
    exact counts ((Host.start_counts hconfig).bind fun _ _ hk => hk)
  | select => exact counts ((s.host seat).selectNext_counts _)
  | drain => exact counts ((s.host seat).drainFor_counts _ _)
  | remove p => exact counts ((s.host seat).remove_counts p)
  | refresh p => exact counts (((s.host seat).refresh_counts _ p).mapAnswer _)
  | setFeature p i x => exact counts ((s.host seat).setFeature_counts p i x)
  | levelFor score =>
    refine counts ?_
    change (Ending.mapAnswer _ (.ofExcept (s.host seat) _)).Leaves _
    cases Level.ofScore (s.host seat).allocator.config.levels score <;> exact rfl
  | dump => exact counts ((s.host seat).dump_counts.mapAnswer _)
  | dumpToLog => exact counts ((s.host seat).dumpToLog_counts.mapAnswer _)
  | buckets => exact counts ((s.host seat).viewBuckets_counts.mapAnswer _)
  | tensor call => exact counts (((s.host seat).callTensor_counts call).mapAnswer _)
  | attention | setEmergency | setBudget | lastUpdate | stats | config =>
    exact counts (show (s.host seat).Counts _ from rfl)

theorem active_of_recounts (hs : s.seat a = .ok seat) {p : Fin n} {k : Host n}
    (hk : (s.host seat).Recounts p k) :
    (s.putHost a k).active a =
      recount s.procs[p].tracked (s.putHost a k).procs[p].tracked (s.active a) := by
  rw [active_putHost hs, if_pos rfl, active_of_seat hs]
  exact hk

/-- The active counts after a call. Only the one of the allocator that a process is made ready or
retired through can change, and it follows the flag of that process. -/
theorem call_active (hc : s.call c = .ok d)
    (hx : ∀ a x, s.allocator? a = some x → x.config.Accepted)
    (hroom : ∀ a p, c.counts? = some (a, p) → s.procs[p].tracked = false →
      s.active a + 1 < Word.limit) :
    (∀ b, (∀ p, c.counts? ≠ some (b, p)) → d.session.active b = s.active b) ∧
    ∀ a p, c.counts? = some (a, p) →
      d.session.active a = recount s.procs[p].tracked d.session.procs[p].tracked (s.active a) := by
  cases hn : c.counts? with
  | none =>
    refine ⟨fun b _ => ?_, fun a p h => by cases h⟩
    cases c with
    | host a call => exact host_active hc (hx a) hn b
    | record p call =>
      cases hc
      rfl
    | clock a call =>
      obtain ⟨seat, k, hd, -⟩ := putClock_of_call hc
      rw [hd]
      rfl
    | bucket place call =>
      rcases (putFiled_of_call hc).1 with hd | ⟨_, f, -, -, hd⟩
      · rw [hd]
      · rw [hd]
        exact active_putBucket s f.bucket place b
  | some ap =>
    obtain ⟨a, p⟩ := ap
    have recounts {call : HostCall n} (hc : s.call (.host a call) = .ok d)
        (h : ∀ seat, s.seat a = .ok seat →
          ((s.host seat).call (s.clock seat) call).Leaves ((s.host seat).Recounts p)) :
        (∀ b, (∀ q, some (a, p) ≠ some (b, q)) → d.session.active b = s.active b) ∧
        ∀ a' p', some (a, p) = some (a', p') → d.session.active a' =
          recount s.procs[p'].tracked d.session.procs[p'].tracked (s.active a') := by
      obtain ⟨seat, hs⟩ := seat_of_call hc
      obtain ⟨k, hk, hd⟩ := leaves_of_call hs hc (h seat hs)
      rw [hd]
      refine ⟨fun b hb => ?_, fun a' p' hap => ?_⟩
      · rw [active_putHost hs, if_neg fun h => hb p (by rw [h])]
      · cases hap
        exact active_of_recounts hs hk
    unfold Call.counts? at hn
    split at hn <;> cases hn
    · refine recounts hc fun seat hs => ?_
      have hseat := allocator?_of_seat hs
      have hactive : (s.host seat).allocator.active = s.active a := (active_of_seat hs).symm
      have hready := Host.ready_recounts (h := s.host seat) (hx a _ hseat) p fun ht =>
        hactive ▸ hroom a p rfl ht
      exact hready.bind fun _ _ hk => hk
    · exact recounts hc fun seat hs => (s.host seat).retire_recounts p

end Session

end AttentionScheduler
