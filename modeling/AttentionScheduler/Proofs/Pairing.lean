import AttentionScheduler.Proofs.Activity

/-!
Two hosts whose allocators differ only in what scheduling never reads: the ring of ticks, the budget,
the emergency flag and the last update. A call ends alike on both and leaves them so.
-/

namespace AttentionScheduler

variable {n : Nat}

/-- Both come to something related, or both stop for the same reason. -/
inductive Outcomes {α β : Type} (R : α → β → Prop) : Except Stop α → Except Stop β → Prop where
  | ok {a : α} {b : β} (h : R a b) : Outcomes R (.ok a) (.ok b)
  | error (stop : Stop) : Outcomes R (.error stop) (.error stop)

theorem Outcomes.imp {α β : Type} {R S : α → β → Prop} {e : Except Stop α} {e' : Except Stop β}
    (h : Outcomes R e e') (hR : ∀ a b, R a b → S a b) : Outcomes S e e' := by
  cases h with
  | ok h => exact .ok (hR _ _ h)
  | error stop => exact .error stop

namespace Ending

variable {σ τ α β α' β' : Type} {R : σ → α → τ → β → Prop} {R' : σ → α' → τ → β' → Prop}
  {F : σ → τ → Prop} {e : Ending σ α} {e' : Ending τ β}

/-- Both return, both fault alike, or neither comes back, and for the same reason. -/
inductive Pairs (R : σ → α → τ → β → Prop) (F : σ → τ → Prop) :
    Ending σ α → Ending τ β → Prop where
  | returned {s : σ} {a : α} {t : τ} {b : β} (h : R s a t b) :
      Pairs R F (.returned s a) (.returned t b)
  | faulted {s : σ} {t : τ} (h : F s t) (fault : Fault) :
      Pairs R F (.faulted s fault) (.faulted t fault)
  | stuck (stop : Stop) : Pairs R F (.stuck stop) (.stuck stop)

theorem Pairs.bind {f : σ → α → Ending σ α'} {f' : τ → β → Ending τ β'}
    (he : e.Pairs R F e') (hf : ∀ s a t b, R s a t b → (f s a).Pairs R' F (f' t b)) :
    (e.bind f).Pairs R' F (e'.bind f') := by
  cases he with
  | returned h => exact hf _ _ _ _ h
  | faulted h fault => exact .faulted h fault
  | stuck stop => exact .stuck stop

theorem Pairs.mapAnswer {g : α → α'} {g' : β → β'} (he : e.Pairs R F e')
    (hg : ∀ s a t b, R s a t b → R' s (g a) t (g' b)) :
    (e.mapAnswer g).Pairs R' F (e'.mapAnswer g') := by
  cases he with
  | returned h => exact .returned (hg _ _ _ _ h)
  | faulted h fault => exact .faulted h fault
  | stuck stop => exact .stuck stop

theorem Pairs.imp {S : σ → α → τ → β → Prop} {G : σ → τ → Prop}
    (he : e.Pairs R F e') (hR : ∀ s a t b, R s a t b → S s a t b) (hF : ∀ s t, F s t → G s t) :
    e.Pairs S G e' := by
  cases he with
  | returned h => exact .returned (hR _ _ _ _ h)
  | faulted h fault => exact .faulted (hF _ _ h) fault
  | stuck stop => exact .stuck stop

end Ending

namespace Host

theorem start_of_core? {h : Host n} {core : Core n} (hc : h.allocator.core? = some core) :
    h.start = .returned h core := by
  unfold Allocator.core? at hc
  unfold start
  split at hc <;> cases hc
  next hs => simp only [hs]

/-- Both allocators have started, the one with `c` and the other with `d`, and agree in all that
scheduling reads. -/
structure Agrees (c d : Core n) (h k : Host n) : Prop where
  left : h.allocator.core? = some c
  right : k.allocator.core? = some d
  buckets : d.buckets = c.buckets
  active : d.tensor.active = c.tensor.active
  procs : k.procs = h.procs
  config : k.allocator.config = h.allocator.config
  counters : k.allocator.counters = h.allocator.counters
  accepted : h.allocator.config.Accepted
  ring : c.tensor.Shaped h.allocator.config
  ring' : d.tensor.Shaped h.allocator.config

def Paired (h k : Host n) : Prop := ∃ c d, Agrees c d h k

namespace Agrees

variable {c d : Core n} {h k : Host n} {p : Fin n}

theorem shelf (hk : Agrees c d h k) : k.shelf d = h.shelf c := by
  rw [Host.shelf, Host.shelf, hk.buckets, hk.procs]

theorem withShelf (hk : Agrees c d h k) (s : Shelf n) :
    Agrees { c with buckets := s.buckets } { d with buckets := s.buckets }
      (h.withShelf c s) (k.withShelf d s) :=
  ⟨rfl, rfl, rfl, hk.active, rfl, hk.config, hk.counters, hk.accepted, hk.ring, hk.ring'⟩

theorem withTensor (hk : Agrees c d h k) {t u : Tensor} (ha : u.active = t.active)
    (ht : t.Shaped h.allocator.config) (hu : u.Shaped h.allocator.config) :
    Agrees { c with tensor := t } { d with tensor := u }
      (h.withCore { c with tensor := t }) (k.withCore { d with tensor := u }) :=
  ⟨rfl, rfl, hk.buckets, ha, hk.procs, hk.config, hk.counters, hk.accepted, ht, hu⟩

theorem touch (hk : Agrees c d h k) (p : Fin n) (f : Record → Record) :
    Agrees c d (h.touch p f) (k.touch p f) :=
  { hk with procs := by rw [procs_touch, procs_touch, hk.procs] }

theorem count (hk : Agrees c d h k) (f : Counters → Counters) : Agrees c d (h.count f) (k.count f) :=
  { hk with counters := congrArg f hk.counters }

theorem say (hk : Agrees c d h k) (l l' : Line) : Agrees c d (h.say l) (k.say l') := { hk with }

theorem noteBusy (hk : Agrees c d h k) (levels : List Nat) :
    Agrees c d (h.noteBusy levels) (k.noteBusy levels) := by
  induction levels generalizing h k with
  | nil => exact hk
  | cons level levels ih => exact ih ((hk.count _).say _ _)

end Agrees

/-- A call ends alike on two hosts, with the same answer, and leaves them paired. -/
def Answers {α : Type} (e e' : Ending (Host n) α) : Prop :=
  e.Pairs (fun h a k b => Paired h k ∧ b = a) Paired e'

namespace Agrees

variable {c d : Core n} {h k : Host n} {p : Fin n}

theorem enrol (hk : Agrees c d h k) (p : Fin n) :
    (h.enrol c p).Pairs (fun h c k d => Agrees c d h k) Paired (k.enrol d p) := by
  unfold Host.enrol
  rw [hk.procs]
  split
  · exact .returned hk
  · have hk' := hk.touch p fun record => { record with tracked := true }
    simp only [Tensor.track, hk.active]
    cases Word.add c.tensor.active 1 with
    | error fault => exact .faulted ⟨c, d, hk'⟩ fault
    | ok active =>
      have hc : { c.tensor with active }.Shaped h.allocator.config := { hk.ring with }
      have hd : { d.tensor with active }.Shaped h.allocator.config := { hk.ring' with }
      exact .returned (hk'.withTensor rfl hc hd)

theorem place (hk : Agrees c d h k) (p : Fin n) (score : Single) :
    Answers (h.place c p score) (k.place d p score) := by
  unfold Host.place
  rw [hk.config]
  cases Level.ofScore h.allocator.config.levels score with
  | error fault => exact .faulted ⟨c, d, hk⟩ fault
  | ok level =>
    simp only [Ending.ofExcept, Ending.bind_returned, hk.shelf]
    cases (h.shelf c).file level p with
    | stuck stop => exact .stuck stop
    | faulted s fault => exact .faulted ⟨_, _, hk.withShelf s⟩ fault
    | returned s filing =>
      cases filing with
      | refused mark => exact .returned ⟨⟨_, _, (hk.withShelf s).say _ _⟩, rfl⟩
      | linked => exact .returned ⟨⟨_, _, ((hk.withShelf s).count _).say _ _⟩, rfl⟩

theorem ready (hk : Agrees c d h k) (p : Fin n) : Answers (h.ready p) (k.ready p) := by
  unfold Host.ready
  rw [hk.procs, start_of_core? hk.left, start_of_core? hk.right]
  split
  · simp only [Ending.bind_returned, hk.procs]
    exact ((hk.touch p _).enrol p).bind fun _ _ _ _ hk => hk.place p _
  · exact .returned ⟨⟨c, d, hk⟩, rfl⟩

theorem selectNext (hk : Agrees c d h k) (now : Tick) :
    Paired (h.selectNext now).1 (k.selectNext now).1 ∧ (k.selectNext now).2 = (h.selectNext now).2 := by
  rw [selectNext_eq_handOut hk.left, selectNext_eq_handOut hk.right, hk.buckets, hk.procs]
  generalize Sweep.along c.buckets h.procs = w
  have hbusy := (hk.withShelf w.shelf).noteBusy w.busy
  unfold handOut
  dsimp only
  cases w.taken with
  | none => exact ⟨⟨_, _, hbusy⟩, rfl⟩
  | some taken => exact ⟨⟨_, _, ((hbusy.touch _ _).count _).say _ _⟩, rfl⟩

end Agrees

theorem Paired.drainFor {h k : Host n} (hk : Paired h k) (fuel : Nat) (now : Tick) :
    Paired (h.drainFor fuel now).1 (k.drainFor fuel now).1 ∧
      (k.drainFor fuel now).2 = (h.drainFor fuel now).2 := by
  induction fuel generalizing h k with
  | zero => exact ⟨hk, rfl⟩
  | succ fuel ih =>
    obtain ⟨c, d, hk⟩ := hk
    obtain ⟨hnext, hp⟩ := hk.selectNext now
    rw [Host.drainFor, Host.drainFor]
    generalize h.selectNext now = r at hnext hp
    generalize k.selectNext now = r' at hnext hp
    obtain ⟨h', p?⟩ := r
    obtain ⟨k', q?⟩ := r'
    cases hp
    cases p? with
    | none => exact ⟨hnext, rfl⟩
    | some p =>
      obtain ⟨hrest, hps⟩ := ih hnext
      exact ⟨hrest, congrArg (p :: ·) hps⟩

namespace Agrees

variable {c d : Core n} {h k : Host n} {p : Fin n}

theorem remove (hk : Agrees c d h k) (p : Fin n) :
    Paired (h.remove p).1 (k.remove p).1 ∧ (k.remove p).2 = (h.remove p).2 := by
  unfold Host.remove
  rw [hk.left, hk.right]
  dsimp only
  rw [hk.shelf, hk.procs]
  generalize (h.shelf c).withdraw p = w
  have hw := hk.withShelf w.1
  cases w.2 with
  | removed q => exact ⟨⟨_, _, hw.say _ _⟩, rfl⟩
  | contended => exact ⟨⟨_, _, (hw.count _).say _ _⟩, rfl⟩
  | notFound => exact ⟨⟨_, _, hw⟩, rfl⟩

theorem untrack (hk : Agrees c d h k) (p : Fin n) : Paired (h.untrack p) (k.untrack p) := by
  unfold Host.untrack
  rw [hk.procs]
  split
  · have hk' := hk.touch p fun record => { record with tracked := false }
    have hc : c.tensor.untrack.Shaped h.allocator.config := { hk.ring with }
    have hd : d.tensor.untrack.Shaped h.allocator.config := { hk.ring' with }
    have hactive : d.tensor.untrack.active = c.tensor.untrack.active :=
      congrArg (· - 1) hk.active
    dsimp only
    rw [hk'.left, hk'.right]
    exact ⟨_, _, hk'.withTensor hactive hc hd⟩
  · exact ⟨c, d, hk⟩

theorem stampRing (hk : Agrees c d h k) (now : Tick) :
    Answers (h.stampRing now) (k.stampRing now) := by
  obtain ⟨t, slot, ht, hshaped, hactive⟩ := hk.ring.advance hk.accepted now
  obtain ⟨t', slot', ht', hshaped', hactive'⟩ := hk.ring'.advance hk.accepted now
  unfold Host.stampRing
  rw [hk.left, hk.right]
  simp only [ht, ht']
  exact .returned ⟨⟨_, _, hk.withTensor (by rw [hactive, hactive', hk.active]) hshaped hshaped'⟩, rfl⟩

theorem retire (hk : Agrees c d h k) (p : Fin n) :
    Paired (h.retire p).1 (k.retire p).1 ∧ (k.retire p).2 = (h.retire p).2 := by
  obtain ⟨hremove, hremoval⟩ := hk.remove p
  unfold Host.retire
  generalize h.remove p = r at hremove hremoval
  generalize k.remove p = r' at hremove hremoval
  obtain ⟨h', removal⟩ := r
  obtain ⟨k', removal'⟩ := r'
  cases hremoval
  dsimp only at hremove ⊢
  split
  · exact ⟨hremove, rfl⟩
  · obtain ⟨c', d', hk'⟩ := hremove
    exact ⟨hk'.untrack p, rfl⟩

theorem refresh (hk : Agrees c d h k) (clock : Clock) (p : Fin n) :
    Answers (h.refresh clock p) (k.refresh clock p) := by
  unfold Host.refresh
  dsimp only
  rw [hk.procs, hk.config]
  split
  · rw [if_neg hk.accepted.divisor, if_neg hk.accepted.divisor]
    split
    · exact .returned ⟨⟨c, d, hk⟩, rfl⟩
    · refine ((hk.touch p _).stampRing clock.now).bind fun g _ g' _ hg => ?_
      obtain ⟨⟨c', d', hg⟩, _⟩ := hg
      have hstamped : Agrees c' d' (g.withAllocator fun a => { a with lastUpdate := clock.now })
          (g'.withAllocator fun a => { a with lastUpdate := clock.now }) := { hg with }
      exact .returned ⟨⟨c', d', (hstamped.count _).say _ _⟩, rfl⟩
  · exact .returned ⟨⟨c, d, hk⟩, rfl⟩

theorem setFeature (hk : Agrees c d h k) (p : Fin n) (i : Nat) (x : Single) :
    Agrees c d (h.setFeature p i x) (k.setFeature p i x) := by
  unfold Host.setFeature
  rw [hk.procs]
  split
  · exact hk.touch p _
  · exact hk

end Agrees

end Host

end AttentionScheduler
