import AttentionScheduler.Proofs.Pairing

/-!
Of two hosts the first may have an allocator that has not started yet. The other one then has nothing
but unused buckets, which every call passes by, and the first start makes a pair of the two.
-/

namespace AttentionScheduler

variable {n : Nat}

namespace Bucket

structure Unused (b : Bucket n) : Prop where
  members : b.members = []
  count : b.count = 0
  free : b.held = false

theorem unused_emptyBuckets (levels : Nat) :
    ∀ b ∈ (Core.emptyBuckets levels : List (Bucket n)), b.Unused := by
  intro b hb
  obtain ⟨level, _, rfl⟩ := List.mem_map.mp hb
  exact ⟨rfl, rfl, rfl⟩

theorem population_of_unused {bs : List (Bucket n)} (hb : ∀ b ∈ bs, b.Unused) : population bs = 0 := by
  induction bs with
  | nil => rfl
  | cons b bs ih =>
    rw [population, (hb b List.mem_cons_self).members,
      ih fun b hb' => hb b (List.mem_cons_of_mem _ hb')]
    rfl

end Bucket

theorem Sweep.along_of_unused (procs : Roster n) {bs : List (Bucket n)} (hb : ∀ b ∈ bs, b.Unused) :
    along bs procs = { shelf := ⟨bs, procs⟩ } := by
  induction bs with
  | nil => rfl
  | cons b bs ih =>
    rw [along, if_pos (hb b List.mem_cons_self).count,
      ih fun b hb' => hb b (List.mem_cons_of_mem _ hb')]
    rfl

theorem Shelf.withdraw_of_unused {s : Shelf n} (hb : ∀ b ∈ s.buckets, b.Unused) (p : Fin n) :
    s.withdraw p = (s, .notFound) := by
  unfold withdraw
  split
  · rfl
  · next mark _ =>
    split
    · rfl
    · next f hf =>
      obtain ⟨b, hat, rfl⟩ := Option.map_eq_some_iff.mp hf
      have hunused := hb b (List.mem_of_getElem? hat)
      have hremove : (Filed.mk b s.procs).remove p = (⟨b, s.procs⟩, .notFound) := by
        rw [Filed.remove, if_neg (by simp [hunused.free]), Filed.unlink,
          if_neg (by simp [hunused.members])]
      have hset : s.buckets.set mark b = s.buckets := by
        obtain ⟨hlt, rfl⟩ := List.getElem?_eq_some_iff.mp hat
        exact List.set_getElem_self hlt
      rw [hremove, put, hset]

namespace Host

variable {c d : Core n} {h k : Host n} {p : Fin n}

theorem selectNext_of_unused (hd : k.allocator.core? = some d) (hb : ∀ b ∈ d.buckets, b.Unused)
    (now : Tick) : k.selectNext now = (k, none) := by
  rw [selectNext_eq_handOut hd, Sweep.along_of_unused _ hb]
  exact congrArg (·, none) (withShelf_self hd)

theorem drain_of_unused (hd : k.allocator.core? = some d) (hb : ∀ b ∈ d.buckets, b.Unused)
    (now : Tick) : k.drain now = (k, []) := by
  rw [drain, Allocator.buckets_of_core? hd, Bucket.population_of_unused hb, drainFor,
    selectNext_of_unused hd hb]

theorem remove_of_unused (hd : k.allocator.core? = some d) (hb : ∀ b ∈ d.buckets, b.Unused)
    (p : Fin n) : k.remove p = (k, .notFound) := by
  have hwithdraw : (k.shelf d).withdraw p = (k.shelf d, .notFound) := Shelf.withdraw_of_unused hb p
  unfold remove
  rw [hd]
  simp only [hwithdraw, withShelf_self hd]

def begun (h : Host n) (c : Core n) : Host n := h.withAllocator (·.begun c)

/-- One allocator has started and the other has not, but it would start with what the first one still
has. -/
structure Late (c d : Core n) (h k : Host n) : Prop where
  pending : h.allocator.startup = .pending
  build : Core.build h.allocator.config = .ok c
  agrees : Agrees c d (h.begun c) k

namespace Late

theorem unused (hk : Late c d h k) : ∀ b ∈ d.buckets, b.Unused := by
  rw [hk.agrees.buckets, build_buckets hk.build]
  exact Bucket.unused_emptyBuckets _

theorem core? (hk : Late c d h k) : h.allocator.core? = none := by
  rw [Allocator.core?, hk.pending]

theorem start (hk : Late c d h k) : ∃ l, h.start = .returned ((h.begun c).say l) c := by
  unfold Host.start
  simp only [hk.pending, hk.build]
  exact ⟨_, rfl⟩

theorem procs (hk : Late c d h k) : k.procs = h.procs := hk.agrees.procs

theorem select (hk : Late c d h k) (now : Tick) :
    h.selectNext now = (h, none) ∧ k.selectNext now = (k, none) := by
  refine ⟨?_, selectNext_of_unused hk.agrees.right hk.unused now⟩
  rw [selectNext, hk.core?]

theorem drain (hk : Late c d h k) (now : Tick) : h.drain now = (h, []) ∧ k.drain now = (k, []) := by
  refine ⟨?_, drain_of_unused hk.agrees.right hk.unused now⟩
  rw [Host.drain, Allocator.buckets_of_not_started hk.core?, Bucket.population, drainFor,
    (hk.select now).1]

theorem remove (hk : Late c d h k) (p : Fin n) :
    h.remove p = (h, .notFound) ∧ k.remove p = (k, .notFound) := by
  refine ⟨?_, remove_of_unused hk.agrees.right hk.unused p⟩
  rw [Host.remove, hk.core?]

theorem untrack (hk : Late c d h k) (p : Fin n) : ∃ d, Late c d (h.untrack p) (k.untrack p) := by
  have hzero : c.tensor.active = 0 := (Core.shaped_of_build hk.agrees.accepted hk.build).2
  unfold Host.untrack
  rw [hk.procs]
  split
  · have hk' := hk.agrees.touch p fun record => { record with tracked := false }
    have hd : d.tensor.untrack.Shaped h.allocator.config := { hk.agrees.ring' with }
    have hactive : d.tensor.untrack.active = c.tensor.active := by
      change d.tensor.active - 1 = _
      rw [hk.agrees.active, hzero]
    have hcore : (h.touch p fun record => { record with tracked := false }).allocator.core? = none :=
      hk.core?
    dsimp only
    rw [hcore, hk'.right]
    exact ⟨_, hk.pending, hk.build, hk'.withTensor hactive hk.agrees.ring hd⟩
  · exact ⟨d, hk⟩

theorem retire (hk : Late c d h k) (p : Fin n) : (∃ d, Late c d (h.retire p).1 (k.retire p).1) ∧
    (h.retire p).2 = .notFound ∧ (k.retire p).2 = .notFound := by
  obtain ⟨hremove, hremove'⟩ := hk.remove p
  have hretire : h.retire p = (h.untrack p, .notFound) := by
    rw [Host.retire, hremove]
    rfl
  have hretire' : k.retire p = (k.untrack p, .notFound) := by
    rw [Host.retire, hremove']
    rfl
  rw [hretire, hretire']
  exact ⟨hk.untrack p, rfl, rfl⟩

theorem touch (hk : Late c d h k) (p : Fin n) (f : Record → Record) :
    Late c d (h.touch p f) (k.touch p f) :=
  ⟨hk.pending, hk.build, hk.agrees.touch p f⟩

/-- The ring turns on the allocator that has one. -/
theorem stampRing (hk : Late c d h k) (now : Tick) : ∃ d' k', h.stampRing now = .returned h () ∧
    k.stampRing now = .returned k' () ∧ Late c d' h k' := by
  obtain ⟨t, slot, ht, hshaped, hactive⟩ := hk.agrees.ring'.advance hk.agrees.accepted now
  refine ⟨_, _, by rw [Host.stampRing, hk.core?], ?_, hk.pending, hk.build,
    hk.agrees.withTensor (u := t) ?_ hk.agrees.ring hshaped⟩
  · rw [Host.stampRing, hk.agrees.right]
    simp only [ht]
  · rw [hactive, hk.agrees.active]

theorem setFeature (hk : Late c d h k) (p : Fin n) (i : Nat) (x : Single) :
    Late c d (h.setFeature p i x) (k.setFeature p i x) := by
  unfold Host.setFeature
  rw [hk.procs]
  split
  · exact hk.touch p _
  · exact hk

end Late

/-- The first allocator has started as well, or it is late. -/
def Twins (h k : Host n) : Prop := Paired h k ∨ ∃ c d, Late c d h k

namespace Twins

theorem procs (hk : Twins h k) : k.procs = h.procs := by
  obtain ⟨c, d, hk⟩ | ⟨c, d, hk⟩ := hk
  · exact hk.procs
  · exact hk.procs

theorem config (hk : Twins h k) : k.allocator.config = h.allocator.config := by
  obtain ⟨c, d, hk⟩ | ⟨c, d, hk⟩ := hk
  · exact hk.config
  · exact hk.agrees.config

theorem counters (hk : Twins h k) : k.allocator.counters = h.allocator.counters := by
  obtain ⟨c, d, hk⟩ | ⟨c, d, hk⟩ := hk
  · exact hk.counters
  · exact hk.agrees.counters

theorem active (hk : Twins h k) : k.allocator.active = h.allocator.active := by
  obtain ⟨c, d, hk⟩ | ⟨c, d, hk⟩ := hk
  · rw [Allocator.active_of_core? hk.left, Allocator.active_of_core? hk.right, hk.active]
  · have hzero : c.tensor.active = 0 := (Core.shaped_of_build hk.agrees.accepted hk.build).2
    rw [Allocator.active_of_core? hk.agrees.right, hk.agrees.active, hzero,
      Allocator.active_of_not_started hk.core?]

theorem buckets (hk : Twins h k) {level : Nat} {b : Bucket n}
    (hb : h.allocator.buckets[level]? = some b) :
    k.allocator.buckets[level]? = some b := by
  obtain ⟨c, d, hk⟩ | ⟨c, d, hk⟩ := hk
  · rwa [Allocator.buckets_of_core? hk.right, hk.buckets, ← Allocator.buckets_of_core? hk.left]
  · rw [Allocator.buckets_of_not_started hk.core?] at hb
    cases hb

theorem members (hk : Twins h k) (level : Nat) :
    (k.allocator.buckets[level]?.map (·.members)).getD [] =
      (h.allocator.buckets[level]?.map (·.members)).getD [] := by
  obtain ⟨c, d, hk⟩ | ⟨c, d, hk⟩ := hk
  · rw [Allocator.buckets_of_core? hk.left, Allocator.buckets_of_core? hk.right, hk.buckets]
  · rw [Allocator.buckets_of_core? hk.agrees.right, Allocator.buckets_of_not_started hk.core?]
    cases hb : d.buckets[level]? with
    | none => rfl
    | some b => exact (hk.unused b (List.mem_of_getElem? hb)).members

theorem touch (hk : Twins h k) (p : Fin n) (f : Record → Record) :
    Twins (h.touch p f) (k.touch p f) := by
  obtain ⟨c, d, hk⟩ | ⟨c, d, hk⟩ := hk
  · exact .inl ⟨c, d, hk.touch p f⟩
  · exact .inr ⟨c, d, hk.touch p f⟩

theorem unsaid (hk : Twins h k) : Twins ⟨h.allocator, h.procs, []⟩ ⟨k.allocator, k.procs, []⟩ := by
  obtain ⟨c, d, hk⟩ | ⟨c, d, hk⟩ := hk
  · exact .inl ⟨c, d, { hk with }⟩
  · exact .inr ⟨c, d, hk.pending, hk.build, { hk.agrees with }⟩

/-- Advice may be given to one and not to the other. -/
theorem advise (hk : Twins h k) (budget budget' : UInt64) (on on' : Bool) (l l' : Line) :
    Twins ((h.withAllocator fun a => { a with budget := budget, emergency := on }).say l)
      ((k.withAllocator fun a => { a with budget := budget', emergency := on' }).say l') := by
  obtain ⟨c, d, hk⟩ | ⟨c, d, hk⟩ := hk
  · exact .inl ⟨c, d, { hk with }⟩
  · exact .inr ⟨c, d, hk.pending, hk.build, { hk.agrees with }⟩

theorem start (hk : Twins h k) : h.start.Pairs
    (fun h _ k _ => Twins h k ∧ h.allocator.isStarted = true ∧ k.allocator.isStarted = true) Twins
      k.start := by
  obtain ⟨c, d, hk⟩ | ⟨c, d, hk⟩ := hk
  · rw [start_of_core? hk.left, start_of_core? hk.right]
    exact .returned ⟨.inl ⟨c, d, hk⟩, Allocator.isStarted_of_core? hk.left,
      Allocator.isStarted_of_core? hk.right⟩
  · obtain ⟨l, hstart⟩ := hk.start
    rw [hstart, start_of_core? hk.agrees.right]
    exact .returned ⟨.inl ⟨c, d, { hk.agrees with }⟩, rfl, Allocator.isStarted_of_core? hk.agrees.right⟩

theorem ready (hk : Twins h k) (p : Fin n) :
    (h.ready p).Pairs (fun h _ k _ => Twins h k) Twins (k.ready p) := by
  obtain ⟨c, d, hk⟩ | ⟨c, d, hk⟩ := hk
  · exact (hk.ready p).imp (fun _ _ _ _ hk => .inl hk.1) fun _ _ hk => .inl hk
  · by_cases hcog : h.procs[p].cognitive = true
    · obtain ⟨l, hstart⟩ := hk.start
      have hsaid : Agrees c d ((h.begun c).say l) k := { hk.agrees with }
      have hcog' : ((h.begun c).say l).procs[p].cognitive = true := hcog
      have hready : h.ready p = ((h.begun c).say l).ready p := by
        rw [Host.ready, Host.ready, if_pos hcog, if_pos hcog', hstart, start_of_core? hsaid.left]
      rw [hready]
      exact (hsaid.ready p).imp (fun _ _ _ _ hk => .inl hk.1) fun _ _ hk => .inl hk
    · rw [Host.ready, Host.ready, if_neg hcog, hk.procs, if_neg hcog]
      exact .returned (.inr ⟨c, d, hk⟩)

theorem selectNext (hk : Twins h k) (now : Tick) :
    Twins (h.selectNext now).1 (k.selectNext now).1 ∧ (k.selectNext now).2 = (h.selectNext now).2 := by
  obtain ⟨c, d, hk⟩ | ⟨c, d, hk⟩ := hk
  · obtain ⟨hnext, hp⟩ := hk.selectNext now
    exact ⟨.inl hnext, hp⟩
  · obtain ⟨hselect, hselect'⟩ := hk.select now
    rw [hselect, hselect']
    exact ⟨.inr ⟨c, d, hk⟩, rfl⟩

theorem drain (hk : Twins h k) (now : Tick) :
    Twins (h.drain now).1 (k.drain now).1 ∧ (k.drain now).2 = (h.drain now).2 := by
  obtain ⟨c, d, hk⟩ | ⟨c, d, hk⟩ := hk
  · have hbuckets : k.allocator.buckets = h.allocator.buckets := by
      rw [Allocator.buckets_of_core? hk.left, Allocator.buckets_of_core? hk.right, hk.buckets]
    obtain ⟨hdrain, hps⟩ :=
      Paired.drainFor ⟨c, d, hk⟩ (Bucket.population h.allocator.buckets + 1) now
    rw [Host.drain, Host.drain, hbuckets]
    exact ⟨.inl hdrain, hps⟩
  · obtain ⟨hdrain, hdrain'⟩ := hk.drain now
    rw [hdrain, hdrain']
    exact ⟨.inr ⟨c, d, hk⟩, rfl⟩

theorem remove (hk : Twins h k) (p : Fin n) :
    Twins (h.remove p).1 (k.remove p).1 ∧ (k.remove p).2 = (h.remove p).2 := by
  obtain ⟨c, d, hk⟩ | ⟨c, d, hk⟩ := hk
  · obtain ⟨hremove, hremoval⟩ := hk.remove p
    exact ⟨.inl hremove, hremoval⟩
  · obtain ⟨hremove, hremove'⟩ := hk.remove p
    rw [hremove, hremove']
    exact ⟨.inr ⟨c, d, hk⟩, rfl⟩

theorem retire (hk : Twins h k) (p : Fin n) :
    Twins (h.retire p).1 (k.retire p).1 ∧ (k.retire p).2 = (h.retire p).2 := by
  obtain ⟨c, d, hk⟩ | ⟨c, d, hk⟩ := hk
  · obtain ⟨hretire, hremoval⟩ := hk.retire p
    exact ⟨.inl hretire, hremoval⟩
  · obtain ⟨⟨d', hretire⟩, hremoval, hremoval'⟩ := hk.retire p
    exact ⟨.inr ⟨c, d', hretire⟩, hremoval'.trans hremoval.symm⟩

theorem refresh (hk : Twins h k) (clock : Clock) (p : Fin n) :
    (h.refresh clock p).Pairs (fun h _ k _ => Twins h k) Twins (k.refresh clock p) := by
  obtain ⟨c, d, hk⟩ | ⟨c, d, hk⟩ := hk
  · exact (hk.refresh clock p).imp (fun _ _ _ _ hk => .inl hk.1) fun _ _ hk => .inl hk
  · have hdivisor : h.allocator.config.interactiveDivisor ≠ 0 := hk.agrees.accepted.divisor
    have hconfig : k.allocator.config = h.allocator.config := hk.agrees.config
    unfold Host.refresh
    dsimp only
    rw [hk.procs, hconfig]
    simp only [if_neg hdivisor]
    split
    · split
      · exact .returned (.inr ⟨c, d, hk⟩)
      · obtain ⟨d', k', hring, hring', hk'⟩ := (hk.touch p _).stampRing clock.now
        rw [hring, hring']
        refine .returned (.inr ⟨c, d', hk'.pending, hk'.build, ?_⟩)
        exact { (hk'.agrees.count fun c => { c with refreshes := c.refreshes + 1 }) with }
    · exact .returned (.inr ⟨c, d, hk⟩)

theorem setFeature (hk : Twins h k) (p : Fin n) (i : Nat) (x : Single) :
    Twins (h.setFeature p i x) (k.setFeature p i x) := by
  obtain ⟨c, d, hk⟩ | ⟨c, d, hk⟩ := hk
  · exact .inl ⟨c, d, hk.setFeature p i x⟩
  · exact .inr ⟨c, d, hk.setFeature p i x⟩

end Twins

end Host

namespace HostCall

/-- The calls that schedule or advise. The others look at the buckets or the ring. -/
def schedules : HostCall n → Bool
  | start | ready _ | select | drain | remove _ | retire _ | refresh _ | setFeature _ _ _
  | attention _ | levelFor _ | setEmergency _ | setBudget _ | lastUpdate => true
  | stats | config | dump | dumpToLog | buckets | tensor _ => false

end HostCall

namespace HostAnswer

/-- The answer without the tick of the last update, which scheduling does not read. -/
def untimed : HostAnswer n → HostAnswer n
  | tick _ => tick 0
  | answer => answer

end HostAnswer

namespace Host

variable {h k : Host n}

theorem Twins.call {call : HostCall n} (hk : Twins h k) (clock : Clock) (hcall : call.schedules = true) :
    (h.call clock call).Pairs (fun h a k b => Twins h k ∧ b.untimed = a.untimed) Twins
      (k.call clock call) := by
  cases call with
  | stats | config | dump | dumpToLog | buckets | tensor => cases hcall
  | start => exact hk.start.bind fun h _ k _ hk => .returned ⟨hk.1, by rw [hk.2.1, hk.2.2]⟩
  | ready p =>
    refine (hk.ready p).bind fun h _ k _ hk => .returned ⟨hk, ?_⟩
    rw [hk.procs]
  | select =>
    obtain ⟨hnext, hp⟩ := hk.selectNext clock.now
    exact .returned ⟨hnext, by rw [hp]⟩
  | drain =>
    obtain ⟨hdrain, hps⟩ := hk.drain clock.now
    exact .returned ⟨hdrain, by rw [hps]⟩
  | remove p =>
    obtain ⟨hremove, hremoval⟩ := hk.remove p
    exact .returned ⟨hremove, by rw [hremoval]⟩
  | retire p =>
    obtain ⟨hretire, hremoval⟩ := hk.retire p
    exact .returned ⟨hretire, by rw [hremoval]⟩
  | refresh p => exact (hk.refresh clock p).mapAnswer fun _ _ _ _ hk => ⟨hk, rfl⟩
  | setFeature p i x => exact .returned ⟨hk.setFeature p i x, rfl⟩
  | attention p =>
    refine .returned ⟨hk, ?_⟩
    rw [Host.attention, Host.attention, hk.procs]
  | levelFor score =>
    change (Ending.mapAnswer _ (.ofExcept h _)).Pairs _ _ (Ending.mapAnswer _ (.ofExcept k _))
    rw [hk.config]
    cases Level.ofScore h.allocator.config.levels score with
    | error fault => exact .faulted hk fault
    | ok level => exact .returned ⟨hk, rfl⟩
  | setEmergency on => exact .returned ⟨hk.advise _ _ on on _ _, rfl⟩
  | setBudget budget => exact .returned ⟨hk.advise budget budget _ _ _ _, rfl⟩
  | lastUpdate => exact .returned ⟨hk, rfl⟩

end Host

end AttentionScheduler
