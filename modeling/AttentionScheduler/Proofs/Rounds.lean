import AttentionScheduler.Proofs.Membership
import AttentionScheduler.Proofs.Ownership
import AttentionScheduler.Proofs.SessionEvolution

/-!
Filing has no measure that every round brings down. It ends after two rounds at most, unless the mark names
a bucket of the shelf that the process is not in. Then a round changes nothing, and neither does any later
one.
-/

namespace AttentionScheduler

open Files

variable {n : Nat}

namespace Shelf

variable {s : Shelf n} {level mark : Nat} {p : Fin n} {b : Bucket n}

/-- Filing ends in the same way for every number of rounds from two on. -/
def Settles (s : Shelf n) (level : Nat) (p : Fin n) : Prop :=
  ∃ t filing, ∀ k, s.rounds (k + 2) level p = .returned t filing

/-- A round changes nothing, and no number of rounds brings an answer. -/
structure Spins (s : Shelf n) (level : Nat) (p : Fin n) : Prop where
  round : s.round level p = .returned s none
  rounds : ∀ k, s.rounds k level p = .stuck .spinning

def Free (s : Shelf n) : Prop := ∀ b ∈ s.buckets, b.held = false

theorem Free.filed? (hs : s.Free) (hl : level < s.buckets.length) :
    ∃ f, s.filed? level = some f ∧ f.bucket.held = false :=
  ⟨⟨s.buckets[level], s.procs⟩, by rw [Shelf.filed?, List.getElem?_eq_getElem hl]; rfl,
    hs _ (List.getElem_mem hl)⟩

theorem joins_at_once (hs : s.Free) (hl : level < s.buckets.length) (hm : s.procs[p].mark = none) :
    ∃ t, ∀ k, s.rounds (k + 1) level p = .returned t .linked := by
  obtain ⟨f, hf, hfree⟩ := hs.filed? hl
  refine ⟨s.put level (f.joined p), fun k => ?_⟩
  rw [rounds, round_unmarked hf hm, if_neg (by simp [hfree])]
  rfl

theorem settles_of_unmarked (hs : s.Free) (hl : level < s.buckets.length)
    (hm : s.procs[p].mark = none) : s.Settles level p := by
  obtain ⟨t, ht⟩ := joins_at_once hs hl hm
  exact ⟨t, .linked, fun k => ht (k + 1)⟩

theorem settles_of_absent (hs : s.Free) (hl : level < s.buckets.length)
    (hm : s.procs[p].mark = some mark) (hmark : s.buckets[mark]? = none) : s.Settles level p := by
  obtain ⟨f, hf, _⟩ := hs.filed? hl
  have hround : s.round level p = .returned s (some (.refused mark)) := by
    simp only [round, hf, hm, filed?_eq_none.mpr hmark]
  refine ⟨s, .refused mark, fun k => ?_⟩
  rw [rounds, hround]
  rfl

/-- A round that finds a process under a mark which the shelf has a bucket for. -/
theorem round_of_marked (hs : s.Free) (hl : level < s.buckets.length)
    (hm : s.procs[p].mark = some mark) (hb : s.buckets[mark]? = some b) :
    s.round level p = .returned (s.put mark ((Filed.mk b s.procs).unlink p).1) none := by
  obtain ⟨f, hf, _⟩ := hs.filed? hl
  have hfree : b.held = false := hs b (List.mem_of_getElem? hb)
  have hmark : s.filed? mark = some ⟨b, s.procs⟩ := by rw [Shelf.filed?, hb]; rfl
  simp only [round, hf, hm, hmark, hfree, Bool.false_eq_true, ↓reduceIte]

theorem settles_of_member (hs : s.Free) (hl : level < s.buckets.length)
    (hm : s.procs[p].mark = markOf b.level) (hm' : s.procs[p].mark = some mark)
    (hb : s.buckets[mark]? = some b) (hp : p ∈ b.members) : s.Settles level p := by
  let f : Filed n := ⟨b, s.procs⟩
  let t := s.put mark (f.letGo p (b.members.erase p))
  have hround : s.round level p = .returned t none := by
    rw [round_of_marked hs hl hm' hb, Filed.unlink, if_pos hp]
  have ht : t.Free := by
    intro c hc
    rcases List.mem_or_eq_of_mem_set hc with hc | rfl
    · exact hs c hc
    · exact hs b (List.mem_of_getElem? hb)
  have hlt : level < t.buckets.length := Nat.lt_of_lt_of_eq hl List.length_set.symm
  have hgone : t.procs[p].mark = none := by
    change (s.procs.update p (·.release b.level))[p].mark = none
    rw [Roster.getElem_update_self, Filed.mark_release, if_pos hm]
  -- The second round finds the process unmarked.
  obtain ⟨u, hu⟩ := joins_at_once ht hlt hgone
  refine ⟨u, .linked, fun k => ?_⟩
  rw [rounds, hround, Ending.bind_returned]
  exact hu k

theorem spins_of_stray (hs : s.Free) (hl : level < s.buckets.length)
    (hm : s.procs[p].mark = some mark) (hb : s.buckets[mark]? = some b) (hp : p ∉ b.members) :
    s.Spins level p := by
  have hround : s.round level p = .returned s none := by
    have hmark : s.filed? mark = some ⟨b, s.procs⟩ := by rw [Shelf.filed?, hb]; rfl
    rw [round_of_marked hs hl hm hb, Filed.unlink, if_neg hp, put_self hmark]
  exact ⟨hround, rounds_spin hround⟩

end Shelf

namespace Host

variable {h k : Host n} {core : Core n} {p : Fin n} {level : Nat} {score : Single}

theorem start_buckets (hs : h.start = .returned k core) : core.buckets = h.allocator.buckets ∨
    h.allocator.buckets = [] ∧ core.buckets = Core.emptyBuckets h.allocator.config.levels := by
  unfold start at hs
  dsimp only at hs
  split at hs
  · next hbuilt =>
    cases hs
    exact .inl (Allocator.buckets_of_core? (by rw [Allocator.core?, hbuilt])).symm
  · cases hs
  · next hpending =>
    split at hs
    · cases hs
    · next hb =>
      cases hs
      have hcore : h.allocator.core? = none := by rw [Allocator.core?, hpending]
      exact .inr ⟨Allocator.buckets_of_not_started hcore, build_buckets hb⟩

theorem enrol_buckets {core' : Core n} (he : h.enrol core p = .returned k core') :
    core'.buckets = core.buckets := by
  unfold enrol at he
  split at he
  · cases he
    rfl
  · dsimp only at he
    split at he <;> cases he
    rfl

theorem enter_buckets (hk : h.enter p = .returned k core) : core.buckets = h.allocator.buckets ∨
    h.allocator.buckets = [] ∧ core.buckets = Core.emptyBuckets h.allocator.config.levels := by
  unfold enter at hk
  cases hs : h.start with
  | stuck stop =>
    rw [hs] at hk
    cases hk
  | faulted g fault =>
    rw [hs] at hk
    cases hk
  | returned g core₀ =>
    rw [hs] at hk
    rw [enrol_buckets hk]
    exact start_buckets hs

theorem enter_entered (hk : h.enter p = .returned k core) : k.allocator.core? = some core ∧
    k.procs = h.procs.update p (·.entered) := by
  have hends := h.enter_ends p
  rw [hk] at hends
  cases hends with
  | entered built procs => exact ⟨built, procs⟩

theorem enter_ne_stuck (h : Host n) (p : Fin n) (stop : Stop) : h.enter p ≠ .stuck stop := by
  intro hk
  have hends := h.enter_ends p
  rw [hk] at hends
  cases hends

theorem place_of_settles (hl : Level.ofScore k.allocator.config.levels score = .ok level)
    (hs : (k.shelf core).Settles level p) : ∃ g, k.place core p score = .returned g () := by
  obtain ⟨t, filing, hrounds⟩ := hs
  have hfile : (k.shelf core).file level p = .returned t filing := hrounds _
  rw [place, hl, Ending.ofExcept, Ending.bind_returned, hfile]
  cases filing <;> exact ⟨_, rfl⟩

theorem place_of_spins (hl : Level.ofScore k.allocator.config.levels score = .ok level)
    (hs : (k.shelf core).Spins level p) : k.place core p score = .stuck .spinning := by
  have hfile : (k.shelf core).file level p = .stuck .spinning := hs.rounds _
  rw [place, hl, Ending.ofExcept, Ending.bind_returned, hfile]
  rfl

end Host

namespace Session

variable {s t : Session n} {a level mark : Nat} {seat : Seat n} {p : Fin n} {b : Bucket n}
  {k : Host n} {core : Core n} {es : List (Event n)}

theorem call_of_ready (hseat : s.seat a = .ok seat) (hr : (s.host seat).ready p = .returned k ()) :
    s.call (.host a (.ready p)) =
      .ok ⟨s.putHost a k, .host (.mark k.procs[p].mark), k.lines⟩ := by
  simp only [call, callHost, hseat, Host.call, hr, Ending.bind_returned]

theorem call_of_ready_faulted {fault : Fault} (hseat : s.seat a = .ok seat)
    (hr : (s.host seat).ready p = .faulted k fault) :
    s.call (.host a (.ready p)) = .ok ⟨s.putHost a k, .fault fault, k.lines⟩ := by
  simp only [call, callHost, hseat, Host.call, hr, Ending.bind_faulted]

theorem call_of_ready_stuck {stop : Stop} (hseat : s.seat a = .ok seat)
    (hr : (s.host seat).ready p = .stuck stop) : s.call (.host a (.ready p)) = .error stop := by
  simp only [call, callHost, hseat, Host.call, hr, Ending.bind_stuck]

theorem call_of_settles (hseat : s.seat a = .ok seat) (hcog : s.procs[p].cognitive = true)
    (hk : (s.host seat).enter p = .returned k core)
    (hl : Level.ofScore k.allocator.config.levels (Score.attention s.procs[p].vector.signals) =
      .ok level) (hsettles : (k.shelf core).Settles level p) :
    ∃ d mark, s.call (.host a (.ready p)) = .ok d ∧ d.answer = .host (.mark mark) := by
  have hready := Host.ready_eq (h := s.host seat) hcog
  obtain ⟨g, hg⟩ := Host.place_of_settles hl hsettles
  rw [hk, Ending.bind_returned] at hready
  exact ⟨_, _, call_of_ready hseat (hready.trans hg), rfl⟩

theorem call_of_spins (hseat : s.seat a = .ok seat) (hcog : s.procs[p].cognitive = true)
    (hk : (s.host seat).enter p = .returned k core)
    (hl : Level.ofScore k.allocator.config.levels (Score.attention s.procs[p].vector.signals) =
      .ok level) (hspins : (k.shelf core).Spins level p) :
    s.call (.host a (.ready p)) = .error .spinning := by
  have hready := Host.ready_eq (h := s.host seat) hcog
  rw [hk, Ending.bind_returned] at hready
  exact call_of_ready_stuck hseat (hready.trans (Host.place_of_spins hl hspins))

theorem call_of_enter_faulted {fault : Fault} (hseat : s.seat a = .ok seat)
    (hcog : s.procs[p].cognitive = true) (hk : (s.host seat).enter p = .faulted k fault) :
    s.call (.host a (.ready p)) = .ok ⟨s.putHost a k, .fault fault, k.lines⟩ := by
  have hready := Host.ready_eq (h := s.host seat) hcog
  rw [hk, Ending.bind_faulted] at hready
  exact call_of_ready_faulted hseat hready

/-- A bucket that a process finds when it enters was there before, or it has just been made. -/
theorem bucket_of_enter (hseat : s.seat a = .ok seat)
    (hk : (s.host seat).enter p = .returned k core) (hb : core.buckets[mark]? = some b) :
    s.bucketAt (.own a mark) = some b ∨ b.held = false ∧ b.members = [] := by
  rw [bucketAt_of_seat hseat]
  rcases Host.enter_buckets hk with hsame | ⟨_, hmade⟩
  · exact .inl (hsame ▸ hb)
  · rw [hmade] at hb
    obtain ⟨_, rfl⟩ := emptyBuckets_getElem? hb
    exact .inr ⟨rfl, rfl⟩

theorem enter_of_bucket (hseat : s.seat a = .ok seat)
    (hk : (s.host seat).enter p = .returned k core) (hb : s.bucketAt (.own a mark) = some b) :
    core.buckets[mark]? = some b := by
  rw [bucketAt_of_seat hseat] at hb
  rcases Host.enter_buckets hk with hsame | ⟨hnone, _⟩
  · exact hsame.symm ▸ hb
  · change seat.allocator.buckets = [] at hnone
    rw [hnone] at hb
    cases hb

theorem free_of_enter (hfree : ∀ b ∈ s.everyBucket, b.held = false) (hseat : s.seat a = .ok seat)
    (hk : (s.host seat).enter p = .returned k core) : (k.shelf core).Free := by
  intro b hb
  obtain ⟨mark, hmark⟩ := List.mem_iff_getElem?.mp hb
  rcases bucket_of_enter hseat hk hmark with hat | ⟨hheld, _⟩
  · exact hfree b (mem_everyBucket.mpr ⟨_, hat⟩)
  · exact hheld

theorem mark_of_enter (hk : (s.host seat).enter p = .returned k core) :
    (k.shelf core).procs[p].mark = s.procs[p].mark := by
  change k.procs[p].mark = _
  rw [(Host.enter_entered hk).2, Roster.getElem_update_self]
  rfl

theorem stray_of_enter (hs : s.files.Sound) (hseat : s.seat a = .ok seat)
    (hk : (s.host seat).enter p = .returned k core) (hm : s.procs[p].mark = some mark)
    (hb : core.buckets[mark]? = some b) (hp : p ∉ b.members) :
    ∃ place c, place.allocator? ≠ some a ∧ s.bucketAt place = some c ∧ c.level = mark ∧
      p ∈ c.members := by
  obtain ⟨place, c, hc, _, hlevel, hpc⟩ := hs.placed hm
  refine ⟨place, c, fun ha => hp ?_, hc, hlevel, hpc⟩
  cases place with
  | loose q => cases ha
  | own x l =>
    cases ha
    have hown : c.level = l := (hs.own_level hc).1
    rw [← hown, hlevel] at hc
    cases hb.symm.trans (enter_of_bucket hseat hk hc)
    exact hpc

/-- What lets a process settle on the buckets that it finds when it enters. -/
theorem settles_of_enter (hs : s.files.Sound) (hfree : ∀ b ∈ s.everyBucket, b.held = false)
    (hseat : s.seat a = .ok seat) (hk : (s.host seat).enter p = .returned k core)
    (hl : level < core.buckets.length)
    (hhome : ∀ mark b, s.procs[p].mark = some mark → core.buckets[mark]? = some b → p ∈ b.members) :
    (k.shelf core).Settles level p := by
  have hshelf := free_of_enter hfree hseat hk
  have hmark := mark_of_enter hk
  cases hm : s.procs[p].mark with
  | none => exact Shelf.settles_of_unmarked hshelf hl (hmark.trans hm)
  | some mark =>
    cases hb : core.buckets[mark]? with
    | none => exact Shelf.settles_of_absent hshelf hl (hmark.trans hm) hb
    | some b =>
      have hp := hhome mark b hm hb
      have hown : s.procs[p].mark = markOf b.level := by
        rcases bucket_of_enter hseat hk hb with hat | ⟨_, hempty⟩
        · have hfile : s.files.bucket? (.own a mark) = some b := hat
          obtain ⟨hlevel, hmarking⟩ := hs.own_level hfile
          rw [markOf_eq_some hmarking, hlevel, hm]
        · rw [hempty] at hp
          cases hp
      exact Shelf.settles_of_member hshelf hl (hmark.trans hown) (hmark.trans hm) hb hp

variable {os : List Opening} {queues : List (Nat × Single)} {ps : Vector (UInt64 × Bool) n}

theorem Leads.level_of_enter (h : (fresh os queues (freshRoster ps)).Leads es t)
    (hseat : t.seat a = .ok seat) (hk : (t.host seat).enter p = .returned k core) (score : Single) :
    ∃ level < core.buckets.length, Level.ofScore k.allocator.config.levels score = .ok level := by
  obtain ⟨x, hx, hevolves⟩ := h.evolves a _ (allocator?_of_seat hseat)
  have henter := (t.host seat).enter_evolves p
  rw [hk] at henter
  have hshaped : k.allocator.Shaped := henter.shaped (hevolves.shaped (fresh_sturdy hx).1)
  rw [(hshaped.core core (Host.enter_entered hk).1).length]
  exact Level.exists_ofScore hshaped.config.levels score

/-- With no bucket held, to file a process takes two rounds at most, unless its mark names a bucket of the
allocator that it is not in: then it is in one of the same level elsewhere, and filing never ends. -/
theorem Leads.settles_or_spins (h : (fresh os queues (freshRoster ps)).Leads es t)
    (hfree : ∀ b ∈ t.everyBucket, b.held = false) (hseat : t.seat a = .ok seat)
    (hcog : t.procs[p].cognitive = true) :
    (∀ k core, (t.host seat).enter p = .returned k core → ∃ level < core.buckets.length,
      Level.ofScore k.allocator.config.levels (Score.attention t.procs[p].vector.signals) =
        .ok level ∧
      ((t.procs[p].mark = none ∨
          (∃ mark, t.procs[p].mark = some mark ∧ core.buckets.length ≤ mark) ∨
          ∃ mark b, t.procs[p].mark = some mark ∧ core.buckets[mark]? = some b ∧ p ∈ b.members) →
        (k.shelf core).Settles level p ∧
          ∃ d mark, t.call (.host a (.ready p)) = .ok d ∧ d.answer = .host (.mark mark)) ∧
      ∀ mark b, t.procs[p].mark = some mark → core.buckets[mark]? = some b → p ∉ b.members →
        (∃ place c, place.allocator? ≠ some a ∧ t.bucketAt place = some c ∧ c.level = mark ∧
          p ∈ c.members) ∧
        (k.shelf core).Spins level p ∧ k.withShelf core (k.shelf core) = k ∧
          t.call (.host a (.ready p)) = .error .spinning) ∧
    (UsedWith a es p → ∃ d, t.call (.host a (.ready p)) = .ok d ∧
      ∀ fault, d.answer = .fault fault → ∃ k, (t.host seat).enter p = .faulted k fault) := by
  have hs : t.files.Sound := h.sound (fresh_sound os queues ps)
  constructor
  · intro k core hk
    obtain ⟨level, hlt, hl⟩ := h.level_of_enter hseat hk (Score.attention t.procs[p].vector.signals)
    refine ⟨level, hlt, hl, fun hends => ?_, fun mark b hm hb hp => ?_⟩
    · have hsettles : (k.shelf core).Settles level p := by
        refine settles_of_enter hs hfree hseat hk hlt fun mark b hm hb => ?_
        rcases hends with hnone | ⟨mark', hm', hle⟩ | ⟨mark', b', hm', hb', hp⟩
        · cases hnone.symm.trans hm
        · cases hm'.symm.trans hm
          rw [List.getElem?_eq_none hle] at hb
          cases hb
        · cases hm'.symm.trans hm
          cases hb'.symm.trans hb
          exact hp
      exact ⟨hsettles, call_of_settles hseat hcog hk hl hsettles⟩
    · have hspins : (k.shelf core).Spins level p :=
        Shelf.spins_of_stray (free_of_enter hfree hseat hk) hlt ((mark_of_enter hk).trans hm) hb hp
      exact ⟨stray_of_enter hs hseat hk hm hb hp, hspins,
        Host.withShelf_self (Host.enter_entered hk).1, call_of_spins hseat hcog hk hl hspins⟩
  · intro hused
    cases hk : (t.host seat).enter p with
    | stuck stop => exact absurd hk (Host.enter_ne_stuck _ p stop)
    | faulted k fault =>
      refine ⟨_, call_of_enter_faulted hseat hcog hk, fun fault' hfault => ?_⟩
      cases hfault
      exact ⟨k, rfl⟩
    | returned k core =>
      obtain ⟨level, hlt, hl⟩ := h.level_of_enter hseat hk (Score.attention t.procs[p].vector.signals)
      have hsettles : (k.shelf core).Settles level p := by
        refine settles_of_enter hs hfree hseat hk hlt fun mark b hm hb => ?_
        obtain ⟨c, hc, hp⟩ := hs.own_of_mark (h.within hused) hm
        cases hb.symm.trans (enter_of_bucket hseat hk hc)
        exact hp
      obtain ⟨d, _, hcall, hanswer⟩ := call_of_settles hseat hcog hk hl hsettles
      exact ⟨d, hcall, fun fault hfault => by cases hanswer.symm.trans hfault⟩

theorem spins_on_a_loose_bucket : ∃ es, ∃ t : Session 2,
    (fresh [{ hz := 1000 }] [(2, .zero)] (freshRoster (.ofFn fun p => (.ofNat p, true)))).Leads es t ∧
    (∀ b ∈ t.everyBucket, b.held = false) ∧ t.procs[(0 : Fin 2)].mark = some 2 ∧
    t.call (.host 0 (.ready 0)) = .error .spinning ∧ ∃ d, t.call (.host 0 (.ready 1)) = .ok d := by
  let s : Session 2 :=
    fresh [{ hz := 1000 }] [(2, .zero)] (freshRoster (.ofFn fun p => (.ofNat p, true)))
  let calls : List (Call 2) :=
    [.host 0 (.ready 1), .bucket (.loose 0) (.push 0), .host 0 (.setFeature 1 3 .one)]
  let found (t : Session 2) : Option (List (Fin 2)) :=
    match t.seat 0 with
    | .error _ => none
    | .ok seat =>
      match (t.host seat).enter 0 with
      | .returned _ core => (core.buckets[2]?).map (·.members)
      | _ => none
  obtain ⟨t, h, hend⟩ := exists_leads s (calls.map .call)
    (fun t => (found t, t.procs[(0 : Fin 2)].mark,
      [t.everyBucket.all (!·.held), t.procs[(0 : Fin 2)].cognitive, t.procs[(1 : Fin 2)].cognitive]))
    (x := (some [], some 2, [true, true, true])) (by decide +kernel)
  obtain ⟨hfound, hend⟩ := Prod.mk.inj hend
  obtain ⟨hmark, hend⟩ := Prod.mk.inj hend
  simp only [List.cons.injEq, and_true] at hend
  obtain ⟨hheld, hcog₀, hcog₁⟩ := hend
  have hfree : ∀ b ∈ t.everyBucket, b.held = false := by
    intro b hb
    simpa using List.all_eq_true.mp hheld b hb
  have hcalls : (s.events (calls.map .call)).map (·.call) = calls := by decide +kernel
  have hused : UsedWith 0 (s.events (calls.map .call)) (1 : Fin 2) := by
    intro e he o hu
    have hcall : e.call ∈ calls := hcalls ▸ List.mem_map_of_mem he
    simp only [calls, List.mem_cons, List.not_mem_nil, or_false] at hcall
    rcases hcall with hcall | hcall | hcall <;> rw [hcall] at hu
    · exact hu.2
    · cases hu.1
    · exact hu.2
  simp only [found] at hfound
  split at hfound
  · cases hfound
  · next seat hseat =>
    split at hfound
    · next k core hk =>
      obtain ⟨b, hb, hempty⟩ := Option.map_eq_some_iff.mp hfound
      obtain ⟨_, _, _, _, hspins⟩ := (h.settles_or_spins hfree hseat hcog₀).1 k core hk
      obtain ⟨_, _, _, hcall⟩ := hspins 2 b hmark hb (by rw [hempty]; exact List.not_mem_nil)
      obtain ⟨d, hd, _⟩ := (h.settles_or_spins hfree hseat hcog₁).2 hused
      exact ⟨_, t, h, hfree, hmark, hcall, d, hd⟩
    · cases hfound

end Session

end AttentionScheduler
