import AttentionScheduler.Proofs.Pairing
import AttentionScheduler.Proofs.Refiling
import AttentionScheduler.Proofs.Rounds
import AttentionScheduler.Proofs.Withdrawals

/-!
To file a process once more only counts once more. Two processes can be filed in either order: what comes
out differs in nothing but their order in the bucket that they share, if they share one.
-/

namespace AttentionScheduler

open Files

variable {n : Nat}

theorem Roster.update_comm {r : Roster n} {p q : Fin n} (hpq : p ≠ q) (f g : Record → Record) :
    (r.update p f).update q g = (r.update q g).update p f := by
  have hp : (r.update q g)[p] = r[p] := getElem_update_ne r hpq g
  have hq : (r.update p f)[q] = r[q] := getElem_update_ne r hpq.symm f
  rw [update, hq, update, update, hp, update]
  exact Vector.set_comm _ _ fun h => hpq (Fin.ext h)

namespace Core

variable {core : Core n} {p q : Fin n} {level level' : Nat} {tracked tracked' : Bool} {b : Bucket n}

theorem readied_comm (hpq : p ≠ q) (hlevel : level ≠ level') :
    (core.readied level p tracked).readied level' q tracked' =
      (core.readied level' q tracked').readied level p tracked := by
  have hbuckets : (core.buckets.map (·.refiled level p)).map (·.refiled level' q) =
      (core.buckets.map (·.refiled level' q)).map (·.refiled level p) := by
    rw [List.map_map, List.map_map]
    apply List.map_congr_left
    intro b _
    exact Bucket.refiled_comm hpq fun hl hl' => hlevel (hl.symm.trans hl')
  simp only [readied, enrolled, hbuckets, Nat.add_right_comm]

theorem readied_self (hnodup : ∀ b ∈ core.buckets, b.members.Nodup) :
    (core.readied level p tracked).readied level p true = core.readied level p tracked := by
  have hbuckets : (core.buckets.map (·.refiled level p)).map (·.refiled level p) =
      core.buckets.map (·.refiled level p) := by
    rw [List.map_map]
    apply List.map_congr_left
    intro b hb
    exact Bucket.refiled_self (hnodup b hb)
  simp only [readied, enrolled, hbuckets, ↓reduceIte, Nat.add_zero]

/-- At one level the two orders leave the same buckets but for the end of one of them. -/
theorem readied_swap (hpq : p ≠ q) (hlabel : ∀ i (c : Bucket n), core.buckets[i]? = some c → c.level = i)
    (hb : core.buckets[level]? = some b) :
    ∃ (c : Bucket n) (front : List (Fin n)),
      ((core.readied level p tracked).readied level q tracked').buckets[level]? = some c ∧
      c.members = front ++ [p, q] ∧
      (core.readied level q tracked').readied level p tracked =
        { (core.readied level p tracked).readied level q tracked' with
          buckets := ((core.readied level p tracked).readied level q tracked').buckets.set level
            { c with members := front ++ [q, p] } } := by
  obtain ⟨front, hmembers, hswap⟩ := Bucket.refiled_swap hpq (hlabel level b hb)
  have hat : ((core.buckets.map (·.refiled level p)).map (·.refiled level q))[level]? =
      some ((b.refiled level p).refiled level q) := by
    rw [List.getElem?_map, List.getElem?_map, hb, Option.map_some, Option.map_some]
  refine ⟨_, front, hat, hmembers, ?_⟩
  rw [← hswap]
  have hbuckets : (core.buckets.map (·.refiled level q)).map (·.refiled level p) =
      ((core.buckets.map (·.refiled level p)).map (·.refiled level q)).set level
        ((b.refiled level q).refiled level p) := by
    apply List.ext_getElem?
    intro i
    by_cases hi : level = i
    · subst hi
      rw [List.getElem?_set_self (List.getElem?_eq_some_iff.mp hat).1, List.getElem?_map,
        List.getElem?_map, hb, Option.map_some, Option.map_some]
    · rw [List.getElem?_set_ne hi]
      simp only [List.getElem?_map]
      cases hc : core.buckets[i]? with
      | none => rfl
      | some c =>
        have hother : c.level ≠ level := fun h => hi (h.symm.trans (hlabel i c hc))
        exact congrArg some (Bucket.refiled_comm hpq.symm fun h => absurd h hother)
  simp only [readied, enrolled, hbuckets, Nat.add_right_comm]

theorem admits_swap (level' : Nat) (q : Fin n) (hp : core.Admits tracked)
    (hq : (core.readied level p tracked).Admits tracked') :
    core.Admits tracked' ∧ (core.readied level' q tracked').Admits tracked := by
  change tracked' = true ∨ core.tensor.active + (if tracked then 0 else 1) + 1 < Word.limit at hq
  change (tracked' = true ∨ core.tensor.active + 1 < Word.limit) ∧
    (tracked = true ∨ core.tensor.active + (if tracked' then 0 else 1) + 1 < Word.limit)
  unfold Admits at hp
  cases tracked <;> cases tracked' <;> simp at hp hq ⊢ <;> omega

end Core

namespace Host

variable {F : Files n} {h : Host n} {core : Core n} {a level level' : Nat} {p q : Fin n}

theorem procs_readied_self (h : Host n) (core : Core n) (level : Nat) (p : Fin n) :
    (h.readied core level p).procs[p] = h.procs[p].readied level :=
  Roster.getElem_update_self ..

theorem procs_readied_ne (h : Host n) (core : Core n) (level : Nat) (hpq : p ≠ q) :
    (h.readied core level p).procs[q] = h.procs[q] :=
  Roster.getElem_update_ne _ hpq.symm _

/-- What `q` needs is not touched when another process is filed. -/
theorem readies_readied (hc : h.allocator.core? = some core) (hpq : p ≠ q) :
    (h.readied core level p).Readies (core.readied level p h.procs[p].tracked) level' q ↔
      h.Readies core level' q := by
  have hbuilt : (h.readied core level p).allocator.core? =
      some (core.readied level p h.procs[p].tracked) := rfl
  rw [readies_iff, readies_iff, h.procs_readied_ne core level hpq]
  refine and_congr Iff.rfl (and_congr (iff_of_true hbuilt hc) (and_congr Iff.rfl (and_congr ?_ ?_)))
  · exact Bucket.exists_refiled fun _ => Iff.rfl
  · exact forall_congr' fun mark => imp_congr Iff.rfl
      (Bucket.exists_refiled fun _ => and_congr Iff.rfl (Bucket.mem_refiled hpq))

theorem Readies.again (hs : (F.withShelf a (h.shelf core)).Sound) (hr : h.Readies core level p) :
    (h.readied core level p).Readies (core.readied level p h.procs[p].tracked) level p := by
  have hself := h.procs_readied_self core level p
  obtain ⟨b, hb, free⟩ := hr.target
  have hat : (core.buckets.map (·.refiled level p))[level]? = some (b.refiled level p) := by
    rw [List.getElem?_map, hb, Option.map_some]
  constructor
  · rw [hself]
    exact hr.cognitive
  · rfl
  · rw [hself]
    exact hr.scored
  · exact ⟨_, hat, free⟩
  · intro mark hm
    rw [hself] at hm
    cases hm
    exact ⟨_, hat, free, Bucket.mem_refiled_self (Shelf.own_of_sound hs hb).1⟩

/-- Filed twice in a row, a process is counted twice. -/
theorem readied_again (hs : (F.withShelf a (h.shelf core)).Sound) (level : Nat) (p : Fin n) :
    (h.readied core level p).readied (core.readied level p h.procs[p].tracked) level p =
      (h.readied core level p).count fun c => { c with enqueued := c.enqueued + 1 } := by
  have hnodup : ∀ b ∈ core.buckets, b.members.Nodup := by
    intro b hb
    obtain ⟨i, hi⟩ := List.mem_iff_getElem?.mp hb
    exact (Shelf.own_of_sound hs hi).2.2.2.1
  have htracked : (h.readied core level p).procs[p].tracked = true := by
    rw [procs_readied_self]
    rfl
  have hprocs : (h.procs.update p (·.readied level)).update p (·.readied level) =
      h.procs.update p (·.readied level) := by
    rw [Roster.update_update]
    rfl
  rw [readied, htracked, Core.readied_self hnodup]
  change (⟨_, (h.procs.update p (·.readied level)).update p (·.readied level), []⟩ : Host n) = _
  rw [hprocs]
  rfl

theorem readied_readied {core' : Core n} (hpq : p ≠ q) :
    (h.readied core level p).readied core' level' q =
      ⟨{ h.allocator.withCore (core'.readied level' q h.procs[q].tracked) with
          counters := { h.allocator.counters with enqueued := h.allocator.counters.enqueued + 1 + 1 } },
        (h.procs.update p (·.readied level)).update q (·.readied level'), []⟩ := by
  rw [readied, procs_readied_ne h core level hpq]
  rfl

theorem readied_comm (hpq : p ≠ q) (hlevel : level ≠ level') :
    (h.readied core level' q).readied (core.readied level' q h.procs[q].tracked) level p =
      (h.readied core level p).readied (core.readied level p h.procs[p].tracked) level' q := by
  rw [readied_readied hpq, readied_readied hpq.symm, Core.readied_comm hpq hlevel,
    Roster.update_comm hpq]

theorem readied_swap (hs : (F.withShelf a (h.shelf core)).Sound) (hpq : p ≠ q)
    (hr : h.Readies core level p) :
    ∃ c front, ((h.readied core level p).readied (core.readied level p h.procs[p].tracked) level
        q).allocator.buckets[level]? = some c ∧ c.members = front ++ [p, q] ∧
      (h.readied core level q).readied (core.readied level q h.procs[q].tracked) level p =
        ((h.readied core level p).readied (core.readied level p h.procs[p].tracked) level q).withAllocator
          (·.putBucket level { c with members := front ++ [q, p] }) := by
  obtain ⟨b, hb, -⟩ := hr.target
  obtain ⟨c, front, hc, hmembers, hswap⟩ := Core.readied_swap hpq
    (fun i c hc => (Shelf.own_of_sound hs hc).1) hb
  refine ⟨c, front, ?_, hmembers, ?_⟩
  · rw [readied_readied hpq]
    exact hc
  · rw [readied_readied hpq, readied_readied hpq.symm, hswap, Roster.update_comm hpq]
    rfl

end Host

namespace Session

variable {s t u : Session n} {a level level' : Nat} {seat : Seat n} {p q : Fin n} {g : Host n}
  {core : Core n} {es : List (Event n)}

/-- To make `p` ready at `a` returns, files it at `level` and leaves `t`. -/
def Enqueues (s : Session n) (a level : Nat) (p : Fin n) (t : Session n) : Prop :=
  ∃ d, s.call (.host a (.ready p)) = .ok d ∧ Event.filed? ⟨s, .host a (.ready p), d⟩ = some level ∧
    d.session = t

theorem shelf_sound (hs : s.files.Sound) (hseat : s.seat a = .ok seat)
    (hstart : (s.host seat).start = .returned g core) :
    (s.files.withShelf a (g.shelf core)).Sound := by
  have hends := Host.start_ends s.files a (s.host seat)
  rw [hstart] at hends
  cases hends with
  | returned built procs config counters edits lines =>
    rw [files_host hseat] at edits
    rw [← Host.row_eq_shelf built]
    exact hs.edits edits

theorem of_filed? {d : Done n} (h : Event.filed? ⟨s, .host a (.ready p), d⟩ = some level) :
    s.procs[p].cognitive = true ∧ d.answer = .host (.mark (some level)) ∧
      (d.session.bucketAt (.own a level)).isSome := by
  unfold Event.filed? at h
  split at h
  · next x q l hcall hanswer =>
    cases hcall
    obtain ⟨⟨hcog, hthere⟩, hlevel⟩ := Option.ite_none_right_eq_some.mp h
    cases hlevel
    exact ⟨hcog, hanswer, hthere⟩
  · cases h

theorem Enqueues.readies (hs : s.files.Sound) (h : s.Enqueues a level p t) :
    ∃ seat g core, s.seat a = .ok seat ∧ (s.host seat).start = .returned g core ∧
      g.Readies core level p ∧ core.Admits g.procs[p].tracked ∧
      t = s.putHost a (g.readied core level p) := by
  obtain ⟨d, hd, hfiled, rfl⟩ := h
  obtain ⟨hcog, hanswer, hthere⟩ := of_filed? hfiled
  obtain ⟨seat, hseat⟩ := seat_of_call hd
  cases hr : (s.host seat).ready p with
  | stuck stop => cases (call_of_ready_stuck hseat hr).symm.trans hd
  | faulted k fault =>
    cases (call_of_ready_faulted hseat hr).symm.trans hd
    cases hanswer
  | returned k =>
    cases (call_of_ready hseat hr).symm.trans hd
    have hmark : k.procs[p].mark = some level := HostAnswer.mark.inj (Answer.host.inj hanswer)
    rw [bucketAt_putHost hseat] at hthere
    cases hstart : (s.host seat).start with
    | stuck stop => exact absurd hstart (Host.start_ne_stuck _ stop)
    | faulted g fault =>
      rw [Host.ready_eq hcog, Host.enter, hstart] at hr
      cases hr
    | returned g core =>
      have hshelf := shelf_sound hs hseat hstart
      obtain ⟨hreadies, hadmits⟩ := Host.readies_of_ready hshelf hstart hcog hr hmark hthere
      refine ⟨seat, g, core, hseat, hstart, hreadies, hadmits, ?_⟩
      obtain ⟨lines, hready⟩ := Host.ready_of_readies hshelf hstart hreadies hadmits
      cases hready.symm.trans hr
      rfl

theorem enqueues_of_readies (hs : s.files.Sound) (hseat : s.seat a = .ok seat)
    (hstart : (s.host seat).start = .returned g core) (hr : g.Readies core level p)
    (hadmits : core.Admits g.procs[p].tracked) :
    s.Enqueues a level p (s.putHost a (g.readied core level p)) := by
  obtain ⟨lines, hready⟩ := Host.ready_of_readies (shelf_sound hs hseat hstart) hstart hr hadmits
  have hcog : s.procs[p].cognitive = true := by
    have hprocs : g.procs = s.procs := Host.procs_of_start hstart
    rw [← hprocs]
    exact hr.cognitive
  have hmark : (g.readied core level p).procs[p].mark = some level := by
    rw [Host.procs_readied_self]
    rfl
  have hthere : ((g.readied core level p).allocator.buckets[level]?).isSome := by
    obtain ⟨b, hb, -⟩ := hr.target
    change ((core.buckets.map (·.refiled level p))[level]?).isSome
    rw [List.getElem?_map, hb]
    rfl
  refine ⟨_, call_of_ready hseat hready, ?_, rfl⟩
  change Event.filed? ⟨s, _, ⟨_, .host (.mark (g.readied core level p).procs[p].mark), _⟩⟩ = _
  rw [hmark]
  exact filed?_of_there hseat hcog hthere

theorem Enqueues.sound (hs : s.files.Sound) (h : s.Enqueues a level p t) : t.files.Sound := by
  obtain ⟨d, hd, -, rfl⟩ := h
  exact (Leads.call hd (.refl _)).sound hs

section Next

variable {level₀ : Nat} {p₀ : Fin n}

/-- After one process has been filed the next call starts from the host that this has left. -/
theorem start_of_readied (hseat : s.seat a = .ok seat) (g : Host n) (core : Core n) :
    ∃ seat', (s.putHost a (g.readied core level₀ p₀)).seat a = .ok seat' ∧
      ((s.putHost a (g.readied core level₀ p₀)).host seat').start =
        .returned (g.readied core level₀ p₀) (core.readied level₀ p₀ g.procs[p₀].tracked) :=
  ⟨_, seat_putHost hseat _, Host.start_of_core? rfl⟩

theorem enqueues_next (hs : (s.putHost a (g.readied core level₀ p₀)).files.Sound)
    (hseat : s.seat a = .ok seat)
    (hr : (g.readied core level₀ p₀).Readies (core.readied level₀ p₀ g.procs[p₀].tracked) level p)
    (hadmits : (core.readied level₀ p₀ g.procs[p₀].tracked).Admits
      (g.readied core level₀ p₀).procs[p].tracked) :
    (s.putHost a (g.readied core level₀ p₀)).Enqueues a level p (s.putHost a
      ((g.readied core level₀ p₀).readied (core.readied level₀ p₀ g.procs[p₀].tracked) level p)) := by
  obtain ⟨seat', hseat', hstart⟩ := start_of_readied hseat g core
  have hnext := enqueues_of_readies hs hseat' hstart hr hadmits
  rwa [putHost_putHost] at hnext

theorem readies_next (hs : (s.putHost a (g.readied core level₀ p₀)).files.Sound)
    (hseat : s.seat a = .ok seat)
    (h : (s.putHost a (g.readied core level₀ p₀)).Enqueues a level p t) :
    (g.readied core level₀ p₀).Readies (core.readied level₀ p₀ g.procs[p₀].tracked) level p ∧
      (core.readied level₀ p₀ g.procs[p₀].tracked).Admits
        (g.readied core level₀ p₀).procs[p].tracked ∧
      t = s.putHost a
        ((g.readied core level₀ p₀).readied (core.readied level₀ p₀ g.procs[p₀].tracked) level p) := by
  obtain ⟨seat', hseat', hstart⟩ := start_of_readied hseat g core
  obtain ⟨seat'', k, core', hseat'', hstart', hr, hadmits, ht⟩ := h.readies hs
  cases hseat'.symm.trans hseat''
  cases hstart.symm.trans hstart'
  rw [putHost_putHost] at ht
  exact ⟨hr, hadmits, ht⟩

end Next

theorem putHost_withAllocator (hseat : s.seat a = .ok seat) (k : Host n)
    (f : Allocator n → Allocator n) :
    s.putHost a (k.withAllocator f) = (s.putHost a k).adjust a f := by
  rw [← putHost_putHost s a k, putHost_eq_adjust (seat_putHost hseat k) f rfl]
  rfl

theorem Enqueues.again (hs : s.files.Sound) (h : s.Enqueues a level p t) :
    t.Enqueues a level p (t.adjust a fun x =>
      { x with counters := { x.counters with enqueued := x.counters.enqueued + 1 } }) := by
  have hsound := h.sound hs
  obtain ⟨seat, g, core, hseat, hstart, hr, hadmits, rfl⟩ := h.readies hs
  have hshelf := shelf_sound hs hseat hstart
  have htracked : (g.readied core level p).procs[p].tracked = true := by
    rw [Host.procs_readied_self]
    rfl
  have hnext := enqueues_next hsound hseat (hr.again hshelf) (.inl htracked)
  rw [Host.readied_again hshelf, Host.count, putHost_withAllocator hseat] at hnext
  exact hnext

theorem scored_of_readies (hseat : s.seat a = .ok seat)
    (hstart : (s.host seat).start = .returned g core) (hr : g.Readies core level p) :
    Level.ofScore (s.configOf a).levels (Score.attention s.procs[p].vector.signals) = .ok level := by
  have hprocs : g.procs = s.procs := Host.procs_of_start hstart
  have hevolves := (s.host seat).start_evolves
  rw [hstart] at hevolves
  have hconfig : g.allocator.config = seat.allocator.config := Allocator.Evolves.config hevolves
  have hscored := hr.scored
  rwa [hprocs, hconfig, ← configOf_of_seat hseat] at hscored

variable {os : List Opening} {queues : List (Nat × Single)} {ps : Vector (UInt64 × Bool) n}

/-- Once a process has been filed, to file it again counts it again and does nothing else. Two processes
that can be filed one after the other can be filed the other way round; the sessions that come out are the
same, or in the bucket that the two share its last two members have changed places. -/
theorem Leads.enqueues_in_either_order (h : (fresh os queues (freshRoster ps)).Leads es s) (a : Nat) :
    (∀ level p t, s.Enqueues a level p t → t.Enqueues a level p (t.adjust a fun x =>
      { x with counters := { x.counters with enqueued := x.counters.enqueued + 1 } })) ∧
    ∀ level level' p q t u, p ≠ q → s.Enqueues a level p t → t.Enqueues a level' q u →
      Level.ofScore (s.configOf a).levels (Score.attention s.procs[p].vector.signals) = .ok level ∧
      Level.ofScore (s.configOf a).levels (Score.attention s.procs[q].vector.signals) = .ok level' ∧
      ∃ t' u', s.Enqueues a level' q t' ∧ t'.Enqueues a level p u' ∧
        (level ≠ level' → u' = u) ∧
        (level = level' → ∃ b front, u.bucketAt (.own a level) = some b ∧
          b.members = front ++ [p, q] ∧
          u' = u.putBucket { b with members := front ++ [q, p] } (.own a level)) := by
  have hs : s.files.Sound := h.sound (fresh_sound os queues ps)
  refine ⟨fun level p t ht => ht.again hs, fun level level' p q t u hpq ht hu => ?_⟩
  have hsound := ht.sound hs
  obtain ⟨seat, g, core, hseat, hstart, hp, hpadmits, rfl⟩ := ht.readies hs
  obtain ⟨hq', hqadmits', rfl⟩ := readies_next hsound hseat hu
  have hshelf := shelf_sound hs hseat hstart
  have hq : g.Readies core level' q := (Host.readies_readied hp.built hpq).mp hq'
  have hp' : (g.readied core level' q).Readies (core.readied level' q g.procs[q].tracked) level p :=
    (Host.readies_readied hq.built hpq.symm).mpr hp
  rw [Host.procs_readied_ne g core level hpq] at hqadmits'
  obtain ⟨hqadmits, hpadmits'⟩ := Core.admits_swap level' q hpadmits hqadmits'
  rw [← Host.procs_readied_ne g core level' hpq.symm] at hpadmits'
  have ht' := enqueues_of_readies hs hseat hstart hq hqadmits
  have hu' := enqueues_next (ht'.sound hs) hseat hp' hpadmits'
  refine ⟨scored_of_readies hseat hstart hp, scored_of_readies hseat hstart hq, _, _, ht', hu',
    fun hlevel => ?_, fun hlevel => ?_⟩
  · rw [Host.readied_comm hpq hlevel]
  · subst hlevel
    obtain ⟨b, front, hb, hmembers, hswap⟩ := Host.readied_swap hshelf hpq hp
    refine ⟨b, front, ?_, hmembers, ?_⟩
    · rw [bucketAt_putHost hseat, hb]
    · rw [hswap, putHost_withAllocator hseat]
      rfl

/-- The first of the two calls starts the allocator, whichever it is. -/
theorem enqueues_while_starting : ∃ s t u t' u' : Session 2, ∃ b front,
    (fresh [{ hz := 1000, config? := some {} }] [] (freshRoster #v[(1, true), (2, true)])).Leads [] s ∧
    s.started 0 = false ∧ s.Enqueues 0 3 0 t ∧ t.Enqueues 0 3 1 u ∧ s.Enqueues 0 3 1 t' ∧
    t'.Enqueues 0 3 0 u' ∧ u.bucketAt (.own 0 3) = some b ∧ b.members = front ++ [0, 1] ∧
    u' = u.putBucket { b with members := front ++ [1, 0] } (.own 0 3) := by
  let s : Session 2 :=
    fresh [{ hz := 1000, config? := some {} }] [] (freshRoster #v[(1, true), (2, true)])
  have hrun : ((s.call (.host 0 (.ready 0))).toOption.bind fun d =>
      (d.session.call (.host 0 (.ready 1))).toOption.map fun d' =>
        (Event.filed? ⟨s, .host 0 (.ready 0), d⟩,
          Event.filed? ⟨d.session, .host 0 (.ready 1), d'⟩)) = some (some 3, some 3) := by
    decide +kernel
  have returned {e : Except Stop (Done 2)} {d : Done 2} (h : e.toOption = some d) : e = .ok d := by
    cases e with
    | error stop => cases h
    | ok d' => exact congrArg Except.ok (Option.some.inj h)
  obtain ⟨d, hd, hrun⟩ := Option.bind_eq_some_iff.mp hrun
  obtain ⟨d', hd', hfiled⟩ := Option.map_eq_some_iff.mp hrun
  obtain ⟨hfirst, hsecond⟩ := Prod.mk.inj hfiled
  have ht : s.Enqueues 0 3 0 d.session := ⟨d, returned hd, hfirst, rfl⟩
  have hu : d.session.Enqueues 0 3 1 d'.session := ⟨d', returned hd', hsecond, rfl⟩
  have h : s.Leads [] s := .refl s
  obtain ⟨-, -, t', u', ht', hu', -, hsame⟩ :=
    (h.enqueues_in_either_order 0).2 3 3 0 1 _ _ (by decide) ht hu
  obtain ⟨b, front, hb, hmembers, hswap⟩ := hsame rfl
  exact ⟨s, _, _, t', u', b, front, h, by decide, ht, hu, ht', hu', hb, hmembers, hswap⟩

end Session

end AttentionScheduler
