import AttentionScheduler.Proofs.Clamping
import AttentionScheduler.Proofs.Retirement
import AttentionScheduler.Proofs.SessionEvolution

/-!
A process sits in the bucket that its stored score asks for. Signals are free to drift, but a score is only
written by the call that files the process anew.
-/

namespace AttentionScheduler

open Files

variable {n : Nat}

namespace Host

variable {h k : Host n} {p : Fin n} {fault : Fault}

/-- A process is scored without being filed only if it was not enrolled. -/
theorem ready_faults (hx : h.allocator.Shaped) (hr : h.ready p = .faulted k fault) :
    k.procs = h.procs ∨ h.procs[p].tracked = false := by
  cases hcog : h.procs[p].cognitive with
  | false =>
    rw [ready, hcog] at hr
    cases hr
  | true =>
    rw [ready_eq hcog] at hr
    have hends := h.enter_ends p
    have hevolves := h.enter_evolves p
    generalize h.enter p = e at hr hends hevolves
    cases hends with
    | unstarted procs =>
      cases hr
      exact .inl procs
    | full untracked procs => exact .inr untracked
    | entered built procs =>
      exact absurd hr ((place_faultless built (hevolves.shaped hx) p _).ne k fault)

end Host

namespace Session

variable {s t : Session n} {a levels level : Nat} {p : Fin n} {c : Call n} {d : Done n}
  {es : List (Event n)} {cs : List (Change n)}

def Sits (s : Session n) (a level : Nat) (p : Fin n) : Prop :=
  ∃ b, s.bucketAt (.own a level) = some b ∧ p ∈ b.members

/-- What is known of a process in a bucket of `a`. -/
structure Placed (a levels : Nat) (es : List (Event n)) (s : Session n) (p : Fin n) (level : Nat) :
    Prop where
  used : UsedWith a es p
  scored : Level.ofScore levels s.procs[p].vector.attention = .ok level
  tracked : s.procs[p].tracked = true

theorem sits_of_edits (h : Edits s.files cs t.files)
    (hlink : ∀ level, Change.link (.own a level) p ∉ cs) (ht : t.Sits a level p) :
    s.Sits a level p := by
  have hbefore : Confined (fun place => ∀ l, place = .own a l → s.Sits a l p) s.files p := by
    rintro _ b hb hp l rfl
    exact ⟨b, hb, hp⟩
  obtain ⟨b, hb, hp⟩ := ht
  refine hbefore.edits h ?_ (.own a level) b hb hp level rfl
  rintro _ hmem l rfl
  exact absurd hmem (hlink l)

theorem sits_of_files (h : t.files = s.files) (ht : t.Sits a level p) : s.Sits a level p :=
  sits_of_edits (h ▸ .nil _) (fun _ => List.not_mem_nil) ht

theorem sits_of_locks (h : s.Locks t) (ht : t.Sits a level p) : s.Sits a level p := by
  obtain ⟨cs, hedits, hlatch⟩ := h.edits
  refine sits_of_edits hedits (fun l hlink => ?_) ht
  obtain ⟨_, _, hl⟩ := hlatch _ hlink
  cases hl

theorem Sits.mark (hs : s.files.Sound) (h : s.Sits a level p) : s.procs[p].mark = some level := by
  obtain ⟨b, hb, hp⟩ := h
  have hfile : s.files.bucket? (.own a level) = some b := hb
  obtain ⟨hlevel, hmarking⟩ := hs.own_level hfile
  exact hlevel ▸ hs.marked hfile hmarking hp

theorem retire_leaves (hs : s.files.Sound) (hc : s.call (.host a (.retire p)) = .ok d) :
    d.session.procs = s.procs ∨ ∀ level, ¬ d.session.Sits a level p := by
  have hd : d.session.files.Sound := (Leads.call hc (.refl _)).sound hs
  obtain ⟨seat, hseat, rfl⟩ := retire_ok hc
  have hends := Host.retire_ends s.files a (s.host seat) p
  generalize (s.host seat).retire p = ends at hends hd ⊢
  cases hends with
  | contended marked there held alike procs counters => exact .inl procs
  | notFound absent alike counters =>
    refine .inr fun level hsits => ?_
    have hbefore : s.Sits a level p := sits_of_files (files_putHost_alike hseat alike) hsits
    have hmark : s.procs[p].mark = some level := hbefore.mark hs
    obtain ⟨b, hb, hp⟩ := hbefore
    exact (absent level b hmark ((bucketAt_of_seat hseat level).symm.trans hb)).2 hp
  | removed marked started config counters edit =>
    refine .inr fun level hsits => ?_
    have hmark : (s.putHost a _).files.mark p = some level := hsits.mark hd
    rw [hs.mark_of_unlink (edit_putHost hseat edit)] at hmark
    cases hmark

theorem ready_places (hs : s.files.Sound) (hused : UsedWith a es p)
    (hx : ∀ x, s.allocator? a = some x → x.config.levels = levels ∧ x.Shaped)
    (hI : ∀ l, s.Sits a l p → s.Placed a levels es p l)
    (hc : s.call (.host a (.ready p)) = .ok d) (hsits : d.session.Sits a level p) :
    d.session.Placed a levels es p level := by
  have hd : d.session.files.Sound := (Leads.call hc (.refl _)).sound hs
  obtain ⟨seat, hseat⟩ := seat_of_call hc
  obtain ⟨hlevels, hshaped⟩ := hx _ (allocator?_of_seat hseat)
  have hrow : (s.files.withShelf a (s.host seat).row).Sound := by rwa [files_host hseat]
  have hends := Host.ready_ends hrow p
  -- Where the bucket is kept, what was known of the process must be found again in its new record.
  have kept {k : Host n} (hedits : Edits (s.files.withShelf a (s.host seat).row)
      (Host.opening a (s.host seat) k) (s.files.withShelf a k.row))
      (hk : (s.putHost a k).Sits a level p) : s.Placed a levels es p level :=
    hI level (sits_of_edits (edits_putHost hseat hedits) (fun _ => not_link_opening) hk)
  simp only [call, callHost, hseat, Host.call] at hc
  cases hr : (s.host seat).ready p with
  | stuck stop =>
    rw [hr] at hc
    cases hc
  | faulted k fault =>
    rw [hr] at hc hends
    cases hc
    cases hends with
    | faulted cognitive counters edits =>
      obtain ⟨_, scored, tracked⟩ := kept edits hsits
      rcases Host.ready_faults hshaped hr with hprocs | huntracked
      · have hsame : (s.putHost a k).procs = s.procs := hprocs
        exact ⟨hused, hsame ▸ scored, hsame ▸ tracked⟩
      · exact absurd tracked (Bool.eq_false_iff.mp huntracked)
  | returned k _ =>
    rw [hr] at hc hends
    cases hc
    cases hends with
    | ignored plain =>
      have hfiles : (s.putHost a (s.host seat)).files = s.files := files_putHost_alike hseat (.refl _)
      obtain ⟨_, scored, tracked⟩ := hI level (sits_of_files hfiles hsits)
      exact ⟨hused, scored, tracked⟩
    | @refused _ mark cognitive counters marked absent edits =>
      have hmark : k.procs[p].mark = some level := hsits.mark hd
      cases marked.symm.trans hmark
      obtain ⟨b, hb, _⟩ := hsits
      rw [bucketAt_putHost hseat, absent] at hb
      cases hb
    | @filed _ filed cognitive counters scored marked there edits =>
      have hmark : k.procs[p].mark = some level := hsits.mark hd
      cases marked.symm.trans hmark
      obtain ⟨hattention, htracked⟩ := Host.ready_scores cognitive hr
      refine ⟨hused, ?_, htracked⟩
      change Level.ofScore levels k.procs[p].vector.attention = .ok level
      rw [hattention, FeatureVector.rescore, FeatureVector.setAttention_score, ← hlevels]
      exact scored

theorem call_places (hs : s.files.Sound) (hd : s.Does c d) (hc : s.call c = .ok d)
    (hx : ∀ x, s.allocator? a = some x → x.config.levels = levels ∧ x.Shaped)
    (hused : c.Uses p (some a) → UsedWith a es p)
    (huses : UsedWith a es p → ∀ o, c.Uses p o → o = some a)
    (hpush : ∀ l, c ≠ .bucket (.own a l) (.push p))
    (hI : ∀ l, s.Sits a l p → s.Placed a levels es p l) (hsits : d.session.Sits a level p) :
    d.session.Placed a levels es p level := by
  have before (hfiles : c.files? = some p → c.allocator? ≠ some a) :
      s.Placed a levels es p level := by
    refine hI level (sits_of_edits (hd.edits hs) (fun l hlink => ?_) hsits)
    obtain ⟨hp, hplace⟩ := Event.files?_of_link hlink
    exact hfiles hp hplace.symm
  by_cases hscores : c.Scores p
  · obtain ⟨x, rfl⟩ := Call.scores_iff.mp hscores
    by_cases hxa : x = a
    · subst hxa
      exact ready_places hs (hused ⟨rfl, rfl⟩) hx hI hc hsits
    · -- A process in a bucket of `a` is not used elsewhere.
      have hplaced := before fun _ h => hxa (Option.some.inj h)
      exact absurd (Option.some.inj (huses hplaced.used (some x) ⟨rfl, rfl⟩)) hxa
  · obtain ⟨used, scored, tracked⟩ : s.Placed a levels es p level := by
      refine before fun hp ha => ?_
      unfold Call.files? at hp
      split at hp
      · next x q =>
        cases hp
        exact hscores rfl
      · next place q =>
        cases hp
        cases place with
        | own x l =>
          cases ha
          exact hpush l rfl
        | loose q => cases ha
      · cases hp
    have hwrites := call_writes hc p
    refine ⟨used, (Record.attention_of_writes hwrites hscores).symm ▸ scored, ?_⟩
    by_cases hretires : c.Retires p
    · obtain ⟨x, rfl⟩ := Call.retires_iff.mp hretires
      cases huses used (some x) ⟨rfl, rfl⟩
      rcases retire_leaves hs hc with hprocs | hgone
      · exact hprocs.symm ▸ tracked
      · exact absurd hsits (hgone level)
    · exact Record.tracked_of_writes hwrites hretires tracked

theorem not_sits_fresh {os : List Opening} {queues : List (Nat × Single)} {procs : Roster n} :
    ¬ (fresh os queues procs).Sits a level p := by
  rintro ⟨b, hb, hp⟩
  rw [(bucketAt_fresh hb).1] at hp
  cases hp

theorem Locks.placed (h : s.Locks t) (hI : ∀ l, s.Sits a l p → s.Placed a levels es p l)
    (hsits : t.Sits a level p) : t.Placed a levels es p level := by
  obtain ⟨used, scored, tracked⟩ := hI level (sits_of_locks h hsits)
  exact ⟨used, h.procs.symm ▸ scored, h.procs.symm ▸ tracked⟩

variable {os : List Opening} {queues : List (Nat × Single)} {ps : Vector (UInt64 × Bool) n}
  {x : Allocator n}

theorem Leads.placed (h : (fresh os queues (freshRoster ps)).Leads es t) (hex : Exclusive a es)
    (hpush : ∀ e ∈ es, ∀ l p, e.call ≠ .bucket (.own a l) (.push p))
    (hx : (fresh os queues (freshRoster ps)).allocator? a = some x) (hsits : t.Sits a level p) :
    t.Placed a x.config.levels es p level := by
  refine h.induct (I := fun u _ => ∀ q l, u.Sits a l q → u.Placed a x.config.levels es q l)
    (fresh_sound os queues ps) ?_ ?_ (fun _ _ hq => absurd hq not_sits_fresh) p level hsits
  · intro u past c d he hs hd hI q l hq
    obtain ⟨⟨_, hpast⟩, hc⟩ := h.spelt.call_of_mem he
    have hconfig : ∀ y, u.allocator? a = some y →
        y.config.levels = x.config.levels ∧ y.Shaped := by
      intro y hy
      obtain ⟨x', hx', hevolves⟩ := hpast.evolves a y hy
      cases hx.symm.trans hx'
      exact ⟨congrArg Config.levels hevolves.config, hevolves.shaped (fresh_sturdy hx).1⟩
    refine call_places hs hd hc hconfig ?_ ?_ ?_ (hI q) hq
    · exact fun hu => hex _ (mem_of_uses_parts he hu) q hu
    · exact fun hw o hu => hw _ (mem_of_uses_parts he hu) o hu
    · rintro l rfl
      exact hpush _ (mem_of_uses_parts he ⟨rfl, rfl⟩) l q rfl
  · exact fun _ hl hI q l hq => hl.placed (hI q) hq

/-- A process that is used with one allocator alone, and joins its buckets through it, sits in the bucket
that its stored score asks for. The buckets keep their levels and thresholds. -/
theorem Leads.stays_placed (h : (fresh os queues (freshRoster ps)).Leads es t)
    (hex : Exclusive a es) (hpush : ∀ e ∈ es, ∀ l p, e.call ≠ .bucket (.own a l) (.push p))
    (hx : t.allocator? a = some x) {b : Bucket n} (hb : x.buckets[level]? = some b) :
    level < x.config.levels ∧ b.level = level ∧ b.threshold = threshold level x.config.levels ∧
      ∀ p ∈ b.members, Level.ofScore x.config.levels t.procs[p].vector.attention = .ok level := by
  obtain ⟨x₀, hx₀, hevolves⟩ := h.evolves a x hx
  have hshaped : x.Shaped := hevolves.shaped (fresh_sturdy hx₀).1
  cases hcore : x.core? with
  | none =>
    rw [Allocator.buckets_of_not_started hcore] at hb
    cases hb
  | some core =>
    obtain ⟨hlt, hlevel, hthreshold⟩ :=
      (hshaped.core core hcore).label (Allocator.buckets_of_core? hcore ▸ hb)
    refine ⟨hlt, hlevel, hthreshold, fun p hp => ?_⟩
    have hat : t.bucketAt (.own a level) = some b := by rw [bucketAt, bucketsOf, hx, hb]
    rw [hevolves.config]
    exact (h.placed hex hpush hx₀ ⟨b, hat, hp⟩).scored

theorem stays_placed_after_refresh : ∃ es, ∃ t : Session 2, ∃ x b,
    (fresh [{ hz := 1000 }] [] (freshRoster (.ofFn fun p => (.ofNat p, true)))).Leads es t ∧
    t.allocator? 0 = some x ∧ x.buckets[2]? = some b ∧ b.members = [0] ∧
    (Level.ofScore 4 (Score.attention t.procs[(0 : Fin 2)].vector.signals)).toOption = some 3 ∧
    Level.ofScore x.config.levels t.procs[(0 : Fin 2)].vector.attention = .ok 2 := by
  let s : Session 2 := fresh [{ hz := 1000 }] [] (freshRoster (.ofFn fun p => (.ofNat p, true)))
  let calls : List (Call 2) :=
    [.host 0 (.ready 0), .host 0 (.ready 1), .host 0 (.setFeature 0 0 .one),
      .host 0 (.setFeature 0 1 .one), .host 0 (.setFeature 0 3 .one), .host 0 (.retire 0),
      .host 0 .select, .host 0 (.ready 0), .clock 0 (.set 7), .host 0 (.refresh 0)]
  let steps : List (Step 2) := (calls.take 5).map .call ++
    [.hold (.own 0 3) (((calls.drop 5).take 2).map .call)] ++ (calls.drop 7).map .call
  obtain ⟨t, h, hend⟩ := exists_leads s steps
    (fun t => (((t.allocator? 0).bind fun x => x.buckets[2]?).map (·.members),
      (Level.ofScore 4 (Score.attention t.procs[(0 : Fin 2)].vector.signals)).toOption))
    (x := (some [(0 : Fin 2)], some 3)) (by decide +kernel)
  have hcalls : (s.events steps).map (·.call) = calls := by decide +kernel
  obtain ⟨hmembers, hdrift⟩ := Prod.mk.inj hend
  obtain ⟨b, hb, hb₀⟩ := Option.map_eq_some_iff.mp hmembers
  obtain ⟨x, hx, hb⟩ := Option.bind_eq_some_iff.mp hb
  have hmem : ∀ e ∈ s.events steps, e.call ∈ calls := fun e he => hcalls ▸ List.mem_map_of_mem he
  have hallocator : ∀ c ∈ calls, c.allocator? = some 0 := by decide
  have hex : Exclusive 0 (s.events steps) := fun _ _ p _ =>
    usedWith_of_allocator? (fun e he => hallocator _ (hmem e he)) p
  have hpush : ∀ e ∈ s.events steps, ∀ l p, e.call ≠ .bucket (.own 0 l) (.push p) := by
    intro e he l p hpush
    have hcall := hmem e he
    rw [hpush] at hcall
    simp [calls] at hcall
  have hplaced := (h.stays_placed hex hpush hx hb).2.2.2 0 (by rw [hb₀]; exact List.mem_cons_self)
  exact ⟨_, t, x, b, h, hx, hb, hb₀, hdrift, hplaced⟩

end Session

end AttentionScheduler
