import AttentionScheduler.Proofs.Journal

/-!
Every history of a fresh session keeps its files sound. Whatever the calls of a history preserve, and
the locks in between, holds after it.
-/

namespace AttentionScheduler

open Files

variable {n : Nat}

namespace Session

variable {s t u : Session n} {a : Nat} {place : Place} {b : Bucket n} {es past : List (Event n)}
  {os : List Opening} {queues : List (Nat × Single)} {ps : Vector (UInt64 × Bool) n}

theorem mark_freshRoster (ps : Vector (UInt64 × Bool) n) (p : Fin n) :
    (freshRoster ps)[p].mark = none :=
  congrArg Record.mark (Vector.getElem_map _ p.isLt)

theorem make_cases {o : Opening} {procs : Roster n} {x : Allocator n} {lines : List Line}
    (h : o.make procs = .ok (x, lines)) :
    (∃ c : Config, c.validate = .ok () ∧ x = { config := c } ∧ lines = []) ∨
      ∃ k : Host n, k = (Host.start ⟨{ config := {} }, procs, []⟩).stateOr
        ⟨{ config := {} }, procs, []⟩ ∧ x = k.allocator ∧ lines = k.lines := by
  unfold Opening.make at h
  cases hc : o.config? with
  | some c =>
    rw [hc] at h
    change (Allocator.create c).map _ = _ at h
    rw [Allocator.create] at h
    cases hv : c.validate with
    | error defect =>
      rw [hv] at h
      cases h
    | ok =>
      rw [hv] at h
      cases h
      exact .inl ⟨c, hv, rfl, rfl⟩
  | none =>
    rw [hc] at h
    obtain ⟨hx, hlines⟩ := Prod.mk.inj (Except.ok.inj h)
    exact .inr ⟨_, rfl, hx.symm, hlines.symm⟩

theorem make_blank {o : Opening} {procs : Roster n} {x : Allocator n} {lines : List Line}
    (h : o.make procs = .ok (x, lines)) :
    x.counters = {} ∧ ∃ levels ≤ unmarkedLevel, x.buckets = Core.emptyBuckets levels := by
  have hnone : ∃ levels ≤ unmarkedLevel, ([] : List (Bucket n)) = Core.emptyBuckets levels :=
    ⟨0, Nat.zero_le _, rfl⟩
  rcases make_cases h with ⟨c, -, rfl, -⟩ | ⟨k, hk, rfl, -⟩
  · exact ⟨rfl, hnone⟩
  · rw [Host.start] at hk
    cases hb : Core.build (n := n) ({} : Config) with
    | error fault =>
      rw [hk, hb]
      exact ⟨rfl, hnone⟩
    | ok core =>
      rw [hk, hb]
      have hlevels := Config.levels_lt {}
      refine ⟨rfl, _, ?_, Host.build_buckets hb⟩
      simp only [unmarkedLevel]
      omega

theorem make_of_seat {procs : Roster n} {seat : Seat n}
    (h : (fresh os queues procs).seat a = .ok seat) :
    ∃ o : Opening, ∃ lines, (o, seat.clock) ∈ os.zip (Opening.clockPlaces os) ∧
      o.make procs = .ok (seat.allocator, lines) := by
  simp only [Session.seat, fresh, List.getElem?_map] at h
  cases ho : (os.zip (Opening.clockPlaces os))[a]? with
  | none =>
    rw [ho] at h
    cases h
  | some oc =>
    simp only [ho, Option.map_some] at h
    cases hm : oc.1.make procs with
    | error defect =>
      rw [hm] at h
      cases h
    | ok made =>
      rw [hm] at h
      cases h
      exact ⟨oc.1, made.2, List.mem_of_getElem? ho, hm⟩

theorem allocator?_fresh {procs : Roster n} {x : Allocator n}
    (h : (fresh os queues procs).allocator? a = some x) :
    x.counters = {} ∧ ∃ levels ≤ unmarkedLevel, x.buckets = Core.emptyBuckets levels := by
  cases hs : (fresh os queues procs).seat a with
  | error stop =>
    rw [allocator?, hs] at h
    cases h
  | ok seat =>
    rw [allocator?_of_seat hs] at h
    cases h
    obtain ⟨o, lines, -, hmake⟩ := make_of_seat hs
    exact make_blank hmake

theorem bucketAt_fresh {procs : Roster n} (h : (fresh os queues procs).bucketAt place = some b) :
    b.members = [] ∧ b.count = 0 ∧ ∀ a level, place = .own a level → b.level = level ∧ b.Marking := by
  cases place with
  | own a level =>
    rw [bucketAt, bucketsOf] at h
    cases hx : (fresh os queues procs).allocator? a with
    | none =>
      rw [hx] at h
      cases h
    | some x =>
      obtain ⟨_, levels, hlevels, hbuckets⟩ := allocator?_fresh hx
      simp only [hx, hbuckets] at h
      obtain ⟨hlt, rfl⟩ := emptyBuckets_getElem? h
      refine ⟨rfl, rfl, ?_⟩
      rintro _ _ ⟨⟩
      exact ⟨rfl, by simp only [Bucket.Marking]; omega⟩
  | loose q =>
    simp only [bucketAt, fresh, List.getElem?_map, Option.map_eq_some_iff] at h
    obtain ⟨_, _, rfl⟩ := h
    refine ⟨rfl, rfl, ?_⟩
    rintro _ _ ⟨⟩

theorem fresh_sound (os : List Opening) (queues : List (Nat × Single))
    (ps : Vector (UInt64 × Bool) n) : (fresh os queues (freshRoster ps)).files.Sound := by
  have hempty {place : Place} {b : Bucket n} {p : Fin n}
      (hb : (fresh os queues (freshRoster ps)).files.bucket? place = some b) : p ∉ b.members := by
    rw [(bucketAt_fresh hb).1]
    exact List.not_mem_nil
  constructor
  · intro place b p hb _ hp
    exact absurd hp (hempty hb)
  · intro p level hp
    rw [show (fresh os queues (freshRoster ps)).files.mark p = none from mark_freshRoster ps p] at hp
    cases hp
  · intro place other b c p hb _ _ _ hp
    exact absurd hp (hempty hb)
  · intro place b hb _
    rw [(bucketAt_fresh hb).1]
    exact List.nodup_nil
  · intro place b hb
    rw [(bucketAt_fresh hb).1, (bucketAt_fresh hb).2.1]
    rfl
  · intro a level b hb
    have hat : (fresh os queues (freshRoster ps)).bucketAt (.own a level) = some b := hb
    exact (bucketAt_fresh hat).2.2 a level rfl

structure Locks (s t : Session n) : Prop where
  edits : ∃ cs, Edits s.files cs t.files ∧ ∀ c ∈ cs, ∃ place held, c = .latch place held
  keeps : s.Keeps t
  procs : t.procs = s.procs

theorem seize_locks (hb : s.bucket? place = .ok (some b)) (hs : s.seize place b = .ok t) :
    s.Locks t := by
  have hedit := seize_edit hb hs
  have hprocs := procs_seize hs
  unfold seize at hs
  split at hs
  · cases hs
  · cases hs
    exact ⟨⟨_, .single hedit, by simp⟩, keeps_putBucket s b.hold place, hprocs⟩

theorem release_locks (s : Session n) (place : Place) : s.Locks (s.release place) := by
  obtain ⟨cs, hcs, hall⟩ := release_edits s place
  refine ⟨⟨cs, hcs, fun c hc => ⟨place, false, hall c hc⟩⟩, ?_, procs_release s place⟩
  unfold release
  split
  · exact keeps_putBucket s _ place
  · exact fun _ => rfl

theorem Leads.lasts {I : Session n → List (Event n) → Prop} (h : s.Leads es t)
    (hs : s.files.Sound) (hd : ∀ e ∈ es, ∀ a, e.call ≠ .host a .drain)
    (calls : ∀ {u : Session n} {past : List (Event n)} {c : Call n} {d : Done n}, ⟨u, c, d⟩ ∈ es →
      u.files.Sound → u.Does c d → I u past → I d.session (past ++ [⟨u, c, d⟩]))
    (locks : ∀ {u v : Session n} {past : List (Event n)}, u.files.Sound → u.Locks v → I u past →
      I v past)
    (hI : I s past) : I t (past ++ es) := by
  induction h generalizing past with
  | refl =>
    rw [List.append_nil]
    exact hI
  | @call s t c d es hc _ ih =>
    -- What a call does is known on sound files only, and its changes keep them sound for the next one.
    have hdoes : s.Does c d := call_does hs (hd _ List.mem_cons_self) hc
    have hnext := ih (hs.edits (hdoes.edits hs)) (fun e he => hd e (List.mem_cons_of_mem _ he))
      (fun he => calls (List.mem_cons_of_mem _ he)) (calls List.mem_cons_self hs hdoes hI)
    rwa [List.append_assoc, List.singleton_append] at hnext
  | seize hb hseize _ ih =>
    have hlocks := seize_locks hb hseize
    obtain ⟨_, hedits, _⟩ := hlocks.edits
    exact ih (hs.edits hedits) hd calls (locks hs hlocks hI)
  | @release s t place es _ ih =>
    have hlocks := release_locks s place
    obtain ⟨_, hedits, _⟩ := hlocks.edits
    exact ih (hs.edits hedits) hd calls (locks hs hlocks hI)

/-- What every call and every lock preserves lasts through a history, its drains spelt out. -/
theorem Leads.induct {I : Session n → List (Event n) → Prop} (h : s.Leads es t)
    (hs : s.files.Sound)
    (calls : ∀ {u : Session n} {past : List (Event n)} {c : Call n} {d : Done n},
      ⟨u, c, d⟩ ∈ es.flatMap Event.parts → u.files.Sound → u.Does c d → I u past →
        I d.session (past ++ [⟨u, c, d⟩]))
    (locks : ∀ {u v : Session n} {past : List (Event n)}, u.files.Sound → u.Locks v → I u past →
      I v past)
    (hI : I s []) : I t (es.flatMap Event.parts) := by
  have hlast := h.spelt.lasts (I := I) hs (spelt_ne_drain es) calls locks hI
  rwa [List.nil_append] at hlast

theorem Leads.sound (h : s.Leads es t) (hs : s.files.Sound) : t.files.Sound := by
  apply h.induct (I := fun u _ => u.files.Sound) hs
  · exact fun _ hu hd _ => hu.edits (hd.edits hu)
  · intro u v _ _ hl hu
    obtain ⟨_, hedits, _⟩ := hl.edits
    exact hu.edits hedits
  · exact hs

end Session

end AttentionScheduler
