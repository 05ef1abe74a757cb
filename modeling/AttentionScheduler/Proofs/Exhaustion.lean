import AttentionScheduler.Proofs.Revision

/-!
To select from an allocator until nobody is left comes to an end. It hands out what is in the buckets
that nobody holds, level after level, and it passes over the held ones and leaves them as they are.
-/

namespace AttentionScheduler

open Files

variable {n : Nat}

namespace Bucket

/-- The members that can be taken out of a row of buckets, in the order in which they are. -/
def available (bs : List (Bucket n)) : List (Fin n) :=
  bs.flatMap fun b => if b.held then [] else b.members

def cleared (b : Bucket n) : Bucket n := if b.held then b else b.withMembers []

variable {front rest : List (Bucket n)} {b : Bucket n} {p : Fin n} {ps : List (Fin n)}

theorem available_of_none_yields {bs : List (Bucket n)} (h : ∀ b ∈ bs, b.yields = false) :
    available bs = [] := by
  apply List.flatMap_eq_nil_iff.mpr
  intro b hb
  have hy := h b hb
  cases hh : b.held <;> simp_all [yields]

theorem available_append_cons (h : ∀ c ∈ front, c.yields = false) (free : b.held = false) :
    available (front ++ b :: rest) = b.members ++ available rest := by
  have hfront : available front = [] := available_of_none_yields h
  rw [available] at hfront ⊢
  simp only [List.flatMap_append, hfront, List.flatMap_cons, free, Bool.false_eq_true, ↓reduceIte,
    List.nil_append]
  rfl

theorem cleared_of_not_yields (hc : b.count = b.members.length) (h : b.yields = false) :
    b.cleared = b := by
  unfold cleared
  split
  · rfl
  · next hh =>
    have hm : b.members = [] := by simpa [yields, hh] using h
    cases b
    simp_all [withMembers]

theorem cleared_withMembers (b : Bucket n) (ps : List (Fin n)) (free : b.held = false) :
    (b.withMembers ps).cleared = b.cleared := by
  simp [cleared, withMembers, free]

theorem length_available_le (bs : List (Bucket n)) : (available bs).length ≤ population bs := by
  induction bs with
  | nil => exact Nat.le_refl 0
  | cons b rest ih =>
    rw [available] at ih ⊢
    rw [List.flatMap_cons, List.length_append, population]
    split
    · rw [List.length_nil]
      omega
    · omega

end Bucket

namespace Record

/-- The record of a process that has just been handed out. -/
def dispatched (now : Tick) (r : Record) : Record := { r.withVector (·.stamp now) with mark := none }

theorem dispatched_dispatched (now : Tick) (r : Record) :
    (r.dispatched now).dispatched now = r.dispatched now := rfl

end Record

namespace Counters

def selected (c : Counters) (picks passes : Nat) : Counters :=
  { c with dispatched := c.dispatched + .ofNat picks, contended := c.contended + .ofNat passes }

theorem selected_selected (c : Counters) (i j k l : Nat) :
    (c.selected i j).selected k l = c.selected (i + k) (j + l) := by
  simp [selected, UInt64.ofNat_add, UInt64.add_assoc]

end Counters

namespace Session

variable {s t : Session n} {a : Nat} {seat : Seat n} {p : Fin n} {es fs : List (Event n)}
  {d : Done n}

/-- How many held buckets with members lie below the bucket of the process that is picked, or how many
there are if nobody is. -/
def passed (s : Session n) (a : Nat) (p? : Option (Fin n)) : Nat :=
  (s.bucketsOf a).countP fun b => b.busy && p?.all fun p => s.procs[p].mark.any (b.level < ·)

/-- To select until nobody is found, with all the calls that it takes. -/
inductive Exhausts (a : Nat) : Session n → List (Event n) → Session n → Prop where
  | last {s : Session n} {d : Done n} (call : s.call (.host a .select) = .ok d)
      (nobody : d.answer = .host (.selected none)) :
      Exhausts a s [⟨s, .host a .select, d⟩] d.session
  | next {s t : Session n} {d : Done n} {p : Fin n} {es : List (Event n)}
      (call : s.call (.host a .select) = .ok d) (picked : d.answer = .host (.selected (some p)))
      (rest : Exhausts a d.session es t) : Exhausts a s (⟨s, .host a .select, d⟩ :: es) t

theorem Exhausts.unique {t' : Session n} (h : s.Exhausts a es t) (h' : s.Exhausts a fs t') :
    fs = es ∧ t' = t := by
  induction h generalizing fs with
  | last call nobody =>
    cases h' with
    | last call' nobody' =>
      cases call.symm.trans call'
      exact ⟨rfl, rfl⟩
    | next call' picked' rest' =>
      cases call.symm.trans call'
      cases nobody.symm.trans picked'
  | next call picked rest ih =>
    cases h' with
    | last call' nobody' =>
      cases call.symm.trans call'
      cases picked.symm.trans nobody'
    | next call' picked' rest' =>
      cases call.symm.trans call'
      obtain ⟨rfl, rfl⟩ := ih rest'
      exact ⟨rfl, rfl⟩

/-- What one selection does, by the row of buckets that it walks along. -/
inductive Selects (s : Session n) (a : Nat) (t : Session n) : Option (Fin n) → Prop where
  | nobody (none_yields : ∀ b ∈ s.bucketsOf a, b.yields = false)
      (buckets : t.bucketsOf a = s.bucketsOf a) (procs : t.procs = s.procs) : Selects s a t none
  | picked {front rest : List (Bucket n)} {b : Bucket n} {p : Fin n} {ps : List (Fin n)}
      (row : s.bucketsOf a = front ++ b :: rest) (none_yields : ∀ c ∈ front, c.yields = false)
      (free : b.held = false) (members : b.members = p :: ps)
      (buckets : t.bucketsOf a = front ++ b.withMembers ps :: rest)
      (procs : ∀ q : Fin n, t.procs[q] =
        if q = p then s.procs[q].dispatched (s.clockOf a).now else s.procs[q]) :
      Selects s a t (some p)

theorem bucketsOf_of_unlink {level : Nat} {b : Bucket n} (hb : s.bucketAt (.own a level) = some b)
    (h : Edit s.files (.unlink (.own a level) p) t.files) :
    t.bucketsOf a = (s.bucketsOf a).set level (b.withMembers (b.members.erase p)) := by
  have hfiles := h.eq_unlinked hb
  apply List.ext_getElem?
  intro l
  change t.files.bucket? (.own a l) = _
  rw [hfiles, List.getElem?_set]
  by_cases hl : level = l
  · subst hl
    have hlt : level < (s.bucketsOf a).length := (List.getElem?_eq_some_iff.mp hb).1
    simp [unlinked, hlt]
  · have hne : Place.own a l ≠ .own a level := by simp [Ne.symm hl]
    rw [if_neg hl]
    exact put_bucket?_of_ne hne

theorem mark_of_unlink {level : Nat} {b : Bucket n} (hs : s.files.Sound)
    (hb : s.bucketAt (.own a level) = some b)
    (h : Edit s.files (.unlink (.own a level) p) t.files) (q : Fin n) :
    t.procs[q].mark = if q = p then none else s.procs[q].mark := by
  by_cases hq : q = p
  · subst hq
    rw [if_pos rfl]
    exact hs.mark_of_unlink h
  · rw [if_neg hq]
    change t.files.mark q = _
    rw [h.eq_unlinked hb]
    exact unlinked_mark_of_ne hq

theorem selects (hs : s.files.Sound) (hseat : s.seat a = .ok seat) :
    let r := (s.host seat).selectNext (s.clock seat).now
    s.Selects a (s.putHost a r.1) r.2 ∧
      r.1.allocator.counters =
        seat.allocator.counters.selected r.2.toList.length (Bucket.met (s.bucketsOf a)) := by
  have hrow : (s.files.withShelf a (s.host seat).row).Sound := by rwa [files_host hseat]
  have hends := Host.select_ends hrow (s.clock seat).now
  have hrecords := (s.host seat).selectNext_becomes (s.clock seat).now
  have hof := bucketsOf_of_seat hseat
  dsimp only
  generalize (s.host seat).selectNext (s.clock seat).now = r at hends hrecords
  cases hends with
  | @nobody k none_yields alike procs counters =>
    constructor
    · refine .nobody (hof ▸ none_yields) ?_ procs
      rw [bucketsOf_putHost hseat, if_pos rfl, hof]
      exact alike.buckets
    · rw [counters, hof]
      simp [Counters.selected, host]
  | @taken k p level b there free first none_yields started config counters edit =>
    have hat : s.bucketAt (.own a level) = some b := by
      rw [bucketAt_of_seat hseat]
      exact there
    have hedit : Edit s.files (.unlink (.own a level) p) (s.putHost a k).files :=
      edit_putHost hseat edit
    obtain ⟨hlt, hget⟩ := List.getElem?_eq_some_iff.mp (show (s.bucketsOf a)[level]? = some b from hat)
    obtain ⟨front, rest, hsplit, rfl, hset⟩ :=
      @List.exists_of_set _ _ (b.withMembers (b.members.erase p)) _ hlt
    rw [hget] at hsplit
    obtain ⟨ps, hps⟩ : ∃ ps, b.members = p :: ps := List.head?_eq_some_iff.mp first
    constructor
    · refine .picked hsplit ?_ free hps ?_ ?_
      · intro c hc
        obtain ⟨l, hl, rfl⟩ := List.getElem_of_mem hc
        apply none_yields l hl
        change seat.allocator.buckets[l]? = _
        rw [← hof, hsplit, List.getElem?_append_left hl, List.getElem?_eq_getElem hl]
      · rw [bucketsOf_of_unlink hat hedit, hset, hps, List.erase_cons_head]
      · intro q
        have hmark : k.procs[q].mark = _ := mark_of_unlink hs hat hedit q
        have hrecord : k.procs[q] = _ := hrecords q
        change k.procs[q] = _
        rw [hrecord, hmark, clockOf_of_seat hseat]
        by_cases hq : q = p
        · subst hq
          simp [Roster.stamped, Record.dispatched, host]
        · simp [Roster.stamped, hq, host]
    · rw [counters, hof]
      simp [Counters.selected, host]

theorem level_of_bucketsOf {level : Nat} {b : Bucket n} (hs : s.files.Sound)
    (hb : (s.bucketsOf a)[level]? = some b) : b.level = level :=
  (hs.own_level (show s.bucketAt (.own a level) = some b from hb)).1

theorem Selects.available (h : s.Selects a t (some p)) :
    Bucket.available (s.bucketsOf a) = p :: Bucket.available (t.bucketsOf a) := by
  cases h with
  | @picked front rest b p ps row none_yields free members buckets procs =>
    have hfree : (b.withMembers ps).held = false := free
    rw [row, buckets, Bucket.available_append_cons none_yields free,
      Bucket.available_append_cons none_yields hfree, members]
    rfl

/-- The busy buckets below the one that is picked from are those that the walk has met. -/
theorem Selects.passed {p? : Option (Fin n)} (hs : s.files.Sound) (h : s.Selects a t p?) :
    s.passed a p? = Bucket.met (s.bucketsOf a) := by
  cases h with
  | nobody none_yields buckets procs =>
    rw [Bucket.met_of_none_yields none_yields, ← List.countP_eq_length_filter, Session.passed]
    simp only [Option.all_none, Bool.and_true]
  | @picked front rest b p ps row none_yields free members buckets procs =>
    have hb : s.files.bucket? (.own a front.length) = some b :=
      show (s.bucketsOf a)[front.length]? = some b by simp [row]
    obtain ⟨hlevel, hm⟩ := hs.own_level hb
    have hmark : s.procs[p].mark = some front.length := by
      rw [← hlevel]
      exact hs.marked hb hm (by simp [members])
    have hfront : ∀ c ∈ front, c.level < front.length := by
      intro c hc
      obtain ⟨l, hl, rfl⟩ := List.getElem_of_mem hc
      have hat : (s.bucketsOf a)[l]? = some front[l] := by
        rw [row, List.getElem?_append_left hl, List.getElem?_eq_getElem hl]
      rwa [level_of_bucketsOf hs hat]
    have hrest : ∀ c ∈ rest, ¬ c.level < front.length := by
      intro c hc
      obtain ⟨l, hl, rfl⟩ := List.getElem_of_mem hc
      have hat : (s.bucketsOf a)[front.length + (l + 1)]? = some rest[l] := by
        rw [row, List.getElem?_append_right (Nat.le_add_right _ _), Nat.add_sub_cancel_left,
          List.getElem?_cons_succ, List.getElem?_eq_getElem hl]
      rw [level_of_bucketsOf hs hat]
      omega
    have hy : b.yields = true := by simp [Bucket.yields, free, members]
    let below (c : Bucket n) : Bool := c.busy && (some p).all fun p => s.procs[p].mark.any (c.level < ·)
    have hbelow : front.countP below = front.countP Bucket.busy := by
      apply List.countP_congr
      intro c hc
      simp [-Fin.getElem_fin, below, hmark, hfront c hc]
    have habove : rest.countP below = 0 := by
      apply List.countP_eq_zero.mpr
      intro c hc
      simp [-Fin.getElem_fin, below, hmark, hrest c hc]
    change (s.bucketsOf a).countP below = _
    rw [row, Bucket.met_append_cons none_yields hy, ← List.countP_eq_length_filter, ← hbelow,
      List.countP_append, List.countP_cons, habove]
    simp [below, Bucket.busy, free]

theorem call_selects (hs : s.files.Sound) {p? : Option (Fin n)}
    (hc : s.call (.host a .select) = .ok d) (hp : d.answer = .host (.selected p?)) :
    s.Selects a d.session p? ∧ d.session.clockOf a = s.clockOf a ∧
      (d.session.allocator? a).map (·.counters) =
        ((s.allocator? a).map (·.counters)).map (·.selected p?.toList.length (s.passed a p?)) := by
  obtain ⟨seat, hseat⟩ := seat_of_call hc
  obtain ⟨hselects, hcounters⟩ := selects hs hseat
  cases (call_select hseat).symm.trans hc
  obtain rfl := HostAnswer.selected.inj (Answer.host.inj hp)
  refine ⟨hselects, ?_, ?_⟩
  · rw [clockOf_of_seat hseat, clockOf_of_seat (seat_putHost hseat _)]
    rfl
  · rw [allocator?_putHost hseat, if_pos rfl, allocator?_of_seat hseat, hselects.passed hs]
    exact congrArg some hcounters

/-- What is left of a session when nobody can be selected any more. -/
structure Drained (s : Session n) (a : Nat) (es : List (Event n)) (t : Session n) : Prop where
  yields : es.flatMap Event.yields = Bucket.available (s.bucketsOf a)
  buckets : t.bucketsOf a = (s.bucketsOf a).map Bucket.cleared
  procs : ∀ q : Fin n, t.procs[q] =
    if q ∈ Bucket.available (s.bucketsOf a) then s.procs[q].dispatched (s.clockOf a).now
    else s.procs[q]
  counters : (t.allocator? a).map (·.counters) = ((s.allocator? a).map (·.counters)).map
    (·.selected (Bucket.available (s.bucketsOf a)).length
      (es.map fun e => e.before.passed a e.done.answer.taken?).sum)

theorem drained_of_nobody (hs : s.files.Sound) (hc : s.call (.host a .select) = .ok d)
    (nobody : d.answer = .host (.selected none)) :
    s.Drained a [⟨s, .host a .select, d⟩] d.session := by
  obtain ⟨hselects, -, hcounters⟩ := call_selects hs hc nobody
  have hanswer : d.answer.taken? = none := by rw [nobody]; rfl
  cases hselects with
  | nobody none_yields buckets procs =>
    have hnone := Bucket.available_of_none_yields none_yields
    constructor
    · rw [hnone, List.flatMap_singleton, Event.yields, nobody]
      rfl
    · rw [buckets]
      symm
      refine (List.map_congr_left fun b hb => ?_).trans (List.map_id _)
      obtain ⟨level, hat⟩ := List.mem_iff_getElem?.mp hb
      have hcount := hs.published (show s.files.bucket? (.own a level) = some b from hat)
      exact Bucket.cleared_of_not_yields hcount (none_yields b hb)
    · intro q
      rw [hnone, if_neg List.not_mem_nil, procs]
    · rw [hcounters, hnone]
      simp [hanswer]

theorem Drained.pick (hs : s.files.Sound) (hc : s.call (.host a .select) = .ok d)
    (picked : d.answer = .host (.selected (some p))) (h : d.session.Drained a es t) :
    s.Drained a (⟨s, .host a .select, d⟩ :: es) t := by
  obtain ⟨hselects, hclock, hcounters⟩ := call_selects hs hc picked
  have hanswer : d.answer.taken? = some p := by rw [picked]; rfl
  have havailable := hselects.available
  cases hselects with
  | @picked front rest b _ ps row none_yields free members buckets procs =>
    constructor
    · rw [List.flatMap_cons, h.yields, havailable, Event.yields, picked]
      rfl
    · rw [h.buckets, row, buckets]
      simp [Bucket.cleared_withMembers _ _ free]
    · intro q
      rw [h.procs q, havailable, procs q, hclock]
      by_cases hq : q = p
      · subst hq
        simp [Record.dispatched_dispatched]
      · simp [hq]
    · rw [h.counters, havailable, hcounters, Option.map_map]
      congr 1
      funext c
      simp [Counters.selected_selected, hanswer, Nat.add_comm]

theorem Exhausts.drained (h : s.Exhausts a es t) (hs : s.files.Sound) : s.Drained a es t := by
  induction h with
  | last call nobody => exact drained_of_nobody hs call nobody
  | next call picked rest ih => exact (ih ((Leads.call call (.refl _)).sound hs)).pick hs call picked

theorem drainFor_exhausts {h : Host n} (k : Nat) (hs : s.files.Sound) (hseat : s.seat a = .ok seat)
    (hh : (s.host seat).Same h) (hk : (Bucket.available (s.bucketsOf a)).length < k) :
    s.Exhausts a (s.selections k a) (s.putHost a (h.drainFor k (s.clock seat).now).1) := by
  induction k generalizing s seat h with
  | zero => exact absurd hk (Nat.not_lt_zero _)
  | succ k ih =>
    have hcall := call_select hseat
    obtain ⟨hsame, hp⟩ := Host.selectNext_same hh (s.clock seat).now
    rw [Host.drainFor, selections, hcall]
    generalize (s.host seat).selectNext (s.clock seat).now = r at hcall hsame hp
    generalize h.selectNext (s.clock seat).now = r' at hsame hp
    obtain ⟨h', p?⟩ := r'
    obtain ⟨k', q?⟩ := r
    cases hp
    cases p? with
    | none =>
      dsimp only
      rw [putHost_same hsame]
      exact .last hcall rfl
    | some p =>
      have hless : (Bucket.available ((s.putHost a k').bucketsOf a)).length < k := by
        obtain ⟨hselects, -⟩ := call_selects hs hcall rfl
        rw [hselects.available, List.length_cons] at hk
        exact Nat.lt_of_succ_lt_succ hk
      have hrest := ih ((Leads.call hcall (.refl _)).sound hs) (seat_putHost hseat k') hsame hless
      rw [putHost_putHost] at hrest
      exact .next hcall rfl hrest

theorem exists_drain (hs : s.files.Sound) (hseat : s.seat a = .ok seat) :
    ∃ d, s.call (.host a .drain) = .ok d ∧
      s.Exhausts a (s.selections (s.population a + 1) a) d.session ∧
      d.answer = .host (.drained (Bucket.available (s.bucketsOf a))) := by
  have hd := drain_eq hseat
  have hexhausts := drainFor_exhausts (s.population a + 1) hs hseat ⟨rfl, rfl⟩
    (Nat.lt_succ_of_le (Bucket.length_available_le _))
  refine ⟨_, hd, hexhausts, ?_⟩
  rw [(call_drain hd).2, (hexhausts.drained hs).yields]

theorem not_available_of_held {place : Place} {b : Bucket n} (hs : s.files.Sound)
    (hb : s.bucketAt place = some b) (hm : b.Marking) (held : b.held = true) (hp : p ∈ b.members) :
    p ∉ Bucket.available (s.bucketsOf a) := by
  intro hmem
  obtain ⟨c, hc, hpc⟩ := List.mem_flatMap.mp hmem
  obtain ⟨level, hat⟩ := List.mem_iff_getElem?.mp hc
  have hcat : s.files.bucket? (.own a level) = some c := hat
  split at hpc
  · cases hpc
  · next free =>
    obtain rfl := hs.apart hb hcat hm (hs.own_level hcat).2 hp hpc
    cases hb.symm.trans hcat
    exact free held

/-- From every session that can be reached, selecting until nobody is left ends, and a drain is just
that. What was free is handed out in order and stamped, what is held stays as it is. -/
theorem Leads.exhausts {os : List Opening} {queues : List (Nat × Single)}
    {ps : Vector (UInt64 × Bool) n} {x : Allocator n}
    (h : (fresh os queues (freshRoster ps)).Leads es s) (hx : s.allocator? a = some x) :
    (∃ fs t, s.Exhausts a fs t) ∧ ∀ fs t, s.Exhausts a fs t →
      s.Drained a fs t ∧
      (∀ level b, s.bucketAt (.own a level) = some b → b.held = true →
        t.bucketAt (.own a level) = some b ∧ ∀ q ∈ b.members, t.procs[q] = s.procs[q]) ∧
      ∃ d, s.call (.host a .drain) = .ok d ∧ d.session = t ∧
        d.answer = .host (.drained (Bucket.available (s.bucketsOf a))) := by
  have hs : s.files.Sound := h.sound (fresh_sound os queues ps)
  obtain ⟨seat, hseat, -⟩ := seat_of_allocator? hx
  obtain ⟨d, hd, hexhausts, hanswer⟩ := exists_drain hs hseat
  refine ⟨⟨_, _, hexhausts⟩, fun fs t ht => ?_⟩
  have hdrained := ht.drained hs
  refine ⟨hdrained, fun level b hb held => ⟨?_, fun q hq => ?_⟩, d, hd, ?_, hanswer⟩
  · rw [bucketAt, hdrained.buckets, List.getElem?_map]
    rw [bucketAt] at hb
    rw [hb, Option.map_some, Bucket.cleared, if_pos held]
  · have hout := not_available_of_held (a := a) hs hb (hs.own_level hb).2 held hq
    rw [hdrained.procs, if_neg hout]
  · exact (ht.unique hexhausts).2

theorem exhausts_around_a_held_bucket : ∃ es, ∃ s : Session 3, ∃ fs, ∃ t,
    (fresh [{ hz := 1000 }] [] (freshRoster (.ofFn fun p => (.ofNat p, true)))).Leads es s ∧
      s.Exhausts 0 fs t ∧ fs.flatMap Event.yields = [0, 2] ∧
      t.procs[(1 : Fin 3)].mark = some 2 ∧ t.procs[(2 : Fin 3)].mark = none := by
  let s₀ : Session 3 := fresh [{ hz := 1000 }] [] (freshRoster (.ofFn fun p => (.ofNat p, true)))
  let full (i : Nat) : Step 3 := .call (.host 0 (.setFeature 1 i .one))
  let steps : List (Step 3) := [full 0, full 1, full 2, full 3, .call (.host 0 (.ready 0)),
    .call (.host 0 (.ready 1)), .call (.host 0 (.ready 2)), .hold (.own 0 2) [.call (.host 0 .stats)]]
  obtain ⟨t, h, -⟩ := exists_leads s₀ steps (fun _ => ()) (x := ()) (by decide +kernel)
  -- The call inside the hold has the session before it that is drained here.
  obtain ⟨e, he, hfacts⟩ := Option.map_eq_some_iff.mp
    (show ((s₀.events steps)[7]?).map (fun e => ((e.before.allocator? 0).isSome,
      Bucket.available (e.before.bucketsOf 0), e.before.procs[(1 : Fin 3)].mark)) =
        some (true, [0, 2], some 2) by decide +kernel)
  simp only [Prod.mk.injEq] at hfacts
  obtain ⟨hsome, havailable, hmark⟩ := hfacts
  obtain ⟨⟨past, hpast⟩, -⟩ := h.call_of_mem (List.mem_of_getElem? he)
  obtain ⟨x, hx⟩ := Option.isSome_iff_exists.mp hsome
  obtain ⟨⟨fs, u, hu⟩, hall⟩ := hpast.exhausts hx
  obtain ⟨hdrained, -⟩ := hall fs u hu
  have hprocs := hdrained.procs
  rw [havailable] at hprocs
  refine ⟨past, e.before, fs, u, hpast, hu, hdrained.yields.trans havailable, ?_, ?_⟩
  · rw [hprocs 1, if_neg (by decide)]
    exact hmark
  · rw [hprocs 2, if_pos (by decide)]
    rfl

end Session

end AttentionScheduler
