import AttentionScheduler.Proofs.Exhaustion

/-!
What a removal and a retirement answer, and what becomes of the session then: all of it, down to the
parts that they leave alone.
-/

namespace AttentionScheduler

open Files

variable {n : Nat}

namespace Allocator

/-- The allocator with one active process less, as far as there is one to take off. -/
def lowered (x : Allocator n) : Allocator n :=
  match x.core? with
  | some core => x.withCore { core with tensor := { core.tensor with active := core.tensor.active - 1 } }
  | none => x

end Allocator

namespace Host

variable {h k : Host n} {p : Fin n}

def contended (h : Host n) : Host n := h.count fun c => { c with contended := c.contended + 1 }

inductive Removes (h : Host n) (p : Fin n) : Host n × Removal n → Prop where
  | contended {level : Nat} {b : Bucket n} (marked : h.procs[p].mark = some level)
      (there : h.allocator.buckets[level]? = some b) (held : b.held = true) :
      Removes h p (h.contended.say (.removalContended h.procs[p].pid), .contended)
  | notFound (absent : ∀ level b, h.procs[p].mark = some level →
      h.allocator.buckets[level]? = some b → b.held = false ∧ p ∉ b.members) :
      Removes h p (h, .notFound)
  | removed {k : Host n} {level : Nat} {b : Bucket n} (marked : h.procs[p].mark = some level)
      (there : h.allocator.buckets[level]? = some b) (free : b.held = false) (member : p ∈ b.members)
      (allocator : k.allocator =
        h.allocator.putBucket level (b.withMembers (b.members.erase p)))
      (procs : k.procs = h.procs.update p (·.release b.level)) :
      Removes h p (k, .removed p)

theorem remove_removes (h : Host n) (p : Fin n) : h.Removes p (h.remove p) := by
  unfold remove
  cases hc : h.allocator.core? with
  | none =>
    apply Removes.notFound
    intro level b _ there
    rw [Allocator.buckets_of_not_started hc] at there
    cases there
  | some core =>
    have hb := Allocator.buckets_of_core? hc
    have hself : h.withShelf core (h.shelf core) = h := withShelf_self hc
    dsimp only
    unfold Shelf.withdraw
    cases hm : h.procs[p].mark with
    | none =>
      have hm' : (h.shelf core).procs[p].mark = none := hm
      simp only [hm', hself]
      apply Removes.notFound
      intro level b hmark
      cases hm.symm.trans hmark
    | some level =>
      have hm' : (h.shelf core).procs[p].mark = some level := hm
      simp only [hm']
      cases hf : (h.shelf core).filed? level with
      | none =>
        simp only [hself]
        apply Removes.notFound
        intro level' b hmark there
        cases hm.symm.trans hmark
        rw [Shelf.filed?_eq_none] at hf
        rw [hb] at there
        cases hf.symm.trans there
      | some f =>
        obtain ⟨hat, hprocs⟩ := Shelf.filed?_eq_some hf
        have there : h.allocator.buckets[level]? = some f.bucket := hb ▸ hat
        rcases f.remove_cases p with ⟨hh, hr⟩ | ⟨hh, hp, hr⟩ | ⟨hh, hp, hr⟩
        · simp only [hr, Shelf.put_self hf, hself]
          exact .contended hm there hh
        · simp only [hr, Shelf.put_self hf, hself]
          apply Removes.notFound
          intro level' b hmark there'
          cases hm.symm.trans hmark
          cases there.symm.trans there'
          exact ⟨hh, hp⟩
        · simp only [hr]
          refine .removed hm there hh hp ?_ ?_
          · rw [Allocator.putBucket, hc]
            rfl
          · change f.procs.update p _ = _
            rw [hprocs]
            rfl

theorem untrack_allocator (h : Host n) (p : Fin n) :
    (h.untrack p).allocator = if h.procs[p].tracked then h.allocator.lowered else h.allocator := by
  unfold untrack Allocator.lowered
  split
  · dsimp only
    split <;> next hc =>
      have hc' : h.allocator.core? = _ := hc
      rw [hc']
      rfl
  · rfl

end Host

namespace Session

variable {s t : Session n} {a level : Nat} {seat : Seat n} {p : Fin n} {b : Bucket n}
  {es : List (Event n)}

def adjust (s : Session n) (a : Nat) (f : Allocator n → Allocator n) : Session n :=
  { s with seats := s.seats.modify a (·.map fun seat => { seat with allocator := f seat.allocator }) }

/-- The session with one contention more on the count of `a`. -/
def contendedAt (s : Session n) (a : Nat) : Session n :=
  s.adjust a fun x => { x with counters := { x.counters with contended := x.counters.contended + 1 } }

/-- The session in which `p` is not tracked any more, and not counted as active by `a` if it has been. -/
def untracked (s : Session n) (a : Nat) (p : Fin n) : Session n :=
  if s.procs[p].tracked then
    { s.adjust a Allocator.lowered with
      procs := s.procs.update p fun r => { r with tracked := false } }
  else s

theorem adjust_congr {f g : Allocator n → Allocator n} (hs : s.seat a = .ok seat)
    (hfg : f seat.allocator = g seat.allocator) : s.adjust a f = s.adjust a g := by
  have hseats : s.seats.modify a (·.map fun x => { x with allocator := f x.allocator }) =
      s.seats.modify a (·.map fun x => { x with allocator := g x.allocator }) := by
    apply List.ext_getElem?
    intro i
    rw [List.getElem?_modify, List.getElem?_modify]
    split
    · next hi =>
      subst hi
      unfold Session.seat at hs
      rcases hx : s.seats[a]? with _ | (_ | x)
      · rfl
      · rfl
      · rw [hx] at hs
        cases hs
        simp [hfg]
    · rfl
  simp only [adjust, hseats]

theorem putHost_eq_adjust {h : Host n} (hs : s.seat a = .ok seat) (f : Allocator n → Allocator n)
    (hf : h.allocator = f seat.allocator) :
    s.putHost a h = { s.adjust a f with procs := h.procs } := by
  have hconst : s.adjust a (fun _ => h.allocator) = s.adjust a f := adjust_congr hs hf
  rw [← hconst]
  rfl

theorem putHost_untrack (hs : s.seat a = .ok seat) (k : Host n) (p : Fin n) :
    s.putHost a (k.untrack p) = (s.putHost a k).untracked a p := by
  have hallocator := k.untrack_allocator p
  have hprocs := k.untrack_procs p
  by_cases ht : k.procs[p].tracked = true
  · have ht' : (s.putHost a k).procs[p].tracked = true := ht
    rw [if_pos ht] at hallocator
    rw [← putHost_putHost s a k, putHost_eq_adjust (seat_putHost hs k) Allocator.lowered hallocator,
      hprocs, untracked, if_pos ht']
    rfl
  · have ht' : ¬ (s.putHost a k).procs[p].tracked = true := ht
    have hsame : k.untrack p = k := by rw [Host.untrack, if_neg ht]
    rw [hsame, untracked, if_neg ht']

/-- What removing and retiring `p` at `a` answer, and the sessions that they leave. -/
structure Withdraws (s : Session n) (a : Nat) (p : Fin n) (answer : Removal n)
    (removed retired : Session n) : Prop where
  contended_iff : answer = .contended ↔ s.started a = true ∧
    ∃ level b, s.procs[p].mark = some level ∧ s.bucketAt (.own a level) = some b ∧ b.held = true
  removed_iff : ∀ q, answer = .removed q ↔
    q = p ∧ ∃ level b, s.bucketAt (.own a level) = some b ∧ b.held = false ∧ p ∈ b.members
  contended : answer = .contended → removed = s.contendedAt a ∧ retired = removed
  missing : answer = .notFound → removed = s
  taken : ∀ level b, s.bucketAt (.own a level) = some b → b.held = false → p ∈ b.members →
    ∃ front back, b.members = front ++ p :: back ∧ p ∉ front ++ back ∧
      removed = s.putFiled (.own a level) ⟨b.withMembers (front ++ back),
        s.procs.update p fun r => { r with mark := none }⟩
  retired : answer ≠ .contended → retired = removed.untracked a p

theorem started_of_bucketAt (hb : s.bucketAt (.own a level) = some b) : s.started a = true := by
  rw [bucketAt, bucketsOf] at hb
  rw [started]
  cases hx : s.allocator? a with
  | none =>
    rw [hx] at hb
    cases hb
  | some x =>
    simp only [hx] at hb
    cases hc : x.core? with
    | none =>
      rw [Allocator.buckets_of_not_started hc] at hb
      cases hb
    | some core => simp [Allocator.isStarted_of_core? hc]

/-- A member of one of the buckets of `a` is marked by that bucket. -/
theorem mark_of_member (hs : s.files.Sound) (hb : s.bucketAt (.own a level) = some b)
    (hp : p ∈ b.members) : s.procs[p].mark = some level := by
  have hat : s.files.bucket? (.own a level) = some b := hb
  obtain ⟨hlevel, hm⟩ := hs.own_level hat
  rw [← hlevel]
  exact hs.marked hat hm hp

theorem withdraws_of_held (hs : s.files.Sound) (hmark : s.procs[p].mark = some level)
    (hb : s.bucketAt (.own a level) = some b) (held : b.held = true) :
    s.Withdraws a p .contended (s.contendedAt a) (s.contendedAt a) := by
  have hnot {l : Nat} {c : Bucket n} (hc : s.bucketAt (.own a l) = some c) (free : c.held = false)
      (hp : p ∈ c.members) : False := by
    cases hmark.symm.trans (mark_of_member hs hc hp)
    cases hb.symm.trans hc
    exact Bool.false_ne_true (free.symm.trans held)
  constructor
  · exact iff_of_true rfl ⟨started_of_bucketAt hb, level, b, hmark, hb, held⟩
  · refine fun q => iff_of_false (by simp) ?_
    rintro ⟨-, l, c, hc, free, hp⟩
    exact hnot hc free hp
  · exact fun _ => ⟨rfl, rfl⟩
  · exact fun h => nomatch h
  · exact fun l c hc free hp => (hnot hc free hp).elim
  · exact fun h => absurd rfl h

theorem withdraws_of_absent (hs : s.files.Sound)
    (absent : ∀ level b, s.procs[p].mark = some level → s.bucketAt (.own a level) = some b →
      b.held = false ∧ p ∉ b.members) :
    s.Withdraws a p .notFound s (s.untracked a p) := by
  have hnot {l : Nat} {c : Bucket n} (hc : s.bucketAt (.own a l) = some c) (hp : p ∈ c.members) :
      False :=
    (absent l c (mark_of_member hs hc hp) hc).2 hp
  constructor
  · refine iff_of_false (by simp) ?_
    rintro ⟨-, l, c, hmark, hc, held⟩
    exact Bool.false_ne_true ((absent l c hmark hc).1.symm.trans held)
  · refine fun q => iff_of_false (by simp) ?_
    rintro ⟨-, l, c, hc, -, hp⟩
    exact hnot hc hp
  · exact fun h => nomatch h
  · exact fun _ => rfl
  · exact fun l c hc _ hp => (hnot hc hp).elim
  · exact fun _ => rfl

def letGo (s : Session n) (place : Place) (b : Bucket n) (p : Fin n) : Session n :=
  s.putFiled place ⟨b.withMembers (b.members.erase p), s.procs.update p (·.release b.level)⟩

theorem withdraws_of_member (hs : s.files.Sound) (hb : s.bucketAt (.own a level) = some b)
    (free : b.held = false) (hp : p ∈ b.members) :
    s.Withdraws a p (.removed p) (s.letGo (.own a level) b p)
      ((s.letGo (.own a level) b p).untracked a p) := by
  have hat : s.files.bucket? (.own a level) = some b := hb
  obtain ⟨hlevel, hm⟩ := hs.own_level hat
  have hmark : s.procs[p].mark = some level := mark_of_member hs hb hp
  constructor
  · refine iff_of_false (by simp) ?_
    rintro ⟨-, l, c, hmark', hc, held⟩
    cases hmark.symm.trans hmark'
    cases hb.symm.trans hc
    exact Bool.false_ne_true (free.symm.trans held)
  · refine fun q => ⟨?_, ?_⟩
    · rintro ⟨⟩
      exact ⟨rfl, level, b, hb, free, hp⟩
    · rintro ⟨rfl, -⟩
      rfl
  · exact fun h => nomatch h
  · exact fun h => nomatch h
  · intro l c hc _ hpc
    cases hmark.symm.trans (mark_of_member hs hc hpc)
    cases hb.symm.trans hc
    obtain ⟨front, back, -, hsplit, herase⟩ := List.exists_erase_eq hp
    have hnodup : b.members.Nodup := hs.nodup hat hm
    have hrelease : s.procs[p].release b.level = { s.procs[p] with mark := none } := by
      rw [Record.release, if_pos]
      rw [hmark, hlevel, markOf_eq_some (hlevel ▸ hm)]
    refine ⟨front, back, hsplit, ?_, ?_⟩
    · rw [← herase]
      exact fun hmem => (hnodup.mem_erase_iff.mp hmem).1 rfl
    · have hprocs : s.procs.update p (·.release b.level) =
          s.procs.update p fun r => { r with mark := none } := Roster.update_congr hrelease
      rw [letGo, herase, hprocs]
  · exact fun _ => rfl

theorem withdraws_of_seat (hs : s.files.Sound) (hseat : s.seat a = .ok seat) (p : Fin n) :
    s.Withdraws a p ((s.host seat).remove p).2 (s.putHost a ((s.host seat).remove p).1)
      (s.putHost a ((s.host seat).retire p).1) ∧
      ((s.host seat).retire p).2 = ((s.host seat).remove p).2 := by
  have hremoves := (s.host seat).remove_removes p
  have hat := bucketAt_of_seat hseat
  unfold Host.retire
  generalize (s.host seat).remove p = r at hremoves
  cases hremoves with
  | @contended level b hmark there held =>
    have hsession : s.putHost a ((s.host seat).contended.say (.removalContended s.procs[p].pid)) =
        s.contendedAt a :=
      putHost_eq_adjust hseat (fun x =>
        { x with counters := { x.counters with contended := x.counters.contended + 1 } }) rfl
    refine ⟨?_, rfl⟩
    have hheld := withdraws_of_held hs hmark ((hat level).trans there) held
    rw [← hsession] at hheld
    exact hheld
  | notFound absent =>
    refine ⟨?_, rfl⟩
    have habsent := withdraws_of_absent (a := a) hs fun level b hmark hb =>
      absent level b hmark ((hat level).symm.trans hb)
    have hsession : s.putHost a (s.host seat) = s := putHost_self hseat
    have huntrack := putHost_untrack hseat (s.host seat) p
    rw [hsession] at huntrack
    rw [← huntrack] at habsent
    change s.Withdraws a p .notFound (s.putHost a (s.host seat)) _
    rw [hsession]
    exact habsent
  | @removed k level b hmark there free member allocator procs =>
    refine ⟨?_, rfl⟩
    have hmember := withdraws_of_member hs ((hat level).trans there) free member
    have hsession : s.putHost a k = s.letGo (.own a level) b p := by
      rw [putHost_eq_adjust hseat (·.putBucket level (b.withMembers (b.members.erase p))) allocator,
        procs]
      rfl
    rw [← hsession, ← putHost_untrack hseat k p] at hmember
    exact hmember

theorem call_remove (hs : s.seat a = .ok seat) (p : Fin n) :
    s.call (.host a (.remove p)) =
      .ok ⟨s.putHost a ((s.host seat).remove p).1, .host (.removal ((s.host seat).remove p).2),
        ((s.host seat).remove p).1.lines⟩ := by
  simp only [call, callHost, hs]
  rfl

theorem call_retire (hs : s.seat a = .ok seat) (p : Fin n) :
    s.call (.host a (.retire p)) =
      .ok ⟨s.putHost a ((s.host seat).retire p).1, .host (.removal ((s.host seat).retire p).2),
        ((s.host seat).retire p).1.lines⟩ := by
  simp only [call, callHost, hs]
  rfl

/-- A removal and a retirement answer alike, and the answer and the session afterwards are settled by
the mark of the process and by the bucket of that level. -/
theorem Leads.withdraws {os : List Opening} {queues : List (Nat × Single)}
    {ps : Vector (UInt64 × Bool) n} {x : Allocator n}
    (h : (fresh os queues (freshRoster ps)).Leads es s) (hx : s.allocator? a = some x) (p : Fin n) :
    ∃ d d' answer, s.call (.host a (.remove p)) = .ok d ∧ s.call (.host a (.retire p)) = .ok d' ∧
      d.answer = .host (.removal answer) ∧ d'.answer = .host (.removal answer) ∧
      s.Withdraws a p answer d.session d'.session := by
  obtain ⟨seat, hseat, -⟩ := seat_of_allocator? hx
  obtain ⟨hwithdraws, hanswer⟩ := withdraws_of_seat (h.sound (fresh_sound os queues ps)) hseat p
  exact ⟨_, _, _, call_remove hseat p, call_retire hseat p, rfl, by rw [hanswer], hwithdraws⟩

/-- A mark that another allocator has left is enough for a contention, and only for that. -/
theorem withdraws_behind_a_busy_namesake : ∃ es, ∃ s : Session 1, ∃ d d',
    (fresh [{ hz := 1000 }, { hz := 1000 }] [] (freshRoster #v[(7, true)])).Leads es s ∧
      (s.bucketAt (.own 1 3)).map (·.members) = some [0] ∧
      s.call (.host 0 (.remove 0)) = .ok d ∧ d.session = s.contendedAt 0 ∧
      s.call (.host 0 (.retire 0)) = .ok d' ∧ d'.session = d.session := by
  let s₀ : Session 1 := fresh [{ hz := 1000 }, { hz := 1000 }] [] (freshRoster #v[(7, true)])
  let steps : List (Step 1) := [.call (.host 1 (.ready 0)), .hold (.own 0 3) [.call (.host 0 .stats)]]
  obtain ⟨t, h, -⟩ := exists_leads s₀ steps (fun _ => ()) (x := ()) (by decide +kernel)
  obtain ⟨e, he, hfacts⟩ := Option.map_eq_some_iff.mp
    (show ((s₀.events steps)[1]?).map (fun e => (e.before.started 0,
      e.before.procs[(0 : Fin 1)].mark, (e.before.bucketAt (.own 0 3)).map (·.held),
      (e.before.bucketAt (.own 1 3)).map (·.members))) =
        some (true, some 3, some true, some [0]) by decide +kernel)
  simp only [Prod.mk.injEq] at hfacts
  obtain ⟨hstarted, hmark, hheld, hmembers⟩ := hfacts
  obtain ⟨⟨past, hpast⟩, -⟩ := h.call_of_mem (List.mem_of_getElem? he)
  obtain ⟨b, hb, held⟩ := Option.map_eq_some_iff.mp hheld
  obtain ⟨x, hx, -⟩ := (Option.any_eq_true _ _).mp hstarted
  obtain ⟨d, d', answer, hd, hd', -, -, hwithdraws⟩ := hpast.withdraws hx 0
  obtain ⟨hremoved, hretired⟩ := hwithdraws.contended
    (hwithdraws.contended_iff.mpr ⟨hstarted, 3, b, hmark, hb, held⟩)
  exact ⟨past, e.before, d, d', hpast, hmembers, hd, hremoved, hd', hretired⟩

end Session

end AttentionScheduler
