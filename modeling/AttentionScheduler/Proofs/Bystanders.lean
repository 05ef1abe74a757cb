import AttentionScheduler.Proofs.Feeding
import AttentionScheduler.Proofs.Revision

/-!
A process that is not cognitive is a bystander. No call that names it has an effect beyond what the host
tells of it, unless one marks it cognitive or pushes it into a bucket past the allocators.
-/

namespace AttentionScheduler

open Files

variable {n : Nat} {p : Fin n} {pid : UInt64}

namespace Call

def names (p : Fin n) (c : Call n) : Bool := c.process? = some p

/-- Whether the call can bring `p` into a bucket, at once or later, though it is not cognitive. -/
def exposes (p : Fin n) : Call n → Bool
  | .record q (.setCognitive true) | .bucket _ (.push q) => q = p
  | _ => false

end Call

/-- As it was built for a process that is not cognitive, what the host tells of the process apart. -/
def Record.Bare (pid : UInt64) (r : Record) : Prop := r = { pid, cpu := r.cpu, priority := r.priority }

namespace Record.Bare

variable {r : Record}

theorem plain (h : r.Bare pid) : r.cognitive = false := by rw [h]

theorem untracked (h : r.Bare pid) : r.tracked = false := by rw [h]

theorem unmarked (h : r.Bare pid) : r.mark = none := by rw [h]

theorem call (h : r.Bare pid) {call : RecordCall} (hcall : call ≠ .setCognitive true) :
    (r.call call).1.Bare pid := by
  rw [h]
  cases call with
  | setCognitive on =>
    cases on with
    | false => rfl
    | true => exact absurd rfl hcall
  | setCpu | setPriority | feature | info => rfl

end Record.Bare

theorem Roster.only_of {P : Record → Prop} {q : Fin n} {f : Record → Record} {r : Record} (hr : P r)
    (hf : q = p → P (f r)) : P (only q f p r) := by
  unfold only
  split
  · next hq => exact hf hq.symm
  · exact hr

theorem Allocator.putBucket_self {x : Allocator n} {level : Nat} {b : Bucket n}
    (hb : x.buckets[level]? = some b) : x.putBucket level b = x := by
  obtain ⟨config, startup, _, _, _, _⟩ := x
  cases startup with
  | pending | failed => rfl
  | built core =>
    have hset : core.buckets.set level b = core.buckets := by
      obtain ⟨hl, rfl⟩ := List.getElem?_eq_some_iff.mp hb
      exact List.set_getElem_self hl
    change Allocator.mk config (.built { core with buckets := core.buckets.set level b }) _ _ _ _ = _
    rw [hset]

namespace Host

variable {h : Host n}

theorem remove_of_unmarked (hm : h.procs[p].mark = none) : h.remove p = (h, .notFound) := by
  rw [remove]
  cases hc : h.allocator.core? with
  | none => rfl
  | some core =>
    have hwithdraw : (h.shelf core).withdraw p = (h.shelf core, .notFound) := by
      have hmark : (h.shelf core).procs[p].mark = none := hm
      rw [Shelf.withdraw, hmark]
    dsimp only
    rw [hwithdraw]
    exact congrArg (·, _) (withShelf_self hc)

/-- Nothing is asked of an allocator for a process that is neither cognitive nor tracked nor marked. -/
theorem call_of_plain {call : HostCall n} (hplain : h.procs[p].cognitive = false)
    (htracked : h.procs[p].tracked = false) (hm : h.procs[p].mark = none) (clock : Clock)
    (hcall : call.process? = some p) : ∃ answer, h.call clock call = .returned h answer := by
  have hnot : ¬ h.procs[p].cognitive = true := by simp [hplain]
  cases call with
  | ready q =>
    cases hcall
    refine ⟨.mark h.procs[p].mark, ?_⟩
    rw [Host.call, ready, if_neg hnot]
    rfl
  | remove q =>
    cases hcall
    refine ⟨.removal .notFound, ?_⟩
    rw [Host.call, remove_of_unmarked hm]
    rfl
  | retire q =>
    cases hcall
    refine ⟨.removal .notFound, ?_⟩
    have huntrack : h.untrack p = h := by rw [untrack, if_neg (by simp [htracked])]
    rw [Host.call, retire, remove_of_unmarked hm]
    exact congrArg (Ending.returned · _) huntrack
  | refresh q =>
    cases hcall
    refine ⟨.done, ?_⟩
    rw [Host.call, refresh, if_neg hnot]
    rfl
  | setFeature q i x =>
    cases hcall
    refine ⟨.done, ?_⟩
    rw [Host.call, setFeature, if_neg fun h => hnot h.1]
  | attention q => exact ⟨_, rfl⟩
  | _ => cases hcall

end Host

theorem Filed.remove_of_absent {f : Filed n} (hp : p ∉ f.bucket.members) : (f.remove p).1 = f := by
  rw [remove, unlink, if_neg hp]
  split <;> rfl

namespace Session

variable {s t : Session n} {a : Nat} {seat : Seat n} {c : Call n} {d : Done n} {es : List (Event n)}

section

variable {os : List Opening} {queues : List (Nat × Single)} {ps : Vector (UInt64 × Bool) n}
  {past : List (Event n)}

/-- The session has the allocator or the loose bucket that the call is on. On no other can it be made. -/
def offers (s : Session n) : Call n → Bool
  | .host a _ | .clock a _ | .bucket (.own a _) _ => (s.allocator? a).isSome
  | .bucket (.loose q) _ => q < s.queues.length
  | .record _ _ => true

theorem seat_of_isSome (h : (s.allocator? a).isSome = true) : ∃ seat, s.seat a = .ok seat := by
  obtain ⟨x, hx⟩ := Option.isSome_iff_exists.mp h
  obtain ⟨seat, hs, -⟩ := seat_of_allocator? hx
  exact ⟨seat, hs⟩

theorem bucket?_of_offers {place : Place} {call : BucketCall n}
    (h : s.offers (.bucket place call) = true) : ∃ b?, s.bucket? place = .ok b? := by
  cases place with
  | own a level =>
    obtain ⟨seat, hs⟩ := seat_of_isSome h
    exact ⟨seat.allocator.buckets[level]?, by rw [bucket?, hs]; rfl⟩
  | loose q =>
    have hq : q < s.queues.length := of_decide_eq_true h
    exact ⟨some s.queues[q], by rw [bucket?, List.getElem?_eq_getElem hq]⟩

theorem offers_congr (hseats : ∀ a, (t.allocator? a).isSome = (s.allocator? a).isSome)
    (hqueues : t.queues.length = s.queues.length) (c : Call n) : t.offers c = s.offers c := by
  cases c with
  | host a call => exact hseats a
  | clock a call => exact hseats a
  | record q call => rfl
  | bucket place call =>
    cases place with
    | own a level => exact hseats a
    | loose q => rw [offers, offers, hqueues]

theorem offers_putHost (hs : s.seat a = .ok seat) (h : Host n) (c : Call n) :
    (s.putHost a h).offers c = s.offers c := by
  refine offers_congr (s := s) (t := s.putHost a h) (fun b => ?_) rfl c
  rw [allocator?_putHost hs]
  split
  · next hb =>
    rw [hb, allocator?_of_seat hs]
    rfl
  · rfl

theorem offers_putBucket (s : Session n) (b : Bucket n) (place : Place) (c : Call n) :
    (s.putBucket b place).offers c = s.offers c := by
  refine offers_congr (fun x => ?_) ?_ c
  · rw [allocator?_putBucket]
    cases place with
    | loose q => rfl
    | own a level =>
      dsimp only
      split
      · next hx => rw [hx, Option.isSome_map]
      · rfl
  · cases place with
    | own a level => rfl
    | loose q => exact List.length_set

theorem offers_call {c' : Call n} (hc : s.call c' = .ok d) (c : Call n) :
    d.session.offers c = s.offers c := by
  cases c' with
  | host a call =>
    obtain ⟨seat, hs⟩ := seat_of_call hc
    simp only [Session.call, callHost, hs] at hc
    split at hc <;> cases hc <;> exact offers_putHost hs _ c
  | clock a call =>
    obtain ⟨seat, k, hd, -⟩ := putClock_of_call hc
    rw [hd]
    exact offers_congr (fun _ => rfl) rfl c
  | record q call =>
    cases hc
    exact offers_congr (fun _ => rfl) rfl c
  | bucket place call =>
    rcases (putFiled_of_call hc).1 with hd | ⟨b, f, -, -, hd⟩
    · rw [hd]
    · rw [hd, ← offers_putBucket s f.bucket place c]
      exact offers_congr (fun _ => rfl) rfl c

/-- No allocator and no loose bucket comes or goes. -/
theorem Leads.offers (h : s.Leads es t) (c : Call n) : t.offers c = s.offers c := by
  have hput (s : Session n) (b : Bucket n) (place : Place) := offers_putBucket s b place c
  induction h with
  | refl s => rfl
  | call hc _ ih => rw [ih, offers_call hc]
  | seize hb hs _ ih => rw [ih, same_of_seize (Session.offers · c) hput hs]
  | release place _ ih => rw [ih, same_of_release (Session.offers · c) hput]

structure Bystander (p : Fin n) (pid : UInt64) (s : Session n) : Prop where
  bare : s.procs[p].Bare pid
  /-- No bucket of the session has `p`. -/
  absent : s.files.Absent p

theorem Bystander.locks (h : s.Bystander p pid) (hl : s.Locks t) : t.Bystander p pid :=
  ⟨hl.procs ▸ h.bare, h.absent.locks hl⟩

theorem getElem_freshRoster (ps : Vector (UInt64 × Bool) n) (p : Fin n) : (freshRoster ps)[p] =
    { pid := (freshRoster ps)[p].pid, cognitive := (freshRoster ps)[p].cognitive } := by
  have hbuilt : (freshRoster ps)[p] = { pid := (ps.get p).1, cognitive := (ps.get p).2 } :=
    Vector.getElem_map _ p.isLt
  rw [hbuilt]

theorem fresh_bystander (hp : (freshRoster ps)[p].cognitive = false) :
    (fresh os queues (freshRoster ps)).Bystander p (freshRoster ps)[p].pid := by
  constructor
  · have hbuilt := getElem_freshRoster ps p
    rw [hp] at hbuilt
    change (freshRoster ps)[p].Bare _
    rw [hbuilt]
    rfl
  · intro place b hb hmem
    rw [(bucketAt_fresh hb).1] at hmem
    cases hmem

theorem not_link_of_plain (hp : s.procs[p].cognitive = false)
    (hc : c.exposes p = false) (place : Place) :
    .link place p ∉ Event.changes ⟨s, c, d⟩ := by
  intro hlink
  have hfiles : c.files? = some p := (Event.files?_of_link hlink).1
  unfold Call.files? at hfiles
  split at hfiles
  · next a q =>
    cases hfiles
    rw [Event.changes, filing_of_not_filed (filed?_of_plain hp), List.append_nil] at hlink
    obtain ⟨a, levels, -, h⟩ := Event.mem_opening hlink
    cases h
  · cases hfiles
    exact absurd rfl (of_decide_eq_false hc)
  · cases hfiles

theorem bare_revise {e : Event n} {r : Record} (hr : r.Bare pid)
    (he : e.call.exposes p = false) (hyields : p ∉ e.yields) :
    (e.revise p r).Bare pid := by
  have hplain : ¬ r.cognitive = true := by simp [hr.plain]
  have stamped (now : Tick) : (Roster.stamped e.yields now p r).Bare pid := by
    rwa [Roster.stamped, if_neg (by simpa using hyields)]
  obtain ⟨s, c, d⟩ := e
  cases c with
  | host a call =>
    cases call with
    | ready q | refresh q =>
      refine Roster.only_of (P := Record.Bare pid) hr fun _ => ?_
      rwa [if_neg fun h => hplain h.1]
    | setFeature q i x =>
      refine Roster.only_of (P := Record.Bare pid) hr fun _ => ?_
      rwa [if_neg hplain]
    | retire q =>
      refine Roster.only_of (P := Record.Bare pid) hr fun _ => ?_
      split
      · rw [hr]
        rfl
      · exact hr
    | select | drain => exact stamped _
    | _ => exact hr
  | record q call =>
    refine Roster.only_of (P := Record.Bare pid) (f := fun r => (r.call call).1) hr fun hq => ?_
    refine hr.call ?_
    rintro rfl
    exact of_decide_eq_false he hq
  | clock | bucket => exact hr

/-- One call leaves a bystander one, and does not hand it out. -/
theorem Bystander.call (h : s.Bystander p pid) (hs : s.files.Sound)
    (hdiv : ∀ a x, s.allocator? a = some x → x.config.interactiveDivisor ≠ 0)
    (hd : ∀ a, c ≠ .host a .drain) (hc : c.exposes p = false)
    (hcall : s.call c = .ok d) : d.session.Bystander p pid ∧ p ∉ Event.yields ⟨s, c, d⟩ := by
  have hdoes := call_does hs hd hcall
  have hyields : p ∉ Event.yields ⟨s, c, d⟩ := fun hy => hdoes.not_absent hy h.absent
  have hedits := hdoes.edits hs
  have habsent : d.session.files.Absent p :=
    h.absent.edits hedits fun place hlink => not_link_of_plain h.bare.plain hc place hlink
  have hmark : d.session.procs[p].mark = none := by
    cases hm : d.session.procs[p].mark with
    | none => rfl
    | some level =>
      obtain ⟨place, b, hb, -, -, hmem⟩ := (hs.edits hedits).placed hm
      exact (habsent place b hb hmem).elim
  refine ⟨⟨?_, habsent⟩, hyields⟩
  have hrevised := call_revises hdiv hcall p
  rw [hmark, bare_revise h.bare hc hyields] at hrevised
  rw [hrevised]
  rfl

theorem Leads.bystander_of_undrained (h : s.Leads es t)
    (hdrain : ∀ e ∈ es, ∀ a, e.call ≠ .host a .drain)
    (hes : ∀ e ∈ es, e.call.exposes p = false)
    (hpast : (fresh os queues (freshRoster ps)).Leads past s) (hs : s.Bystander p pid) :
    t.Bystander p pid ∧ ∀ e ∈ es, p ∉ e.yields := by
  induction h generalizing past with
  | refl s => exact ⟨hs, by simp⟩
  | @call s t c d es hc hrest ih =>
    have hsound := hpast.sound (fresh_sound os queues ps)
    obtain ⟨hnext, hfirst⟩ := hs.call hsound (fun a x hx => (hpast.accepted hx).divisor)
      (hdrain _ List.mem_cons_self) (hes _ List.mem_cons_self) hc
    obtain ⟨ht, hyields⟩ := ih (fun e he => hdrain e (List.mem_cons_of_mem _ he))
      (fun e he => hes e (List.mem_cons_of_mem _ he)) (hpast.trans (.call hc (.refl _))) hnext
    exact ⟨ht, List.forall_mem_cons.mpr ⟨hfirst, hyields⟩⟩
  | seize hb hseize _ ih =>
    exact ih hdrain hes (hpast.trans (.seize hb hseize (.refl _))) (hs.locks (seize_locks hb hseize))
  | @release s t place es _ ih =>
    exact ih hdrain hes (hpast.trans (.release place (.refl _))) (hs.locks (s.release_locks place))

theorem Leads.bystander (h : (fresh os queues (freshRoster ps)).Leads es t)
    (hp : (freshRoster ps)[p].cognitive = false)
    (hes : ∀ e ∈ es, e.call.exposes p = false) :
    t.Bystander p (freshRoster ps)[p].pid ∧ ∀ e ∈ es, p ∉ e.yields := by
  have hparts : ∀ e ∈ es.flatMap Event.parts, e.call.exposes p = false := by
    intro part hpart
    obtain ⟨e, he, hmem⟩ := List.mem_flatMap.mp hpart
    rcases Event.call_of_mem_parts hmem with ⟨rfl, -⟩ | ⟨a, ha⟩
    · exact hes part he
    · rw [ha]
      rfl
  obtain ⟨ht, hyields⟩ := h.spelt.bystander_of_undrained (spelt_ne_drain es) hparts (.refl _)
    (fresh_bystander hp)
  refine ⟨ht, fun e he hmem => ?_⟩
  rw [← h.yields_parts e he] at hmem
  obtain ⟨part, hpart, hpy⟩ := List.mem_flatMap.mp hmem
  exact hyields part (List.mem_flatMap.mpr ⟨e, he, hpart⟩) hpy

end

theorem putBucket_self {place : Place} {b : Bucket n} (hb : s.bucket? place = .ok (some b)) :
    s.putBucket b place = s := by
  have hat := bucketAt_of_bucket? hb
  cases place with
  | own a level =>
    cases hs : s.seat a with
    | error stop =>
      rw [bucket?, hs] at hb
      cases hb
    | ok seat =>
      rw [bucketAt_of_seat hs] at hat
      have hadjust : s.adjust a (·.putBucket level b) = s.adjust a fun _ => seat.allocator :=
        adjust_congr hs (Allocator.putBucket_self hat)
      exact hadjust.trans (putHost_self hs)
  | loose q =>
    obtain ⟨hq, rfl⟩ := List.getElem?_eq_some_iff.mp hat
    exact congrArg (fun queues => { s with queues }) (List.set_getElem_self hq)

theorem fed_callRecord_self {φ : Feed n} {call : RecordCall}
    (h : (s.procs[φ.process].call call).1.fed φ = s.procs[φ.process].fed φ) :
    (s.callRecord φ.process call).session.fed φ = s.fed φ := by
  have hprocs : (s.procs.update φ.process fun r => (r.call call).1).fed φ = s.procs.fed φ :=
    (Roster.update_update ..).trans (Roster.update_congr h)
  exact congrArg (fun procs => { s with procs }) hprocs

theorem callBucket_remove_of_absent {place : Place} (hp : s.files.Absent p)
    (hoffers : s.offers (.bucket place (.remove p)) = true) :
    ∃ answer, s.call (.bucket place (.remove p)) = .ok ⟨s, answer, []⟩ := by
  obtain ⟨b?, hb⟩ := bucket?_of_offers hoffers
  cases b? with
  | none =>
    refine ⟨.noBucket, ?_⟩
    rw [Session.call, callBucket, hb]
  | some b =>
    have hself : s.putFiled place ⟨b, s.procs⟩ = s := by
      rw [putFiled, putBucket_self hb]
    have hcall : (Filed.mk b s.procs).call (.remove p) =
        .returned ⟨b, s.procs⟩ (.removal ((Filed.mk b s.procs).remove p).2) :=
      congrArg (Ending.returned · _) (Filed.remove_of_absent (hp place b (bucketAt_of_bucket? hb)))
    refine ⟨.bucket (.removal ((Filed.mk b s.procs).remove p).2), ?_⟩
    simp only [Session.call, callBucket, hb, hcall, hself]

/-- A call that names a bystander comes back, logs nothing and changes nothing but what is told of it. -/
theorem Bystander.call_naming (h : s.Bystander p pid) (hc : c.process? = some p)
    (hexposes : c.exposes p = false) (hoffers : s.offers c = true) :
    ∃ d, s.call c = .ok d ∧ d.lines = [] ∧ d.session.fed ⟨p, 0, 0⟩ = s.fed ⟨p, 0, 0⟩ := by
  cases c with
  | host a call =>
    obtain ⟨seat, hs⟩ := seat_of_isSome hoffers
    obtain ⟨answer, hcall⟩ :=
      (s.host seat).call_of_plain h.bare.plain h.bare.untracked h.bare.unmarked (s.clock seat) hc
    refine ⟨⟨s, .host answer, []⟩, ?_, rfl, rfl⟩
    simp only [Session.call, callHost, hs, hcall, putHost_self hs]
    rfl
  | clock a call => cases hc
  | record q call =>
    cases hc
    refine ⟨_, rfl, rfl, fed_callRecord_self (φ := ⟨p, 0, 0⟩) ?_⟩
    cases call with
    | setCognitive on =>
      cases on with
      | false =>
        change { s.procs[p] with cognitive := false, cpu := 0, priority := 0 } = _
        rw [← h.bare.plain]
        rfl
      | true => exact absurd rfl (of_decide_eq_false hexposes)
    | setCpu | setPriority | feature | info => rfl
  | bucket place call =>
    cases call with
    | remove q =>
      cases hc
      obtain ⟨answer, hcall⟩ := callBucket_remove_of_absent h.absent hoffers
      exact ⟨_, hcall, rfl, rfl⟩
    | push q =>
      cases hc
      exact absurd rfl (of_decide_eq_false hexposes)
    | popFront | size | view => cases hc

end Session

end AttentionScheduler
