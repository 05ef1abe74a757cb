import AttentionScheduler.Proofs.Reordering

/-!
The load and the priority that a host tells of a process are read by a refresh of that very process and by
nothing else. Any other call comes to the same whatever they are, and leaves them as they are.
-/

namespace AttentionScheduler

variable {n : Nat} {σ τ α β : Type}

/-- What a host tells of a process. -/
structure Feed (n : Nat) where
  process : Fin n
  cpu : UInt32
  priority : UInt32

variable {φ : Feed n}

namespace Ending

variable {e : Ending σ α} {g : σ → τ}

theorem mapState_bind {f : σ → α → Ending σ β} {f' : τ → α → Ending τ β}
    (h : ∀ s a, f' (g s) a = (f s a).mapState g) :
    (e.mapState g).bind f' = (e.bind f).mapState g := by
  cases e with
  | returned s a => exact h s a
  | faulted s fault => rfl
  | stuck stop => rfl

theorem mapAnswer_mapState (f : α → β) :
    (e.mapState g).mapAnswer f = (e.mapAnswer f).mapState g := by
  cases e <;> rfl

end Ending

namespace Record

def fed (φ : Feed n) (r : Record) : Record := { r with cpu := φ.cpu, priority := φ.priority }

theorem fed_release (r : Record) (level : Nat) : (r.fed φ).release level = (r.release level).fed φ := by
  by_cases hm : r.mark = markOf level
  · rw [release, release, if_pos hm, if_pos (show (r.fed φ).mark = _ from hm)]
    rfl
  · rw [release, release, if_neg hm, if_neg (show ¬ (r.fed φ).mark = _ from hm)]

end Record

namespace Roster

variable {r : Roster n} {q : Fin n}

def fed (φ : Feed n) (r : Roster n) : Roster n := r.update φ.process (·.fed φ)

theorem fed_keeps {x : Record → α} (hx : ∀ r : Record, x (r.fed φ) = x r) (r : Roster n) (q : Fin n) :
    x (r.fed φ)[q] = x r[q] := by
  by_cases hq : q = φ.process
  · rw [hq, fed, getElem_update_self, hx]
  · rw [fed, getElem_update_ne _ hq]

@[simp] theorem pid_fed (r : Roster n) (q : Fin n) : (r.fed φ)[q].pid = r[q].pid :=
  fed_keeps (fun _ => rfl) r q

@[simp] theorem cognitive_fed (r : Roster n) (q : Fin n) : (r.fed φ)[q].cognitive = r[q].cognitive :=
  fed_keeps (fun _ => rfl) r q

@[simp] theorem tracked_fed (r : Roster n) (q : Fin n) : (r.fed φ)[q].tracked = r[q].tracked :=
  fed_keeps (fun _ => rfl) r q

@[simp] theorem vector_fed (r : Roster n) (q : Fin n) : (r.fed φ)[q].vector = r[q].vector :=
  fed_keeps (fun _ => rfl) r q

@[simp] theorem mark_fed (r : Roster n) (q : Fin n) : (r.fed φ)[q].mark = r[q].mark :=
  fed_keeps (fun _ => rfl) r q

theorem fed_update {f : Record → Record} (hf : ∀ r : Record, f (r.fed φ) = (f r).fed φ) (r : Roster n)
    (q : Fin n) : (r.fed φ).update q f = (r.update q f).fed φ := by
  by_cases hq : q = φ.process
  · rw [hq, fed, fed, update_update, update_update]
    exact update_congr (hf _)
  · exact update_comm (Ne.symm hq) _ _

theorem fed_update_other (hq : q ≠ φ.process) (f : Record → Record) :
    (r.fed φ).update q f = (r.update q f).fed φ :=
  update_comm (Ne.symm hq) _ _

end Roster

namespace Filed

variable {f : Filed n}

def fed (φ : Feed n) (f : Filed n) : Filed n := ⟨f.bucket, f.procs.fed φ⟩

@[simp] theorem bucket_fed (f : Filed n) : (f.fed φ).bucket = f.bucket := rfl

@[simp] theorem procs_fed (f : Filed n) : (f.fed φ).procs = f.procs.fed φ := rfl

theorem fed_letGo (f : Filed n) (q : Fin n) (rest : List (Fin n)) :
    (f.fed φ).letGo q rest = (f.letGo q rest).fed φ := by
  rw [letGo, procs_fed, bucket_fed, Roster.fed_update fun r => r.fed_release _]
  rfl

theorem fed_joined (f : Filed n) (q : Fin n) : (f.fed φ).joined q = (f.joined q).fed φ := by
  have hprocs := Roster.fed_update (φ := φ) (f := fun r => { r with mark := markOf f.bucket.level })
    (fun _ => rfl) f.procs q
  rw [joined, procs_fed, bucket_fed, hprocs]
  rfl

theorem fed_push (f : Filed n) (q : Fin n) : (f.fed φ).push q = (f.push q).mapState (·.fed φ) := by
  have hmark : (f.fed φ).procs[q].mark = f.procs[q].mark := Roster.mark_fed f.procs q
  cases held : f.bucket.held with
  | true =>
    rw [push_held held, push_held (f := f.fed φ) held]
    rfl
  | false =>
    by_cases hm : f.procs[q].mark = none
    · rw [push_free held hm, push_free (f := f.fed φ) held (hmark.trans hm), fed_joined]
      rfl
    · rw [push_marked held hm, push_marked (f := f.fed φ) held (hmark ▸ hm)]
      rfl

theorem fed_unlink (f : Filed n) (q : Fin n) :
    (f.fed φ).unlink q = (f.unlink q).map (·.fed φ) id := by
  rw [unlink, unlink, fed_letGo, bucket_fed]
  split <;> rfl

theorem fed_remove (f : Filed n) (q : Fin n) :
    (f.fed φ).remove q = (f.remove q).map (·.fed φ) id := by
  rw [remove, remove, fed_unlink, bucket_fed]
  split <;> rfl

theorem fed_popFront (f : Filed n) : (f.fed φ).popFront = f.popFront.map (·.fed φ) id := by
  rw [popFront, popFront, bucket_fed]
  split
  · rfl
  · cases f.bucket.members with
    | nil => rfl
    | cons q rest =>
      dsimp only
      rw [fed_letGo]
      rfl

theorem fed_call (f : Filed n) (call : BucketCall n) :
    (f.fed φ).call call = (f.call call).mapState (·.fed φ) := by
  cases call with
  | push q => rw [Filed.call, Filed.call, fed_push, Ending.mapAnswer_mapState]
  | popFront =>
    rw [Filed.call, Filed.call, fed_popFront]
    rfl
  | remove q =>
    rw [Filed.call, Filed.call, fed_remove]
    rfl
  | size => rfl
  | view =>
    rw [Filed.call, Filed.call, bucket_fed]
    split <;> rfl

end Filed

namespace Shelf

def fed (φ : Feed n) (s : Shelf n) : Shelf n := ⟨s.buckets, s.procs.fed φ⟩

theorem fed_filed? (s : Shelf n) (level : Nat) :
    (s.fed φ).filed? level = (s.filed? level).map (·.fed φ) := by
  change s.buckets[level]?.map _ = (s.buckets[level]?.map _).map _
  rw [Option.map_map]
  rfl

theorem fed_round (s : Shelf n) (level : Nat) (q : Fin n) :
    (s.fed φ).round level q = (s.round level q).mapState (·.fed φ) := by
  have hmark : (s.fed φ).procs[q].mark = s.procs[q].mark := Roster.mark_fed s.procs q
  unfold round
  rw [fed_filed?, hmark]
  cases s.filed? level with
  | none => rfl
  | some target =>
    cases s.procs[q].mark with
    | none =>
      change ((target.fed φ).push q).map _ _ = ((target.push q).map _ _).mapState _
      rw [Filed.fed_push]
      cases target.push q <;> rfl
    | some mark =>
      dsimp only [Option.map_some]
      rw [fed_filed?]
      cases s.filed? mark with
      | none => rfl
      | some current =>
        dsimp only [Option.map_some]
        rw [Filed.fed_unlink, Filed.bucket_fed]
        split <;> rfl

theorem fed_rounds (k : Nat) (s : Shelf n) (level : Nat) (q : Fin n) :
    (s.fed φ).rounds k level q = (s.rounds k level q).mapState (·.fed φ) := by
  induction k generalizing s with
  | zero => rfl
  | succ k ih =>
    rw [rounds, rounds, fed_round]
    apply Ending.mapState_bind
    intro t filing?
    cases filing? with
    | some filing => rfl
    | none => exact ih t

theorem fed_file (s : Shelf n) (level : Nat) (q : Fin n) :
    (s.fed φ).file level q = (s.file level q).mapState (·.fed φ) :=
  fed_rounds _ s level q

theorem fed_withdraw (s : Shelf n) (q : Fin n) :
    (s.fed φ).withdraw q = (s.withdraw q).map (·.fed φ) id := by
  have hmark : (s.fed φ).procs[q].mark = s.procs[q].mark := Roster.mark_fed s.procs q
  unfold withdraw
  rw [hmark]
  cases s.procs[q].mark with
  | none => rfl
  | some mark =>
    dsimp only
    rw [fed_filed?]
    cases s.filed? mark with
    | none => rfl
    | some f =>
      dsimp only [Option.map_some]
      rw [Filed.fed_remove]
      rfl

end Shelf

namespace Sweep

def fed (φ : Feed n) (w : Sweep n) : Sweep n := { w with shelf := w.shelf.fed φ }

@[simp] theorem busy_fed (w : Sweep n) : (w.fed φ).busy = w.busy := rfl

@[simp] theorem taken_fed (w : Sweep n) : (w.fed φ).taken = w.taken := rfl

theorem fed_along (bs : List (Bucket n)) (r : Roster n) : along bs (r.fed φ) = (along bs r).fed φ := by
  induction bs with
  | nil => rfl
  | cons b bs ih =>
    have hpop : (Filed.mk b (r.fed φ)).popFront = (Filed.mk b r).popFront.map (·.fed φ) id :=
      Filed.fed_popFront ⟨b, r⟩
    rw [along, along, hpop, ih]
    split
    · rfl
    · cases (Filed.mk b r).popFront with
      | mk f removal => cases removal <;> rfl

end Sweep

namespace Host

variable {h : Host n} {q : Fin n}

def fed (φ : Feed n) (h : Host n) : Host n := { h with procs := h.procs.fed φ }

@[simp] theorem allocator_fed (h : Host n) : (h.fed φ).allocator = h.allocator := rfl

@[simp] theorem procs_fed (h : Host n) : (h.fed φ).procs = h.procs.fed φ := rfl

theorem fed_touch {f : Record → Record} (hf : ∀ r : Record, f (r.fed φ) = (f r).fed φ) (h : Host n)
    (q : Fin n) : (h.fed φ).touch q f = (h.touch q f).fed φ := by
  rw [touch, procs_fed, Roster.fed_update hf]
  rfl

theorem fed_touch_other (hq : q ≠ φ.process) (f : Record → Record) :
    (h.fed φ).touch q f = (h.touch q f).fed φ := by
  rw [touch, procs_fed, Roster.fed_update_other hq]
  rfl

theorem fed_start (h : Host n) : (h.fed φ).start = h.start.mapState (·.fed φ) := by
  unfold start
  rw [allocator_fed]
  cases h.allocator.startup with
  | built core => rfl
  | failed => rfl
  | pending =>
    dsimp only
    cases Core.build (n := n) h.allocator.config <;> rfl

theorem fed_enrol (h : Host n) (core : Core n) (q : Fin n) :
    (h.fed φ).enrol core q = (h.enrol core q).mapState (·.fed φ) := by
  have htouch := h.fed_touch (φ := φ) (f := fun r => { r with tracked := true }) (fun _ => rfl) q
  rw [enrol, enrol, procs_fed, Roster.tracked_fed, htouch]
  split
  · rfl
  · cases core.tensor.track <;> rfl

theorem fed_place (h : Host n) (core : Core n) (q : Fin n) (score : Single) :
    (h.fed φ).place core q score = (h.place core q score).mapState (·.fed φ) := by
  have hfile (level : Nat) : ((h.fed φ).shelf core).file level q =
      ((h.shelf core).file level q).mapState (·.fed φ) := (h.shelf core).fed_file level q
  rw [place, place, allocator_fed, procs_fed, Roster.pid_fed]
  cases Level.ofScore h.allocator.config.levels score with
  | error fault => rfl
  | ok level =>
    simp only [Ending.ofExcept, Ending.bind_returned, hfile]
    cases (h.shelf core).file level q with
    | returned s filing => cases filing <;> rfl
    | faulted s fault => rfl
    | stuck stop => rfl

theorem fed_ready (h : Host n) (q : Fin n) :
    (h.fed φ).ready q = (h.ready q).mapState (·.fed φ) := by
  rw [ready, ready, procs_fed, Roster.cognitive_fed, fed_start]
  split
  · apply Ending.mapState_bind
    intro k core
    have htouch := k.fed_touch (φ := φ) (f := (·.withVector (·.rescore))) (fun _ => rfl) q
    rw [procs_fed, Roster.vector_fed, htouch, fed_enrol]
    exact Ending.mapState_bind fun g core => g.fed_place core q _
  · rfl

theorem fed_noteBusy (levels : List Nat) (h : Host n) :
    (h.fed φ).noteBusy levels = (h.noteBusy levels).fed φ := by
  induction levels generalizing h with
  | nil => rfl
  | cons level levels ih =>
    exact ih ((h.count fun c => { c with contended := c.contended + 1 }).say (.skipped level))

theorem fed_handOut (h : Host n) (core : Core n) (now : Tick) (w : Sweep n) :
    (h.fed φ).handOut core now (w.fed φ) = (h.handOut core now w).map (·.fed φ) id := by
  have hbusy : ((h.fed φ).withShelf core (w.fed φ).shelf).noteBusy w.busy =
      ((h.withShelf core w.shelf).noteBusy w.busy).fed φ :=
    fed_noteBusy w.busy (h.withShelf core w.shelf)
  rw [handOut, handOut, Sweep.busy_fed, hbusy, Sweep.taken_fed]
  generalize (h.withShelf core w.shelf).noteBusy w.busy = k
  cases w.taken with
  | none => rfl
  | some taken =>
    obtain ⟨level, q⟩ := taken
    have htouch := k.fed_touch (φ := φ) (f := (·.withVector (·.stamp now))) (fun _ => rfl) q
    have hpid := Roster.pid_fed (φ := φ) (k.touch q (·.withVector (·.stamp now))).procs q
    dsimp only
    rw [htouch]
    exact congrArg (fun pid => ((_ : Host n).say (.dispatched pid level), some q)) hpid

theorem fed_selectNext (h : Host n) (now : Tick) :
    (h.fed φ).selectNext now = (h.selectNext now).map (·.fed φ) id := by
  cases hc : h.allocator.core? with
  | none =>
    simp only [selectNext, allocator_fed, hc]
    rfl
  | some core =>
    rw [selectNext_eq_handOut hc, selectNext_eq_handOut (h := h.fed φ) hc, procs_fed,
      Sweep.fed_along, fed_handOut]

theorem fed_drainFor (k : Nat) (h : Host n) (now : Tick) :
    (h.fed φ).drainFor k now = (h.drainFor k now).map (·.fed φ) id := by
  induction k generalizing h with
  | zero => rfl
  | succ k ih =>
    rw [drainFor, drainFor, fed_selectNext]
    obtain ⟨g, q?⟩ := h.selectNext now
    cases q? with
    | none => rfl
    | some q =>
      simp only [Prod.map_apply, id_eq, ih]
      rfl

theorem fed_drain (h : Host n) (now : Tick) :
    (h.fed φ).drain now = (h.drain now).map (·.fed φ) id :=
  fed_drainFor _ h now

theorem fed_remove (h : Host n) (q : Fin n) :
    (h.fed φ).remove q = (h.remove q).map (·.fed φ) id := by
  have hwithdraw (core : Core n) : ((h.fed φ).shelf core).withdraw q =
      ((h.shelf core).withdraw q).map (·.fed φ) id := (h.shelf core).fed_withdraw q
  rw [remove, remove, allocator_fed, procs_fed, Roster.pid_fed]
  cases h.allocator.core? with
  | none => rfl
  | some core =>
    dsimp only
    rw [hwithdraw]
    obtain ⟨s, removal⟩ := (h.shelf core).withdraw q
    cases removal <;> rfl

theorem fed_untrack (h : Host n) (q : Fin n) : (h.fed φ).untrack q = (h.untrack q).fed φ := by
  have htouch := h.fed_touch (φ := φ) (f := fun r => { r with tracked := false }) (fun _ => rfl) q
  rw [untrack, untrack, procs_fed, Roster.tracked_fed, htouch]
  split
  · generalize h.touch q _ = k
    dsimp only
    rw [allocator_fed]
    cases k.allocator.core? <;> rfl
  · rfl

theorem fed_retire (h : Host n) (q : Fin n) :
    (h.fed φ).retire q = (h.retire q).map (·.fed φ) id := by
  rw [retire, retire, fed_remove]
  obtain ⟨g, removal⟩ := h.remove q
  cases removal with
  | contended => rfl
  | removed p => exact congrArg (·, _) (g.fed_untrack q)
  | notFound => exact congrArg (·, _) (g.fed_untrack q)

theorem fed_stampRing (h : Host n) (now : Tick) :
    (h.fed φ).stampRing now = (h.stampRing now).mapState (·.fed φ) := by
  rw [stampRing, stampRing, allocator_fed]
  cases h.allocator.core? with
  | none => rfl
  | some core =>
    dsimp only
    cases core.tensor.advance now <;> rfl

/-- The one call that reads what is told, of another process. -/
theorem fed_refresh (hq : q ≠ φ.process) (h : Host n) (clock : Clock) :
    (h.fed φ).refresh clock q = (h.refresh clock q).mapState (·.fed φ) := by
  have hrecord : (h.fed φ).procs[q] = h.procs[q] := Roster.getElem_update_ne _ hq _
  rw [refresh, refresh, allocator_fed, hrecord, fed_touch_other hq, fed_stampRing]
  split
  · split
    · rfl
    · split
      · rfl
      · apply Ending.mapState_bind
        intro g _
        have hpid := Roster.pid_fed (φ := φ) g.procs q
        exact congrArg (fun pid => Ending.returned ((_ : Host n).say (.refreshed pid clock.now)) ()) hpid
  · rfl

theorem fed_setFeature (h : Host n) (q : Fin n) (i : Nat) (x : Single) :
    (h.fed φ).setFeature q i x = (h.setFeature q i x).fed φ := by
  have htouch := h.fed_touch (φ := φ) (f := (·.withVector (·.set i x))) (fun _ => rfl) q
  rw [setFeature, setFeature, procs_fed, Roster.cognitive_fed, htouch]
  split <;> rfl

theorem fed_attention (h : Host n) (q : Fin n) : (h.fed φ).attention q = h.attention q := by
  rw [attention, attention, procs_fed, Roster.cognitive_fed, Roster.vector_fed]

theorem fed_dump (h : Host n) : (h.fed φ).dump = h.dump.mapState (·.fed φ) := by
  have hentry (q : Fin n) : Dump.Entry.ofRecord (h.procs.fed φ)[q] = Dump.Entry.ofRecord h.procs[q] :=
    Roster.fed_keeps (fun _ => rfl) h.procs q
  have hgroup : Dump.Group.ofBucket (h.procs.fed φ) = Dump.Group.ofBucket h.procs := by
    funext b
    simp only [Dump.Group.ofBucket, hentry]
  have hdump (core : Core n) : Dump.ofCore h.allocator core (h.procs.fed φ) =
      Dump.ofCore h.allocator core h.procs := by rw [Dump.ofCore, hgroup, Dump.ofCore]
  rw [dump, dump, allocator_fed, procs_fed]
  cases h.allocator.core? with
  | none => rfl
  | some core =>
    dsimp only
    rw [hdump]
    split <;> rfl

theorem fed_foldl_say (xs : List String) (h : Host n) :
    xs.foldl (fun h s => h.say (.dumped s)) (h.fed φ) =
      (xs.foldl (fun h s => h.say (.dumped s)) h).fed φ := by
  induction xs generalizing h with
  | nil => rfl
  | cons x xs ih => exact ih (h.say (.dumped x))

theorem fed_dumpToLog (h : Host n) : (h.fed φ).dumpToLog = h.dumpToLog.mapState (·.fed φ) := by
  rw [dumpToLog, dumpToLog, fed_dump]
  apply Ending.mapState_bind
  intro k d?
  rw [fed_foldl_say]
  rfl

theorem fed_callTensor (h : Host n) (call : TensorCall) :
    (h.fed φ).callTensor call = (h.callTensor call).mapState (·.fed φ) := by
  rw [callTensor, callTensor, allocator_fed]
  cases h.allocator.core? with
  | none => rfl
  | some core =>
    dsimp only
    cases core.tensor.call call <;> rfl

theorem fed_call (h : Host n) (clock : Clock) {call : HostCall n}
    (hcall : call.process? ≠ some φ.process) :
    (h.fed φ).call clock call = (h.call clock call).mapState (·.fed φ) := by
  cases call with
  | start =>
    rw [Host.call, Host.call, fed_start]
    exact Ending.mapState_bind fun _ _ => rfl
  | ready q =>
    rw [Host.call, Host.call, fed_ready]
    apply Ending.mapState_bind
    intro k _
    rw [procs_fed, Roster.mark_fed]
    rfl
  | select =>
    rw [Host.call, Host.call, fed_selectNext]
    rfl
  | drain =>
    rw [Host.call, Host.call, fed_drain]
    rfl
  | remove q =>
    rw [Host.call, Host.call, fed_remove]
    rfl
  | retire q =>
    rw [Host.call, Host.call, fed_retire]
    rfl
  | refresh q =>
    have hq : q ≠ φ.process := fun hq => hcall (congrArg some hq)
    rw [Host.call, Host.call, fed_refresh hq, Ending.mapAnswer_mapState]
  | setFeature q i x =>
    rw [Host.call, Host.call, fed_setFeature]
    rfl
  | attention q =>
    rw [Host.call, Host.call, fed_attention, procs_fed, Roster.cognitive_fed]
    rfl
  | levelFor score =>
    rw [Host.call, Host.call, allocator_fed]
    cases Level.ofScore h.allocator.config.levels score <;> rfl
  | dump => rw [Host.call, Host.call, fed_dump, Ending.mapAnswer_mapState]
  | dumpToLog => rw [Host.call, Host.call, fed_dumpToLog, Ending.mapAnswer_mapState]
  | buckets =>
    rw [Host.call, Host.call, viewBuckets, viewBuckets, allocator_fed]
    split <;> rfl
  | tensor call => rw [Host.call, Host.call, fed_callTensor, Ending.mapAnswer_mapState]
  | setEmergency | setBudget | lastUpdate | stats | config => rfl

end Host

def Session.fed (φ : Feed n) (s : Session n) : Session n := { s with procs := s.procs.fed φ }

def Done.fed (φ : Feed n) (d : Done n) : Done n := { d with session := d.session.fed φ }

def Event.fed (φ : Feed n) (e : Event n) : Event n := ⟨e.before.fed φ, e.call, e.done.fed φ⟩

namespace Session

variable {s : Session n} {c : Call n} {p? : Option (Fin n)}

@[simp] theorem procs_fed (s : Session n) : (s.fed φ).procs = s.procs.fed φ := rfl

@[simp] theorem seat_fed (s : Session n) (a : Nat) : (s.fed φ).seat a = s.seat a := rfl

@[simp] theorem bucket?_fed (s : Session n) (place : Place) :
    (s.fed φ).bucket? place = s.bucket? place := by
  cases place <;> rfl

theorem fed_putBucket (s : Session n) (b : Bucket n) (place : Place) :
    (s.fed φ).putBucket b place = (s.putBucket b place).fed φ := by
  cases place <;> rfl

theorem fed_putFiled (s : Session n) (place : Place) (f : Filed n) :
    (s.fed φ).putFiled place (f.fed φ) = (s.putFiled place f).fed φ := by
  cases place <;> rfl

theorem fed_callHost (s : Session n) (a : Nat) {call : HostCall n}
    (hcall : call.process? ≠ some φ.process) :
    (s.fed φ).callHost a call = (s.callHost a call).map (·.fed φ) := by
  rw [callHost, callHost, seat_fed]
  cases s.seat a with
  | error stop => rfl
  | ok seat =>
    have hhost : ((s.fed φ).host seat).call ((s.fed φ).clock seat) call =
        ((s.host seat).call (s.clock seat) call).mapState (·.fed φ) :=
      (s.host seat).fed_call (s.clock seat) hcall
    dsimp only
    rw [hhost]
    cases (s.host seat).call (s.clock seat) call <;> rfl

theorem fed_callClock (s : Session n) (a : Nat) (call : ClockCall) :
    (s.fed φ).callClock a call = (s.callClock a call).map (·.fed φ) := by
  rw [callClock, callClock, seat_fed]
  cases s.seat a with
  | error stop => rfl
  | ok seat =>
    have hclock : (s.fed φ).clock seat = s.clock seat := rfl
    dsimp only
    rw [hclock]
    cases (s.clock seat).call call <;> rfl

theorem fed_callRecord {q : Fin n} (hq : q ≠ φ.process) (s : Session n) (call : RecordCall) :
    (s.fed φ).callRecord q call = (s.callRecord q call).fed φ := by
  have hrecord : (s.fed φ).procs[q] = s.procs[q] := Roster.getElem_update_ne _ hq _
  rw [callRecord, procs_fed, Roster.fed_update_other hq, ← procs_fed, hrecord]
  rfl

theorem fed_callBucket (s : Session n) (place : Place) (call : BucketCall n) :
    (s.fed φ).callBucket place call = (s.callBucket place call).map (·.fed φ) := by
  rw [callBucket, callBucket, bucket?_fed]
  cases s.bucket? place with
  | error stop => rfl
  | ok b? =>
    cases b? with
    | none => rfl
    | some b =>
      have hfiled : (Filed.mk b (s.fed φ).procs).call call =
          ((Filed.mk b s.procs).call call).mapState (·.fed φ) := Filed.fed_call ⟨b, s.procs⟩ call
      dsimp only
      rw [hfiled]
      cases (Filed.mk b s.procs).call call with
      | returned f answer =>
        exact congrArg (Except.ok <| Done.mk · (.bucket answer) []) (s.fed_putFiled place f)
      | faulted f fault =>
        exact congrArg (Except.ok <| Done.mk · (.fault fault) []) (s.fed_putFiled place f)
      | stuck stop => rfl

theorem fed_call (s : Session n) (hc : c.process? ≠ some φ.process) :
    (s.fed φ).call c = (s.call c).map (·.fed φ) := by
  cases c with
  | host a call => exact s.fed_callHost a hc
  | clock a call => exact s.fed_callClock a call
  | record q call => exact congrArg Except.ok (s.fed_callRecord (fun hq => hc (congrArg some hq)) call)
  | bucket place call => exact s.fed_callBucket place call

theorem fed_seize (s : Session n) (place : Place) (b : Bucket n) :
    (s.fed φ).seize place b = (s.seize place b).map (·.fed φ) := by
  rw [seize, seize, fed_putBucket]
  split <;> rfl

theorem fed_release (s : Session n) (place : Place) :
    (s.fed φ).release place = (s.release place).fed φ := by
  rw [release, release, bucket?_fed]
  split
  · exact s.fed_putBucket _ place
  · rfl

theorem sight_fed (hp : p? ≠ some φ.process) (s : Session n) (a? : Option Nat) :
    (s.fed φ).sight p? a? = s.sight p? a? := by
  have hrecord : (p?.map fun p => (s.fed φ).procs[p]) = p?.map fun p => s.procs[p] := by
    cases p? with
    | none => rfl
    | some q => exact congrArg some (Roster.getElem_update_ne _ (fun hq => hp (congrArg some hq)) _)
  rw [sight, hrecord]
  rfl

end Session

end AttentionScheduler
