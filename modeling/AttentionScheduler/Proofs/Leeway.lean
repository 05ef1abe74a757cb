import AttentionScheduler.Proofs.Pairing
import Mathlib.Data.List.Forall2

/-!
Two rosters, shelves or tensors that differ within a leeway only. What the leeway leaves free decides
nothing: filing, walks and withdrawals go by marks and members, and a refresh by the gap between ticks.
-/

namespace AttentionScheduler

variable {n : Nat} {p : Fin n}

/-- What may be otherwise in the second of two sessions. -/
structure Leeway where
  /-- How far its clocks are ahead. -/
  ahead : Tick := 0
  pids : Bool := false
  /-- The budget, the emergency flag and the rings. -/
  advice : Bool := false
  /-- The ticks of the rings and of the last updates. -/
  ticks : Bool := false
  ticks_of_ahead : ticks = false → ahead = 0

/-- Nothing may be otherwise. -/
def Leeway.strict : Leeway where
  ticks_of_ahead := fun _ => rfl

variable {l : Leeway}

namespace Ending

variable {σ σ' τ τ' α α' β β' : Type} {S : σ → τ → Prop} {S' : σ' → τ' → Prop} {A : α → β → Prop}
  {B : α' → β' → Prop} {e : Ending σ α} {e' : Ending τ β}

/-- Both end alike, with related states and answers. -/
def Akin (S : σ → τ → Prop) (A : α → β → Prop) (e : Ending σ α) (e' : Ending τ β) : Prop :=
  e.Pairs (fun s a t b => S s t ∧ A a b) S e'

theorem Akin.bind {f : σ → α → Ending σ α'} {f' : τ → β → Ending τ β'} (he : e.Akin S A e')
    (hf : ∀ s a t b, S s t → A a b → (f s a).Akin S B (f' t b)) : (e.bind f).Akin S B (e'.bind f') :=
  Pairs.bind he fun s a t b h => hf s a t b h.1 h.2

theorem Akin.map {f : σ → σ'} {f' : τ → τ'} {g : α → α'} {g' : β → β'} (he : e.Akin S A e')
    (hS : ∀ s t, S s t → S' (f s) (f' t)) (hA : ∀ a b, A a b → B (g a) (g' b)) :
    (e.map f g).Akin S' B (e'.map f' g') := by
  cases he with
  | returned h => exact .returned ⟨hS _ _ h.1, hA _ _ h.2⟩
  | faulted h fault => exact .faulted (hS _ _ h) fault
  | stuck stop => exact .stuck stop

theorem Akin.mapAnswer {g : α → α'} {g' : β → β'} (he : e.Akin S A e')
    (hA : ∀ a b, A a b → B (g a) (g' b)) : (e.mapAnswer g).Akin S B (e'.mapAnswer g') :=
  he.map (fun _ _ h => h) hA

end Ending

namespace FeatureVector

def later (v : FeatureVector) (k : Tick) : FeatureVector := v.stamp (v.lastUpdate + k)

theorem later_zero (v : FeatureVector) : v.later 0 = v := by
  rw [later, UInt64.add_zero]
  rfl

theorem later_set (v : FeatureVector) (i : Nat) (x : Single) (k : Tick) :
    (v.later k).set i x = (v.set i x).later k := by
  unfold set
  split <;> rfl

end FeatureVector

def Clock.later (c : Clock) (k : Tick) : Clock := c.set (c.now + k)

theorem Clock.later_zero (c : Clock) : c.later 0 = c := by
  rw [Clock.later, UInt64.add_zero]
  rfl

namespace Record

variable {r s : Record}

structure Akin (l : Leeway) (r s : Record) : Prop where
  pid : l.pids = false → s.pid = r.pid
  cognitive : s.cognitive = r.cognitive
  tracked : s.tracked = r.tracked
  cpu : s.cpu = r.cpu
  priority : s.priority = r.priority
  vector : s.vector = r.vector.later l.ahead
  mark : s.mark = r.mark

theorem akin_self (hl : l.ahead = 0) (r : Record) : r.Akin l r := by
  refine ⟨fun _ => rfl, rfl, rfl, rfl, rfl, ?_, rfl⟩
  rw [hl, FeatureVector.later_zero]

theorem Akin.symm (h : r.Akin l s) (hl : l.ahead = 0) : s.Akin l r := by
  refine ⟨fun hpids => (h.pid hpids).symm, h.cognitive.symm, h.tracked.symm, h.cpu.symm, h.priority.symm,
    ?_, h.mark.symm⟩
  rw [h.vector, hl, FeatureVector.later_zero, FeatureVector.later_zero]

theorem Akin.claim (h : r.Akin l s) (level : Nat) :
    Option.Rel (Akin l) (r.claim level) (s.claim level) := by
  unfold Record.claim
  rw [h.mark]
  split
  · exact .some { h with mark := rfl }
  · exact .none

theorem Akin.release (h : r.Akin l s) (level : Nat) : (r.release level).Akin l (s.release level) := by
  unfold Record.release
  rw [h.mark]
  split
  · exact { h with mark := rfl }
  · exact h

theorem Akin.withVector (h : r.Akin l s) {f g : FeatureVector → FeatureVector}
    (hf : g (r.vector.later l.ahead) = (f r.vector).later l.ahead) :
    (r.withVector f).Akin l (s.withVector g) :=
  { h with vector := by rw [Record.withVector, h.vector, hf]; rfl }

theorem Akin.gap (h : r.Akin l s) (now : Tick) : s.gap (now + l.ahead) = r.gap now := by
  rw [Record.gap, h.vector]
  change (now + l.ahead) - (r.vector.lastUpdate + l.ahead) = now - r.vector.lastUpdate
  grind

theorem Akin.refreshed (h : r.Akin l s) (c : Config) (clock : Clock) :
    (r.refreshed c clock).Akin l (s.refreshed c (clock.later l.ahead)) := by
  have hload : s.loadSignal = r.loadSignal := by rw [loadSignal, loadSignal, h.cpu]
  have hpriority : s.prioritySignal c = r.prioritySignal c := by
    rw [prioritySignal, prioritySignal, h.priority]
  have hgap : s.gap (clock.later l.ahead).now = r.gap clock.now := h.gap clock.now
  refine h.withVector ?_
  simp only [hload, hpriority, hgap, FeatureVector.setFeature, FeatureVector.later_set]
  rfl

end Record

namespace Roster

variable {r s : Roster n}

def Akin (l : Leeway) (r s : Roster n) : Prop := ∀ q : Fin n, r[q].Akin l s[q]

theorem Akin.update (h : r.Akin l s) {f g : Record → Record} (hf : (f r[p]).Akin l (g s[p])) :
    Roster.Akin l (r.update p f) (s.update p g) := by
  intro q
  by_cases hq : q = p
  · subst hq
    rwa [getElem_update_self, getElem_update_self]
  · rw [getElem_update_ne _ hq, getElem_update_ne _ hq]
    exact h q

end Roster

namespace Filed

variable {f g : Filed n}

structure Akin (l : Leeway) (f g : Filed n) : Prop where
  bucket : g.bucket = f.bucket
  procs : f.procs.Akin l g.procs

theorem Akin.letGo (h : f.Akin l g) (p : Fin n) (rest : List (Fin n)) :
    (f.letGo p rest).Akin l (g.letGo p rest) := by
  unfold Filed.letGo
  rw [h.bucket]
  exact ⟨rfl, h.procs.update ((h.procs p).release _)⟩

theorem Akin.push (h : f.Akin l g) (p : Fin n) : (f.push p).Akin (Akin l) Eq (g.push p) := by
  unfold Filed.push
  rw [h.bucket]
  split
  · exact .stuck _
  · have hclaim := (h.procs p).claim f.bucket.level
    generalize f.procs[p].claim f.bucket.level = record? at hclaim
    generalize g.procs[p].claim f.bucket.level = record?' at hclaim
    cases hclaim with
    | none => exact .returned ⟨h, rfl⟩
    | some hrecord => exact .returned ⟨⟨rfl, h.procs.update hrecord⟩, rfl⟩

theorem Akin.unlink (h : f.Akin l g) (p : Fin n) :
    (f.unlink p).1.Akin l (g.unlink p).1 ∧ (g.unlink p).2 = (f.unlink p).2 := by
  unfold Filed.unlink
  rw [h.bucket]
  split
  · exact ⟨h.letGo p _, rfl⟩
  · exact ⟨h, rfl⟩

theorem Akin.popFront (h : f.Akin l g) :
    f.popFront.1.Akin l g.popFront.1 ∧ g.popFront.2 = f.popFront.2 := by
  unfold Filed.popFront
  rw [h.bucket]
  split
  · exact ⟨h, rfl⟩
  · split
    · exact ⟨h, rfl⟩
    · exact ⟨h.letGo _ _, rfl⟩

theorem Akin.remove (h : f.Akin l g) (p : Fin n) :
    (f.remove p).1.Akin l (g.remove p).1 ∧ (g.remove p).2 = (f.remove p).2 := by
  unfold Filed.remove
  rw [h.bucket]
  split
  · exact ⟨h, rfl⟩
  · exact h.unlink p

theorem Akin.call (h : f.Akin l g) (call : BucketCall n) :
    (f.call call).Akin (Akin l) Eq (g.call call) := by
  cases call with
  | push p => exact (h.push p).mapAnswer fun _ _ => congrArg BucketAnswer.joined
  | popFront => exact .returned ⟨h.popFront.1, congrArg BucketAnswer.removal h.popFront.2.symm⟩
  | remove p => exact .returned ⟨(h.remove p).1, congrArg BucketAnswer.removal (h.remove p).2.symm⟩
  | size => exact .returned ⟨h, by rw [h.bucket]⟩
  | view =>
    rw [Filed.call, Filed.call, h.bucket]
    split
    · exact .stuck _
    · exact .returned ⟨h, rfl⟩

end Filed

namespace Shelf

variable {s t : Shelf n} {level : Nat}

structure Akin (l : Leeway) (s t : Shelf n) : Prop where
  buckets : t.buckets = s.buckets
  procs : s.procs.Akin l t.procs

theorem Akin.filed? (h : s.Akin l t) (level : Nat) :
    Option.Rel (Filed.Akin l) (s.filed? level) (t.filed? level) := by
  unfold Shelf.filed?
  rw [h.buckets]
  cases s.buckets[level]? with
  | none => exact .none
  | some b => exact .some ⟨rfl, h.procs⟩

theorem Akin.put (h : s.Akin l t) (level : Nat) {f g : Filed n} (hf : f.Akin l g) :
    (s.put level f).Akin l (t.put level g) :=
  ⟨by rw [Shelf.put, Shelf.put, h.buckets, hf.bucket], hf.procs⟩

theorem Akin.round (h : s.Akin l t) (level : Nat) (p : Fin n) :
    (s.round level p).Akin (Akin l) Eq (t.round level p) := by
  have hlevel := h.filed? level
  unfold Shelf.round
  rw [h.buckets, (h.procs p).mark]
  generalize s.filed? level = f? at hlevel
  generalize t.filed? level = g? at hlevel
  cases hlevel with
  | none => exact .faulted h _
  | some htarget =>
    cases hmark : s.procs[p].mark with
    | none =>
      refine (htarget.push p).map (fun _ _ hf => h.put level hf) ?_
      rintro joined _ rfl
      rfl
    | some mark =>
      have hcurrent := h.filed? mark
      dsimp only
      generalize s.filed? mark = f? at hcurrent
      generalize t.filed? mark = g? at hcurrent
      cases hcurrent with
      | none => exact .returned ⟨h, rfl⟩
      | some hf =>
        dsimp only
        rw [hf.bucket]
        split
        · exact .stuck _
        · exact .returned ⟨h.put mark (hf.unlink p).1, rfl⟩

theorem Akin.rounds (h : s.Akin l t) (k level : Nat) (p : Fin n) :
    (s.rounds k level p).Akin (Akin l) Eq (t.rounds k level p) := by
  induction k generalizing s t with
  | zero => exact .stuck _
  | succ k ih =>
    refine (h.round level p).bind fun u filing? v _ hu hfiling => ?_
    subst hfiling
    cases filing? with
    | some filing => exact .returned ⟨hu, rfl⟩
    | none => exact ih hu

theorem Akin.file (h : s.Akin l t) (level : Nat) (p : Fin n) :
    (s.file level p).Akin (Akin l) Eq (t.file level p) := by
  rw [Shelf.file, Shelf.file, h.buckets]
  exact h.rounds _ level p

theorem Akin.withdraw (h : s.Akin l t) (p : Fin n) :
    (s.withdraw p).1.Akin l (t.withdraw p).1 ∧ (t.withdraw p).2 = (s.withdraw p).2 := by
  unfold Shelf.withdraw
  rw [(h.procs p).mark]
  cases s.procs[p].mark with
  | none => exact ⟨h, rfl⟩
  | some mark =>
    have hcurrent := h.filed? mark
    dsimp only
    generalize s.filed? mark = f? at hcurrent
    generalize t.filed? mark = g? at hcurrent
    cases hcurrent with
    | none => exact ⟨h, rfl⟩
    | some hf => exact ⟨h.put mark (hf.remove p).1, (hf.remove p).2⟩

end Shelf

namespace Sweep

structure Akin (l : Leeway) (v w : Sweep n) : Prop where
  shelf : v.shelf.Akin l w.shelf
  busy : w.busy = v.busy
  taken : w.taken = v.taken

theorem Akin.past {v w : Sweep n} (h : v.Akin l w) (b : Bucket n) (busy : List Nat) :
    (v.past b busy).Akin l (w.past b busy) :=
  ⟨⟨congrArg (b :: ·) h.shelf.buckets, h.shelf.procs⟩, congrArg (busy ++ ·) h.busy, h.taken⟩

theorem akin_along {r s : Roster n} (h : r.Akin l s) (bs : List (Bucket n)) :
    (along bs r).Akin l (along bs s) := by
  induction bs with
  | nil => exact ⟨⟨rfl, h⟩, rfl, rfl⟩
  | cons b bs ih =>
    rw [along, along]
    split
    · exact ih.past b []
    · obtain ⟨hf, hremoval⟩ := Filed.Akin.popFront (f := ⟨b, r⟩) (g := ⟨b, s⟩) ⟨rfl, h⟩
      generalize (Filed.mk b r).popFront = f at hf hremoval
      generalize (Filed.mk b s).popFront = g at hf hremoval
      obtain ⟨f, removal⟩ := f
      obtain ⟨g, removal'⟩ := g
      cases hremoval
      cases removal with
      | removed p => exact ⟨⟨congrArg (· :: bs) hf.bucket, hf.procs⟩, rfl, rfl⟩
      | contended => exact ih.past b [b.level]
      | notFound => exact ih.past b []

end Sweep

namespace Tensor

variable {t t' u : Tensor} {c : Config} {now : Tick} {k : Nat}

theorem Turns.advance (ht : t.Turns) (now : Tick) : ∃ k < t.timeWindow,
    t.advance now = .ok ({ t with slot := k, stamps := t.stamps.setIfInBounds k now }, k) :=
  ⟨_, Nat.lt_of_lt_of_eq ht.next_lt ht.stamps, ht.advance_eq now⟩

theorem Turns.turned (ht : t.Turns) (hk : k < t.timeWindow) (now : Tick) :
    Turns { t with slot := k, stamps := t.stamps.setIfInBounds k now } :=
  ⟨hk, Array.size_setIfInBounds.trans ht.stamps, ht.window⟩

structure Akin (l : Leeway) (t u : Tensor) : Prop where
  maxProcs : u.maxProcs = t.maxProcs
  timeWindow : u.timeWindow = t.timeWindow
  history : u.history = t.history
  active : u.active = t.active
  size : u.stamps.size = t.stamps.size
  slot : l.advice = false → u.slot = t.slot
  stamps : l.advice = false → l.ticks = false → u.stamps = t.stamps
  turns : l.advice = true → t.Turns ∧ u.Turns

theorem Akin.symm (h : t.Akin l u) : u.Akin l t :=
  ⟨h.maxProcs.symm, h.timeWindow.symm, h.history.symm, h.active.symm, h.size.symm,
    fun hl => (h.slot hl).symm, fun hl hticks => (h.stamps hl hticks).symm, fun hl => (h.turns hl).symm⟩

theorem akin_self (ht : l.advice = true → t.Turns) : t.Akin l t :=
  ⟨rfl, rfl, rfl, rfl, rfl, fun _ => rfl, fun _ _ => rfl, fun hl => ⟨ht hl, ht hl⟩⟩

/-- What two rings make of their next turns. -/
inductive Steps (l : Leeway) : Except Fault (Tensor × Nat) → Except Fault (Tensor × Nat) → Prop where
  | turned {t u : Tensor} {j k : Nat} (akin : t.Akin l u) (slot : l.advice = false → k = j) :
      Steps l (.ok (t, j)) (.ok (u, k))
  | fault (fault : Fault) : Steps l (.error fault) (.error fault)

theorem Akin.advance (h : t.Akin l u) {now' : Tick} (hnow : l.ticks = false → now' = now) :
    Steps l (t.advance now) (u.advance now') := by
  cases hl : l.advice with
  | true =>
    obtain ⟨ht, hu⟩ := h.turns hl
    obtain ⟨j, hj, hadvance⟩ := ht.advance now
    obtain ⟨k, hk, hadvance'⟩ := hu.advance now'
    have hsize : (u.stamps.setIfInBounds k now').size = (t.stamps.setIfInBounds j now).size := by
      rw [Array.size_setIfInBounds, Array.size_setIfInBounds, h.size]
    rw [hadvance, hadvance']
    exact .turned { h with
      size := hsize
      slot := fun hfalse => by cases hl.symm.trans hfalse
      stamps := fun hfalse => by cases hl.symm.trans hfalse
      turns := fun _ => ⟨ht.turned hj now, hu.turned hk now'⟩ }
      fun hfalse => by cases hl.symm.trans hfalse
  | false =>
    unfold Tensor.advance
    rw [h.slot hl, h.timeWindow, h.size]
    cases Word.add t.slot 1 with
    | error fault => exact .fault fault
    | ok next =>
      simp only [bind, Except.bind]
      cases Word.mod next t.timeWindow with
      | error fault => exact .fault fault
      | ok k =>
        dsimp only
        split
        · refine .turned { h with
            timeWindow := rfl
            size := ?_
            slot := fun _ => rfl
            stamps := fun _ hticks => ?_
            turns := fun htrue => by cases hl.symm.trans htrue } fun _ => rfl
          · rw [Array.size_setIfInBounds, Array.size_setIfInBounds, h.size]
          · rw [hnow hticks, h.stamps hl hticks]
        · exact .fault _

theorem Akin.withActive (h : t.Akin l u) (k : Nat) :
    Akin l { t with active := k } { u with active := k } :=
  { h with
    active := rfl
    turns := fun hl => ⟨{ (h.turns hl).1 with }, { (h.turns hl).2 with }⟩ }

theorem Akin.untrack (h : t.Akin l u) : t.untrack.Akin l u.untrack := by
  unfold Tensor.untrack
  rw [h.active]
  exact h.withActive _

end Tensor

inductive TensorAnswer.Akin (l : Leeway) : TensorAnswer → TensorAnswer → Prop where
  | same (answer : TensorAnswer) : Akin l answer answer
  | slot {j k : Nat} (h : l.advice = false → k = j) : Akin l (.slot j) (.slot k)
  | tick {t u : Tick} (h : l.advice = false → l.ticks = false → u = t) : Akin l (.tick t) (.tick u)
  | ticks {ts us : List Tick} (length : us.length = ts.length)
      (h : l.advice = false → l.ticks = false → us = ts) : Akin l (.ticks ts) (.ticks us)
  | info {maxProcs timeWindow j k active : Nat} {x y : String}
      (h : l.advice = false → k = j ∧ y = x) :
      Akin l (.info maxProcs timeWindow j active x) (.info maxProcs timeWindow k active y)

namespace Tensor

variable {t u : Tensor}

theorem Akin.sample (h : t.Akin l u) (proc feature time : Nat) :
    u.sample proc feature time = t.sample proc feature time := by
  rw [Tensor.sample, Tensor.sample, cellIndex, cellIndex, h.maxProcs, h.timeWindow, h.history]

theorem Akin.call (h : t.Akin l u) (call : TensorCall) :
    (t.call call).Akin (Akin l) (TensorAnswer.Akin l) (u.call call) := by
  cases call with
  | advance now =>
    have hsteps : Steps l (t.advance now) (u.advance now) := h.advance fun _ => rfl
    rw [Tensor.call, Tensor.call]
    generalize t.advance now = e at hsteps
    generalize u.advance now = e' at hsteps
    cases hsteps with
    | turned akin slot => exact .returned ⟨akin, .slot slot⟩
    | fault fault => exact .faulted h fault
  | slot => exact .returned ⟨h, .slot h.slot⟩
  | timestamp slot =>
    refine .returned ⟨h, .tick fun hadvice hticks => ?_⟩
    rw [timestamp, timestamp, h.stamps hadvice hticks]
  | timestamps =>
    refine .returned ⟨h, .ticks ?_ fun hadvice hticks => by rw [h.stamps hadvice hticks]⟩
    rw [Array.length_toList, Array.length_toList, h.size]
  | sample proc feature time =>
    rw [Tensor.call, Tensor.call, h.sample]
    cases t.sample proc feature time with
    | error fault => exact .faulted h fault
    | ok x => exact .returned ⟨h, .same _⟩
  | info =>
    have htext (hadvice : l.advice = false) : u.text = t.text := by
      delta text
      rw [h.maxProcs, h.timeWindow, h.active, h.slot hadvice]
    have hinfo : TensorAnswer.Akin l (.info t.maxProcs t.timeWindow t.slot t.active t.text)
        (.info u.maxProcs u.timeWindow u.slot u.active u.text) := by
      rw [h.maxProcs, h.timeWindow, h.active]
      exact .info fun hadvice => ⟨h.slot hadvice, htext hadvice⟩
    exact .returned ⟨h, hinfo⟩

end Tensor

end AttentionScheduler
