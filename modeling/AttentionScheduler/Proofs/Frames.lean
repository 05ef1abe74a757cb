import AttentionScheduler.Session.Call

/-!
Filing, a walk along a shelf and a withdrawal move members and marks. They leave the levels and the
thresholds of the buckets alone, and of every record all but its mark. A call of a session puts back
what it has worked on.
-/

namespace AttentionScheduler

variable {n : Nat} {p : Fin n} {level : Nat}

namespace Ending

variable {σ τ α β : Type}

theorem Leaves.imp {P Q : σ → Prop} {e : Ending σ α} (he : e.Leaves P) (h : ∀ s, P s → Q s) :
    e.Leaves Q := by
  cases e with
  | returned s a => exact h s he
  | faulted s c => exact h s he
  | stuck c => exact he

def Faultless : Ending σ α → Prop
  | faulted _ _ => False
  | _ => True

theorem Faultless.map {e : Ending σ α} {f : σ → τ} {g : α → β} (he : e.Faultless) :
    (e.map f g).Faultless := by
  cases e <;> exact he

theorem Faultless.bind {e : Ending σ α} {f : σ → α → Ending σ β} (he : e.Faultless)
    (hf : ∀ s a, e = .returned s a → (f s a).Faultless) : (e.bind f).Faultless := by
  cases e with
  | returned s a => exact hf s a rfl
  | faulted s c => exact he
  | stuck c => exact he

theorem Faultless.ne {e : Ending σ α} (he : e.Faultless) (s : σ) (fault : Fault) :
    e ≠ .faulted s fault := by
  rintro rfl
  exact he

end Ending

def Bucket.label (b : Bucket n) : Nat × Single := (b.level, b.threshold)

def Roster.Remarked (r s : Roster n) : Prop := ∀ q : Fin n, s[q] = { r[q] with mark := s[q].mark }

namespace Roster.Remarked

variable {r s t : Roster n}

theorem refl (r : Roster n) : r.Remarked r := fun _ => rfl

theorem trans (h : r.Remarked s) (h' : s.Remarked t) : r.Remarked t := by
  intro q
  rw [h' q, h q]

theorem update {f : Record → Record} (hf : f r[p] = { r[p] with mark := (f r[p]).mark }) :
    r.Remarked (r.update p f) := by
  intro q
  by_cases hq : q = p
  · subst hq
    rw [getElem_update_self]
    exact hf
  · rw [getElem_update_ne _ hq]

theorem vector (h : r.Remarked s) (q : Fin n) : s[q].vector = r[q].vector := by
  rw [h q]

theorem tracked (h : r.Remarked s) (q : Fin n) (hq : r[q].tracked = true) : s[q].tracked = true := by
  rw [h q]
  exact hq

end Roster.Remarked

namespace Filed

variable {f g : Filed n}

structure Shifts (f g : Filed n) : Prop where
  label : g.bucket.label = f.bucket.label
  procs : f.procs.Remarked g.procs

theorem Shifts.refl (f : Filed n) : f.Shifts f := ⟨rfl, .refl _⟩

theorem release_eq (r : Record) (level : Nat) :
    r.release level = { r with mark := (r.release level).mark } := by
  unfold Record.release
  split <;> rfl

theorem shifts_letGo (f : Filed n) (p : Fin n) (rest : List (Fin n)) : f.Shifts (f.letGo p rest) :=
  ⟨rfl, .update (release_eq _ _)⟩

theorem shifts_push (f : Filed n) (p : Fin n) : (f.push p).Leaves f.Shifts := by
  unfold push
  split
  · trivial
  · split
    · exact .refl f
    · next record hc =>
      refine ⟨rfl, .update ?_⟩
      unfold Record.claim at hc
      split at hc <;> cases hc
      rfl

theorem shifts_unlink (f : Filed n) (p : Fin n) : f.Shifts (f.unlink p).1 := by
  unfold unlink
  split
  · exact f.shifts_letGo p _
  · exact .refl f

theorem shifts_popFront (f : Filed n) : f.Shifts f.popFront.1 := by
  unfold popFront
  split
  · exact .refl f
  · split
    · exact .refl f
    · exact f.shifts_letGo _ _

theorem shifts_remove (f : Filed n) (p : Fin n) : f.Shifts (f.remove p).1 := by
  unfold remove
  split
  · exact .refl f
  · exact f.shifts_unlink p

theorem shifts_call (f : Filed n) (call : BucketCall n) : (f.call call).Leaves f.Shifts := by
  cases call with
  | push p => exact (f.shifts_push p).map fun _ hg => hg
  | popFront => exact f.shifts_popFront
  | remove p => exact f.shifts_remove p
  | size => exact .refl f
  | view =>
    rw [Filed.call]
    split
    · trivial
    · exact .refl f

end Filed

namespace Shelf

variable {s t u : Shelf n}

structure Shifts (s t : Shelf n) : Prop where
  labels : t.buckets.map Bucket.label = s.buckets.map Bucket.label
  procs : s.procs.Remarked t.procs

theorem Shifts.refl (s : Shelf n) : s.Shifts s := ⟨rfl, .refl _⟩

theorem Shifts.trans (h : s.Shifts t) (h' : t.Shifts u) : s.Shifts u :=
  ⟨h'.labels.trans h.labels, h.procs.trans h'.procs⟩

theorem shifts_put {f g : Filed n} (hf : s.filed? level = some f) (h : f.Shifts g) :
    s.Shifts (s.put level g) := by
  obtain ⟨b, hb, rfl⟩ := Option.map_eq_some_iff.mp hf
  obtain ⟨hl, rfl⟩ := List.getElem?_eq_some_iff.mp hb
  refine ⟨?_, h.procs⟩
  rw [put, List.map_set, h.label, ← List.map_set, List.set_getElem_self]

theorem shifts_round (s : Shelf n) (level : Nat) (p : Fin n) : (s.round level p).Leaves s.Shifts := by
  unfold round
  split
  · exact .refl s
  · next target ht =>
    split
    · exact (target.shifts_push p).map fun g hg => shifts_put ht hg
    · split
      · exact .refl s
      · next current hc =>
        split
        · trivial
        · exact shifts_put hc (current.shifts_unlink p)

theorem shifts_rounds (k : Nat) (s : Shelf n) (level : Nat) (p : Fin n) :
    (s.rounds k level p).Leaves s.Shifts := by
  induction k generalizing s with
  | zero => trivial
  | succ k ih =>
    refine (s.shifts_round level p).bind fun t filing? ht => ?_
    cases filing? with
    | some filing => exact ht
    | none => exact (ih t).imp fun u hu => ht.trans hu

theorem shifts_file (s : Shelf n) (level : Nat) (p : Fin n) : (s.file level p).Leaves s.Shifts :=
  s.shifts_rounds _ level p

theorem shifts_withdraw (s : Shelf n) (p : Fin n) : s.Shifts (s.withdraw p).1 := by
  unfold withdraw
  split
  · exact .refl s
  · split
    · exact .refl s
    · next f hf => exact shifts_put hf (f.shifts_remove p)

theorem Shifts.cons {bs : List (Bucket n)} {procs : Roster n} (b : Bucket n)
    (h : Shifts ⟨bs, procs⟩ t) : Shifts ⟨b :: bs, procs⟩ ⟨b :: t.buckets, t.procs⟩ :=
  ⟨congrArg (b.label :: ·) h.labels, h.procs⟩

theorem shifts_along (procs : Roster n) (bs : List (Bucket n)) :
    Shifts ⟨bs, procs⟩ (Sweep.along bs procs).shelf := by
  induction bs with
  | nil => exact .refl _
  | cons b rest ih =>
    unfold Sweep.along
    split
    · exact ih.cons b
    · have hpop := (Filed.mk b procs).shifts_popFront
      split
      · next f q hf =>
        rw [hf] at hpop
        exact ⟨congrArg (· :: rest.map Bucket.label) hpop.label, hpop.procs⟩
      · exact ih.cons b
      · exact ih.cons b

end Shelf

namespace Session

variable {s : Session n} {a : Nat} {seat : Seat n} {place : Place} {d : Done n}

theorem leaves_of_call {call : HostCall n} {P : Host n → Prop} (hs : s.seat a = .ok seat)
    (hc : s.call (.host a call) = .ok d)
    (h : ((s.host seat).call (s.clock seat) call).Leaves P) : ∃ k, P k ∧ d.session = s.putHost a k := by
  simp only [Session.call, callHost, hs] at hc
  split at hc <;> cases hc
  · next hcall =>
    rw [hcall] at h
    exact ⟨_, h, rfl⟩
  · next hcall =>
    rw [hcall] at h
    exact ⟨_, h, rfl⟩

theorem putClock_of_call {call : ClockCall} (hc : s.call (.clock a call) = .ok d) :
    ∃ seat c, d.session = s.putClock seat c ∧ d.lines = [] := by
  simp only [Session.call, callClock] at hc
  split at hc
  · cases hc
  · split at hc <;> cases hc <;> exact ⟨_, _, rfl, rfl⟩

theorem putFiled_of_call {call : BucketCall n} (hc : s.call (.bucket place call) = .ok d) :
    (d.session = s ∨ ∃ b f, s.bucket? place = .ok (some b) ∧ (Filed.mk b s.procs).Shifts f ∧
      d.session = s.putFiled place f) ∧ d.lines = [] := by
  simp only [Session.call, callBucket] at hc
  split at hc
  · cases hc
  · cases hc
    exact ⟨.inl rfl, rfl⟩
  · next b hb =>
    have hshifts := (Filed.mk b s.procs).shifts_call call
    split at hc <;> cases hc
    · next hcall =>
      rw [hcall] at hshifts
      exact ⟨.inr ⟨b, _, hb, hshifts, rfl⟩, rfl⟩
    · next hcall =>
      rw [hcall] at hshifts
      exact ⟨.inr ⟨b, _, hb, hshifts, rfl⟩, rfl⟩

end Session

end AttentionScheduler
