import AttentionScheduler.Proofs.Exhaustion
import AttentionScheduler.Proofs.Ownership

/-!
A bucket that is held keeps its members, whatever happens meanwhile anywhere in the session, and they
keep their marks.
-/

namespace AttentionScheduler

open Files

variable {n : Nat}

namespace Files

variable {f g : Files n} {place : Place} {b : Bucket n} {c : Change n} {cs : List (Change n)}

theorem Edit.keeps_held (h : Edit f c g) (hb : f.bucket? place = some b) (held : b.held = true)
    (hc : ∀ on, c ≠ .latch place on) : g.bucket? place = some b := by
  have other {q : Place} {c : Bucket n} (hq : f.bucket? q = some c) (free : c.held = false) :
      place ≠ q := by
    rintro rfl
    cases hb.symm.trans hq
    exact Bool.false_ne_true (free.symm.trans held)
  cases h with
  | shelve absent small =>
    refine (withRow_of_ne ?_).trans hb
    intro ha
    cases place with
    | loose q => cases ha
    | own x level =>
      cases ha
      cases (absent level).symm.trans hb
  | link there free unmarked => exact (put_bucket?_of_ne (other there free)).trans hb
  | unlink there free member => exact (put_bucket?_of_ne (other there free)).trans hb
  | @latch q c on there =>
    have hq : place ≠ q := fun e => hc on (e ▸ rfl)
    exact (put_bucket?_of_ne hq).trans hb

theorem Edits.keeps_held (h : Edits f cs g) (hb : f.bucket? place = some b) (held : b.held = true)
    (hcs : ∀ on, .latch place on ∉ cs) : g.bucket? place = some b := by
  induction h with
  | nil => exact hb
  | @cons f g k c cs edit _ ih =>
    have hfirst := edit.keeps_held hb held fun on e => hcs on (e ▸ List.mem_cons_self)
    exact ih hfirst fun on hmem => hcs on (List.mem_cons_of_mem _ hmem)

end Files

theorem Event.latch_not_mem_changes (e : Event n) (place : Place) (on : Bool) :
    .latch place on ∉ e.changes := by
  intro hmem
  rcases List.mem_append.mp hmem with hmem | hmem
  · obtain ⟨a, levels, -, h⟩ := mem_opening hmem
    cases h
  · rcases mem_filing hmem with ⟨place, p, h, -⟩ | ⟨place, p, h, -⟩ <;> cases h

theorem Bucket.free_of_free {b : Bucket n} (h : b.held = false) : b.free = b := by
  cases b
  cases h
  rfl

namespace Session

variable {s t u : Session n} {a : Nat} {place : Place} {b : Bucket n} {c : Call n} {d : Done n}
  {es : List (Event n)}

/-- What every call preserves, and every lock with its release, if it has been preserved in between. -/
structure Durable (I : Session n → Prop) : Prop where
  call : ∀ {s : Session n} {c : Call n} {d : Done n}, I s → s.call c = .ok d → I d.session
  seize : ∀ {s t : Session n} {place : Place} {b : Bucket n}, I s →
    s.bucket? place = .ok (some b) → s.seize place b = .ok t → I t
  release : ∀ {s t : Session n} {place : Place} {b : Bucket n}, I s →
    s.bucket? place = .ok (some b) → b.held = false → I t → I (t.release place)

mutual

theorem step_lasts {I : Session n → Prop} (hD : Durable I) (s t : Session n) (r : Report n) :
    (step : Step n) → s.step step = .ok (t, r) → I s →
      I t ∧ ∀ e ∈ s.stepEvents step, I e.before ∧ e.before.call e.call = .ok e.done
  | .call c, h, hI => by
    rw [Session.step] at h
    cases hc : s.call c with
    | error stop =>
      rw [hc] at h
      cases h
    | ok d =>
      rw [hc] at h
      cases h
      rw [stepEvents, hc]
      refine ⟨hD.call hI hc, fun e he => ?_⟩
      rw [List.mem_singleton.mp he]
      exact ⟨hI, hc⟩
  | .hold place body, h, hI => by
    rw [Session.step] at h
    rw [stepEvents]
    cases hb : s.bucket? place with
    | error stop =>
      rw [hb] at h
      cases h
    | ok b? =>
      cases b? with
      | none =>
        rw [hb] at h
        cases h
        exact ⟨hI, by simp⟩
      | some b =>
        simp only [hb] at h ⊢
        cases hs : s.seize place b with
        | error stop =>
          rw [hs] at h
          cases h
        | ok u =>
          simp only [hs] at h ⊢
          cases hr : u.run body with
          | error stop =>
            rw [hr] at h
            cases h
          | ok v =>
            rw [hr] at h
            cases h
            obtain ⟨hv, hevents⟩ := run_lasts hD u v.1 v.2 body hr (hD.seize hI hb hs)
            exact ⟨hD.release hI hb (free_of_seize hs) hv, hevents⟩

/-- What calls preserve and holds preserve lasts through a run, and it holds before every call of it. -/
theorem run_lasts {I : Session n → Prop} (hD : Durable I) (s t : Session n) (rs : List (Report n)) :
    (steps : List (Step n)) → s.run steps = .ok (t, rs) → I s →
      I t ∧ ∀ e ∈ s.events steps, I e.before ∧ e.before.call e.call = .ok e.done
  | [], h, hI => by
    rw [run] at h
    cases h
    exact ⟨hI, by simp [events]⟩
  | first :: rest, h, hI => by
    rw [run] at h
    rw [events]
    cases hf : s.step first with
    | error stop =>
      rw [hf] at h
      cases h
    | ok v =>
      rw [hf] at h
      cases hr : v.1.run rest with
      | error stop =>
        simp only [hr] at h
        cases h
      | ok w =>
        simp only [hr] at h
        cases h
        obtain ⟨hv, hfirst⟩ := step_lasts hD s v.1 v.2 first hf hI
        obtain ⟨hw, hrest⟩ := run_lasts hD v.1 w.1 w.2 rest hr hv
        refine ⟨hw, fun e he => ?_⟩
        rcases List.mem_append.mp he with he | he
        · exact hfirst e he
        · exact hrest e he

end

theorem Exhausts.lasts {I : Session n → Prop}
    (hI : ∀ {u : Session n} {d : Done n}, I u → u.call (.host a .select) = .ok d → I d.session)
    (h : s.Exhausts a es t) (hs : I s) :
    I t ∧ ∀ e ∈ es, I e.before ∧ I e.done.session ∧ e.before.call e.call = .ok e.done := by
  induction h with
  | last call nobody =>
    refine ⟨hI hs call, fun e he => ?_⟩
    rw [List.mem_singleton.mp he]
    exact ⟨hs, hI hs call, call⟩
  | next call picked rest ih =>
    obtain ⟨ht, hrest⟩ := ih (hI hs call)
    refine ⟨ht, fun e he => ?_⟩
    rcases List.mem_cons.mp he with rfl | he
    · exact ⟨hs, hI hs call, call⟩
    · exact hrest e he

/-- A drain keeps what every other call keeps, and so do the selections that it is made of. -/
theorem parts_last {I : Session n → Prop} (sound : ∀ {u : Session n}, I u → u.files.Sound)
    (hI : ∀ {u : Session n} {c : Call n} {d : Done n}, (∀ a, c ≠ .host a .drain) → I u →
      u.call c = .ok d → I d.session) (hs : I s) (hc : s.call c = .ok d) :
    I d.session ∧ ∀ e ∈ Event.parts ⟨s, c, d⟩,
      I e.before ∧ I e.done.session ∧ e.before.call e.call = .ok e.done := by
  by_cases hd : ∃ a, c = .host a .drain
  · obtain ⟨a, rfl⟩ := hd
    obtain ⟨seat, hseat⟩ := seat_of_call hc
    obtain ⟨d', hd', hexhausts, -⟩ := exists_drain (sound hs) hseat
    cases hc.symm.trans hd'
    exact hexhausts.lasts (hI fun a => by simp) hs
  · have hd := not_exists.mp hd
    refine ⟨hI hd hs hc, fun e he => ?_⟩
    rw [Event.parts_of_ne_drain hd] at he
    rw [List.mem_singleton.mp he]
    exact ⟨hs, hI hd hs hc, hc⟩

/-- The bucket is there as it is given, and its members have the marks that it leaves. -/
structure Frozen (place : Place) (b : Bucket n) (s : Session n) : Prop where
  there : s.bucketAt place = some b
  marked : b.Marking → ∀ q ∈ b.members, s.procs[q].mark = some b.level

def Holds (place : Place) (b : Bucket n) (s : Session n) : Prop :=
  s.files.Sound ∧ s.bucketAt place = some b

theorem Holds.frozen (h : s.Holds place b) : s.Frozen place b :=
  ⟨h.2, fun hm _ hq => h.1.marked h.2 hm hq⟩

theorem Holds.call (held : b.held = true) (h : s.Holds place b) (hd : ∀ a, c ≠ .host a .drain)
    (hc : s.call c = .ok d) : d.session.Holds place b := by
  have hedits := (call_does h.1 hd hc).edits h.1
  exact ⟨h.1.edits hedits, hedits.keeps_held h.2 held (Event.latch_not_mem_changes _ place)⟩

theorem Holds.ne {other : Place} {c : Bucket n} (held : b.held = true) (h : s.Holds place b)
    (hc : s.bucket? other = .ok (some c)) (free : c.held = false) : other ≠ place := by
  rintro rfl
  cases h.2.symm.trans (bucketAt_of_bucket? hc)
  exact Bool.false_ne_true (free.symm.trans held)

theorem durable_holds (held : b.held = true) : Durable (Holds place b) where
  call hs hc :=
    (parts_last (I := Holds place b) And.left (fun hd hu => hu.call held hd) hs hc).1
  seize {s t other c} hs hc hseize := by
    have hne := hs.ne held hc (free_of_seize hseize)
    have hedit := seize_edit hc hseize
    refine ⟨hs.1.edit hedit, hedit.keeps_held hs.2 held ?_⟩
    rintro on ⟨⟩
    exact hne rfl
  release {s t other c} hs hc free ht := by
    have hne := hs.ne held hc free
    obtain ⟨cs, hedits, hlatch⟩ := t.release_edits other
    refine ⟨ht.1.edits hedits, hedits.keeps_held ht.2 held fun on hmem => ?_⟩
    cases hlatch _ hmem
    exact hne rfl

theorem contended_of_held (hb : s.bucketAt place = some b) (held : b.held = true)
    (kind : c = .bucket place .popFront ∨ ∃ q, c = .bucket place (.remove q))
    (hc : s.call c = .ok d) : d.answer = .bucket (.removal .contended) := by
  have free {b' : Bucket n} (hb' : s.bucketAt place = some b') : b'.held ≠ false := by
    cases hb.symm.trans hb'
    simp [held]
  rcases kind with rfl | ⟨q, rfl⟩
  · have hpop : s.callBucket place .popFront = .ok d := hc
    cases bucket_does hpop with
    | aside kind => cases kind
    | absent nowhere => cases nowhere.symm.trans hb
    | contended => rfl
    | empty there hfree => exact absurd hfree (free there)
    | popped there hfree => exact absurd hfree (free there)
  · have hremove : s.callBucket place (.remove q) = .ok d := hc
    cases bucket_does hremove with
    | aside kind => cases kind
    | absent nowhere => cases nowhere.symm.trans hb
    | contended => rfl
    | missing there hfree => exact absurd hfree (free there)
    | removed there hfree => exact absurd hfree (free there)

theorem exists_hold {body : List (Step n)} (hb : s.bucket? place = .ok (some b))
    (h : (s.step (.hold place body)).toOption.isSome) :
    ∃ u t rs, s.seize place b = .ok u ∧ u.run body = .ok (t, rs) := by
  simp only [Session.step, hb] at h
  cases hs : s.seize place b with
  | error stop =>
    rw [hs] at h
    cases h
  | ok u =>
    simp only [hs] at h
    cases hr : u.run body with
    | error stop =>
      rw [hr] at h
      cases h
    | ok v => exact ⟨u, v.1, v.2, rfl, hr⟩

/-- While a bucket is held, every call finds it and leaves it as it was when it was locked. Whoever takes
from it directly finds it contended. -/
theorem Leads.freezes {os : List Opening} {queues : List (Nat × Single)}
    {ps : Vector (UInt64 × Bool) n} {steps : List (Step n)} {rs : List (Report n)}
    (h : (fresh os queues (freshRoster ps)).Leads es s) (hb : s.bucket? place = .ok (some b))
    (hs : s.seize place b = .ok u) (hr : u.run steps = .ok (t, rs)) :
    s.Frozen place b ∧ t.Frozen place b.hold ∧ (t.release place).bucketAt place = some b ∧
      ∀ e ∈ (u.events steps).flatMap Event.parts,
        e.before.Frozen place b.hold ∧ e.done.session.Frozen place b.hold ∧
        ((e.call = .bucket place .popFront ∨ ∃ q, e.call = .bucket place (.remove q)) →
          e.done.answer = .bucket (.removal .contended)) := by
  have hsound : s.files.Sound := h.sound (fresh_sound os queues ps)
  have hfirst : s.Holds place b := ⟨hsound, bucketAt_of_bucket? hb⟩
  have hu : u.Holds place b.hold := by
    refine ⟨hsound.edit (seize_edit hb hs), ?_⟩
    unfold Session.seize at hs
    split at hs <;> cases hs
    exact bucketAt_putBucket hfirst.2 b.hold
  obtain ⟨ht, hevents⟩ := run_lasts (durable_holds rfl) u t rs steps hr hu
  refine ⟨hfirst.frozen, ht.frozen, ?_, fun e he => ?_⟩
  · rw [Session.release, bucket?_of_bucketAt ht.2]
    refine (bucketAt_putBucket ht.2 _).trans (congrArg some ?_)
    rw [← Bucket.free_of_free (free_of_seize hs)]
    rfl
  · obtain ⟨whole, hwhole, he⟩ := List.mem_flatMap.mp he
    obtain ⟨hbefore, hc⟩ := hevents whole hwhole
    obtain ⟨hpart, hdone, hcall⟩ :=
      (parts_last (I := Holds place b.hold) And.left (fun hd hu => hu.call rfl hd) hbefore hc).2 e he
    exact ⟨hpart.frozen, hdone.frozen, fun kind => contended_of_held hpart.2 rfl kind hcall⟩

theorem freezes_under_a_nested_hold : ∃ es, ∃ s t u : Session 2, ∃ b, ∃ rs,
    (fresh [{ hz := 1000 }] [(2, .zero)] (freshRoster (.ofFn fun p => (.ofNat p, true)))).Leads es s ∧
      s.bucket? (.own 0 3) = .ok (some b) ∧ s.seize (.own 0 3) b = .ok u ∧
      u.run [.call (.bucket (.own 0 3) .popFront), .call (.host 0 (.remove 0)),
        .hold (.loose 0) [.call (.host 0 (.setFeature 0 0 .one)), .call (.host 0 .drain)],
        .call (.bucket (.loose 0) (.push 1)), .call (.host 0 (.retire 0))] = .ok (t, rs) ∧
      b.members = [0] ∧ (t.release (.own 0 3)).bucketAt (.own 0 3) = some b := by
  let s₀ : Session 2 :=
    fresh [{ hz := 1000 }] [(2, .zero)] (freshRoster (.ofFn fun p => (.ofNat p, true)))
  let body : List (Step 2) := [.call (.bucket (.own 0 3) .popFront), .call (.host 0 (.remove 0)),
    .hold (.loose 0) [.call (.host 0 (.setFeature 0 0 .one)), .call (.host 0 .drain)],
    .call (.bucket (.loose 0) (.push 1)), .call (.host 0 (.retire 0))]
  let b : Bucket 2 := { level := 3, threshold := threshold 3 4, members := [0], count := 1 }
  obtain ⟨s, h, hfacts⟩ := exists_leads s₀ [.call (.host 0 (.ready 0))]
    (fun s => ((s.bucketAt (.own 0 3)), (s.step (.hold (.own 0 3) body)).toOption.isSome))
    (x := (some b, true)) (by decide +kernel)
  obtain ⟨hat, hstep⟩ := Prod.ext_iff.mp hfacts
  have hb : s.bucket? (.own 0 3) = .ok (some b) := bucket?_of_bucketAt hat
  obtain ⟨u, t, rs, hs, hr⟩ := exists_hold hb hstep
  exact ⟨_, s, t, u, b, rs, h, hb, hs, hr, rfl, (h.freezes hb hs hr).2.2.1⟩

end Session

end AttentionScheduler
