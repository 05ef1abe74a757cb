import AttentionScheduler.Proofs.Soundness
import Mathlib.Data.List.Nodup

/-!
A process sits in one marking bucket of the whole session at most, whoever owns the bucket, and its mark
names the level of that bucket.
-/

namespace AttentionScheduler

variable {n : Nat}

namespace Session

variable {s t : Session n} {a level : Nat} {place : Place} {b : Bucket n} {p : Fin n}
  {es : List (Event n)}

def rowOf : Option (Seat n) → List (Bucket n)
  | some seat => seat.allocator.buckets
  | none => []

def everyBucket (s : Session n) : List (Bucket n) := s.seats.flatMap rowOf ++ s.queues

def entries (s : Session n) : List (Fin n) :=
  (s.everyBucket.filter fun b => b.Marking).flatMap (·.members)

theorem bucketAt_of_seats {seat? : Option (Seat n)} (hs : s.seats[a]? = some seat?)
    (hb : (rowOf seat?)[level]? = some b) : s.bucketAt (.own a level) = some b := by
  cases seat? with
  | none => cases hb
  | some seat =>
    have hseat : s.seat a = .ok seat := by
      rw [Session.seat, hs]
    rw [bucketAt_of_seat hseat]
    exact hb

theorem bucketAt_of_queues {q : Nat} (hb : s.queues[q]? = some b) :
    s.bucketAt (.loose q) = some b :=
  hb

theorem mem_everyBucket : b ∈ s.everyBucket ↔ ∃ place, s.bucketAt place = some b := by
  constructor
  · intro hb
    rcases List.mem_append.mp hb with hb | hb
    · obtain ⟨seat?, hseat, hb⟩ := List.mem_flatMap.mp hb
      obtain ⟨a, ha⟩ := List.mem_iff_getElem?.mp hseat
      obtain ⟨level, hl⟩ := List.mem_iff_getElem?.mp hb
      exact ⟨.own a level, bucketAt_of_seats ha hl⟩
    · obtain ⟨q, hq⟩ := List.mem_iff_getElem?.mp hb
      exact ⟨.loose q, hq⟩
  · rintro ⟨place, hb⟩
    apply List.mem_append.mpr
    cases place with
    | own a level =>
      rw [bucketAt] at hb
      have hmem := List.mem_of_getElem? hb
      cases hs : s.seat a with
      | error stop =>
        rw [bucketsOf, allocator?, hs] at hmem
        cases hmem
      | ok seat =>
        rw [bucketsOf_of_seat hs] at hmem
        refine .inl (List.mem_flatMap.mpr ⟨some seat, ?_, hmem⟩)
        unfold Session.seat at hs
        split at hs
        · next hseat =>
          cases hs
          exact List.mem_of_getElem? hseat
        · cases hs
    | loose q => exact .inr (List.mem_of_getElem? hb)

theorem apart_everyBucket (hs : s.files.Sound) : s.everyBucket.Pairwise fun b c =>
    b.Marking → c.Marking → List.Disjoint b.members c.members := by
  have apart {one two : Place} {b c : Bucket n} (hb : s.bucketAt one = some b)
      (hc : s.bucketAt two = some c) (hne : one ≠ two) (hmb : b.Marking) (hmc : c.Marking) :
      List.Disjoint b.members c.members :=
    fun _ hpb hpc => hne (hs.apart hb hc hmb hmc hpb hpc)
  apply List.pairwise_append.mpr
  refine ⟨List.pairwise_flatMap.mpr ⟨?_, ?_⟩, ?_, ?_⟩
  · intro seat? hseat
    obtain ⟨a, ha⟩ := List.mem_iff_getElem?.mp hseat
    rw [List.pairwise_iff_getElem]
    intro i j hi hj hij
    apply apart (bucketAt_of_seats ha (List.getElem?_eq_getElem hi))
      (bucketAt_of_seats ha (List.getElem?_eq_getElem hj))
    simp [Nat.ne_of_lt hij]
  · rw [List.pairwise_iff_getElem]
    intro i j hi hj hij b hb c hc
    obtain ⟨l, hl⟩ := List.mem_iff_getElem?.mp hb
    obtain ⟨m, hm⟩ := List.mem_iff_getElem?.mp hc
    apply apart (bucketAt_of_seats (List.getElem?_eq_getElem hi) hl)
      (bucketAt_of_seats (List.getElem?_eq_getElem hj) hm)
    simp [Nat.ne_of_lt hij]
  · rw [List.pairwise_iff_getElem]
    intro i j hi hj hij
    apply apart (bucketAt_of_queues (List.getElem?_eq_getElem hi))
      (bucketAt_of_queues (List.getElem?_eq_getElem hj))
    simp [Nat.ne_of_lt hij]
  · intro b hb c hc
    obtain ⟨seat?, hseat, hb⟩ := List.mem_flatMap.mp hb
    obtain ⟨a, ha⟩ := List.mem_iff_getElem?.mp hseat
    obtain ⟨l, hl⟩ := List.mem_iff_getElem?.mp hb
    obtain ⟨q, hq⟩ := List.mem_iff_getElem?.mp hc
    exact apart (bucketAt_of_seats ha hl) (bucketAt_of_queues hq) (by simp)

theorem mem_entries : p ∈ s.entries ↔ ∃ b ∈ s.everyBucket, b.Marking ∧ p ∈ b.members := by
  simp [entries, and_assoc]

theorem entries_nodup (hs : s.files.Sound) : s.entries.Nodup := by
  apply List.nodup_flatMap.mpr
  constructor
  · intro b hb
    obtain ⟨hb, hm⟩ := List.mem_filter.mp hb
    obtain ⟨place, hat⟩ := mem_everyBucket.mp hb
    exact hs.nodup hat (of_decide_eq_true hm)
  · apply List.pairwise_filter.mpr
    apply (apart_everyBucket hs).imp
    intro b c hdisjoint hb hc
    exact hdisjoint (of_decide_eq_true hb) (of_decide_eq_true hc)

theorem not_mem_entries (hs : s.files.Sound) (hp : s.procs[p].mark = none) : p ∉ s.entries := by
  intro hmem
  obtain ⟨b, hb, hm, hpb⟩ := mem_entries.mp hmem
  obtain ⟨place, hat⟩ := mem_everyBucket.mp hb
  exact hs.not_mem hp hat hm hpb

theorem count_entries (hs : s.files.Sound) (hp : s.procs[p].mark = some level) :
    s.entries.count p = 1 := by
  obtain ⟨place, b, hat, hm, _, hpb⟩ := hs.placed hp
  apply List.count_eq_one_of_mem (entries_nodup hs)
  exact mem_entries.mpr ⟨b, mem_everyBucket.mpr ⟨place, hat⟩, hm, hpb⟩

theorem level_of_mem (hs : s.files.Sound) (hp : s.procs[p].mark = some level)
    (hb : b ∈ s.everyBucket) (hm : b.Marking) (hpb : p ∈ b.members) : b.level = level := by
  obtain ⟨place, hat⟩ := mem_everyBucket.mp hb
  exact Option.some.inj ((hs.marked hat hm hpb).symm.trans hp)

/-- An unmarked process has no entry in a marking bucket. A marked one has exactly one, and it is in a
bucket of the level that the mark names. Every bucket publishes the number of its members. -/
theorem Leads.entries_agree {os : List Opening} {queues : List (Nat × Single)}
    {ps : Vector (UInt64 × Bool) n} (h : (fresh os queues (freshRoster ps)).Leads es t) :
    (∀ p : Fin n, match t.procs[p].mark with
      | none => ∀ b ∈ t.everyBucket, b.Marking → p ∉ b.members
      | some level => t.entries.count p = 1 ∧
          ∀ b ∈ t.everyBucket, b.Marking → p ∈ b.members → b.level = level) ∧
    ∀ b ∈ t.everyBucket, b.count = b.members.length := by
  have hs : t.files.Sound := h.sound (fresh_sound os queues ps)
  constructor
  · intro p
    cases hp : t.procs[p].mark with
    | none =>
      intro b hb hm hpb
      exact not_mem_entries hs hp (mem_entries.mpr ⟨b, hb, hm, hpb⟩)
    | some level =>
      exact ⟨count_entries hs hp, fun b hb hm hpb => level_of_mem hs hp hb hm hpb⟩
  · intro b hb
    obtain ⟨place, hat⟩ := mem_everyBucket.mp hb
    exact hs.published hat

theorem entries_agree_of_two_owners : ∃ es, ∃ t : Session 2,
    (fresh [{ hz := 1000 }] [(unmarkedLevel, .zero), (2, .zero)]
      (freshRoster (.ofFn fun p => (.ofNat p, true)))).Leads es t ∧
    t.procs[(0 : Fin 2)].mark = some 3 ∧ t.entries.count 0 = 1 ∧
    t.procs[(1 : Fin 2)].mark = some 2 ∧ t.entries.count 1 = 1 := by
  let s : Session 2 := fresh [{ hz := 1000 }] [(unmarkedLevel, .zero), (2, .zero)]
    (freshRoster (.ofFn fun p => (.ofNat p, true)))
  let steps : List (Step 2) :=
    [.call (.bucket (.loose 0) (.push 0)), .call (.host 0 (.ready 0)),
      .hold (.own 0 3) [.call (.host 0 .select), .call (.bucket (.loose 1) (.push 1))]]
  obtain ⟨t, h, hmarks⟩ := exists_leads s steps
    (fun t => (t.procs[(0 : Fin 2)].mark, t.procs[(1 : Fin 2)].mark))
    (x := (some 3, some 2)) (by decide +kernel)
  obtain ⟨h₀, h₁⟩ := Prod.ext_iff.mp hmarks
  have hcount₀ := h.entries_agree.1 0
  have hcount₁ := h.entries_agree.1 1
  rw [show t.procs[(0 : Fin 2)].mark = some 3 from h₀] at hcount₀
  rw [show t.procs[(1 : Fin 2)].mark = some 2 from h₁] at hcount₁
  exact ⟨_, t, h, h₀, hcount₀.1, h₁, hcount₁.1⟩

end Session

end AttentionScheduler
