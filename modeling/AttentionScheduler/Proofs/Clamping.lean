import AttentionScheduler.Proofs.Records

/-!
The signals and the score of a process lie in the unit interval, whatever has been written to it: a
clamped number is in there and stays as it is when it is clamped once more.
-/

namespace AttentionScheduler

open Relation (ReflTransGen)

variable {n : Nat}

namespace Single

/-- The unit interval as bits: the patterns up to that of one, and negative zero. -/
def InUnit (x : Single) : Prop := x.toBits ≤ 0x3f800000 ∨ x.toBits = 0x80000000

instance (x : Single) : Decidable x.InUnit := inferInstanceAs (Decidable (_ ∨ _))

theorem inUnit_iff {x : Single} :
    x.InUnit ↔ (∃ m : Magnitude, m.val ≤ 0x3f800000 ∧ x = num false m) ∨ x = negZero := by
  constructor
  · intro h
    cases x with
    | nan => exact absurd h (by unfold InUnit; decide)
    | num s m =>
      have hm := m.isLt
      have hbits := toNat_toBits s m
      rw [InUnit, UInt32.le_iff_toNat_le, ← UInt32.toNat_inj, hbits] at h
      change _ ≤ 0x3f800000 ∨ _ = 0x80000000 at h
      cases s with
      | false =>
        refine .inl ⟨m, ?_, rfl⟩
        simp only [Bool.false_eq_true, ↓reduceIte] at h
        omega
      | true =>
        have hzero : m = .zero := by
          apply Fin.ext
          change m.val = 0
          simp only [↓reduceIte] at h
          omega
        exact .inr (by rw [hzero, negZero])
  · rintro (⟨m, hm, rfl⟩ | rfl)
    · left
      rw [UInt32.le_iff_toNat_le, toNat_toBits]
      change 0 + m.val ≤ 0x3f800000
      omega
    · exact .inr rfl

theorem clampUnit_positive (m : Magnitude) :
    (num false m).clampUnit = if m.val ≤ 0x3f800000 then num false m else one := by
  have hzero : ¬ num false m < zero := by
    rw [zero, num_lt_num, Int.not_lt]
    exact Int.natCast_nonneg _
  have hone : one < num false m ↔ ¬ m.val ≤ 0x3f800000 := by
    rw [one, num_lt_num, Nat.not_le]
    exact Int.ofNat_lt
  by_cases hm : m.val ≤ 0x3f800000 <;> simp only [clampUnit, hzero, hone, hm, reduceCtorEq,
    ↓reduceIte, not_true_eq_false, not_false_eq_true]

theorem clampUnit_negative (m : Magnitude) :
    (num true m).clampUnit = if m = .zero then negZero else zero := by
  have hzero : num true m < zero ↔ m ≠ .zero := by
    rw [zero, num_lt_num, ne_eq, Fin.ext_iff]
    change -(m.val : Int) < (0 : Nat) ↔ ¬ m.val = 0
    omega
  by_cases hm : m = .zero
  · rw [if_pos hm, hm]
    exact clampUnit_negZero
  · simp only [clampUnit, hzero, hm, reduceCtorEq, ↓reduceIte, ne_eq, not_false_eq_true]

theorem inUnit_clampUnit (x : Single) : x.clampUnit.InUnit := by
  have hzero : zero.InUnit := .inl (by decide)
  cases x with
  | nan => exact hzero
  | num s m =>
    cases s with
    | false =>
      rw [clampUnit_positive]
      split
      · next hm => exact inUnit_iff.mpr (.inl ⟨m, hm, rfl⟩)
      · exact .inl (by decide)
    | true =>
      rw [clampUnit_negative]
      split
      · exact .inr rfl
      · exact hzero

theorem clampUnit_of_inUnit {x : Single} (h : x.InUnit) : x.clampUnit = x := by
  rcases inUnit_iff.mp h with ⟨m, hm, rfl⟩ | rfl
  · rw [clampUnit_positive, if_pos hm]
  · exact clampUnit_negZero

end Single

namespace FeatureVector

structure Clamped (v : FeatureVector) : Prop where
  signals : ∀ i : Fin 8, v.signals[i].InUnit
  attention : v.attention.InUnit

theorem clamped_default : ({} : FeatureVector).Clamped := by
  have hzero : Single.zero.InUnit := .inl (by decide)
  refine ⟨fun i => ?_, hzero⟩
  rw [Fin.getElem_fin, Vector.getElem_replicate]
  exact hzero

theorem Clamped.set {v : FeatureVector} (hv : v.Clamped) (i : Nat) (x : Single) :
    (v.set i x).Clamped := by
  unfold FeatureVector.set
  split
  · refine ⟨fun j => ?_, hv.attention⟩
    rw [Fin.getElem_fin, Vector.getElem_set]
    split
    · exact x.inUnit_clampUnit
    · exact hv.signals j
  · exact hv

end FeatureVector

namespace Record

theorem Write.clamped {r r' : Record} {scores retires : Prop} (h : Write scores retires r r')
    (hr : r.vector.Clamped) : r'.vector.Clamped := by
  cases h with
  | aside vector tracked => exact vector ▸ hr
  | untrack allowed => exact hr
  | stamp t => exact ⟨hr.signals, hr.attention⟩
  | set i x => exact hr.set i x
  | rescore allowed => exact ⟨hr.signals, Single.inUnit_clampUnit _⟩

theorem clamped_of_writes {r r' : Record} {scores retires : Prop}
    (h : ReflTransGen (Write scores retires) r r') (hr : r.vector.Clamped) :
    r'.vector.Clamped := by
  induction h with
  | refl => exact hr
  | tail _ write ih => exact write.clamped ih

end Record

theorem Score.attention_inUnit (s : Signals) : (Score.attention s).InUnit :=
  Single.inUnit_clampUnit _

namespace FeatureVector

theorem setAttention_score (v : FeatureVector) (s : Signals) :
    (v.setAttention (Score.attention s)).attention = Score.attention s :=
  Single.clampUnit_of_inUnit (Score.attention_inUnit s)

end FeatureVector

namespace Session

variable {s t : Session n} {es : List (Event n)} {os : List Opening} {queues : List (Nat × Single)}
  {ps : Vector (UInt64 × Bool) n}

theorem Leads.clamped (h : s.Leads es t) (hs : ∀ p : Fin n, s.procs[p].vector.Clamped) (p : Fin n) :
    t.procs[p].vector.Clamped := by
  induction h with
  | refl => exact hs p
  | call hc _ ih => exact ih fun q => Record.clamped_of_writes (call_writes hc q) (hs q)
  | seize _ hseize _ ih =>
    apply ih
    rw [procs_seize hseize]
    exact hs
  | release place _ ih =>
    apply ih
    rw [procs_release]
    exact hs

theorem vector_freshRoster (ps : Vector (UInt64 × Bool) n) (p : Fin n) :
    (freshRoster ps)[p].vector = {} :=
  congrArg Record.vector (Vector.getElem_map _ p.isLt)

/-- Every signal and every score of a session lies in the unit interval. So does the score of any
eight numbers, whose bits are not changed by storing it. -/
theorem Leads.stays_clamped (h : (fresh os queues (freshRoster ps)).Leads es t) :
    (∀ p : Fin n, t.procs[p].vector.Clamped) ∧
    ∀ (bits : Vector UInt32 8) (v : FeatureVector),
      (Score.attention (bits.map .ofBits)).InUnit ∧
      (v.setAttention (Score.attention (bits.map .ofBits))).attention.toBits =
        (Score.attention (bits.map .ofBits)).toBits := by
  constructor
  · intro p
    refine h.clamped (fun q => ?_) p
    have hfresh : (fresh os queues (freshRoster ps)).procs[q].vector = {} := vector_freshRoster ps q
    rw [hfresh]
    exact FeatureVector.clamped_default
  · intro bits v
    exact ⟨Score.attention_inUnit _, by rw [FeatureVector.setAttention_score]⟩

theorem stays_clamped_of_odd_patterns : ∃ es, ∃ t : Session 1,
    (fresh [{ hz := 1000 }] [] (freshRoster (.ofFn fun p => (.ofNat p, true)))).Leads es t ∧
    t.procs[(0 : Fin 1)].vector.signals.toList.map Single.toBits =
      [0x3f800000, 0x3f000000, 0, 0x3f800000, 0x3f800000, 0x80000000, 0x3eb33333, 1] ∧
    t.procs[(0 : Fin 1)].vector.Clamped := by
  let s : Session 1 := fresh [{ hz := 1000 }] [] (freshRoster (.ofFn fun p => (.ofNat p, true)))
  let patterns : List (Nat × UInt32) :=
    [(2, 0x7fc00001), (4, 0x7f800000), (5, 0x80000000), (7, 0x00000001)]
  let steps : List (Step 1) :=
    [.call (.record 0 (.setCpu 0xffffffff)), .call (.record 0 (.setPriority 7)),
      .call (.clock 0 (.set 5)), .call (.host 0 (.refresh 0))] ++
    (patterns.map fun (i, bits) => .call (.host 0 (.setFeature 0 i (.ofBits bits)))) ++
    [.call (.host 0 (.ready 0))]
  obtain ⟨t, h, hbits⟩ := exists_leads s steps
    (fun t => t.procs[(0 : Fin 1)].vector.signals.toList.map Single.toBits)
    (x := [0x3f800000, 0x3f000000, 0, 0x3f800000, 0x3f800000, 0x80000000, 0x3eb33333, 1])
    (by decide +kernel)
  exact ⟨_, t, h, hbits, h.stays_clamped.1 0⟩

end Session

end AttentionScheduler
