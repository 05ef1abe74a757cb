import AttentionScheduler.Single.Arithmetic
import AttentionScheduler.Proofs.Rounding

/-!
Sums and products of numbers that are not negative keep their order, for each of them is an exact value
that is rounded once.
-/

namespace AttentionScheduler.Single

open Magnitude

variable {x y z w : Single}

def magnitude : Single → Magnitude
  | nan => .zero
  | num _ m => m

theorem le_trans (h : x ≤ y) (h' : y ≤ z) : x ≤ z := by
  cases x with
  | nan => exact absurd h (not_nan_le y)
  | num s m =>
    cases y with
    | nan => exact absurd h' (not_nan_le z)
    | num t k =>
      cases z with
      | nan => exact absurd h' (not_le_nan _)
      | num u l =>
        rw [num_le_num] at *
        exact Int.le_trans h h'

theorem lt_of_lt_of_le (h : x < y) (h' : y ≤ z) : x < z := by
  cases x with
  | nan => cases h
  | num s m =>
    cases y with
    | nan => exact absurd h' (not_nan_le z)
    | num t k =>
      cases z with
      | nan => exact absurd h' (not_le_nan _)
      | num u l =>
        rw [num_lt_num] at *
        rw [num_le_num] at h'
        exact Int.lt_of_lt_of_le h h'

theorem lt_of_le_of_lt (h : x ≤ y) (h' : y < z) : x < z := by
  cases x with
  | nan => exact absurd h (not_nan_le y)
  | num s m =>
    cases y with
    | nan => cases h'
    | num t k =>
      cases z with
      | nan => cases h'
      | num u l =>
        rw [num_lt_num] at *
        rw [num_le_num] at h
        exact Int.lt_of_le_of_lt h h'

theorem not_num_lt {s t : Bool} {m k : Magnitude} :
    ¬ num s m < num t k ↔ num t k ≤ num s m := by
  rw [num_lt_num, num_le_num, Int.not_lt]

theorem not_le_of_lt (h : x < y) : ¬ y ≤ x := by
  intro hle
  cases x with
  | nan => cases h
  | num s m =>
    cases y with
    | nan => exact not_nan_le _ hle
    | num t k => exact not_num_lt.mpr hle h

theorem nonneg_num {s : Bool} {m : Magnitude} : zero ≤ num s m ↔ (s = true → m = .zero) := by
  rw [zero, num_le_num, Fin.ext_iff]
  change (0 : Int) ≤ rank s m ↔ (s = true → m.val = 0)
  cases s with
  | false => exact iff_of_true (Int.natCast_nonneg _) nofun
  | true =>
    simp only [rank, ↓reduceIte, forall_const]
    omega

theorem exists_of_nonneg (hx : zero ≤ x) :
    ∃ s, x = num s x.magnitude ∧ (s = true → x.magnitude = .zero) := by
  cases x with
  | nan => exact absurd hx (not_le_nan _)
  | num s m => exact ⟨s, rfl, nonneg_num.mp hx⟩

theorem rank_of_nonneg {s : Bool} {m : Magnitude} (h : s = true → m = .zero) :
    rank s m = m.val := by
  cases s with
  | false => rfl
  | true =>
    rw [h rfl]
    rfl

theorem le_iff_magnitude (hx : zero ≤ x) (hy : zero ≤ y) : x ≤ y ↔ x.magnitude ≤ y.magnitude := by
  obtain ⟨s, hs, hsm⟩ := exists_of_nonneg hx
  obtain ⟨t, ht, htk⟩ := exists_of_nonneg hy
  generalize x.magnitude = m at hs hsm ⊢
  generalize y.magnitude = k at ht htk ⊢
  rw [hs, ht, num_le_num, rank_of_nonneg hsm, rank_of_nonneg htk, Int.ofNat_le, Fin.le_def]

theorem signedUnits_of_nonneg {s : Bool} {m : Magnitude} (h : s = true → m = .zero) :
    signedUnits s m = m.units := by
  cases s with
  | false => rfl
  | true =>
    rw [h rfl]
    rfl

theorem plain_of_infinity {s : Bool} {m : Magnitude} (h : s = true → m = .zero)
    (hm : m = Magnitude.infinity) : s = false := by
  cases s with
  | false => rfl
  | true => exact absurd (hm.symm.trans (h rfl)) (by decide)

theorem infinity_add {t : Bool} {k : Magnitude} (h : t = true → k = .zero) :
    num false Magnitude.infinity + num t k = num false Magnitude.infinity := by
  change Single.add _ _ = _
  by_cases hk : k = Magnitude.infinity
  · cases plain_of_infinity h hk
    rw [hk]
    rfl
  · simp only [Single.add, isInfinite, hk, decide_true, decide_false, Bool.and_false,
      Bool.false_eq_true, ↓reduceIte]

theorem add_infinity {s : Bool} {m : Magnitude} (hm : m ≠ Magnitude.infinity) :
    num s m + num false Magnitude.infinity = num false Magnitude.infinity := by
  change Single.add _ _ = _
  simp only [Single.add, isInfinite, hm, decide_true, decide_false, Bool.false_and,
    Bool.false_eq_true, ↓reduceIte]

theorem add_finite {s t : Bool} {m k : Magnitude} (hsm : s = true → m = .zero)
    (htk : t = true → k = .zero) (hm : m ≠ Magnitude.infinity) (hk : k ≠ Magnitude.infinity) :
    zero ≤ num s m + num t k ∧ (num s m + num t k).magnitude = nearest (m.units + k.units) 1 := by
  have hadd : (m.units : Int) + k.units = (m.units + k.units : Nat) := rfl
  have hpositive : ¬ ((m.units + k.units : Nat) : Int) < 0 := Int.not_lt.mpr (Int.natCast_nonneg _)
  change zero ≤ Single.add _ _ ∧ (Single.add _ _).magnitude = _
  simp only [Single.add, isInfinite, hm, hk, decide_false, Bool.false_and, Bool.false_eq_true,
    ↓reduceIte, signedUnits_of_nonneg hsm, signedUnits_of_nonneg htk, hadd, hpositive,
    Int.natAbs_natCast]
  split
  · next hzero =>
    rw [Int.natCast_eq_zero.mp hzero, nearest_zero Nat.one_pos]
    exact ⟨nonneg_num.mpr fun _ => rfl, rfl⟩
  · exact ⟨nonneg_num.mpr nofun, rfl⟩

/-- A sum that is not negative has the magnitude of the exact sum, rounded; so has an infinite one. -/
theorem add_of_nonneg (hx : zero ≤ x) (hy : zero ≤ y) :
    zero ≤ x + y ∧ (x + y).magnitude = nearest (x.magnitude.units + y.magnitude.units) 1 := by
  obtain ⟨s, hs, hsm⟩ := exists_of_nonneg hx
  obtain ⟨t, ht, htk⟩ := exists_of_nonneg hy
  generalize x.magnitude = m at hs hsm ⊢
  generalize y.magnitude = k at ht htk ⊢
  subst hs ht
  by_cases hm : m = Magnitude.infinity
  · cases plain_of_infinity hsm hm
    rw [hm, infinity_add htk]
    exact ⟨by decide, (nearest_infinity_add k.units).symm⟩
  · by_cases hk : k = Magnitude.infinity
    · cases plain_of_infinity htk hk
      rw [hk, add_infinity hm, Nat.add_comm]
      exact ⟨by decide, (nearest_infinity_add m.units).symm⟩
    · exact add_finite hsm htk hm hk

theorem mul_of_nonneg (hx : zero ≤ x) (hy : zero ≤ y) (hm : x.magnitude ≠ Magnitude.infinity)
    (hk : y.magnitude ≠ Magnitude.infinity) :
    zero ≤ x * y ∧
      (x * y).magnitude = nearest (x.magnitude.units * y.magnitude.units) (1 <<< 149) := by
  obtain ⟨s, hs, hsm⟩ := exists_of_nonneg hx
  obtain ⟨t, ht, htk⟩ := exists_of_nonneg hy
  generalize x.magnitude = m at hs hsm hm ⊢
  generalize y.magnitude = k at ht htk hk ⊢
  subst hs ht
  change zero ≤ Single.mul _ _ ∧ (Single.mul _ _).magnitude = _
  simp only [Single.mul, isInfinite, hm, hk, decide_false, Bool.false_or, Bool.false_eq_true,
    ↓reduceIte]
  refine ⟨nonneg_num.mpr fun hsign => ?_, rfl⟩
  have hzero : m.units * k.units = 0 := by
    cases s with
    | true =>
      rw [hsm rfl]
      exact Nat.zero_mul _
    | false =>
      cases t with
      | true =>
        rw [htk rfl]
        exact Nat.mul_zero _
      | false => cases hsign
  rw [hzero, nearest_zero (by decide)]

theorem add_le_add (hx : zero ≤ x) (hz : zero ≤ z) (hxy : x ≤ y) (hzw : z ≤ w) : x + z ≤ y + w := by
  have hy := le_trans hx hxy
  have hw := le_trans hz hzw
  obtain ⟨hl, hlm⟩ := add_of_nonneg hx hz
  obtain ⟨hr, hrm⟩ := add_of_nonneg hy hw
  rw [le_iff_magnitude hl hr, hlm, hrm]
  have hm := units_le_units.mpr ((le_iff_magnitude hx hy).mp hxy)
  have hk := units_le_units.mpr ((le_iff_magnitude hz hw).mp hzw)
  exact nearest_mono Nat.one_pos Nat.one_pos (by omega)

theorem ne_infinity_of_le (hx : zero ≤ x) (hxy : x ≤ y) (hy : y.magnitude ≠ Magnitude.infinity) :
    x.magnitude ≠ Magnitude.infinity := by
  intro h
  have hle := (le_iff_magnitude hx (le_trans hx hxy)).mp hxy
  rw [h] at hle
  exact hy (Fin.le_antisymm (Fin.le_last _) hle)

theorem mul_le_mul_right (hx : zero ≤ x) (hw : zero ≤ w) (hxy : x ≤ y)
    (hm : y.magnitude ≠ Magnitude.infinity) (hk : w.magnitude ≠ Magnitude.infinity) :
    x * w ≤ y * w := by
  have hy := le_trans hx hxy
  obtain ⟨hl, hlm⟩ := mul_of_nonneg hx hw (ne_infinity_of_le hx hxy hm) hk
  obtain ⟨hr, hrm⟩ := mul_of_nonneg hy hw hm hk
  rw [le_iff_magnitude hl hr, hlm, hrm]
  have hunits := units_le_units.mpr ((le_iff_magnitude hx hy).mp hxy)
  apply nearest_mono (by decide) (by decide)
  exact Nat.mul_le_mul_right _ (Nat.mul_le_mul_right _ hunits)

theorem units_one : one.magnitude.units = 1 <<< 149 := by decide

theorem le_mul_of_one_le (hx : zero ≤ x) (hw : one ≤ w) (hm : x.magnitude ≠ Magnitude.infinity)
    (hk : w.magnitude ≠ Magnitude.infinity) : x ≤ x * w := by
  have hone : zero ≤ one := by decide
  have hw₀ := le_trans hone hw
  obtain ⟨hr, hrm⟩ := mul_of_nonneg hx hw₀ hm hk
  rw [le_iff_magnitude hx hr, hrm]
  have hunits := units_le_units.mpr ((le_iff_magnitude hone hw₀).mp hw)
  rw [units_one] at hunits
  calc
    x.magnitude = nearest x.magnitude.units 1 := (nearest_units _).symm
    _ ≤ _ := nearest_mono Nat.one_pos (by decide) (by
      rw [Nat.mul_one]
      exact Nat.mul_le_mul_left _ hunits)

theorem clampUnit_of_nonneg (hx : zero ≤ x) : x.clampUnit = if x ≤ one then x else one := by
  obtain ⟨s, hs, _⟩ := exists_of_nonneg hx
  generalize x.magnitude = m at hs
  subst hs
  have hlow : ¬ num s m < zero := not_num_lt.mpr hx
  have hhigh : one < num s m ↔ ¬ num s m ≤ one := iff_not_comm.mp not_num_lt.symm
  rw [clampUnit, if_neg nofun, if_neg hlow]
  by_cases hle : num s m ≤ one <;> simp only [hhigh, hle, not_true_eq_false, not_false_eq_true,
    ↓reduceIte]

theorem clampUnit_mono (hx : zero ≤ x) (hxy : x ≤ y) : x.clampUnit ≤ y.clampUnit := by
  rw [clampUnit_of_nonneg hx, clampUnit_of_nonneg (le_trans hx hxy)]
  by_cases hy : y ≤ one
  · rw [if_pos hy, if_pos (le_trans hxy hy)]
    exact hxy
  · rw [if_neg hy]
    split
    · assumption
    · decide

end AttentionScheduler.Single
