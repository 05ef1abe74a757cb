import AttentionScheduler.Proofs.Arithmetic

/-!
A natural number becomes a single by one rounding, and a quotient of two of them by a second one. Both
keep the order, and neither takes a number that is not zero to zero.
-/

namespace AttentionScheduler

namespace Magnitude

variable {a b c d k l : Nat}

/-- A fraction has the same nearest number however it is written. -/
theorem nearest_congr (hb : 0 < b) (hd : 0 < d) (h : a * d = c * b) : nearest a b = nearest c d :=
  Fin.le_antisymm (nearest_mono hb hd (Nat.le_of_eq h)) (nearest_mono hd hb (Nat.le_of_eq h.symm))

def ofNat (k : Nat) : Magnitude := nearest (k <<< 149) 1

theorem ofNat_mono (h : k ≤ l) : ofNat k ≤ ofNat l := by
  apply nearest_mono Nat.one_pos Nat.one_pos
  rw [Nat.mul_one, Nat.mul_one, Nat.shiftLeft_eq, Nat.shiftLeft_eq]
  exact Nat.mul_le_mul_right _ h

theorem ofNat_one : ofNat 1 = Single.one.magnitude := by decide

theorem one_le_units_ofNat (hk : 0 < k) : 1 <<< 149 ≤ (ofNat k).units := by
  have h := units_le_units.mpr (ofNat_mono hk)
  rwa [ofNat_one, Single.units_one] at h

theorem units_ofNat_pos (hk : 0 < k) : 0 < (ofNat k).units :=
  Nat.lt_of_lt_of_le (by decide) (one_le_units_ofNat hk)

theorem ofNat_le_limit (hk : k < UInt64.size) : ofNat k ≤ ofNat UInt64.size :=
  ofNat_mono (Nat.le_of_lt hk)

theorem ofNat_ne_infinity (hk : k < UInt64.size) : ofNat k ≠ infinity := by
  have hlimit : ofNat UInt64.size < infinity := by decide
  exact Fin.ne_of_lt (Nat.lt_of_le_of_lt (ofNat_le_limit hk) hlimit)

theorem ofNat_ne_zero (hk : 0 < k) : ofNat k ≠ zero := by
  intro h
  have hpos := units_ofNat_pos hk
  rw [h] at hpos
  exact Nat.lt_irrefl 0 hpos

/-- The quotient of two natural numbers, each of them rounded before. -/
def ratio (k l : Nat) : Magnitude := nearest ((ofNat k).units <<< 149) (ofNat l).units

theorem ratio_mono {k' l' : Nat} (hl : 0 < l) (hl' : 0 < l') (hk : k ≤ k') (hll : l' ≤ l) :
    ratio k l ≤ ratio k' l' := by
  have hnumerator := units_le_units.mpr (ofNat_mono hk)
  have hdenominator := units_le_units.mpr (ofNat_mono hll)
  apply nearest_mono (units_ofNat_pos hl) (units_ofNat_pos hl')
  rw [Nat.shiftLeft_eq, Nat.shiftLeft_eq]
  exact Nat.mul_le_mul (Nat.mul_le_mul_right _ hnumerator) hdenominator

theorem ratio_self (hl : 0 < l) : ratio l l = Single.one.magnitude := by
  rw [ratio, ← nearest_units Single.one.magnitude, Single.units_one]
  apply nearest_congr (units_ofNat_pos hl) Nat.one_pos
  rw [Nat.shiftLeft_eq, Nat.one_shiftLeft]
  ring

/-- The least quotient of two words is far above the least positive number. -/
theorem ratio_ne_zero (hk : 0 < k) (hl : 0 < l) (hlimit : l < UInt64.size) : ratio k l ≠ zero := by
  have hleast : nearest 1 1 ≤ ratio k l := by
    apply nearest_mono Nat.one_pos (units_ofNat_pos hl)
    rw [Nat.one_mul, Nat.mul_one, Nat.shiftLeft_eq]
    calc
      (ofNat l).units ≤ (ofNat UInt64.size).units := units_le_units.mpr (ofNat_le_limit hlimit)
      _ ≤ 1 <<< 149 * 2 ^ 149 := by decide
      _ ≤ (ofNat k).units * 2 ^ 149 := Nat.mul_le_mul_right _ (one_le_units_ofNat hk)
  intro h
  rw [h] at hleast
  exact absurd hleast (by decide)

end Magnitude

namespace Single

open Magnitude

variable {k l : Nat} {m m' : Magnitude}

theorem positive_le : num false m ≤ num false m' ↔ m ≤ m' := by
  rw [num_le_num, Fin.le_def]
  exact Int.ofNat_le

theorem positive_lt : num false m < num false m' ↔ m < m' := by
  rw [num_lt_num, Fin.lt_def]
  exact Int.ofNat_lt

theorem div_positive (hm : m ≠ Magnitude.infinity) (hm' : m' ≠ Magnitude.infinity)
    (hzero : m' ≠ .zero) : num false m / num false m' = num false (nearest (m.units <<< 149) m'.units) := by
  change Single.div _ _ = _
  simp only [Single.div, isInfinite, hm, hm', hzero, decide_false, Bool.false_eq_true, ↓reduceIte,
    bne_self_eq_false]

theorem ofNat_div_ofNat (hk : k < UInt64.size) (hl : 0 < l) (hlimit : l < UInt64.size) :
    Single.ofNat k / Single.ofNat l = num false (ratio k l) :=
  div_positive (ofNat_ne_infinity hk) (ofNat_ne_infinity hlimit) (ofNat_ne_zero hl)

end Single

end AttentionScheduler
