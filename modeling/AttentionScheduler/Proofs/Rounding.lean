import AttentionScheduler.Single.Rounding
import Mathlib.Data.Nat.Log
import Mathlib.Tactic.Ring

/-!
Rounding keeps the order of fractions, and a number that is already on the grid is rounded to itself. The
numbers between two powers of two share a grid, and each grid starts where the one before it ends.
-/

namespace AttentionScheduler

theorem roundDiv_le_iff {a b k : Nat} (hb : 0 < b) :
    roundDiv a b ≤ k ↔ 2 * a < (2 * k + 1) * b ∨ 2 * a = (2 * k + 1) * b ∧ k % 2 = 0 := by
  have hdiv : b * (a / b) + a % b = a := Nat.div_add_mod a b
  have hrest : a % b < b := Nat.mod_lt a hb
  unfold roundDiv
  generalize a / b = q at hdiv ⊢
  generalize a % b = r at hdiv hrest ⊢
  subst hdiv
  have hmid : (2 * k + 1) * b = 2 * (b * k) + b := by ring
  rw [hmid]
  rcases Nat.lt_trichotomy k q with hk | rfl | hk
  · have hstep := Nat.mul_le_mul_left b (Nat.succ_le_of_lt hk)
    rw [Nat.mul_succ] at hstep
    dsimp only
    split
    · omega
    · split <;> omega
  · dsimp only
    split
    · omega
    · split <;> omega
  · have hstep := Nat.mul_le_mul_left b (Nat.succ_le_of_lt hk)
    rw [Nat.mul_succ] at hstep
    dsimp only
    split
    · omega
    · split <;> omega

theorem roundDiv_mono {a b c d : Nat} (hb : 0 < b) (hd : 0 < d) (h : a * d ≤ c * b) :
    roundDiv a b ≤ roundDiv c d := by
  have hc := (roundDiv_le_iff hd).mp (Nat.le_refl (roundDiv c d))
  generalize roundDiv c d = k at hc ⊢
  rw [roundDiv_le_iff hb]
  -- Both halves are compared after the two denominators have been brought together.
  have hscaled : 2 * a * d ≤ 2 * c * b := by
    rw [Nat.mul_assoc, Nat.mul_assoc]
    exact Nat.mul_le_mul_left 2 h
  rcases hc with hc | ⟨hc, heven⟩
  · left
    apply Nat.lt_of_mul_lt_mul_right (a := d)
    calc
      2 * a * d ≤ 2 * c * b := hscaled
      _ < (2 * k + 1) * d * b := Nat.mul_lt_mul_of_pos_right hc hb
      _ = (2 * k + 1) * b * d := by ring
  · have hle : 2 * a ≤ (2 * k + 1) * b := by
      apply Nat.le_of_mul_le_mul_right _ hd
      calc
        2 * a * d ≤ 2 * c * b := hscaled
        _ = (2 * k + 1) * b * d := by rw [hc]; ring
    rcases Nat.lt_or_eq_of_le hle with hlt | heq
    · exact .inl hlt
    · exact .inr ⟨heq, heven⟩

theorem roundDiv_mul_self (k : Nat) {b : Nat} (hb : 0 < b) : roundDiv (k * b) b = k := by
  simp [roundDiv, hb]

namespace Magnitude

/-- The number of steps that the grid makes from zero up to `a / b`, rounded. -/
def steps (a b : Nat) : Nat := excess (a / b) * 0x800000 + roundDiv a (b <<< excess (a / b))

theorem val_nearest (a b : Nat) : (nearest a b).val = min (steps a b) 0x7f800000 := by
  change (if h : steps a b < 0x7f800001 then (⟨steps a b, h⟩ : Magnitude) else infinity).val = _
  split
  · change steps a b = _
    omega
  · change 0x7f800000 = _
    omega

theorem excess_mono {v w : Nat} (h : v ≤ w) : excess v ≤ excess w := by
  rw [excess, excess, Nat.log2_eq_log_two, Nat.log2_eq_log_two]
  exact Nat.sub_le_sub_right (Nat.log_mono_right h) 23

theorem lt_of_excess (v : Nat) : v < 0x1000000 * 2 ^ excess v := by
  have hv : v < 2 ^ (v.log2 + 1) := Nat.lt_log2_self
  apply Nat.lt_of_lt_of_le hv
  rw [show 0x1000000 = 2 ^ 24 from rfl, ← Nat.pow_add]
  apply Nat.pow_le_pow_right (by decide)
  rw [excess]
  omega

theorem le_of_excess {v : Nat} (h : 0 < excess v) : 0x800000 * 2 ^ excess v ≤ v := by
  have hlog : 23 < v.log2 := by
    rw [excess] at h
    omega
  have hv : v ≠ 0 := by
    rintro rfl
    simp at hlog
  rw [show 0x800000 = 2 ^ 23 from rfl, ← Nat.pow_add, excess, Nat.add_sub_cancel' (by omega)]
  exact Nat.log2_self_le hv

theorem shiftLeft_pos {b : Nat} (hb : 0 < b) (e : Nat) : 0 < b <<< e := by
  rw [Nat.shiftLeft_eq]
  exact Nat.mul_pos hb (Nat.two_pow_pos e)

theorem steps_le {a b : Nat} (hb : 0 < b) : steps a b ≤ (excess (a / b) + 2) * 0x800000 := by
  have hlt : a < 0x1000000 * 2 ^ excess (a / b) * b :=
    (Nat.div_lt_iff_lt_mul hb).mp (lt_of_excess (a / b))
  have hmul : 0x1000000 * 2 ^ excess (a / b) * b = 0x1000000 * (b <<< excess (a / b)) := by
    rw [Nat.shiftLeft_eq, Nat.mul_assoc, Nat.mul_comm b]
  have hpos := shiftLeft_pos hb (excess (a / b))
  have htop : roundDiv a (b <<< excess (a / b)) ≤ 0x1000000 := by
    rw [← roundDiv_mul_self 0x1000000 hpos]
    exact roundDiv_mono hpos hpos (Nat.mul_le_mul_right _ (Nat.le_of_lt (hmul ▸ hlt)))
  rw [steps]
  omega

theorem le_steps {a b : Nat} (hb : 0 < b) (he : 0 < excess (a / b)) :
    (excess (a / b) + 1) * 0x800000 ≤ steps a b := by
  have hle : 0x800000 * 2 ^ excess (a / b) * b ≤ a :=
    (Nat.le_div_iff_mul_le hb).mp (le_of_excess he)
  have hmul : 0x800000 * 2 ^ excess (a / b) * b = 0x800000 * (b <<< excess (a / b)) := by
    rw [Nat.shiftLeft_eq, Nat.mul_assoc, Nat.mul_comm b]
  have hpos := shiftLeft_pos hb (excess (a / b))
  have hbottom : 0x800000 ≤ roundDiv a (b <<< excess (a / b)) := by
    rw [← roundDiv_mul_self 0x800000 hpos]
    exact roundDiv_mono hpos hpos (Nat.mul_le_mul_right _ (hmul ▸ hle))
  rw [steps]
  omega

theorem steps_mono {a b c d : Nat} (hb : 0 < b) (hd : 0 < d) (h : a * d ≤ c * b) :
    steps a b ≤ steps c d := by
  have hquotient : a / b ≤ c / d := by
    rw [Nat.le_div_iff_mul_le hd]
    apply Nat.le_of_mul_le_mul_right _ hb
    calc
      a / b * d * b = a / b * b * d := by ring
      _ ≤ a * d := Nat.mul_le_mul_right d (Nat.div_mul_le_self a b)
      _ ≤ c * b := h
  rcases Nat.lt_or_eq_of_le (excess_mono hquotient) with hlt | heq
  · -- A fraction on a coarser grid lies past the end of the finer one.
    have htop := steps_le (a := a) hb
    have hbottom := le_steps (a := c) hd (Nat.zero_lt_of_lt hlt)
    omega
  · rw [steps, steps, heq]
    apply Nat.add_le_add_left
    apply roundDiv_mono (shiftLeft_pos hb _) (shiftLeft_pos hd _)
    rw [Nat.shiftLeft_eq, Nat.shiftLeft_eq, ← Nat.mul_assoc, ← Nat.mul_assoc]
    exact Nat.mul_le_mul_right _ h

theorem nearest_mono {a b c d : Nat} (hb : 0 < b) (hd : 0 < d) (h : a * d ≤ c * b) :
    nearest a b ≤ nearest c d := by
  rw [Fin.le_def, val_nearest, val_nearest]
  have := steps_mono hb hd h
  omega

theorem excess_of_lt {v : Nat} (h : v < 0x1000000) : excess v = 0 := by
  by_cases hv : v = 0
  · rw [hv]
    rfl
  · have hlog : v.log2 < 24 := (Nat.log2_lt hv).mpr h
    rw [excess]
    omega

theorem excess_mul_pow {f : Nat} (hf : 0x800000 ≤ f) (hf' : f < 0x1000000) (e : Nat) :
    excess (f * 2 ^ e) = e := by
  have hpos : 0 < f * 2 ^ e := Nat.mul_pos (by omega) (Nat.two_pow_pos e)
  have hlog : (f * 2 ^ e).log2 = 23 + e := by
    rw [Nat.log2_eq_iff (Nat.ne_of_gt hpos), Nat.add_right_comm, Nat.pow_add, Nat.pow_add]
    exact ⟨Nat.mul_le_mul_right _ hf, Nat.mul_lt_mul_of_pos_right hf' (Nat.two_pow_pos e)⟩
  rw [excess, hlog, Nat.add_sub_cancel_left]

theorem steps_units (m : Magnitude) : steps m.units 1 = m.val := by
  rw [steps, Nat.div_one, units]
  split
  · next hm =>
    have he : excess m.val = 0 := excess_of_lt (by omega)
    have hround := roundDiv_mul_self m.val Nat.one_pos
    rw [Nat.mul_one] at hround
    rw [he, Nat.zero_mul, Nat.zero_add]
    exact hround
  · next hm =>
    have hsplit := Nat.div_add_mod m.val 0x800000
    have hlow := Nat.mod_lt m.val (show 0 < 0x800000 by decide)
    rw [Nat.shiftLeft_eq, excess_mul_pow (by omega) (by omega), Nat.one_shiftLeft,
      roundDiv_mul_self _ (Nat.two_pow_pos _)]
    omega

theorem nearest_units (m : Magnitude) : nearest m.units 1 = m := by
  apply Fin.ext
  rw [val_nearest, steps_units]
  have := m.isLt
  omega

theorem nearest_zero {b : Nat} (hb : 0 < b) : nearest 0 b = .zero := by
  have h : nearest 0 b ≤ nearest (Magnitude.zero).units 1 :=
    nearest_mono hb Nat.one_pos (by rw [Nat.zero_mul]; exact Nat.zero_le _)
  rw [nearest_units] at h
  exact Fin.ext (Nat.le_zero.mp h)

theorem nearest_infinity_add (k : Nat) : nearest (infinity.units + k) 1 = infinity := by
  have h : nearest infinity.units 1 ≤ nearest (infinity.units + k) 1 :=
    nearest_mono Nat.one_pos Nat.one_pos (by omega)
  rw [nearest_units] at h
  have hlast := (nearest (infinity.units + k) 1).isLt
  rw [Fin.le_def] at h
  exact Fin.ext (Nat.le_antisymm (Nat.le_of_lt_succ hlast) h)

theorem units_le_units {m k : Magnitude} : m.units ≤ k.units ↔ m ≤ k := by
  have order {m k : Magnitude} (h : m.units ≤ k.units) : m ≤ k := by
    rw [← nearest_units m, ← nearest_units k]
    exact nearest_mono Nat.one_pos Nat.one_pos (by omega)
  refine ⟨order, fun h => ?_⟩
  rcases Nat.le_total m.units k.units with hle | hle
  · exact hle
  · exact Nat.le_of_eq (congrArg units (Fin.le_antisymm h (order hle)))

end Magnitude

end AttentionScheduler
