import AttentionScheduler.Proofs.SessionEvolution
import AttentionScheduler.Proofs.Thresholds

/-!
Up to `2 ^ 24` levels no two thresholds fall together: their distance is at least one step of the grid that
the upper one is rounded to, also where that grid starts and the lower one is rounded to a finer one. So
every bucket is reached, by a score that is its own threshold.
-/

namespace AttentionScheduler

open Magnitude Session

section Grid

variable {b g k l : Nat}

theorem roundDiv_lt_succ (hb : 0 < b) (hg : b ≤ g) :
    roundDiv (k * g) b < roundDiv ((k + 1) * g) b := by
  rcases Nat.lt_or_eq_of_le hg with hlt | rfl
  · by_contra hnot
    have hlower := Nat.le_refl (roundDiv (k * g) b)
    have hupper := Nat.le_of_not_lt hnot
    generalize hn : roundDiv (k * g) b = n at hlower hupper
    rw [roundDiv_le_iff hb] at hupper
    have hsucc : 2 * ((k + 1) * g) = 2 * (k * g) + 2 * g := by ring
    have hmid : (2 * n + 1) * b = 2 * (n * b) + b := by ring
    cases n with
    | zero => omega
    | succ n =>
      -- One step less would do for the lower one.
      have hless : roundDiv (k * g) b ≤ n := by
        rw [roundDiv_le_iff hb]
        have hmid' : (2 * n + 1) * b = 2 * (n * b) + b := by ring
        have hstep : (n + 1) * b = n * b + b := by ring
        omega
      omega
  · rw [roundDiv_mul_self k hb, roundDiv_mul_self (k + 1) hb]
    exact Nat.lt_succ_self k

namespace Magnitude

/-- The upper number is on a coarser grid than the lower one, which does not reach its start. -/
theorem steps_lt_of_excess_lt (hb : 0 < b) (hg : b <<< excess ((k + 1) * g / b) ≤ g)
    (hlt : excess (k * g / b) < excess ((k + 1) * g / b)) : steps (k * g) b < steps ((k + 1) * g) b := by
  have hlower := steps_le (a := k * g) hb
  have hupper := le_steps (a := (k + 1) * g) hb (Nat.zero_lt_of_lt hlt)
  have hsucc : (k + 1) * g = k * g + g := Nat.succ_mul k g
  obtain ⟨e, he⟩ : ∃ e, excess ((k + 1) * g / b) = e + 1 :=
    ⟨excess ((k + 1) * g / b) - 1, by omega⟩
  have hunit : b <<< (e + 1) = 2 * (b * 2 ^ e) := by
    rw [Nat.shiftLeft_eq, Nat.pow_succ]
    ring
  rw [he] at hg hlt hupper
  rcases Nat.lt_or_ge (0xffffff * (b * 2 ^ e)) (k * g) with habove | hbelow
  · have hround : 0x800000 < roundDiv ((k + 1) * g) (b <<< (e + 1)) := by
      rw [← Nat.not_le, roundDiv_le_iff (shiftLeft_pos hb (e + 1))]
      omega
    have hcoarse : steps ((k + 1) * g) b =
        (e + 1) * 0x800000 + roundDiv ((k + 1) * g) (b <<< (e + 1)) := by
      rw [steps, he]
    omega
  · -- The last number before that start lies between them.
    have hlast : steps (0xffffff * 2 ^ e) 1 = e * 0x800000 + 0xffffff := by
      rw [steps, Nat.div_one, excess_mul_pow (by decide) (by decide), Nat.one_shiftLeft,
        roundDiv_mul_self _ (Nat.two_pow_pos e)]
    have hle : steps (k * g) b ≤ steps (0xffffff * 2 ^ e) 1 := by
      apply steps_mono hb Nat.one_pos
      rw [Nat.mul_one, Nat.mul_assoc, Nat.mul_comm _ b]
      exact hbelow
    omega

theorem steps_lt_succ (hb : 0 < b) (hg : b <<< excess ((k + 1) * g / b) ≤ g) :
    steps (k * g) b < steps ((k + 1) * g) b := by
  have hle : excess (k * g / b) ≤ excess ((k + 1) * g / b) :=
    excess_mono (Nat.div_le_div_right (Nat.mul_le_mul_right g (Nat.le_succ k)))
  rcases Nat.lt_or_eq_of_le hle with hlt | heq
  · exact steps_lt_of_excess_lt hb hg hlt
  · rw [steps, steps, heq]
    exact Nat.add_lt_add_left (roundDiv_lt_succ (shiftLeft_pos hb _) hg) _

theorem nearest_lt_of_steps_lt {a c d : Nat} (h : steps a b < steps c d)
    (hfinite : nearest c d < infinity) : nearest a b < nearest c d := by
  rw [Fin.lt_def, val_nearest] at hfinite
  rw [Fin.lt_def, val_nearest, val_nearest]
  change _ < 0x7f800000 at hfinite
  omega

/-- A number whose low bits are zero is on the grid. -/
theorem units_nearest {v : Nat} (hdvd : 2 ^ excess v ∣ v) (hlimit : excess v < 254) :
    (nearest v 1).units = v := by
  obtain ⟨f, hf⟩ := hdvd
  generalize he : excess v = e at hf hlimit
  subst hf
  have hhigh := lt_of_excess (2 ^ e * f)
  rw [he, Nat.mul_comm] at hhigh
  have hf := Nat.lt_of_mul_lt_mul_right hhigh
  have hval : (nearest (2 ^ e * f) 1).val = e * 0x800000 + f := by
    rw [val_nearest, steps, Nat.div_one, he, Nat.one_shiftLeft, Nat.mul_comm (2 ^ e),
      roundDiv_mul_self _ (Nat.two_pow_pos e)]
    omega
  rw [units, hval]
  cases e with
  | zero =>
    split
    · omega
    · next hlow =>
      rw [show (0 * 0x800000 + f) / 0x800000 - 1 = 0 by omega]
      omega
  | succ e =>
    have hlow := le_of_excess (Nat.lt_of_lt_of_eq (Nat.succ_pos e) he.symm)
    rw [he, Nat.mul_comm] at hlow
    have hf' := Nat.le_of_mul_le_mul_left hlow (Nat.two_pow_pos (e + 1))
    rw [if_neg (by omega), show ((e + 1) * 0x800000 + f) / 0x800000 - 1 = e + 1 by omega,
      show 0x800000 + ((e + 1) * 0x800000 + f) % 0x800000 = f by omega, Nat.shiftLeft_eq,
      Nat.mul_comm]

theorem units_ofNat (hk : k ≤ 0x1000000) : (ofNat k).units = k <<< 149 := by
  rcases Nat.lt_or_eq_of_le hk with hlt | rfl
  · have he : excess (k <<< 149) ≤ 149 := by
      calc
        excess (k <<< 149) ≤ excess (0xffffff * 2 ^ 149) := excess_mono (by
          rw [Nat.shiftLeft_eq]
          exact Nat.mul_le_mul_right _ (by omega))
        _ = 149 := excess_mul_pow (by decide) (by decide) 149
    apply units_nearest _ (by omega)
    rw [Nat.shiftLeft_eq]
    exact Dvd.dvd.mul_left (Nat.pow_dvd_pow 2 (by rwa [← Nat.shiftLeft_eq])) k
  · decide

theorem ratio_eq (hk : k ≤ 0x1000000) (hpos : 0 < l) (hl : l ≤ 0x1000000) :
    ratio k l = nearest (k * 2 ^ 149) l := by
  rw [ratio, units_ofNat hk, units_ofNat hl]
  apply nearest_congr (shiftLeft_pos hpos 149) hpos
  simp only [Nat.shiftLeft_eq]
  ring

theorem ratio_lt_one (hk : k < l) (hl : l ≤ 0x1000000) : ratio k l < Single.one.magnitude := by
  rw [ratio_eq (by omega) (by omega) hl]
  calc
    nearest (k * 2 ^ 149) l ≤ nearest (0xffffff * 2 ^ 125) 1 := by
      apply nearest_mono (by omega) Nat.one_pos
      omega
    _ < Single.one.magnitude := by decide

theorem ratio_lt_succ (hk : k < l) (hl : l ≤ 0x1000000) : ratio k l < ratio (k + 1) l := by
  rcases Nat.lt_or_eq_of_le (Nat.succ_le_of_lt hk) with hlt | rfl
  · have hone := ratio_lt_one hlt hl
    rw [ratio_eq (by omega) (by omega) hl] at hone ⊢
    rw [ratio_eq (by omega) (by omega) hl]
    have hexcess : excess ((k + 1) * 2 ^ 149 / l) ≤ 125 := by
      calc
        excess ((k + 1) * 2 ^ 149 / l) ≤ excess (0xffffff * 2 ^ 125) := by
          apply excess_mono
          apply Nat.div_le_of_le_mul
          omega
        _ = 125 := excess_mul_pow (by decide) (by decide) 125
    have hunit : l <<< excess ((k + 1) * 2 ^ 149 / l) ≤ 2 ^ 149 := by
      rw [Nat.shiftLeft_eq]
      calc
        l * 2 ^ excess ((k + 1) * 2 ^ 149 / l) ≤ 0x1000000 * 2 ^ 125 :=
          Nat.mul_le_mul hl (Nat.pow_le_pow_right Nat.two_pos hexcess)
        _ = 2 ^ 149 := by decide
    apply nearest_lt_of_steps_lt _ (Fin.lt_trans hone (by decide))
    exact steps_lt_succ (by omega) hunit
  · rw [ratio_self (by omega)]
    exact ratio_lt_one (Nat.lt_succ_self k) hl

end Magnitude

end Grid

section Threshold

variable {levels l l' : Nat}

theorem threshold_strictAnti (hlevels : levels ≤ 0x1000000) (h : l < l') (hl : l' < levels) :
    threshold l' levels < threshold l levels := by
  have hsize : levels < UInt64.size := Nat.lt_of_le_of_lt hlevels (by decide)
  rw [threshold_eq_ratio (by omega) hsize, threshold_eq_ratio (by omega) hsize, Single.positive_lt]
  apply Fin.lt_of_lt_of_le (ratio_lt_succ (by omega) hlevels)
  exact ratio_mono (by omega) (by omega) (by omega) (Nat.le_refl levels)

end Threshold

namespace Level

variable {levels l : Nat}

theorem ofScore_threshold (hlevels : levels ≤ 0x1000000) (hl : l < levels) :
    ofScore levels (threshold l levels) = .ok l := by
  have hpos : 0 < levels := Nat.zero_lt_of_lt hl
  have hsize : levels < UInt64.size := Nat.lt_of_le_of_lt hlevels (by decide)
  obtain ⟨first, -, hscore, hmet⟩ := exists_first hpos hsize (threshold l levels)
  have hown : first ≤ l := (hmet l hl).mp (threshold_antitone hpos hsize (Nat.le_refl l))
  have hbefore : l ≤ first := by
    apply Nat.le_of_not_lt
    intro hlt
    have hlower := (hmet first (Nat.lt_trans hlt hl)).mpr (Nat.le_refl first)
    exact Single.not_le_of_lt (threshold_strictAnti hlevels hlt hl) hlower
  rw [hscore, Nat.min_eq_right (by omega), Nat.le_antisymm hown hbefore]

/-- Up to `2 ^ 24` levels the thresholds fall strictly, and each level is that of its own threshold. So a
score that equals the threshold kept by a bucket belongs to that bucket. -/
theorem reaches_every_level (hlevels : levels ≤ 0x1000000) :
    (∀ l, l + 1 < levels → threshold (l + 1) levels < threshold l levels) ∧
    (∀ l < levels, ofScore levels (threshold l levels) = .ok l) ∧
    ∀ {n : Nat} {os queues} {procs : Roster n} {es s a x}, (fresh os queues procs).Leads es s →
      s.allocator? a = some x → x.config.levels = levels →
      ∀ level b, x.buckets[level]? = some b → ofScore levels b.threshold = .ok level := by
  refine ⟨fun l => threshold_strictAnti hlevels (Nat.lt_succ_self l), fun l => ofScore_threshold hlevels,
    ?_⟩
  intro n os queues procs es s a x h hx hconfig level b hb
  obtain ⟨y, hy, hevolves⟩ := h.evolves a x hx
  cases hcore : x.core? with
  | none =>
    rw [Allocator.buckets_of_not_started hcore] at hb
    cases hb
  | some core =>
    have hshaped := (hevolves.shaped (fresh_sturdy hy).1).core core hcore
    obtain ⟨hlt, -, hthreshold⟩ := hshaped.label (Allocator.buckets_of_core? hcore ▸ hb)
    rw [hthreshold, hconfig]
    exact ofScore_threshold hlevels (hconfig ▸ hlt)

/-- With `2 ^ 24` levels the first two thresholds are one step of the grid apart. -/
theorem reaches_the_finest_levels :
    threshold 1 0x1000000 < threshold 0 0x1000000 ∧ threshold 1 0x1000000 = .ofBits 0x3f7fffff ∧
    ofScore 0x1000000 (threshold 0xffffff 0x1000000) = .ok 0xffffff ∧
    ∃ es, ∃ s : Session 1, ∃ x b,
      (fresh [{ hz := 1000 }] [] (freshRoster (.ofFn fun p => (.ofNat p, true)))).Leads es s ∧
      s.allocator? 0 = some x ∧ x.buckets[2]? = some b ∧ ofScore 4 b.threshold = .ok 2 := by
  obtain ⟨hstrict, hown, -⟩ := reaches_every_level (Nat.le_refl 0x1000000)
  refine ⟨hstrict 0 (by decide), by decide +kernel, hown 0xffffff (by decide), ?_⟩
  let s : Session 1 := fresh [{ hz := 1000 }] [] (freshRoster (.ofFn fun p => (.ofNat p, true)))
  obtain ⟨t, h, hend⟩ := exists_leads s [.call (.host 0 (.ready 0))]
    (fun t => (t.allocator? 0).map fun x => (x.config.levels, x.buckets.length))
    (x := some (4, 4)) (by decide +kernel)
  obtain ⟨x, hx, hshape⟩ := Option.map_eq_some_iff.mp hend
  obtain ⟨hlevels, hlength⟩ := Prod.mk.inj hshape
  have hb : x.buckets[2]? = some (x.buckets[2]) := List.getElem?_eq_getElem (by omega)
  obtain ⟨-, -, hbucket⟩ := @reaches_every_level 4 (by decide)
  exact ⟨_, t, x, _, h, hx, hb, hbucket h hx hlevels 2 _ hb⟩

end Level

end AttentionScheduler
