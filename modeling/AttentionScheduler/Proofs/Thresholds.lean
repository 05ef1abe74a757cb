import AttentionScheduler.Proofs.Promotion
import AttentionScheduler.Proofs.Quotients
import Mathlib.Data.Nat.Count

/-!
The thresholds of a row of levels start at one, stay positive and never rise, whatever the number of
levels. So the first level whose threshold a score meets is also the number of those that it does not meet,
and the level that a search by halves arrives at.
-/

namespace AttentionScheduler

open Magnitude

/-- The first index from `lo` on at which `met` holds, sought by halving the range. It is `hi` if there is
none below. -/
def bisect (met : Nat → Prop) [DecidablePred met] (lo hi : Nat) : Nat :=
  if lo < hi then
    let mid := (lo + hi) / 2
    if met mid then bisect met lo mid else bisect met (mid + 1) hi
  else lo
termination_by hi - lo

theorem bisect_eq {met : Nat → Prop} [DecidablePred met] {lo hi first : Nat} (hlo : lo ≤ first)
    (hhi : first ≤ hi) (hmet : ∀ l < hi, met l ↔ first ≤ l) : bisect met lo hi = first := by
  fun_induction bisect met lo hi with
  | case1 lo hi hlt mid hmid ih =>
    have hfirst : first ≤ mid := (hmet mid (by omega)).mp hmid
    exact ih hlo hfirst fun l hl => hmet l (by omega)
  | case2 lo hi hlt mid hmid ih =>
    have hfirst : mid < first := Nat.lt_of_not_le fun h => hmid ((hmet mid (by omega)).mpr h)
    exact ih hfirst hhi hmet
  | case3 lo hi hge => omega

section Threshold

variable {levels l l' : Nat}

theorem threshold_eq_ratio (hpos : 0 < levels) (hsize : levels < UInt64.size) (l : Nat) :
    threshold l levels = .num false (ratio (levels - l) levels) :=
  Single.ofNat_div_ofNat (by omega) hpos hsize

theorem threshold_zero (hpos : 0 < levels) (hsize : levels < UInt64.size) :
    threshold 0 levels = .one := by
  rw [threshold_eq_ratio hpos hsize, Nat.sub_zero, ratio_self hpos]
  rfl

theorem threshold_antitone (hpos : 0 < levels) (hsize : levels < UInt64.size) (h : l ≤ l') :
    threshold l' levels ≤ threshold l levels := by
  rw [threshold_eq_ratio hpos hsize, threshold_eq_ratio hpos hsize, Single.positive_le]
  exact ratio_mono hpos hpos (by omega) (Nat.le_refl levels)

theorem threshold_pos (hpos : 0 < levels) (hsize : levels < UInt64.size) (hl : l < levels) :
    .zero < threshold l levels := by
  rw [threshold_eq_ratio hpos hsize, Single.zero, Single.positive_lt]
  exact Fin.pos_of_ne_zero (ratio_ne_zero (by omega) hpos hsize)

end Threshold

namespace Level

variable {levels left level l l' : Nat} {x : Single}

theorem threshold_of_firstMet (h : firstMet levels x left = some level) :
    threshold level levels ≤ x ∧ ∀ l, levels - left ≤ l → l < level → ¬ threshold l levels ≤ x := by
  induction left with
  | zero => cases h
  | succ left ih =>
    rw [firstMet] at h
    split at h
    · next hmet =>
      cases h
      exact ⟨hmet, fun l hl hlt => absurd hlt (Nat.not_lt.mpr hl)⟩
    · next hmet =>
      obtain ⟨hlevel, hbefore⟩ := ih h
      refine ⟨hlevel, fun l hl hlt => ?_⟩
      rcases Nat.lt_or_eq_of_le hl with hnext | rfl
      · exact hbefore l (by omega) hlt
      · exact hmet

theorem not_met_of_firstMet (h : firstMet levels x left = none) (hl : levels - left ≤ l)
    (hlt : l < levels) : ¬ threshold l levels ≤ x := by
  induction left with
  | zero => omega
  | succ left ih =>
    rw [firstMet] at h
    split at h
    · cases h
    · next hmet =>
      rcases Nat.lt_or_eq_of_le hl with hnext | rfl
      · exact ih h (by omega)
      · exact hmet

/-- Where the thresholds that a score does not meet end. -/
theorem exists_first (hpos : 0 < levels) (hsize : levels < UInt64.size) (x : Single) :
    ∃ first ≤ levels, ofScore levels x = .ok (min (levels - 1) first) ∧
      ∀ l < levels, threshold l levels ≤ x ↔ first ≤ l := by
  cases hmet : firstMet levels x levels with
  | some level =>
    obtain ⟨hlevel, hbefore⟩ := threshold_of_firstMet hmet
    have hlt := firstMet_lt (Nat.le_refl _) hmet
    refine ⟨level, Nat.le_of_lt hlt, ?_, fun l hl => ⟨fun h => ?_, fun h => ?_⟩⟩
    · rw [ofScore, hmet, Nat.min_eq_right (by omega)]
    · exact Nat.le_of_not_lt fun hl => hbefore l (by omega) hl h
    · exact Single.le_trans (threshold_antitone hpos hsize h) hlevel
  | none =>
    refine ⟨levels, Nat.le_refl _, ?_, fun l hl => ⟨fun h => ?_, fun h => by omega⟩⟩
    · rw [ofScore, hmet, Nat.min_eq_left (by omega)]
      exact Word.sub_eq_ok hpos
    · exact absurd h (not_met_of_firstMet hmet (by omega) hl)

theorem count_eq {first : Nat} (hfirst : first ≤ levels)
    (hmet : ∀ l < levels, threshold l levels ≤ x ↔ first ≤ l) :
    Nat.count (fun l => ¬ threshold l levels ≤ x) levels = first := by
  rw [Nat.count_eq_card_filter_range]
  have hfilter : {l ∈ Finset.range levels | ¬ threshold l levels ≤ x} = Finset.range first := by
    ext l
    simp only [Finset.mem_filter, Finset.mem_range]
    constructor
    · rintro ⟨hl, hnot⟩
      exact Nat.lt_of_not_le fun h => hnot ((hmet l hl).mpr h)
    · intro hl
      exact ⟨by omega, fun h => absurd ((hmet l (by omega)).mp h) (by omega)⟩
  rw [hfilter, Finset.card_range]

/-- For every number of levels that a word can hold, the thresholds are sorted, and the level of a score is
what counting them and searching them by halves give. -/
theorem searches_sorted_thresholds (hpos : 0 < levels) (hsize : levels < UInt64.size) :
    threshold 0 levels = .one ∧ (∀ l < levels, .zero < threshold l levels) ∧
    (∀ l l', l ≤ l' → l' < levels → threshold l' levels ≤ threshold l levels) ∧
    (∀ x, ∃ level < levels, ofScore levels x = .ok level ∧
      level = min (levels - 1) (Nat.count (fun l => ¬ threshold l levels ≤ x) levels) ∧
      level = min (levels - 1) (bisect (fun l => threshold l levels ≤ x) 0 levels)) ∧
    (∀ x, (x = .nan ∨ ∀ l < levels, ¬ threshold l levels ≤ x) → ofScore levels x = .ok (levels - 1)) ∧
    ∀ x y level level', x ≤ y → ofScore levels x = .ok level → ofScore levels y = .ok level' →
      level' ≤ level := by
  refine ⟨threshold_zero hpos hsize, fun l => threshold_pos hpos hsize,
    fun l l' h _ => threshold_antitone hpos hsize h, fun x => ?_, fun x hx => ?_,
    fun x y level level' => ofScore_antitone⟩
  · obtain ⟨first, hfirst, hscore, hmet⟩ := exists_first hpos hsize x
    refine ⟨_, by omega, hscore, ?_, ?_⟩
    · rw [count_eq hfirst hmet]
    · rw [bisect_eq (Nat.zero_le first) hfirst hmet]
  · obtain ⟨first, hfirst, hscore, hmet⟩ := exists_first hpos hsize x
    have hnone : ∀ l < levels, ¬ threshold l levels ≤ x := by
      rcases hx with rfl | hx
      · exact fun l _ => Single.not_le_nan _
      · exact hx
    have hlast : levels - 1 < first :=
      Nat.lt_of_not_le fun h => hnone (levels - 1) (by omega) ((hmet _ (by omega)).mpr h)
    rw [hscore, Nat.min_eq_left (Nat.le_of_lt hlast)]

/-- With all the levels of a word, so many that neighbouring thresholds fall together. -/
theorem searches_a_word_of_levels : threshold 1 (UInt64.size - 1) = threshold 0 (UInt64.size - 1) ∧
    .zero < threshold (UInt64.size - 2) (UInt64.size - 1) ∧
    ofScore (UInt64.size - 1) .nan = .ok (UInt64.size - 2) ∧
    ∃ level, ofScore (UInt64.size - 1) (.ofFraction 1 3) = .ok level ∧
      level = min (UInt64.size - 2)
        (bisect (fun l => threshold l (UInt64.size - 1) ≤ .ofFraction 1 3) 0 (UInt64.size - 1)) := by
  obtain ⟨-, hpositive, -, hsearch, hnan, -⟩ :=
    @searches_sorted_thresholds (UInt64.size - 1) (by decide) (by decide)
  obtain ⟨level, -, hlevel, -, hbisect⟩ := hsearch (.ofFraction 1 3)
  exact ⟨by decide, hpositive _ (by decide), hnan _ (.inl rfl), level, hlevel, hbisect⟩

end Level

end AttentionScheduler
