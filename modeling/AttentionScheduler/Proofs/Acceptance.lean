import AttentionScheduler.Proofs.Arithmetic
import AttentionScheduler.Proofs.Shapes

/-!
The check of a configuration, against what it is to ask for: one demand for each of six fields, in a
fixed order, and a history that fits, where sizes are natural numbers without a bound. A history of any
two sizes is made in full, or its making breaks off for the one size that leaves its range.
-/

namespace AttentionScheduler

namespace Single

open Magnitude

variable {x : Single}

/-- A finite number from zero to one: its exact value is taken in units of `2 ^ (-149)`. -/
def InUnitInterval (x : Single) : Prop :=
  ∃ s m, x = num s m ∧ m ≠ Magnitude.infinity ∧
    0 ≤ signedUnits s m ∧ signedUnits s m ≤ (2 ^ 149 : Nat)

example : negZero.InUnitInterval := ⟨true, .zero, rfl, by decide, by decide, by decide⟩

theorem nonneg_iff_signedUnits {s : Bool} {m : Magnitude} :
    zero ≤ num s m ↔ 0 ≤ signedUnits s m := by
  cases s with
  | false => exact iff_of_true (nonneg_num.mpr nofun) (Int.natCast_nonneg _)
  | true =>
    have hzero : m.units ≤ Magnitude.zero.units ↔ m ≤ .zero := units_le_units
    rw [show Magnitude.zero.units = 0 from rfl, Fin.le_def] at hzero
    rw [zero, num_le_num]
    change (0 : Int) ≤ -(m.val : Int) ↔ (0 : Int) ≤ -(m.units : Int)
    change m.units ≤ 0 ↔ m.val ≤ 0 at hzero
    omega

theorem inUnitInterval_iff : x.InUnitInterval ↔ zero ≤ x ∧ x ≤ one := by
  constructor
  · rintro ⟨s, m, rfl, -, hnonneg, hle⟩
    have hx := nonneg_iff_signedUnits.mpr hnonneg
    refine ⟨hx, (le_iff_magnitude hx (by decide)).mpr (units_le_units.mp ?_)⟩
    rw [signedUnits_of_nonneg (nonneg_num.mp hx), Int.ofNat_le] at hle
    rw [units_one, Nat.one_shiftLeft]
    exact hle
  · rintro ⟨hnonneg, hone⟩
    obtain ⟨s, hx, hs⟩ := exists_of_nonneg hnonneg
    have hfinite := ne_infinity_of_le hnonneg hone (by decide)
    have hunits := units_le_units.mpr ((le_iff_magnitude hnonneg (by decide)).mp hone)
    rw [units_one, Nat.one_shiftLeft] at hunits
    refine ⟨s, x.magnitude, hx, hfinite, nonneg_iff_signedUnits.mp (hx ▸ hnonneg), ?_⟩
    rw [signedUnits_of_nonneg hs, Int.ofNat_le]
    exact hunits

end Single

namespace Word

theorem mul_cases (a b : Nat) : a * b < 2 ^ 64 ∧ mul a b = .ok (a * b) ∨
    2 ^ 64 ≤ a * b ∧ mul a b = .error .mulOverflow :=
  (Nat.lt_or_ge (a * b) limit).imp (fun h => ⟨h, mul_eq_ok h⟩)
    (fun h => ⟨h, if_neg (Nat.not_lt.mpr h)⟩)

theorem reserve_eq_error {count bytes : Nat} (h : maxBytes < bytes * count) :
    reserve count bytes = .error .capacityOverflow := if_neg (Nat.not_le.mpr h)

theorem reserve_cases (count bytes : Nat) :
    bytes * count ≤ 2 ^ 63 - 1 ∧ reserve count bytes = .ok () ∨
      2 ^ 63 - 1 < bytes * count ∧ reserve count bytes = .error .capacityOverflow :=
  (Nat.lt_or_ge maxBytes (bytes * count)).symm.imp (fun h => ⟨h, reserve_eq_ok h⟩)
    (fun h => ⟨h, reserve_eq_error h⟩)

end Word

namespace Config

/-- What is asked of each field, in the order of asking. -/
def demands (c : Config) : List (String × Prop) :=
  [("attention_levels", 0 < c.attentionLevels.toNat),
   ("max_procs", 0 < c.maxProcs.toNat),
   ("time_window", 0 < c.timeWindow.toNat),
   ("priority_levels", 0 < c.priorityLevels.toNat),
   ("interactive_divisor", 0 < c.interactiveDivisor.toNat),
   ("memory_baseline", c.memoryBaseline.InUnitInterval)]

def cells (c : Config) : Nat := c.maxProcs.toNat * Feature.count * c.timeWindow.toNat

inductive FirstUnmet : List (String × Prop) → String → Prop
  | here {demand : Prop} {rest : List (String × Prop)} {field : String} (h : ¬ demand) :
    FirstUnmet ((field, demand) :: rest) field
  | later {demand : Prop} {rest : List (String × Prop)} {first field : String} (h : demand)
    (hrest : FirstUnmet rest field) : FirstUnmet ((first, demand) :: rest) field

def Rejects (e : Except Defect Unit) (kind : RejectionKind) (field? : Option String) : Prop :=
  ∃ defect, e = .error defect ∧ defect.rejection.kind = kind ∧ defect.rejection.field? = field?

/-- The outcome of asking these demands in order, and for a history that fits after all of them. -/
structure Judges (demands : List (String × Prop)) (fits : Prop) (e : Except Defect Unit) : Prop where
  accepted : e = .ok () ↔ (∀ d ∈ demands, d.2) ∧ fits
  invalid : ∀ field, Rejects e .invalidConfig (some field) ↔ FirstUnmet demands field
  oversized : Rejects e .capacityExceeded none ↔ (∀ d ∈ demands, d.2) ∧ ¬ fits

variable {c : Config} {rest : List (String × Prop)} {demand fits : Prop} {first field : String}
  {e : Except Defect Unit}

theorem rejects_error {defect : Defect} {kind : RejectionKind} {field? : Option String} :
    Rejects (.error defect) kind field? ↔
      defect.rejection.kind = kind ∧ defect.rejection.field? = field? :=
  ⟨fun ⟨_, h, hkind, hfield⟩ => by cases h; exact ⟨hkind, hfield⟩,
    fun ⟨hkind, hfield⟩ => ⟨defect, rfl, hkind, hfield⟩⟩

theorem not_rejects_ok {kind : RejectionKind} {field? : Option String} :
    ¬ Rejects (.ok ()) kind field? := fun ⟨_, h, _⟩ => by cases h

theorem not_firstUnmet_nil : ¬ FirstUnmet [] field := nofun

theorem firstUnmet_cons_of_met (h : demand) :
    FirstUnmet ((first, demand) :: rest) field ↔ FirstUnmet rest field := by
  refine ⟨fun hunmet => ?_, .later h⟩
  cases hunmet with
  | here hnot => exact absurd h hnot
  | later _ hrest => exact hrest

theorem firstUnmet_cons_of_unmet (h : ¬ demand) :
    FirstUnmet ((first, demand) :: rest) field ↔ first = field := by
  refine ⟨fun hunmet => ?_, fun hfield => hfield ▸ .here h⟩
  cases hunmet with
  | here => rfl
  | later hmet _ => exact absurd hmet h

theorem Judges.last {check : Prop} [Decidable check] (hfits : check ↔ ¬ fits) :
    Judges [] fits (if check then .error .tooManyCells else .ok ()) := by
  by_cases hcheck : check
  · have hnot := hfits.mp hcheck
    rw [if_pos hcheck]
    refine ⟨?_, fun field => ?_, ?_⟩
    · simp [hnot]
    · simp [rejects_error, Defect.rejection, not_firstUnmet_nil]
    · simp [rejects_error, Defect.rejection, hnot]
  · have hfit : fits := Classical.not_not.mp (mt hfits.mpr hcheck)
    rw [if_neg hcheck]
    refine ⟨?_, fun field => ?_, ?_⟩
    · simp [hfit]
    · simp [not_rejects_ok, not_firstUnmet_nil]
    · simp [not_rejects_ok, hfit]

theorem Judges.next {check : Prop} [Decidable check] {defect : Defect} {message : String}
    (hdefect : defect.rejection = .invalidField field message) (hcheck : check ↔ ¬ demand)
    (h : demand → Judges rest fits e) :
    Judges ((field, demand) :: rest) fits (if check then .error defect else e) := by
  by_cases hfails : check
  · have hunmet := hcheck.mp hfails
    rw [if_pos hfails]
    refine ⟨?_, fun other => ?_, ?_⟩
    · simp [hunmet]
    · rw [rejects_error, hdefect, firstUnmet_cons_of_unmet hunmet]
      simp [Rejection.invalidField]
    · simp [rejects_error, hdefect, Rejection.invalidField, hunmet]
  · have hmet : demand := Classical.not_not.mp (mt hcheck.mpr hfails)
    have hjudges := h hmet
    rw [if_neg hfails]
    refine ⟨?_, fun other => ?_, ?_⟩
    · rw [hjudges.accepted, List.forall_mem_cons, and_iff_right hmet]
    · rw [hjudges.invalid, firstUnmet_cons_of_met hmet]
    · rw [hjudges.oversized, List.forall_mem_cons, and_iff_right hmet]

theorem tensorCells_eq (c : Config) : c.tensorCells =
    if c.maxProcs.toNat * Feature.count < 2 ^ 64 ∧ c.cells < 2 ^ 64 then some c.cells else none := by
  unfold tensorCells cells
  rcases Word.mul_cases c.maxProcs.toNat Feature.count with ⟨hlt, hrows⟩ | ⟨hle, hrows⟩
  · simp only [hrows]
    rcases Word.mul_cases (c.maxProcs.toNat * Feature.count) c.timeWindow.toNat with
      ⟨hlt', hcells⟩ | ⟨hle', hcells⟩
    · rw [hcells, if_pos ⟨hlt, hlt'⟩]
      rfl
    · rw [hcells, if_neg fun h => Nat.not_lt.mpr hle' h.2]
      rfl
  · rw [hrows, if_neg fun h => Nat.not_lt.mpr hle h.1]

/-- With no slot at all the rows may overflow though there is no cell: the field is asked for first. -/
theorem fits_iff (hwindow : 0 < c.timeWindow.toNat) : c.fits = true ↔ c.cells ≤ 2 ^ 32 - 1 := by
  refine ⟨cells_of_fits, fun h => ?_⟩
  have hrows : c.maxProcs.toNat * Feature.count ≤ c.cells := Nat.le_mul_of_pos_right _ hwindow
  rw [fits, tensorCells_eq, if_pos (by omega)]
  exact decide_eq_true h

theorem judges_validate (c : Config) : Judges c.demands (c.cells ≤ 2 ^ 32 - 1) c.validate := by
  have positive (k : UInt64) : k = 0 ↔ ¬ 0 < k.toNat := by
    rw [← UInt64.toNat_inj, Nat.not_lt, Nat.le_zero]
    rfl
  have scale : c.priorityLevels = 0 ↔ ¬ 0 < c.priorityLevels.toNat := by
    rw [← UInt32.toNat_inj, Nat.not_lt, Nat.le_zero]
    rfl
  refine .next rfl (positive _) fun _ => .next rfl (positive _) fun _ =>
    .next rfl (positive _) fun hwindow => .next rfl scale fun _ => .next rfl (positive _) fun _ =>
    .next rfl (not_congr Single.inUnitInterval_iff.symm) fun _ => .last ?_
  exact not_congr (fits_iff hwindow)

end Config

namespace Tensor

variable {c : Config}

def zeroed (procs window cells : Nat) : Tensor :=
  { maxProcs := procs, timeWindow := window
    history := .replicate cells .zero, stamps := .replicate window 0, slot := 0, active := 0 }

/-- The making of a history for a configuration, by the number of its cells. -/
structure Makes (c : Config) (e : Except Fault Tensor) : Prop where
  overflows : e = .error .mulOverflow ↔ c.tensorCells = none
  exceeds : e = .error .capacityOverflow ↔ ∃ cells, c.tensorCells = some cells ∧
    (2 ^ 63 - 1 < 4 * cells ∨ 2 ^ 63 - 1 < 8 * c.timeWindow.toNat)
  made : ∀ cells, c.tensorCells = some cells → 4 * cells ≤ 2 ^ 63 - 1 →
    8 * c.timeWindow.toNat ≤ 2 ^ 63 - 1 →
    e = .ok (zeroed c.maxProcs.toNat c.timeWindow.toNat cells)

theorem create_of_none (h : c.tensorCells = none) :
    create c.maxProcs.toNat c.timeWindow.toNat = .error .mulOverflow := by
  unfold Config.tensorCells at h
  rcases Word.mul_cases c.maxProcs.toNat Feature.count with ⟨-, hrows⟩ | ⟨-, hrows⟩
  · rcases Word.mul_cases (c.maxProcs.toNat * Feature.count) c.timeWindow.toNat with
      ⟨-, hcells⟩ | ⟨-, hcells⟩
    · rw [hrows] at h
      simp only [hcells] at h
      cases h
    · simp only [create, hrows, hcells, bind, Except.bind]
  · simp only [create, hrows, bind, Except.bind]

theorem create_of_some {cells : Nat} (h : c.tensorCells = some cells) :
    create c.maxProcs.toNat c.timeWindow.toNat =
      if 4 * cells ≤ 2 ^ 63 - 1 ∧ 8 * c.timeWindow.toNat ≤ 2 ^ 63 - 1 then
        .ok (zeroed c.maxProcs.toNat c.timeWindow.toNat cells)
      else .error .capacityOverflow := by
  unfold Config.tensorCells at h
  cases hrows : Word.mul c.maxProcs.toNat Feature.count with
  | error fault =>
    rw [hrows] at h
    cases h
  | ok rows =>
    simp only [hrows] at h
    cases hcells : Word.mul rows c.timeWindow.toNat with
    | error fault =>
      rw [hcells] at h
      cases h
    | ok all =>
      rw [hcells] at h
      cases h
      simp only [create, hrows, hcells, bind, Except.bind]
      rcases Word.reserve_cases cells cellBytes with ⟨hle, hhistory⟩ | ⟨hlt, hhistory⟩
      · rcases Word.reserve_cases c.timeWindow.toNat stampBytes with ⟨hle', hstamps⟩ | ⟨hlt, hstamps⟩
        · simp only [hhistory, hstamps]
          exact (if_pos ⟨hle, hle'⟩).symm
        · simp only [hhistory, hstamps]
          exact (if_neg fun h => Nat.not_lt.mpr h.2 hlt).symm
      · simp only [hhistory]
        exact (if_neg fun h => Nat.not_lt.mpr h.1 hlt).symm

theorem makes_create (c : Config) :
    Makes c (create c.maxProcs.toNat c.timeWindow.toNat) := by
  cases hcells : c.tensorCells with
  | none =>
    rw [create_of_none hcells]
    exact ⟨by simp [hcells], by simp [hcells], by simp [hcells]⟩
  | some cells =>
    rw [create_of_some hcells]
    by_cases hroom : 4 * cells ≤ 2 ^ 63 - 1 ∧ 8 * c.timeWindow.toNat ≤ 2 ^ 63 - 1
    · rw [if_pos hroom]
      refine ⟨by simp [hcells], iff_of_false nofun ?_, fun cells' h _ _ => ?_⟩
      · rintro ⟨cells', h, hover⟩
        cases hcells.symm.trans h
        omega
      · cases hcells.symm.trans h
        rfl
    · rw [if_neg hroom]
      refine ⟨by simp [hcells], iff_of_true rfl ⟨cells, hcells, by omega⟩, fun cells' h h₁ h₂ => ?_⟩
      cases hcells.symm.trans h
      exact absurd ⟨h₁, h₂⟩ hroom

end Tensor

namespace Config

/-- The check accepts what it is to accept and names what it is to name, and the sizes that it multiplies
are those of the history that is made. -/
theorem validate_exact (c : Config) :
    Judges c.demands (c.maxProcs.toNat * 8 * c.timeWindow.toNat ≤ 2 ^ 32 - 1) c.validate ∧
    (c.tensorCells = if c.maxProcs.toNat * 8 < 2 ^ 64 ∧
      c.maxProcs.toNat * 8 * c.timeWindow.toNat < 2 ^ 64 then
        some (c.maxProcs.toNat * 8 * c.timeWindow.toNat) else none) ∧
    Tensor.Makes c (Tensor.create c.maxProcs.toNat c.timeWindow.toNat) :=
  ⟨judges_validate c, tensorCells_eq c, Tensor.makes_create c⟩

end Config

end AttentionScheduler
