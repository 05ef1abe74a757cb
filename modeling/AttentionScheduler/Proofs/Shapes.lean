import AttentionScheduler.Proofs.Frames

/-!
The checks on a configuration are what keeps its allocator within bounds. The parts of an allocator have
the sizes that its configuration asks for, the current slot is one of the ring, and every cell that can be
sampled is there.
-/

namespace AttentionScheduler

variable {n : Nat} {c : Config} {x y z : Allocator n}

namespace Word

theorem eq_of_mul_ok {a b r : Nat} (h : mul a b = .ok r) : r = a * b := by
  unfold mul at h
  split at h <;> cases h
  rfl

theorem le_of_reserve_ok {count bytes : Nat} (h : reserve count bytes = .ok ()) :
    bytes * count ≤ maxBytes := by
  unfold reserve at h
  split at h
  · assumption
  · cases h

theorem lt_limit_of_reserve_ok {count bytes : Nat} (hbytes : 0 < bytes)
    (h : reserve count bytes = .ok ()) : count < limit := by
  have hcount : count ≤ maxBytes :=
    Nat.le_trans (Nat.le_mul_of_pos_left count hbytes) (le_of_reserve_ok h)
  exact Nat.lt_of_le_of_lt hcount (by decide)

theorem ok_of_bind {α β : Type} {e : Except Fault α} {f : α → Except Fault β} {y : β}
    (h : e >>= f = .ok y) : ∃ x, e = .ok x ∧ f x = .ok y := by
  cases e with
  | error fault => cases h
  | ok x => exact ⟨x, rfl, h⟩

end Word

namespace Config

structure Accepted (c : Config) : Prop where
  levels : 0 < c.levels
  procs : 0 < c.maxProcs.toNat
  window : 0 < c.timeWindow.toNat
  divisor : c.interactiveDivisor ≠ 0
  cells : c.maxProcs.toNat * Feature.count * c.timeWindow.toNat ≤ maxCells

theorem cells_of_fits (h : c.fits = true) :
    c.maxProcs.toNat * Feature.count * c.timeWindow.toNat ≤ maxCells := by
  unfold fits at h
  split at h
  · next cells hcells =>
    unfold tensorCells at hcells
    cases hrows : Word.mul c.maxProcs.toNat Feature.count with
    | error fault =>
      rw [hrows] at hcells
      cases hcells
    | ok rows =>
      simp only [hrows] at hcells
      cases hall : Word.mul rows c.timeWindow.toNat with
      | error fault =>
        rw [hall] at hcells
        cases hcells
      | ok all =>
        rw [hall] at hcells
        cases hcells
        rw [← Word.eq_of_mul_ok hrows, ← Word.eq_of_mul_ok hall]
        exact of_decide_eq_true h
  · cases h

theorem toNat_pos {k : UInt64} (h : k ≠ 0) : 0 < k.toNat :=
  Nat.pos_of_ne_zero fun hk => h (UInt64.toNat_inj.mp hk)

theorem passed {check : Prop} [Decidable check] {defect : Defect} {rest : Except Defect Unit}
    (h : (if check then .error defect else rest) = .ok ()) : ¬ check ∧ rest = .ok () := by
  split at h
  · cases h
  · exact ⟨by assumption, h⟩

theorem accepted_of_validate (h : c.validate = .ok ()) : c.Accepted := by
  obtain ⟨hlevels, h⟩ := passed h
  obtain ⟨hprocs, h⟩ := passed h
  obtain ⟨hwindow, h⟩ := passed h
  obtain ⟨_, h⟩ := passed h
  obtain ⟨hdivisor, h⟩ := passed h
  obtain ⟨_, h⟩ := passed h
  obtain ⟨hfits, _⟩ := passed h
  exact ⟨toNat_pos hlevels, toNat_pos hprocs, toNat_pos hwindow, hdivisor,
    cells_of_fits (Classical.not_not.mp hfits)⟩

theorem Accepted.rows_le (hc : c.Accepted) : c.maxProcs.toNat * Feature.count ≤ maxCells :=
  Nat.le_trans (Nat.le_mul_of_pos_right _ hc.window) hc.cells

theorem Accepted.window_le (hc : c.Accepted) : c.timeWindow.toNat ≤ maxCells := by
  have hrows : 0 < c.maxProcs.toNat * Feature.count := Nat.mul_pos hc.procs (by decide)
  exact Nat.le_trans (Nat.le_mul_of_pos_left _ hrows) hc.cells

end Config

namespace Level

theorem firstMet_lt {levels : Nat} {x : Single} {left level : Nat} (hleft : left ≤ levels)
    (h : firstMet levels x left = some level) : level < levels := by
  induction left with
  | zero => cases h
  | succ left ih =>
    rw [firstMet] at h
    split at h
    · cases h
      omega
    · exact ih (by omega) h

theorem exists_ofScore {levels : Nat} (h : 0 < levels) (x : Single) :
    ∃ level < levels, ofScore levels x = .ok level := by
  unfold ofScore
  cases hmet : firstMet levels x levels with
  | some level => exact ⟨level, firstMet_lt (Nat.le_refl _) hmet, rfl⟩
  | none => exact ⟨levels - 1, by omega, Word.sub_eq_ok h⟩

end Level

namespace Tensor

variable {t : Tensor}

structure Shaped (c : Config) (t : Tensor) : Prop where
  maxProcs : t.maxProcs = c.maxProcs.toNat
  timeWindow : t.timeWindow = c.timeWindow.toNat
  history : t.history.size = c.maxProcs.toNat * Feature.count * c.timeWindow.toNat
  stamps : t.stamps.size = c.timeWindow.toNat
  slot : t.slot < c.timeWindow.toNat

theorem eq_of_create {procs window : Nat} (h : create procs window = .ok t) :
    t = {
      maxProcs := procs, timeWindow := window
      history := .replicate (procs * Feature.count * window) .zero
      stamps := .replicate window 0 } ∧
    procs * Feature.count * window < Word.limit ∧ window < Word.limit := by
  obtain ⟨rows, hrows, h⟩ := Word.ok_of_bind h
  obtain ⟨cells, hcells, h⟩ := Word.ok_of_bind h
  obtain ⟨_, hhistory, h⟩ := Word.ok_of_bind h
  obtain ⟨_, hstamps, h⟩ := Word.ok_of_bind h
  cases Word.eq_of_mul_ok hrows
  cases Word.eq_of_mul_ok hcells
  cases h
  exact ⟨rfl, Word.lt_limit_of_reserve_ok (by decide) hhistory,
    Word.lt_limit_of_reserve_ok (by decide) hstamps⟩

theorem create_shaped (hc : c.Accepted) :
    ∃ t, create c.maxProcs.toNat c.timeWindow.toNat = .ok t ∧ t.Shaped c ∧ t.active = 0 := by
  have hrows := hc.rows_le
  have hwindow := hc.window_le
  have hcells := hc.cells
  have hlimit : Config.maxCells < Word.limit := by decide
  have hbytes : stampBytes * Config.maxCells ≤ Word.maxBytes := by decide
  have hhistory : cellBytes * (c.maxProcs.toNat * Feature.count * c.timeWindow.toNat) ≤
      Word.maxBytes := by
    simp only [cellBytes, stampBytes] at hbytes ⊢
    omega
  have hstamps : stampBytes * c.timeWindow.toNat ≤ Word.maxBytes := by
    simp only [stampBytes] at hbytes ⊢
    omega
  let t : Tensor := {
    maxProcs := c.maxProcs.toNat, timeWindow := c.timeWindow.toNat
    history := .replicate (c.maxProcs.toNat * Feature.count * c.timeWindow.toNat) .zero
    stamps := .replicate c.timeWindow.toNat 0 }
  refine ⟨t, ?_, ⟨rfl, rfl, Array.size_replicate, Array.size_replicate, hc.window⟩, rfl⟩
  simp only [create, bind, Except.bind, Word.mul_eq_ok (Nat.lt_of_le_of_lt hrows hlimit),
    Word.mul_eq_ok (Nat.lt_of_le_of_lt hcells hlimit), Word.reserve_eq_ok hhistory,
    Word.reserve_eq_ok hstamps]
  rfl

/-- The ring has room for its next turn. -/
structure Turns (t : Tensor) : Prop where
  slot : t.slot < t.timeWindow
  stamps : t.stamps.size = t.timeWindow
  window : t.timeWindow < Word.limit

/-- The ring one slot on, and the tick in that slot. -/
def stepped (t : Tensor) (now : Tick) : Tensor :=
  let slot := (t.slot + 1) % t.timeWindow
  { t with slot, stamps := t.stamps.setIfInBounds slot now }

theorem Shaped.turns (ht : t.Shaped c) (hc : c.Accepted) : t.Turns := by
  have hlimit : Config.maxCells < Word.limit := by decide
  refine ⟨?_, ?_, ?_⟩
  · rw [ht.timeWindow]
    exact ht.slot
  · rw [ht.timeWindow]
    exact ht.stamps
  · rw [ht.timeWindow]
    exact Nat.lt_of_le_of_lt hc.window_le hlimit

theorem Turns.next_lt (ht : t.Turns) : (t.slot + 1) % t.timeWindow < t.stamps.size := by
  rw [ht.stamps]
  exact Nat.mod_lt _ (Nat.zero_lt_of_lt ht.slot)

theorem Turns.advance_eq (ht : t.Turns) (now : Tick) :
    t.advance now = .ok (t.stepped now, (t.slot + 1) % t.timeWindow) := by
  have hslot := ht.slot
  have hwindow := ht.window
  simp only [Tensor.advance, bind, Except.bind,
    Word.add_eq_ok (show t.slot + 1 < Word.limit by omega),
    Word.mod_eq_ok (show t.timeWindow ≠ 0 by omega)]
  exact if_pos ht.next_lt

theorem Shaped.advance (ht : t.Shaped c) (hc : c.Accepted) (now : Tick) :
    ∃ t' slot, t.advance now = .ok (t', slot) ∧ t'.Shaped c ∧ t'.active = t.active := by
  have hturns := ht.turns hc
  refine ⟨_, _, hturns.advance_eq now, ⟨ht.maxProcs, ht.timeWindow, ht.history, ?_, ?_⟩, rfl⟩
  · exact Array.size_setIfInBounds.trans ht.stamps
  · exact Nat.lt_of_lt_of_eq hturns.next_lt ht.stamps

/-- A cell within the bounds is one of the block. -/
theorem cell_lt {procs window proc feature time : Nat} (hproc : proc < procs)
    (hfeature : feature < Feature.count) (htime : time < window) :
    (proc * Feature.count + feature) * window + time < procs * Feature.count * window := by
  have hrow : proc * Feature.count + feature + 1 ≤ procs * Feature.count := by
    have hmul := Nat.mul_le_mul_right Feature.count (Nat.succ_le_of_lt hproc)
    rw [Nat.succ_mul] at hmul
    omega
  have hcell := Nat.mul_le_mul_right window hrow
  rw [Nat.succ_mul] at hcell
  omega

theorem cellIndex_eq {proc feature time : Nat} (hproc : proc < t.maxProcs)
    (hfeature : feature < Feature.count) (htime : time < t.timeWindow)
    (hroom : t.maxProcs * Feature.count * t.timeWindow ≤ Word.limit) :
    t.cellIndex proc feature time =
      .ok ((proc * Feature.count + feature) * t.timeWindow + time) := by
  have hcell := cell_lt hproc hfeature htime
  have hstart : proc * Feature.count + feature ≤
      (proc * Feature.count + feature) * t.timeWindow :=
    Nat.le_mul_of_pos_right _ (by omega)
  simp only [Tensor.cellIndex, bind, Except.bind,
    Word.mul_eq_ok (show proc * Feature.count < Word.limit by omega),
    Word.add_eq_ok (show proc * Feature.count + feature < Word.limit by omega),
    Word.mul_eq_ok (show (proc * Feature.count + feature) * t.timeWindow < Word.limit by omega),
    Word.add_eq_ok
      (show (proc * Feature.count + feature) * t.timeWindow + time < Word.limit by omega)]

theorem Shaped.cellIndex (ht : t.Shaped c) (hc : c.Accepted) {proc feature time : Nat}
    (hproc : proc < t.maxProcs) (hfeature : feature < Feature.count) (htime : time < t.timeWindow) :
    ∃ index < t.history.size, t.cellIndex proc feature time = .ok index := by
  have hsize : t.history.size = t.maxProcs * Feature.count * t.timeWindow := by
    rw [ht.history, ht.maxProcs, ht.timeWindow]
  have hcells : t.history.size ≤ Config.maxCells := ht.history ▸ hc.cells
  have hlimit : Config.maxCells < Word.limit := by decide
  exact ⟨_, hsize ▸ cell_lt hproc hfeature htime,
    cellIndex_eq hproc hfeature htime (hsize ▸ Nat.le_trans hcells (Nat.le_of_lt hlimit))⟩

theorem Shaped.sample (ht : t.Shaped c) (hc : c.Accepted) (proc feature time : Nat) :
    ∃ x, t.sample proc feature time = .ok x := by
  unfold Tensor.sample
  split
  · next hbounds =>
    obtain ⟨hproc, hfeature, htime⟩ := hbounds
    obtain ⟨index, hindex, hcell⟩ := ht.cellIndex hc hproc hfeature htime
    refine ⟨t.history[index], ?_⟩
    simp only [hcell, bind, Except.bind, Array.getElem?_eq_getElem hindex]
  · exact ⟨_, rfl⟩

theorem Shaped.call (ht : t.Shaped c) (hc : c.Accepted) (call : TensorCall) :
    ∃ t' answer, t.call call = .returned t' answer ∧ t'.Shaped c ∧ t'.active = t.active := by
  cases call with
  | advance now =>
    obtain ⟨t', slot, hadvance, ht', hactive⟩ := ht.advance hc now
    exact ⟨t', .slot slot, by simp only [Tensor.call, hadvance], ht', hactive⟩
  | sample proc feature time =>
    obtain ⟨x, hx⟩ := ht.sample hc proc feature time
    exact ⟨t, .sample x, by simp only [Tensor.call, hx]; rfl, ht, rfl⟩
  | slot | timestamp | timestamps | info => exact ⟨t, _, rfl, ht, rfl⟩

end Tensor

namespace Core

variable {core : Core n}

structure Shaped (c : Config) (core : Core n) : Prop where
  labels : core.buckets.map Bucket.label =
    (List.range c.levels).map fun level => (level, threshold level c.levels)
  tensor : core.tensor.Shaped c

theorem Shaped.length (h : core.Shaped c) : core.buckets.length = c.levels := by
  have hlength := congrArg List.length h.labels
  simpa only [List.length_map, List.length_range] using hlength

theorem Shaped.label {level : Nat} {b : Bucket n} (h : core.Shaped c)
    (hb : core.buckets[level]? = some b) :
    level < c.levels ∧ b.level = level ∧ b.threshold = threshold level c.levels := by
  obtain ⟨hlevel, rfl⟩ := List.getElem?_eq_some_iff.mp hb
  have hlabel := List.getElem_of_eq h.labels (i := level) (by simpa using hlevel)
  simp only [List.getElem_map, List.getElem_range, Bucket.label, Prod.mk.injEq] at hlabel
  exact ⟨h.length ▸ hlevel, hlabel⟩

theorem build_eq (hc : c.Accepted) : ∃ core : Core n, core.Shaped c ∧ core.tensor.active = 0 ∧
    build c = (Word.reserve c.levels bucketBytes).map fun _ => core := by
  obtain ⟨t, ht, hshaped, hactive⟩ := Tensor.create_shaped hc
  refine ⟨⟨emptyBuckets c.levels, t⟩, ⟨?_, hshaped⟩, hactive, ?_⟩
  · simp [emptyBuckets, Function.comp_def, Bucket.label]
  · rw [build, ht]
    cases Word.reserve c.levels bucketBytes <;> rfl

theorem shaped_of_build (hc : c.Accepted) (h : build c = .ok core) :
    core.Shaped c ∧ core.tensor.active = 0 := by
  obtain ⟨core', hshaped, hactive, hbuild⟩ := build_eq (n := n) hc
  rw [hbuild] at h
  cases hroom : Word.reserve c.levels bucketBytes with
  | error fault =>
    rw [hroom] at h
    cases h
  | ok =>
    rw [hroom] at h
    cases h
    exact ⟨hshaped, hactive⟩

theorem build_of_room (hc : c.Accepted) (hroom : bucketBytes * c.levels ≤ Word.maxBytes) :
    ∃ core : Core n, core.Shaped c ∧ core.tensor.active = 0 ∧ build c = .ok core := by
  obtain ⟨core, hshaped, hactive, hbuild⟩ := build_eq (n := n) hc
  rw [Word.reserve_eq_ok hroom] at hbuild
  exact ⟨core, hshaped, hactive, hbuild⟩

end Core

namespace Allocator

variable {k m : Nat} {core core' : Core n}

def active (x : Allocator n) : Nat := (x.core?.map (·.tensor.active)).getD 0

structure Shaped (x : Allocator n) : Prop where
  config : x.config.Accepted
  core : ∀ core, x.core? = some core → core.Shaped x.config

/-- What calls that track `k` processes at most can do to an allocator. Its start fails only if its core
cannot be built. -/
structure Evolves (k : Nat) (x y : Allocator n) : Prop where
  config : y.config = x.config
  shaped : x.Shaped → y.Shaped
  active : x.Shaped → y.active ≤ x.active + k
  unbroken : y.startup = .failed → x.startup = .failed ∨
    ∀ core : Core n, Core.build x.config ≠ .ok core

/-- No call that tracks `k` processes at most faults on such an allocator. -/
structure Sturdy (k : Nat) (x : Allocator n) : Prop where
  shaped : x.Shaped
  unbroken : x.startup ≠ .failed
  room : Core.bucketBytes * x.config.levels ≤ Word.maxBytes
  active : x.active + k < Word.limit

theorem Sturdy.mono (h : x.Sturdy m) (hk : k ≤ m) : x.Sturdy k :=
  ⟨h.shaped, h.unbroken, h.room, Nat.lt_of_le_of_lt (Nat.add_le_add_left hk _) h.active⟩

theorem active_of_core? (h : x.core? = some core) : x.active = core.tensor.active := by
  rw [active, h]
  rfl

theorem Evolves.refl (x : Allocator n) : x.Evolves 0 x := ⟨rfl, id, fun _ => Nat.le_refl _, .inl⟩

theorem Evolves.trans (h : x.Evolves k y) (h' : y.Evolves m z) : x.Evolves (k + m) z := by
  refine ⟨h'.config.trans h.config, fun hx => h'.shaped (h.shaped hx), fun hx => ?_,
    fun hz => ?_⟩
  · have := h.active hx
    have := h'.active (h.shaped hx)
    omega
  · rcases h'.unbroken hz with hy | hbuild
    · exact h.unbroken hy
    · exact .inr (h.config ▸ hbuild)

theorem Evolves.mono (h : x.Evolves k y) (hk : k ≤ m) : x.Evolves m y :=
  ⟨h.config, h.shaped, fun hx => Nat.le_trans (h.active hx) (by omega), h.unbroken⟩

theorem Evolves.sturdy (h : x.Evolves k y) (hx : x.Sturdy (k + m)) : y.Sturdy m := by
  refine ⟨h.shaped hx.shaped, fun hy => ?_, h.config ▸ hx.room, ?_⟩
  · rcases h.unbroken hy with hfailed | hbuild
    · exact hx.unbroken hfailed
    · obtain ⟨core, _, _, hcore⟩ := Core.build_of_room (n := n) hx.shaped.config hx.room
      exact hbuild core hcore
  · have := h.active hx.shaped
    have := hx.active
    omega

theorem evolves_of_startup (hc : y.config = x.config) (hs : y.startup = x.startup) :
    x.Evolves 0 y := by
  have hcore : y.core? = x.core? := by rw [core?, hs, core?]
  refine ⟨hc, fun hx => ⟨hc ▸ hx.config, fun core h => ?_⟩, fun _ => ?_,
    fun hy => .inl (hs ▸ hy)⟩
  · rw [hc]
    exact hx.core core (hcore ▸ h)
  · rw [active, active, hcore]
    exact Nat.le_refl _

theorem Evolves.same (h : x.Evolves k y) (hc : z.config = y.config) (hs : z.startup = y.startup) :
    x.Evolves k z :=
  h.trans (evolves_of_startup hc hs)

theorem evolves_withCore (h : x.core? = some core)
    (h' : x.config.Accepted → core.Shaped x.config →
      core'.Shaped x.config ∧ core'.tensor.active ≤ core.tensor.active + k) :
    x.Evolves k (x.withCore core') := by
  refine ⟨rfl, fun hx => ⟨hx.config, fun core₁ h₁ => ?_⟩, fun hx => ?_, fun hy => by cases hy⟩
  · cases h₁
    exact (h' hx.config (hx.core core h)).1
  · rw [active_of_core? h]
    exact (h' hx.config (hx.core core h)).2

theorem evolves_of_labels {bs : List (Bucket n)} (h : x.core? = some core)
    (hlabels : bs.map Bucket.label = core.buckets.map Bucket.label) :
    x.Evolves 0 (x.withCore { core with buckets := bs }) :=
  evolves_withCore h fun _ hcore => ⟨⟨hlabels.trans hcore.labels, hcore.tensor⟩, Nat.le_refl _⟩

theorem evolves_of_tensor {t : Tensor} (h : x.core? = some core)
    (ht : x.config.Accepted → core.tensor.Shaped x.config →
      t.Shaped x.config ∧ t.active ≤ core.tensor.active + k) :
    x.Evolves k (x.withCore { core with tensor := t }) :=
  evolves_withCore h fun hc hcore =>
    ⟨⟨hcore.labels, (ht hc hcore.tensor).1⟩, (ht hc hcore.tensor).2⟩

end Allocator

end AttentionScheduler
