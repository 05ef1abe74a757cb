import AttentionScheduler.Proofs.Acceptance

/-!
What a start can build for a configuration that was accepted. The size of the history is checked
beforehand and never stands in the way. The number of buckets is not: a start succeeds if the buckets
fit into what may be reserved, and otherwise it breaks off and can never be repeated.
-/

namespace AttentionScheduler

variable {n : Nat} {c : Config}

/-- Empty buckets for all the levels, and a history in which nothing has been written. -/
structure Core.Founded (c : Config) (core : Core n) : Prop where
  levels : core.buckets.length = c.attentionLevels.toNat
  bucket : ∀ level < c.attentionLevels.toNat, core.buckets[level]? =
    some { level, threshold := threshold level c.attentionLevels.toNat
           members := [], count := 0, held := false }
  tensor : core.tensor = .zeroed c.maxProcs.toNat c.timeWindow.toNat
    (c.maxProcs.toNat * 8 * c.timeWindow.toNat)

namespace Config

theorem cells_of_validate (h : c.validate = .ok ()) :
    0 < c.maxProcs.toNat ∧ 0 < c.timeWindow.toNat ∧ c.cells ≤ 2 ^ 32 - 1 := by
  obtain ⟨hmet, hcells⟩ := (judges_validate c).accepted.mp h
  exact ⟨hmet ("max_procs", _) (by simp [demands]), hmet ("time_window", _) (by simp [demands]),
    hcells⟩

theorem tensorCells_of_validate (h : c.validate = .ok ()) : c.tensorCells = some c.cells := by
  obtain ⟨-, hwindow, hcells⟩ := cells_of_validate h
  have hrows : c.maxProcs.toNat * Feature.count ≤ c.cells := Nat.le_mul_of_pos_right _ hwindow
  rw [tensorCells_eq, if_pos (by omega)]

theorem bytes_of_validate (h : c.validate = .ok ()) :
    4 * c.cells ≤ 2 ^ 63 - 1 ∧ 8 * c.timeWindow.toNat ≤ 2 ^ 63 - 1 := by
  obtain ⟨hprocs, -, hcells⟩ := cells_of_validate h
  have hwindow : c.timeWindow.toNat ≤ c.cells :=
    Nat.le_mul_of_pos_left _ (Nat.mul_pos hprocs (by decide))
  omega

end Config

namespace Core

theorem exists_founded (h : c.validate = .ok ()) : ∃ core : Core n, core.Founded c ∧
    build c = (Word.reserve c.levels bucketBytes).map fun _ => core := by
  have hcells := Config.bytes_of_validate h
  have hmakes := (Tensor.makes_create c).made c.cells (Config.tensorCells_of_validate h)
    hcells.1 hcells.2
  refine ⟨⟨emptyBuckets c.levels, _⟩, ⟨?_, fun level hlevel => ?_, rfl⟩, ?_⟩
  · simp [emptyBuckets, Config.levels]
  · rw [emptyBuckets, List.getElem?_map, List.getElem?_range (show level < c.levels from hlevel)]
    rfl
  · rw [build, hmakes]
    cases Word.reserve c.levels bucketBytes <;> rfl

end Core

namespace Host

def opened (h : Host n) (core : Core n) : Host n :=
  let c := h.allocator.config
  (h.withAllocator (·.begun core)).say
    (.started c.levels c.maxProcs.toNat c.timeWindow.toNat c.attentionBudget)

def spoiled (h : Host n) : Host n := h.withAllocator fun a => { a with startup := .failed }

/-- The first start builds this core, asked for outright or by a process that is made ready. -/
structure Founds (h : Host n) (clock : Clock) (core : Core n) : Prop where
  start : h.start = .returned (h.opened core) core
  call : h.call clock .start = .returned (h.opened core) (.started true)
  ready : ∀ p : Fin n, h.procs[p].cognitive = true → h.ready p = (h.opened core).ready p

/-- The first start breaks off, in either way. -/
structure Fails (h : Host n) (clock : Clock) (fault : Fault) : Prop where
  start : h.start = .faulted h.spoiled fault
  call : h.call clock .start = .faulted h.spoiled fault
  ready : ∀ p : Fin n, h.procs[p].cognitive = true → h.ready p = .faulted h.spoiled fault

variable {h : Host n}

theorem founds_of_build (hpending : h.allocator.startup = .pending) {core : Core n}
    (hbuild : Core.build h.allocator.config = .ok core) (clock : Clock) :
    h.Founds clock core := by
  have hstart : h.start = .returned (h.opened core) core := by
    simp only [start, hpending, hbuild]
    rfl
  refine ⟨hstart, ?_, fun p hcog => ?_⟩
  · rw [call, hstart]
    rfl
  · have hcog' : (h.opened core).procs[p].cognitive = true := hcog
    rw [ready, if_pos hcog, hstart, ready, if_pos hcog']
    rfl

theorem fails_of_build (hpending : h.allocator.startup = .pending) {fault : Fault}
    (hbuild : (Core.build h.allocator.config : Except Fault (Core n)) = .error fault)
    (clock : Clock) : h.Fails clock fault := by
  have hstart : h.start = .faulted h.spoiled fault := by
    simp only [start, hpending, hbuild]
    rfl
  refine ⟨hstart, ?_, fun p hcog => ?_⟩
  · rw [call, hstart]
    rfl
  · rw [ready, if_pos hcog, hstart]
    rfl

/-- The history and the stamps of an accepted configuration always fit. Whether the first start succeeds
is decided by the room that the buckets take. -/
theorem start_of_accepted (h : Host n) (clock : Clock)
    (hc : h.allocator.config.validate = .ok ()) (hpending : h.allocator.startup = .pending) :
    let c := h.allocator.config
    4 * (c.maxProcs.toNat * 8 * c.timeWindow.toNat) ≤ 2 ^ 63 - 1 ∧
    8 * c.timeWindow.toNat ≤ 2 ^ 63 - 1 ∧
    (64 * c.attentionLevels.toNat ≤ 2 ^ 63 - 1 → ∃ core, core.Founded c ∧ h.Founds clock core) ∧
    (2 ^ 63 - 1 < 64 * c.attentionLevels.toNat → h.Fails clock .capacityOverflow) := by
  intro c
  obtain ⟨hhistory, hstamps⟩ := Config.bytes_of_validate hc
  obtain ⟨core, hfounded, hbuild⟩ := Core.exists_founded (n := n) hc
  refine ⟨hhistory, hstamps, fun hroom => ?_, fun hroom => ?_⟩
  · have hbytes : Core.bucketBytes * h.allocator.config.levels ≤ Word.maxBytes := hroom
    rw [Word.reserve_eq_ok hbytes] at hbuild
    exact ⟨core, hfounded, founds_of_build hpending hbuild clock⟩
  · have hbytes : Word.maxBytes < Core.bucketBytes * h.allocator.config.levels := hroom
    rw [Word.reserve_eq_error hbytes] at hbuild
    exact fails_of_build hpending hbuild clock

def unopened (c : Config) : Host 1 := ⟨{ config := c }, #v[{ pid := 0, cognitive := true }], []⟩

/-- As many levels as can be asked for: a single byte for each bucket would be too much. -/
def crowded : Config := { attentionLevels := 0xffffffffffffffff }

theorem start_of_accepted_levels :
    ({} : Config).validate = .ok () ∧ crowded.validate = .ok () ∧
    2 ^ 63 - 1 < crowded.attentionLevels.toNat ∧
    (∃ core, core.Founded {} ∧ (unopened {}).Founds { hz := 1000 } core) ∧
    (unopened crowded).Fails { hz := 1000 } .capacityOverflow := by
  have hcrowded : crowded.validate = .ok () := rfl
  have hroomy := start_of_accepted (unopened {}) { hz := 1000 } Config.validate_default rfl
  have hfull := start_of_accepted (unopened crowded) { hz := 1000 } hcrowded rfl
  exact ⟨Config.validate_default, hcrowded, by decide, hroomy.2.2.1 (by decide),
    hfull.2.2.2 (by decide)⟩

theorem not_founds_all_accepted : ¬ ∀ h : Host 1, h.allocator.config.validate = .ok () →
    h.allocator.startup = .pending → ∃ core, h.start = .returned (h.opened core) core := by
  intro hall
  obtain ⟨core, hstart⟩ := hall (unopened crowded) rfl rfl
  have hfails : (unopened crowded).start = .faulted (unopened crowded).spoiled .capacityOverflow := rfl
  rw [hfails] at hstart
  cases hstart

end Host

end AttentionScheduler
