import AttentionScheduler.Proofs.Refreshing
import AttentionScheduler.Proofs.Spacing

/-!
A refresh measures the load and the priority of a process as shares of a whole. Both are rounded twice, on
the way to single precision and as a quotient, and still keep their order. A share is full from the whole
on, and up to a whole of `2 ^ 24` nothing less rounds to a full one.
-/

namespace AttentionScheduler

open Magnitude

namespace Single

/-- So many parts of a whole, and never more than all of it. -/
def share (parts whole : UInt32) : Single := (ofNat parts.toNat / ofNat whole.toNat).clampUnit

variable {parts parts' whole whole' : UInt32}

theorem toNat_pos_of_ne_zero (h : whole ≠ 0) : 0 < whole.toNat :=
  Nat.pos_of_ne_zero fun hzero => h (UInt32.toNat_inj.mp hzero)

theorem share_eq (h : whole ≠ 0) :
    share parts whole = (num false (ratio parts.toNat whole.toNat)).clampUnit := by
  have hword : UInt32.size < UInt64.size := by decide
  have hparts := parts.toNat_lt_size
  have hwhole := whole.toNat_lt_size
  rw [share, ofNat_div_ofNat (by omega) (toNat_pos_of_ne_zero h) (by omega)]

theorem share_mono (h : whole ≠ 0) (h' : whole' ≠ 0) (hparts : parts ≤ parts')
    (hwhole : whole' ≤ whole) : share parts whole ≤ share parts' whole' := by
  rw [share_eq h, share_eq h']
  refine clampUnit_mono (nonneg_num.mpr nofun) ?_
  rw [positive_le]
  exact ratio_mono (toNat_pos_of_ne_zero h) (toNat_pos_of_ne_zero h') hparts hwhole

theorem share_eq_one_iff (h : whole ≠ 0) :
    share parts whole = one ↔ one.magnitude ≤ ratio parts.toNat whole.toNat := by
  rw [share_eq h, clampUnit_positive]
  split
  · next hle =>
    rw [one, num.injEq]
    refine ⟨fun heq => heq.2 ▸ Fin.le_refl _, fun hge => ⟨rfl, ?_⟩⟩
    exact Fin.le_antisymm hle hge
  · next hgt => exact iff_of_true rfl (Nat.le_of_not_le hgt)

theorem share_full (h : whole ≠ 0) (hparts : whole ≤ parts) : share parts whole = one := by
  have hpos := toNat_pos_of_ne_zero h
  rw [share_eq_one_iff h, ← ratio_self hpos]
  exact ratio_mono hpos hpos hparts (Nat.le_refl _)

theorem share_full_iff (h : whole ≠ 0) (hwhole : whole ≤ 0x1000000) :
    share parts whole = one ↔ whole ≤ parts := by
  refine ⟨fun hone => ?_, share_full h⟩
  rw [share_eq_one_iff h] at hone
  by_contra hparts
  have hless : parts.toNat < whole.toNat := Nat.lt_of_not_le hparts
  exact absurd hone (Fin.not_le.mpr (ratio_lt_one hless hwhole))

end Single

theorem Config.priorityLevels_of_validate {c : Config} (h : c.validate = .ok ()) :
    c.priorityLevels ≠ 0 := by
  obtain ⟨-, h⟩ := passed h
  obtain ⟨-, h⟩ := passed h
  obtain ⟨-, h⟩ := passed h
  exact (passed h).1

namespace Session

open Single (share)

/-- A refresh that is due writes the share of the processor in thousandths and that of the priority in
the priority levels. More load and more priority never give less, more levels never give more. -/
theorem refreshes_in_shares :
    (∀ cpu cpu' : UInt32, cpu ≤ cpu' → share cpu 1000 ≤ share cpu' 1000) ∧
    (∀ cpu : UInt32, share cpu 1000 = .one ↔ 1000 ≤ cpu) ∧
    (∀ levels : UInt32, levels ≠ 0 → ∀ priority priority', priority ≤ priority' →
      share priority levels ≤ share priority' levels) ∧
    (∀ levels levels' : UInt32, levels ≠ 0 → levels ≤ levels' → ∀ priority,
      share priority levels' ≤ share priority levels) ∧
    (∀ levels priority : UInt32, levels ≠ 0 → levels ≤ priority → share priority levels = .one) ∧
    (∀ levels priority : UInt32, levels ≠ 0 → levels ≤ 0x1000000 →
      share priority levels = .one → levels ≤ priority) ∧
    ∀ {n : Nat} {os : List Opening} {queues : List (Nat × Single)} {ps : Vector (UInt64 × Bool) n}
      {es : List (Event n)} {s : Session n} {a : Nat} {x : Allocator n} {p : Fin n},
      (fresh os queues (freshRoster ps)).Leads es s → s.allocator? a = some x →
      s.procs[p].cognitive = true → (s.clockOf a).now ≠ s.procs[p].vector.lastUpdate →
      x.config.priorityLevels ≠ 0 ∧ ∃ d, s.call (.host a (.refresh p)) = .ok d ∧
        d.session.procs[p].vector.get Feature.load.index = share s.procs[p].cpu 1000 ∧
        d.session.procs[p].vector.get Feature.priority.index =
          share s.procs[p].priority x.config.priorityLevels := by
  have hthousand : (1000 : UInt32) ≠ 0 := by decide
  refine ⟨fun cpu cpu' h => Single.share_mono hthousand hthousand h (by decide),
    fun cpu => Single.share_full_iff hthousand (by decide),
    fun levels hlevels priority priority' h => Single.share_mono hlevels hlevels h (Nat.le_refl _),
    fun levels levels' hlevels h priority => ?_,
    fun levels priority hlevels h => Single.share_full hlevels h,
    fun levels priority hlevels hsmall => (Single.share_full_iff hlevels hsmall).mp, ?_⟩
  · have hlevels' : levels' ≠ 0 := by
      rintro rfl
      exact hlevels (UInt32.le_antisymm h UInt32.zero_le)
    exact Single.share_mono hlevels' hlevels (Nat.le_refl _) h
  · intro n os queues ps es s a x p h hx hcog hdue
    obtain ⟨seat, hseat, rfl⟩ := seat_of_allocator? hx
    have hvalid := h.validated hx
    have hshaped := h.shaped hx
    have hrefreshes := refreshes_of_due (p := p) hseat hshaped hvalid
    exact ⟨Config.priorityLevels_of_validate hvalid, _,
      call_of_refresh hseat (Host.refresh_of_due hshaped hcog hdue), hrefreshes.load,
      hrefreshes.priority⟩

/-- With one level more than `2 ^ 24` a priority that is one short of them all counts as all of them. -/
theorem refreshes_in_shares_past_the_grid : ∃ es, ∃ s : Session 1, ∃ d,
    (fresh [{ hz := 1000, config? := some { priorityLevels := 0x1000001 } }] []
      (freshRoster #v[(7, true)])).Leads es s ∧
    s.call (.host 0 (.refresh 0)) = .ok d ∧
    d.session.procs[(0 : Fin 1)].vector.get Feature.load.index ≠ .one ∧
    d.session.procs[(0 : Fin 1)].vector.get Feature.load.index ≤ share 1000 1000 ∧
    share 1000 1000 = .one ∧
    d.session.procs[(0 : Fin 1)].vector.get Feature.priority.index = .one ∧
    d.session.procs[(0 : Fin 1)].vector.get Feature.priority.index ≤ share 0x1000001 0x1000000 ∧
    (share 0xffffff 0x1000000 = .one → (0x1000000 : UInt32) ≤ 0xffffff) := by
  let s₀ : Session 1 := fresh [{ hz := 1000, config? := some { priorityLevels := 0x1000001 } }] []
    (freshRoster #v[(7, true)])
  obtain ⟨s, h, hend⟩ := exists_leads s₀
    [.call (.record 0 (.setCpu 999)), .call (.record 0 (.setPriority 0x1000000)),
      .call (.clock 0 (.set 5))]
    (fun s => ((s.allocator? 0).map (·.config.priorityLevels), (s.clockOf 0).now,
      s.procs[(0 : Fin 1)].cognitive, s.procs[(0 : Fin 1)].vector.lastUpdate,
      s.procs[(0 : Fin 1)].cpu, s.procs[(0 : Fin 1)].priority))
    (x := (some 0x1000001, 5, true, 0, 999, 0x1000000)) (by decide +kernel)
  simp only [Prod.mk.injEq] at hend
  obtain ⟨hlevels, hnow, hcog, hstamp, hcpu, hpriority⟩ := hend
  obtain ⟨x, hx, hlevels⟩ := Option.map_eq_some_iff.mp hlevels
  obtain ⟨hload, hfull, hmore, hfewer, hwhole, hless, hrefresh⟩ := refreshes_in_shares
  obtain ⟨-, d, hd, hload₀, hpriority₀⟩ := hrefresh h hx hcog (by rw [hnow, hstamp]; decide)
  rw [hcpu] at hload₀
  rw [hpriority, hlevels] at hpriority₀
  have hrounded : share 0x1000000 0x1000001 = .one := by decide +kernel
  refine ⟨_, s, d, h, hd, ?_, ?_, hwhole 1000 1000 (by decide) (by decide), hpriority₀.trans hrounded,
    ?_, hless 0x1000000 0xffffff (by decide) (by decide)⟩
  · rw [hload₀, ne_eq, hfull]
    decide
  · rw [hload₀]
    exact hload 999 1000 (by decide)
  · rw [hpriority₀]
    exact Single.le_trans (hfewer 0x1000000 0x1000001 (by decide) (by decide) 0x1000000)
      (hmore 0x1000000 (by decide) 0x1000000 0x1000001 (by decide))

end Session

end AttentionScheduler
