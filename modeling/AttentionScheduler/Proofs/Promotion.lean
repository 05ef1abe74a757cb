import AttentionScheduler.Proofs.Arithmetic
import AttentionScheduler.Proofs.Clamping
import AttentionScheduler.Proofs.SessionEvolution

/-!
Greater signals never give a smaller score, and a greater score never a lower bucket. Every rounding on
the way keeps the order, and the boost of an emergent process only adds to it.
-/

namespace AttentionScheduler

variable {n : Nat}

namespace Single

variable {x y : Single}

theorem InUnit.nonneg (h : x.InUnit) : zero ≤ x := by
  rcases inUnit_iff.mp h with ⟨m, _, rfl⟩ | rfl
  · exact nonneg_num.mpr nofun
  · decide

theorem InUnit.le_one (h : x.InUnit) : x ≤ one := by
  rcases inUnit_iff.mp h with ⟨m, hm, rfl⟩ | rfl
  · rw [one, num_le_num]
    exact Int.ofNat_le.mpr hm
  · decide

theorem InUnit.ne_infinity (h : x.InUnit) : x.magnitude ≠ Magnitude.infinity :=
  ne_infinity_of_le h.nonneg h.le_one (by decide)

end Single

namespace Score

open Single

variable {f g : Signals} {x y : Single}

theorem weight_nonneg (i : Feature) : zero ≤ i.weight := by
  cases i <;> decide

theorem weight_ne_infinity (i : Feature) : i.weight.magnitude ≠ Magnitude.infinity := by
  cases i <;> decide

theorem sum_mono (hf : ∀ i, (f.get i).InUnit) (hg : ∀ i, (g.get i).InUnit)
    (hfg : ∀ i, f.get i ≤ g.get i) (is : List Feature) (hx : zero ≤ x) (hxy : x ≤ y) :
    zero ≤ is.foldl (fun sum i => sum + f.get i.index * i.weight) x ∧
      is.foldl (fun sum i => sum + f.get i.index * i.weight) x ≤
        is.foldl (fun sum i => sum + g.get i.index * i.weight) y := by
  induction is generalizing x y with
  | nil => exact ⟨hx, hxy⟩
  | cons i is ih =>
    have hproduct : f.get i.index * i.weight ≤ g.get i.index * i.weight :=
      mul_le_mul_right (hf i.index).nonneg (weight_nonneg i) (hfg i.index) (hg i.index).ne_infinity
        (weight_ne_infinity i)
    have hpositive : zero ≤ f.get i.index * i.weight :=
      (mul_of_nonneg (hf i.index).nonneg (weight_nonneg i) (hf i.index).ne_infinity
        (weight_ne_infinity i)).1
    exact ih (add_of_nonneg hx hpositive).1 (add_le_add hx hpositive hxy hproduct)

theorem weightedSum_mono (hf : ∀ i, (f.get i).InUnit) (hg : ∀ i, (g.get i).InUnit)
    (hfg : ∀ i, f.get i ≤ g.get i) :
    zero ≤ weightedSum f ∧ weightedSum f ≤ weightedSum g :=
  sum_mono hf hg hfg Feature.all (by decide) (by decide)

/-- The sum of eight ones bounds every other one, and it is finite. -/
theorem weightedSum_ne_infinity (hf : ∀ i, (f.get i).InUnit) :
    (weightedSum f).magnitude ≠ Magnitude.infinity := by
  let ones : Signals := .replicate 8 one
  have hones : ∀ i, ones.get i = one := fun i => Vector.getElem_replicate i.isLt
  have hle : ∀ i, f.get i ≤ ones.get i := fun i => hones i ▸ (hf i).le_one
  obtain ⟨hpos, hsum⟩ := weightedSum_mono hf (fun i => hones i ▸ .inl (by decide)) hle
  exact ne_infinity_of_le hpos hsum (by decide)

theorem le_boost (hx : zero ≤ x) (hm : x.magnitude ≠ Magnitude.infinity) : x ≤ x * emergentBoost :=
  le_mul_of_one_le hx (by decide) hm (by decide)

theorem attention_mono (hf : ∀ i, (f.get i).InUnit) (hg : ∀ i, (g.get i).InUnit)
    (hfg : ∀ i, f.get i ≤ g.get i) : attention f ≤ attention g := by
  obtain ⟨hpos, hsum⟩ := weightedSum_mono hf hg hfg
  have hfinite := weightedSum_ne_infinity hg
  have hboost : weightedSum f * emergentBoost ≤ weightedSum g * emergentBoost :=
    mul_le_mul_right hpos (by decide) hsum hfinite (by decide)
  have hraised : weightedSum g ≤ weightedSum g * emergentBoost :=
    le_boost (le_trans hpos hsum) hfinite
  have hboosted : zero ≤ weightedSum f * emergentBoost :=
    (mul_of_nonneg hpos (by decide) (weightedSum_ne_infinity hf) (by decide)).1
  rw [attention, attention]
  by_cases hemergent : emergentThreshold < f[Feature.emergent.index]
  · have hemergent' : emergentThreshold < g[Feature.emergent.index] :=
      lt_of_lt_of_le hemergent (hfg Feature.emergent.index)
    rw [if_pos hemergent, if_pos hemergent']
    exact clampUnit_mono hboosted hboost
  · rw [if_neg hemergent]
    split
    · exact clampUnit_mono hpos (le_trans hsum hraised)
    · exact clampUnit_mono hpos hsum

end Score

namespace Level

variable {levels left level level' : Nat} {x y : Single}

theorem le_firstMet (h : firstMet levels x left = some level) : levels - left ≤ level := by
  induction left with
  | zero => cases h
  | succ left ih =>
    rw [firstMet] at h
    split at h
    · cases h
      exact Nat.le_refl _
    · have := ih h
      omega

theorem firstMet_antitone (hxy : x ≤ y) (h : firstMet levels x left = some level) :
    ∃ level' ≤ level, firstMet levels y left = some level' := by
  induction left with
  | zero => cases h
  | succ left ih =>
    have hfirst := le_firstMet h
    rw [firstMet] at h ⊢
    split at h
    · next hx =>
      cases h
      exact ⟨_, Nat.le_refl _, if_pos (Single.le_trans hx hxy)⟩
    · split
      · exact ⟨_, hfirst, rfl⟩
      · exact ih h

theorem ofScore_antitone (hxy : x ≤ y) (hx : ofScore levels x = .ok level)
    (hy : ofScore levels y = .ok level') : level' ≤ level := by
  rw [ofScore] at hx hy
  cases hmet : firstMet levels x levels with
  | some l =>
    obtain ⟨l', hle, hmet'⟩ := firstMet_antitone hxy hmet
    rw [hmet] at hx
    rw [hmet'] at hy
    cases hx
    cases hy
    exact hle
  | none =>
    simp only [hmet] at hx
    cases hmet' : firstMet levels y levels with
    | none =>
      simp only [hmet'] at hy
      exact Nat.le_of_eq (Except.ok.inj (hy.symm.trans hx))
    | some l =>
      simp only [hmet'] at hy
      cases hy
      have hlt := firstMet_lt (Nat.le_refl _) hmet'
      rw [Word.sub_eq_ok (Nat.one_le_of_lt hlt)] at hx
      cases hx
      exact Nat.le_sub_one_of_lt hlt

end Level

namespace Session

variable {s t : Session n} {a level : Nat} {p : Fin n} {d : Done n} {es : List (Event n)}
  {os : List Opening} {queues : List (Nat × Single)} {ps : Vector (UInt64 × Bool) n}

theorem Does.scored_of_filed (hs : s.files.Sound) (hd : s.Does (.host a (.ready p)) d)
    (hf : Event.filed? ⟨s, .host a (.ready p), d⟩ = some level) :
    d.session.procs[p].mark = some level ∧ ∃ x, s.allocator? a = some x ∧
      Level.ofScore x.config.levels (Score.attention s.procs[p].vector.signals) = .ok level := by
  cases hd with
  | aside kind => cases kind
  | host seated does =>
    cases does with
    | quiet kind => cases kind
    | faulted counters edits => cases hf
    | ignored plain =>
      rw [filed?_of_plain plain] at hf
      cases hf
    | refused cognitive counters absent edits marked =>
      rw [filed?_of_absent seated absent] at hf
      cases hf
    | filed cognitive counters scored there edits =>
      rw [filed?_of_there seated cognitive there] at hf
      cases hf
      have hedits := edits_putHost seated edits
      rw [← List.append_assoc] at hedits
      exact ⟨(hs.mark_of_link hedits).1, _, allocator?_of_seat seated, scored⟩
    | contended kind | notFound kind | removed kind => rcases kind with kind | kind <;> cases kind

/-- Where a process that was made ready has been filed, the level is that of the signals it had. -/
theorem Leads.scored_of_filed (h : (fresh os queues (freshRoster ps)).Leads es t) {e : Event n}
    (he : e ∈ es) (hc : e.call = .host a (.ready p)) (hf : e.filed? = some level) :
    e.done.session.procs[p].mark = some level ∧
      ∃ x, (fresh os queues (freshRoster ps)).allocator? a = some x ∧
        Level.ofScore x.config.levels (Score.attention e.before.procs[p].vector.signals) =
          .ok level := by
  obtain ⟨⟨past, hbefore⟩, hcall⟩ := h.call_of_mem he
  have hs : e.before.files.Sound := hbefore.sound (fresh_sound os queues ps)
  obtain ⟨s, c, d⟩ := e
  subst hc
  obtain ⟨hmark, y, hy, hscored⟩ := (call_does hs (by simp) hcall).scored_of_filed hs hf
  obtain ⟨x, hx, hevolves⟩ := hbefore.evolves a y hy
  rw [hevolves.config] at hscored
  exact ⟨hmark, x, hx, hscored⟩

theorem Leads.clamped_of_fresh (h : (fresh os queues (freshRoster ps)).Leads es t) (p : Fin n) :
    t.procs[p].vector.Clamped := by
  refine h.clamped (fun q => ?_) p
  have hfresh : (fresh os queues (freshRoster ps)).procs[q].vector = {} := vector_freshRoster ps q
  rw [hfresh]
  exact FeatureVector.clamped_default

/-- Of two records the one whose signals are all at least as great has the greater score or the same. If
an allocator files both, it does not come after the other. -/
theorem Leads.promotes (h : (fresh os queues (freshRoster ps)).Leads es t) :
    (∀ f g : Signals, (∀ i, (f.get i).InUnit) → (∀ i, (g.get i).InUnit) →
      (∀ i, f.get i ≤ g.get i) → Score.attention f ≤ Score.attention g) ∧
    ∀ e ∈ es, ∀ e' ∈ es, ∀ a p q level level', e.call = .host a (.ready p) →
      e'.call = .host a (.ready q) → e.filed? = some level → e'.filed? = some level' →
      (∀ i, e'.before.procs[q].vector.signals.get i ≤ e.before.procs[p].vector.signals.get i) →
      e.done.session.procs[p].mark = some level ∧ e'.done.session.procs[q].mark = some level' ∧
        level ≤ level' := by
  refine ⟨fun f g hf hg hfg => Score.attention_mono hf hg hfg, ?_⟩
  intro e he e' he' a p q level level' hc hc' hf hf' hsignals
  obtain ⟨hmark, x, hx, hscored⟩ := h.scored_of_filed he hc hf
  obtain ⟨hmark', x', hx', hscored'⟩ := h.scored_of_filed he' hc' hf'
  cases hx.symm.trans hx'
  have clamped {e : Event n} (he : e ∈ es) (p : Fin n) : e.before.procs[p].vector.Clamped := by
    obtain ⟨⟨past, hbefore⟩, _⟩ := h.call_of_mem he
    exact hbefore.clamped_of_fresh p
  refine ⟨hmark, hmark', Level.ofScore_antitone ?_ hscored' hscored⟩
  exact Score.attention_mono (clamped he' q).signals (clamped he p).signals hsignals

theorem promotes_past_the_boost : ∃ es, ∃ t : Session 2, ∃ e ∈ es, ∃ e' ∈ es,
    (fresh [{ hz := 1000 }] [] (freshRoster (.ofFn fun p => (.ofNat p, true)))).Leads es t ∧
    e.before.procs[(0 : Fin 2)].vector.signals.get Feature.emergent.index = .ofBits 0x3f000001 ∧
    e'.before.procs[(1 : Fin 2)].vector.signals.get Feature.emergent.index = .ofBits 0x3f000000 ∧
    Score.attention e'.before.procs[(1 : Fin 2)].vector.signals ≤
      Score.attention e.before.procs[(0 : Fin 2)].vector.signals ∧
    e.done.session.procs[(0 : Fin 2)].mark = some 0 ∧
    e'.done.session.procs[(1 : Fin 2)].mark = some 1 := by
  let s : Session 2 := fresh [{ hz := 1000 }] [] (freshRoster (.ofFn fun p => (.ofNat p, true)))
  let below : Signals := (Vector.replicate 8 .one).set 7 (.ofBits 0x3f000000)
  let above : Signals := (Vector.replicate 8 .one).set 7 (.ofBits 0x3f000001)
  let feed (p : Fin 2) (v : Signals) : List (Call 2) :=
    (List.finRange 8).map fun i : Fin 8 => .host 0 (.setFeature p i v[i])
  let steps : List (Step 2) :=
    (feed 0 above ++ feed 1 below).map .call ++
      [.call (.host 0 (.ready 1)), .call (.host 0 (.ready 0))]
  obtain ⟨t, h, _⟩ := exists_leads s steps (fun _ => ()) (x := ()) (by decide +kernel)
  obtain ⟨e, he, hc, hf, habove⟩ : ∃ e ∈ s.events steps, e.call = .host 0 (.ready 0) ∧
      e.filed? = some 0 ∧ e.before.procs[(0 : Fin 2)].vector.signals = above := by decide +kernel
  obtain ⟨e', he', hc', hf', hbelow⟩ : ∃ e ∈ s.events steps, e.call = .host 0 (.ready 1) ∧
      e.filed? = some 1 ∧ e.before.procs[(1 : Fin 2)].vector.signals = below := by decide +kernel
  have hle : ∀ i, below.get i ≤ above.get i := by decide
  obtain ⟨hscores, hlevels⟩ := h.promotes
  obtain ⟨hmark, hmark', _⟩ := hlevels e he e' he' 0 0 1 0 1 hc hc' hf hf' (by rwa [habove, hbelow])
  refine ⟨_, t, e, he, e', he', h, by rw [habove]; rfl, by rw [hbelow]; rfl, ?_, hmark, hmark'⟩
  rw [habove, hbelow]
  exact hscores below above (by decide) (by decide) hle

end Session

end AttentionScheduler
