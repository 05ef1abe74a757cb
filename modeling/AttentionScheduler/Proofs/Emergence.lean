import AttentionScheduler.Proofs.Placement
import AttentionScheduler.Proofs.Recollection
import AttentionScheduler.Proofs.Thresholds
import AttentionScheduler.Proofs.Withdrawals

/-!
The top level is reserved for emergent processes. Without the boost no signals reach a score of one, and a
process in a bucket has the score of the signals with which it was made ready last.
-/

namespace AttentionScheduler

open Files

variable {n : Nat}

namespace Score

open Single

variable {f : Signals}

theorem emergentThreshold_eq : emergentThreshold = .ofFraction 1 2 := rfl

/-- The greatest signals of a process that is not emergent. -/
def calmest : Signals := (Vector.replicate 8 one).setIfInBounds Feature.emergent.index emergentThreshold

theorem attention_calmest : attention calmest < one := by decide +kernel

theorem le_calmest (hf : ∀ i, (f.get i).InUnit)
    (hcalm : f.get Feature.emergent.index ≤ emergentThreshold) (i : Fin 8) :
    f.get i ≤ calmest.get i := by
  by_cases hi : i = Feature.emergent.index
  · subst hi
    exact hcalm
  · have hone : calmest.get i = one := by
      revert hi
      revert i
      decide
    rw [hone]
    exact (hf i).le_one

theorem attention_lt_one (hf : ∀ i, (f.get i).InUnit)
    (hcalm : f.get Feature.emergent.index ≤ emergentThreshold) : attention f < one := by
  have hunit : ∀ i, (calmest.get i).InUnit := by decide
  exact lt_of_le_of_lt (attention_mono hf hunit (le_calmest hf hcalm)) attention_calmest

theorem emergent_of_one_le (hf : ∀ i, (f.get i).InUnit) (hone : one ≤ attention f) :
    emergentThreshold < f.get Feature.emergent.index := by
  by_contra hcalm
  obtain ⟨s, hs, -⟩ := exists_of_nonneg (hf Feature.emergent.index).nonneg
  rw [hs] at hcalm
  exact not_le_of_lt (attention_lt_one hf (hs ▸ not_num_lt.mp hcalm)) hone

end Score

theorem Level.one_le_of_top {levels : Nat} {x : Single} (hlevels : 2 ≤ levels)
    (hsize : levels < UInt64.size) (hx : ofScore levels x = .ok 0) : .one ≤ x := by
  have hpos : 0 < levels := by omega
  obtain ⟨first, -, hscore, hmet⟩ := exists_first hpos hsize x
  have hfirst : min (levels - 1) first = 0 := Except.ok.inj (hscore.symm.trans hx)
  rw [← threshold_zero hpos hsize, hmet 0 hpos]
  omega

namespace Event

variable {e : Event n} {p : Fin n} {place : Place}

/-- The signals with which `p` is made ready. A process that is not cognitive is not made ready. -/
def presented? (p : Fin n) (e : Event n) : Option Signals :=
  match e.call with
  | .host _ (.ready q) =>
    if q = p ∧ e.before.procs[p].cognitive then some e.before.procs[p].vector.signals else none
  | _ => none

theorem presented?_eq_some {signals : Signals} (h : e.presented? p = some signals) :
    ∃ a, e.call = .host a (.ready p) ∧ e.before.procs[p].cognitive = true ∧
      signals = e.before.procs[p].vector.signals := by
  unfold presented? at h
  split at h
  · next a q hcall =>
    split at h
    · next hq =>
      obtain ⟨rfl, hcog⟩ := hq
      exact ⟨a, hcall, hcog, (Option.some.inj h).symm⟩
    · cases h
  · cases h

theorem presented?_of_rescored? {score : Single} (h : e.rescored? p = some score) :
    (e.presented? p).isSome := by
  unfold rescored? at h
  split at h
  · next a q hcall =>
    split at h
    · next hq =>
      rw [presented?, hcall]
      dsimp only
      rw [if_pos ⟨hq.1, hq.2.1⟩]
      rfl
    · cases h
  · cases h

/-- A process joins a bucket by a push, or as it is made ready. -/
theorem link_cases (h : .link place p ∈ e.changes) :
    e.call = .bucket place (.push p) ∨ (e.presented? p).isSome := by
  obtain ⟨s, c, d⟩ := e
  obtain ⟨hp, -⟩ := files?_of_link h
  have hfiling : .link place p ∈ Event.filing ⟨s, c, d⟩ := by
    rcases List.mem_append.mp h with hopening | hfiling
    · obtain ⟨a, levels, -, hne⟩ := mem_opening hopening
      cases hne
    · exact hfiling
  change c.files? = some p at hp
  unfold Call.files? at hp
  split at hp
  · next a q =>
    cases hp
    right
    by_contra hnone
    have hplain : s.procs[p].cognitive = false := by
      rw [← Bool.not_eq_true]
      intro hcog
      exact hnone (by simp [presented?, hcog])
    rw [Session.filing_of_not_filed (Session.filed?_of_plain hplain)] at hfiling
    cases hfiling
  · next other q =>
    cases hp
    left
    simp only [filing] at hfiling
    split at hfiling
    · cases List.mem_singleton.mp hfiling
      rfl
    · cases hfiling
  · cases hp

end Event

namespace Session

variable {s t : Session n} {a level : Nat} {p : Fin n} {es : List (Event n)} {os : List Opening}
  {queues : List (Nat × Single)} {ps : Vector (UInt64 × Bool) n}

theorem Leads.sits_before (h : s.Leads es t) (hs : s.files.Sound)
    (hready : ∀ e ∈ es, e.presented? p = none)
    (hpush : ∀ e ∈ es, ∀ l, e.call ≠ .bucket (.own a l) (.push p)) (ht : t.Sits a level p) :
    s.Sits a level p := by
  refine h.induct (I := fun u _ => ∀ l, u.Sits a l p → s.Sits a l p) hs ?_ ?_ (fun l hl => hl) level ht
  · intro u past c d he hu hd hI l hsits
    refine hI l (sits_of_edits (hd.edits hu) (fun l hlink => ?_) hsits)
    have hmem := mem_of_uses_parts he (Event.uses_of_link hlink)
    rcases Event.link_cases hlink with hcall | hpresented
    · exact hpush _ hmem l hcall
    · rw [hready _ hmem] at hpresented
      cases hpresented
  · exact fun _ hl hI l hsits => hI l (sits_of_locks hl hsits)

theorem exists_last_write {α β : Type} {write? : α → Option β} {xs : List α} {y : β}
    (h : (xs.filterMap write?).getLast? = some y) :
    ∃ before x after, xs = before ++ x :: after ∧ write? x = some y ∧ ∀ z ∈ after, write? z = none := by
  obtain ⟨_, hwrites⟩ := List.getLast?_eq_some_iff.mp h
  obtain ⟨before, rest, rfl, -, hrest⟩ := List.filterMap_eq_append_iff.mp hwrites
  obtain ⟨idle, x, after, rfl, -, hx, hafter⟩ := List.filterMap_eq_cons_iff.mp hrest
  exact ⟨before ++ idle, x, after, (List.append_assoc ..).symm, hx, List.filterMap_eq_nil_iff.mp hafter⟩

theorem Leads.rescores {e : Event n} (h : (fresh os queues (freshRoster ps)).Leads es t) (he : e ∈ es)
    (p : Fin n) : e.done.session.procs[p].vector.attention =
      (e.rescored? p).getD e.before.procs[p].vector.attention :=
  (congrArg FeatureVector.attention ((h.revises he).vector p)).trans (e.revise_attention p)

theorem Leads.keeps_attention {past : List (Event n)}
    (h : (fresh os queues (freshRoster ps)).Leads past s) (h' : s.Leads es t)
    (hready : ∀ e ∈ es, e.presented? p = none) :
    t.procs[p].vector.attention = s.procs[p].vector.attention := by
  have hidle : es.filterMap (Event.rescored? p) = [] := by
    refine List.filterMap_eq_nil_iff.mpr fun e he => Option.eq_none_iff_forall_ne_some.mpr ?_
    intro score hscore
    have hpresented := Event.presented?_of_rescored? hscore
    rw [hready e he] at hpresented
    cases hpresented
  have hlast : t.procs[p].vector.attention =
      (es.filterMap (Event.rescored? p)).getLast?.getD s.procs[p].vector.attention :=
    h'.last_of (x := fun r => r[p].vector.attention)
      fun e he => (h.trans h').rescores (List.mem_append_right past he) p
  rwa [hidle] at hlast

/-- A process in a bucket has the score of the signals with which it was made ready last. -/
theorem Leads.presented_of_sits (h : (fresh os queues (freshRoster ps)).Leads es t)
    (hused : UsedWith a es p) (hpush : ∀ e ∈ es, ∀ l, e.call ≠ .bucket (.own a l) (.push p))
    (hsits : t.Sits a level p) : ∃ signals, (es.filterMap (Event.presented? p)).getLast? = some signals ∧
      (∀ i, (signals.get i).InUnit) ∧ t.procs[p].vector.attention = Score.attention signals := by
  cases hlast : (es.filterMap (Event.presented? p)).getLast? with
  | none =>
    have hnone := List.filterMap_eq_nil_iff.mp (List.getLast?_eq_none_iff.mp hlast)
    exact absurd (h.sits_before (fresh_sound os queues ps) hnone hpush hsits) not_sits_fresh
  | some signals =>
    obtain ⟨before, e, after, rfl, he, hnone⟩ := exists_last_write hlast
    have hmem : e ∈ before ++ e :: after := List.mem_append_right _ List.mem_cons_self
    obtain ⟨hpast, hcall, hfuture⟩ := h.split
    obtain ⟨b, hready, hcog, rfl⟩ := Event.presented?_eq_some he
    cases hused e hmem (some b) (hready ▸ ⟨rfl, rfl⟩)
    have hdone := hpast.trans (.call hcall (.refl _))
    -- It has not joined a bucket since, so its allocator had started by the end of that call.
    have hthere : e.done.session.Sits a level p :=
      hfuture.sits_before (hdone.sound (fresh_sound os queues ps)) hnone
        (fun e' he' => hpush e' (List.mem_append_right _ (List.mem_cons_of_mem _ he'))) hsits
    have hscored : e.rescored? p = some (Score.attention e.before.procs[p].vector.signals) := by
      obtain ⟨bucket, hbucket, -⟩ := hthere
      rw [Event.rescored?, hready]
      exact if_pos ⟨rfl, hcog, started_of_bucketAt hbucket⟩
    refine ⟨_, rfl, (hpast.clamped_of_fresh p).signals, ?_⟩
    rw [hdone.keeps_attention hfuture hnone, h.rescores hmem p, hscored, Option.getD_some]

/-- With two levels or more, whoever sits on the top one was emergent when it was made ready last. -/
theorem reserves_the_top_level :
    (∀ f : Signals, (∀ i, (f.get i).InUnit) →
      f.get Feature.emergent.index ≤ .ofFraction 1 2 → Score.attention f < .one) ∧
    ∀ {n : Nat} {os : List Opening} {queues : List (Nat × Single)} {ps : Vector (UInt64 × Bool) n}
      {es : List (Event n)} {t : Session n} {a : Nat} {x : Allocator n} {b : Bucket n},
      (fresh os queues (freshRoster ps)).Leads es t → Exclusive a es →
      (∀ e ∈ es, ∀ l p, e.call ≠ .bucket (.own a l) (.push p)) → t.allocator? a = some x →
      2 ≤ x.config.levels → x.buckets[0]? = some b → ∀ p ∈ b.members, ∃ signals,
        (es.filterMap (Event.presented? p)).getLast? = some signals ∧
        .ofFraction 1 2 < signals.get Feature.emergent.index := by
  rw [← Score.emergentThreshold_eq]
  refine ⟨fun f hf hcalm => Score.attention_lt_one hf hcalm, ?_⟩
  intro n os queues ps es t a x b h hex hpush hx hlevels hb p hp
  obtain ⟨y, hy, hevolves⟩ := h.evolves a x hx
  have hsits : t.Sits a 0 p := ⟨b, by rw [bucketAt, bucketsOf, hx, hb], hp⟩
  obtain ⟨hused, hscored, -⟩ := h.placed hex hpush hy hsits
  obtain ⟨signals, hlast, hunit, hattention⟩ :=
    h.presented_of_sits hused (fun e he l => hpush e he l p) hsits
  rw [← hevolves.config, hattention] at hscored
  have hone := Level.one_le_of_top hlevels x.config.levels_lt hscored
  exact ⟨signals, hlast, Score.emergent_of_one_le hunit hone⟩

/-- The process has calmed down since, and has then been offered while it was not cognitive. -/
theorem reserves_the_top_level_past_a_lull : ∃ es, ∃ t : Session 1, ∃ x b signals,
    (fresh [{ hz := 1000 }] [] (freshRoster (.ofFn fun p => (.ofNat p, true)))).Leads es t ∧
    t.allocator? 0 = some x ∧ x.buckets[0]? = some b ∧ (0 : Fin 1) ∈ b.members ∧
    t.procs[(0 : Fin 1)].vector.get Feature.emergent.index = .zero ∧
    (es.filterMap (Event.presented? 0)).getLast? = some signals ∧
    .ofFraction 1 2 < signals.get Feature.emergent.index ∧
    Score.calmest.get Feature.emergent.index = .ofFraction 1 2 ∧
    Score.attention Score.calmest < .one := by
  let s : Session 1 := fresh [{ hz := 1000 }] [] (freshRoster (.ofFn fun p => (.ofNat p, true)))
  let calls : List (Call 1) :=
    ((List.range 7).map fun i => .host 0 (.setFeature 0 i .one)) ++
      [.host 0 (.setFeature 0 7 (.ofBits 0x3f000001)), .host 0 (.ready 0),
        .host 0 (.setFeature 0 7 .zero), .record 0 (.setCognitive false), .host 0 (.ready 0)]
  obtain ⟨t, h, hend⟩ := exists_leads s (calls.map .call)
    (fun t => ((t.allocator? 0).bind fun x => x.buckets[0]?.map fun b => (x.config.levels, b.members),
      t.procs[(0 : Fin 1)].vector.get Feature.emergent.index))
    (x := (some (4, [(0 : Fin 1)]), .zero)) (by decide +kernel)
  have hcalls : (s.events (calls.map .call)).map (·.call) = calls := by decide +kernel
  obtain ⟨htop, hcalm⟩ := Prod.mk.inj hend
  obtain ⟨x, hx, htop⟩ := Option.bind_eq_some_iff.mp htop
  obtain ⟨b, hb, htop⟩ := Option.map_eq_some_iff.mp htop
  obtain ⟨hlevels, hmembers⟩ := Prod.mk.inj htop
  have hmem : ∀ e ∈ s.events (calls.map .call), e.call ∈ calls :=
    fun e he => hcalls ▸ List.mem_map_of_mem he
  have hallocator : ∀ c ∈ calls, c.allocator? = some 0 ∨ c = .record 0 (.setCognitive false) := by
    decide
  have hex : Exclusive 0 (s.events (calls.map .call)) := by
    intro _ _ p _ e he o huses
    rcases hallocator _ (hmem e he) with hown | hrecord
    · rw [huses.allocator?, hown]
    · rw [hrecord] at huses
      exact huses.elim
  have hpush : ∀ e ∈ s.events (calls.map .call), ∀ l p, e.call ≠ .bucket (.own 0 l) (.push p) := by
    intro e he l p hpush
    have hcall := hmem e he
    rw [hpush] at hcall
    simp [calls] at hcall
  have h₀ : (0 : Fin 1) ∈ b.members := by rw [hmembers]; exact List.mem_cons_self
  obtain ⟨hcalmest, hmember⟩ := reserves_the_top_level
  obtain ⟨signals, hlast, hemergent⟩ := hmember h hex hpush hx (by rw [hlevels]; decide) hb 0 h₀
  exact ⟨_, t, x, b, signals, h, hx, hb, h₀, hcalm, hlast, hemergent, by decide,
    hcalmest Score.calmest (by decide) (by decide)⟩

end Session

end AttentionScheduler
