import AttentionScheduler.Proofs.Clamping
import AttentionScheduler.Proofs.Revision

/-!
A record remembers what its history wrote last: each signal the last value fed or measured, the score the
signals at the last readying, and the stamp the last refresh or dispatch. Nothing else writes to it.
-/

namespace AttentionScheduler

variable {n : Nat}

/-- The signals that only the host feeds. A refresh measures the other four. -/
def Feature.hostFed : Feature → Bool
  | io | realtime | network | emergent => true
  | load | memory | interactive | priority => false

theorem Feature.index_inj {f g : Feature} (h : (f.index : Nat) = g.index) : f = g := by
  have hof : ofIndex? f.index = ofIndex? g.index := by rw [h]
  rw [ofIndex?_index, ofIndex?_index] at hof
  exact Option.some.inj hof

namespace FeatureVector

theorem get_set (v : FeatureVector) (i : Nat) (x : Single) (f : Feature) :
    (v.set i x).get f.index = if i = f.index then x.clampUnit else v.get f.index := by
  by_cases hi : i = f.index
  · rw [hi, get_set_self v f.index.isLt, if_pos rfl]
  · rw [get_set_ne v (Ne.symm hi), if_neg hi]

theorem attention_set (v : FeatureVector) (i : Nat) (x : Single) :
    (v.set i x).attention = v.attention := by
  unfold set
  split <;> rfl

theorem lastUpdate_set (v : FeatureVector) (i : Nat) (x : Single) :
    (v.set i x).lastUpdate = v.lastUpdate := by
  unfold set
  split <;> rfl

theorem get_stamp (v : FeatureVector) (t : Tick) (i : Nat) : (v.stamp t).get i = v.get i := rfl

theorem attention_stamp (v : FeatureVector) (t : Tick) : (v.stamp t).attention = v.attention := rfl

theorem lastUpdate_stamp (v : FeatureVector) (t : Tick) : (v.stamp t).lastUpdate = t := rfl

theorem get_setFeature (v : FeatureVector) (g : Feature) (x : Single) (f : Feature) :
    (v.setFeature g x).get f.index = if g = f then x.clampUnit else v.get f.index := by
  rw [setFeature, get_set]
  exact if_congr ⟨Feature.index_inj, fun h => h ▸ rfl⟩ rfl rfl

end FeatureVector

namespace Record

def measure? (r : Record) (c : Config) (clock : Clock) : Feature → Option Single
  | .load => some r.loadSignal.clampUnit
  | .memory => some c.memoryBaseline.clampUnit
  | .interactive =>
    some (interactiveSignal (r.gap clock.now) (clock.hz / c.interactiveDivisor)).clampUnit
  | .priority => some (r.prioritySignal c).clampUnit
  | .io | .realtime | .network | .emergent => none

theorem measure?_of_hostFed {f : Feature} (hf : f.hostFed = true) (r : Record) (c : Config)
    (clock : Clock) : r.measure? c clock f = none := by
  cases f <;> first | rfl | cases hf

theorem vector_refreshed (r : Record) (c : Config) (clock : Clock) :
    (r.refreshed c clock).vector =
      ((((r.vector.setFeature .load r.loadSignal).setFeature .memory c.memoryBaseline).setFeature
        .interactive (interactiveSignal (r.gap clock.now) (clock.hz / c.interactiveDivisor))).setFeature
        .priority (r.prioritySignal c)).stamp clock.now := by
  rw [refreshed, withVector]

theorem attention_refreshed (r : Record) (c : Config) (clock : Clock) :
    (r.refreshed c clock).vector.attention = r.vector.attention := by
  rw [vector_refreshed, FeatureVector.attention_stamp]
  simp only [FeatureVector.setFeature, FeatureVector.attention_set]

theorem lastUpdate_refreshed (r : Record) (c : Config) (clock : Clock) :
    (r.refreshed c clock).vector.lastUpdate = clock.now := by
  rw [vector_refreshed, FeatureVector.lastUpdate_stamp]

theorem get_refreshed (r : Record) (c : Config) (clock : Clock) (f : Feature) :
    (r.refreshed c clock).vector.get f.index =
      (r.measure? c clock f).getD (r.vector.get f.index) := by
  rw [vector_refreshed, FeatureVector.get_stamp]
  simp only [FeatureVector.get_setFeature]
  cases f with
  | load | memory | interactive | priority =>
    simp only [reduceCtorEq, reduceIte]
    rw [measure?, Option.getD_some]
  | io | realtime | network | emergent =>
    simp only [reduceCtorEq, reduceIte]
    rw [measure?, Option.getD_none]

end Record

namespace Event

open Roster (only stamped)

variable {p : Fin n} {f : Feature} {e : Event n}

/-- What the host feeds to a signal of `p`. A process that is not cognitive is fed nothing. -/
def fed? (p : Fin n) (f : Feature) (e : Event n) : Option Single :=
  match e.call with
  | .host _ (.setFeature q i x) =>
    if q = p ∧ i = f.index ∧ e.before.procs[p].cognitive then some x.clampUnit else none
  | _ => none

/-- The allocator that refreshes `p`, unless the tick is still the one of its stamp. -/
def refreshed? (p : Fin n) (e : Event n) : Option Nat :=
  match e.call with
  | .host a (.refresh q) =>
    if q = p ∧ e.before.procs[p].cognitive ∧ e.before.procs[p].gap (e.before.clockOf a).now ≠ 0 then
      some a
    else none
  | _ => none

def measured? (p : Fin n) (f : Feature) (e : Event n) : Option Single :=
  (e.refreshed? p).bind fun a =>
    e.before.procs[p].measure? (e.before.configOf a) (e.before.clockOf a) f

def written? (p : Fin n) (f : Feature) (e : Event n) : Option Single :=
  (e.measured? p f).or (e.fed? p f)

/-- The score of `p` as it is made ready, unless the allocator does not even start. -/
def rescored? (p : Fin n) (e : Event n) : Option Single :=
  match e.call with
  | .host a (.ready q) =>
    if q = p ∧ e.before.procs[p].cognitive ∧ e.done.session.started a then
      some (Score.attention e.before.procs[p].vector.signals)
    else none
  | _ => none

/-- The tick of an allocator that refreshes `p` or hands it out. -/
def stamped? (p : Fin n) (e : Event n) : Option Tick :=
  match e.call with
  | .host a (.refresh _) => (e.refreshed? p).map fun _ => (e.before.clockOf a).now
  | .host a .select | .host a .drain => if e.yields.contains p then some (e.before.clockOf a).now else none
  | _ => none

theorem written?_of_hostFed (hf : f.hostFed = true) : e.written? p f = e.fed? p f := by
  unfold written? measured?
  cases e.refreshed? p with
  | none => rfl
  | some a => rw [Option.bind_some, Record.measure?_of_hostFed hf, Option.none_or]

theorem fed?_of_ne (h : ∀ a i x, e.call ≠ .host a (.setFeature p i x)) : e.fed? p f = none := by
  unfold fed?
  split
  · next a q i x hc =>
    rw [if_neg]
    rintro ⟨rfl, _⟩
    exact h a i x hc
  · rfl

theorem eq_of_refreshed? {s : Session n} {a x : Nat} {q : Fin n} {d : Done n}
    (h : refreshed? p ⟨s, .host a (.refresh q), d⟩ = some x) : x = a := by
  unfold refreshed? at h
  dsimp only at h
  split at h
  · exact (Option.some.inj h).symm
  · cases h

theorem revise_refresh (s : Session n) (a : Nat) (q : Fin n) (d : Done n) (p : Fin n) :
    revise ⟨s, .host a (.refresh q), d⟩ p s.procs[p] =
      ((refreshed? p ⟨s, .host a (.refresh q), d⟩).map fun a =>
        s.procs[p].refreshed (s.configOf a) (s.clockOf a)).getD s.procs[p] := by
  simp only [refreshed?, apply_ite, Option.map_some, Option.map_none]
  exact Roster.only_writes (x := id) rfl

theorem revise_get (e : Event n) (p : Fin n) (f : Feature) :
    (e.revise p e.before.procs[p]).vector.get f.index =
      (e.written? p f).getD (e.before.procs[p].vector.get f.index) := by
  obtain ⟨s, c, d⟩ := e
  cases c with
  | clock | bucket => rfl
  | record q call =>
    exact Roster.only_keeps (x := fun r => r.vector.get f.index) (by cases call <;> rfl)
  | host a call =>
    cases call with
    | ready q =>
      exact Roster.only_keeps (x := fun r => r.vector.get f.index) (by split <;> rfl)
    | retire q =>
      exact Roster.only_keeps (x := fun r => r.vector.get f.index) (by split <;> rfl)
    | refresh q =>
      rw [revise_refresh, written?, measured?]
      cases refreshed? p ⟨s, .host a (.refresh q), d⟩ with
      | none => rfl
      | some x =>
        change _ = ((s.procs[p].measure? _ _ f).or none).getD _
        rw [Option.or_none]
        exact Record.get_refreshed _ _ _ f
    | setFeature q i x =>
      change (only q _ p s.procs[p]).vector.get f.index =
        (if q = p ∧ i = f.index ∧ s.procs[p].cognitive then some x.clampUnit else none).getD _
      unfold only
      by_cases hq : p = q
      · subst hq
        rw [if_pos rfl]
        by_cases hcog : s.procs[p].cognitive = true
        · rw [if_pos hcog, Record.withVector, FeatureVector.get_set]
          by_cases hi : i = f.index <;> simp [hi, hcog]
        · rw [if_neg hcog, if_neg fun h => hcog h.2.2]
          rfl
      · rw [if_neg hq, if_neg fun h => hq h.1.symm]
        rfl
    | select | drain =>
      change (stamped _ _ p s.procs[p]).vector.get f.index = s.procs[p].vector.get f.index
      unfold stamped
      split <;> rfl
    | start | remove | attention | levelFor | setEmergency | setBudget | lastUpdate | stats | config
      | dump | dumpToLog | buckets | tensor => rfl

theorem revise_attention (e : Event n) (p : Fin n) :
    (e.revise p e.before.procs[p]).vector.attention =
      (e.rescored? p).getD e.before.procs[p].vector.attention := by
  obtain ⟨s, c, d⟩ := e
  have kept {q : Fin n} {f : Record → Record}
      (hf : (f s.procs[p]).vector.attention = s.procs[p].vector.attention) :
      (only q f p s.procs[p]).vector.attention = s.procs[p].vector.attention :=
    Roster.only_keeps (x := (·.vector.attention)) hf
  cases c with
  | clock | bucket => rfl
  | record q call => exact kept (by cases call <;> rfl)
  | host a call =>
    cases call with
    | ready q =>
      exact Roster.only_writes (x := (·.vector.attention)) (FeatureVector.setAttention_score _ _)
    | retire q => exact kept (by split <;> rfl)
    | refresh q => exact kept (by split <;> [exact Record.attention_refreshed _ _ _; rfl])
    | setFeature q i x => exact kept (by split <;> [exact FeatureVector.attention_set _ _ _; rfl])
    | select | drain =>
      change (stamped _ _ p s.procs[p]).vector.attention = s.procs[p].vector.attention
      unfold stamped
      split <;> rfl
    | start | remove | attention | levelFor | setEmergency | setBudget | lastUpdate | stats | config
      | dump | dumpToLog | buckets | tensor => rfl

theorem revise_lastUpdate (e : Event n) (p : Fin n) :
    (e.revise p e.before.procs[p]).vector.lastUpdate =
      (e.stamped? p).getD e.before.procs[p].vector.lastUpdate := by
  obtain ⟨s, c, d⟩ := e
  have kept {q : Fin n} {f : Record → Record}
      (hf : (f s.procs[p]).vector.lastUpdate = s.procs[p].vector.lastUpdate) :
      (only q f p s.procs[p]).vector.lastUpdate = s.procs[p].vector.lastUpdate :=
    Roster.only_keeps (x := (·.vector.lastUpdate)) hf
  cases c with
  | clock | bucket => rfl
  | record q call => exact kept (by cases call <;> rfl)
  | host a call =>
    cases call with
    | ready q => exact kept (by split <;> rfl)
    | retire q => exact kept (by split <;> rfl)
    | refresh q =>
      rw [revise_refresh]
      change _ = ((refreshed? p ⟨s, .host a (.refresh q), d⟩).map fun _ => (s.clockOf a).now).getD _
      cases hr : refreshed? p ⟨s, .host a (.refresh q), d⟩ with
      | none => rfl
      | some x =>
        cases eq_of_refreshed? hr
        exact Record.lastUpdate_refreshed _ _ _
    | setFeature q i x => exact kept (by split <;> [exact FeatureVector.lastUpdate_set _ _ _; rfl])
    | select | drain =>
      change (stamped _ _ p s.procs[p]).vector.lastUpdate = (if List.contains _ p then some _ else none).getD _
      unfold stamped
      split <;> rfl
    | start | remove | attention | levelFor | setEmergency | setBudget | lastUpdate | stats | config
      | dump | dumpToLog | buckets | tensor => rfl

end Event

theorem Host.started_of_ready {h k : Host n} {p : Fin n} (hcog : h.procs[p].cognitive = true)
    (hr : h.ready p = .returned k ()) : k.allocator.isStarted = true := by
  rw [ready_eq hcog] at hr
  have hends := h.enter_ends p
  generalize h.enter p = e at hr hends
  cases hends with
  | unstarted procs => cases hr
  | full untracked procs => cases hr
  | @entered g core built procs =>
    have hplace := place_started built p (Score.attention h.procs[p].vector.signals)
    rw [Ending.bind_returned] at hr
    rw [hr] at hplace
    exact hplace

namespace Session

variable {s t : Session n} {a : Nat} {p : Fin n} {d : Done n} {es : List (Event n)} {os : List Opening}
  {queues : List (Nat × Single)} {ps : Vector (UInt64 × Bool) n}

theorem started_of_answered (hc : s.call (.host a (.ready p)) = .ok d)
    (hcog : s.procs[p].cognitive = true) (ha : ∀ fault, d.answer ≠ .fault fault) :
    d.session.started a = true := by
  obtain ⟨seat, hs⟩ := seat_of_call hc
  simp only [Session.call, callHost, hs, Host.call] at hc
  cases hr : (s.host seat).ready p with
  | stuck stop =>
    rw [hr] at hc
    cases hc
  | faulted k fault =>
    rw [hr] at hc
    cases hc
    exact absurd rfl (ha fault)
  | returned k answer =>
    rw [hr] at hc
    cases hc
    rw [started_putHost hs]
    exact Host.started_of_ready (h := s.host seat) hcog hr

/-- Every record is what its history has written to it. -/
theorem Leads.remembers (h : (fresh os queues (freshRoster ps)).Leads es t) (p : Fin n) :
    (∀ f : Feature, f.hostFed = true → t.procs[p].vector.get f.index =
      (es.filterMap (·.fed? p f)).getLast?.getD .zero) ∧
    (∀ f : Feature, f.hostFed = false → t.procs[p].vector.get f.index =
      (es.filterMap (·.written? p f)).getLast?.getD .zero) ∧
    t.procs[p].vector.attention = (es.filterMap (·.rescored? p)).getLast?.getD .zero ∧
    t.procs[p].vector.lastUpdate = (es.filterMap (·.stamped? p)).getLast?.getD 0 ∧
    (∀ e ∈ es, ∀ f : Feature, f.hostFed = true → (∀ a i x, e.call ≠ .host a (.setFeature p i x)) →
      e.done.session.procs[p].vector.get f.index =
        e.before.procs[p].vector.get f.index) ∧
    ∀ e ∈ es, ∀ a, e.call = .host a (.ready p) → e.before.procs[p].cognitive = true →
      (∀ fault, e.done.answer ≠ .fault fault) →
        e.rescored? p = some (Score.attention e.before.procs[p].vector.signals) := by
  have hfresh : (freshRoster ps)[p].vector = {} := vector_freshRoster ps p
  have hzero (f : Feature) : ({} : FeatureVector).get f.index = .zero := by
    cases f <;> rfl
  have hvector (e : Event n) (he : e ∈ es) :
      e.done.session.procs[p].vector = (e.revise p e.before.procs[p]).vector :=
    (h.revises he).vector p
  have hsignals (f : Feature) (e : Event n) (he : e ∈ es) :
      e.done.session.procs[p].vector.get f.index =
        (e.written? p f).getD (e.before.procs[p].vector.get f.index) := by
    rw [hvector e he]
    exact e.revise_get p f
  have hwritten (f : Feature) : t.procs[p].vector.get f.index =
      (es.filterMap (·.written? p f)).getLast?.getD .zero := by
    have hlast : t.procs[p].vector.get f.index =
        (es.filterMap (·.written? p f)).getLast?.getD ((freshRoster ps)[p].vector.get f.index) :=
      h.last_of (x := fun r => r[p].vector.get f.index) (hsignals f)
    rwa [hfresh, hzero] at hlast
  have hattention : t.procs[p].vector.attention =
      (es.filterMap (·.rescored? p)).getLast?.getD (freshRoster ps)[p].vector.attention :=
    h.last_of (x := fun r => r[p].vector.attention) fun e he =>
      (congrArg FeatureVector.attention (hvector e he)).trans (e.revise_attention p)
  have hlastUpdate : t.procs[p].vector.lastUpdate =
      (es.filterMap (·.stamped? p)).getLast?.getD (freshRoster ps)[p].vector.lastUpdate :=
    h.last_of (x := fun r => r[p].vector.lastUpdate) fun e he =>
      (congrArg FeatureVector.lastUpdate (hvector e he)).trans (e.revise_lastUpdate p)
  rw [hfresh] at hattention hlastUpdate
  refine ⟨fun f hf => ?_, fun f _ => hwritten f, hattention, hlastUpdate, fun e he f hf hcall => ?_,
    fun e he a hcall hcog ha => ?_⟩
  · simpa only [Event.written?_of_hostFed hf] using hwritten f
  · rw [hsignals f e he, Event.written?_of_hostFed hf, Event.fed?_of_ne hcall]
    rfl
  · obtain ⟨_, hc⟩ := h.call_of_mem he
    rw [hcall] at hc
    rw [Event.rescored?, hcall]
    exact if_pos ⟨rfl, hcog, started_of_answered hc hcog ha⟩

theorem remembers_past_an_idle_phase : ∃ es, ∃ t : Session 1,
    (fresh [{ hz := 1000 }, { hz := 1000 }] []
      (freshRoster (.ofFn fun p => (.ofNat p, true)))).Leads es t ∧
    t.procs[(0 : Fin 1)].vector.get Feature.io.index = .ofFraction 1 2 ∧
    t.procs[(0 : Fin 1)].vector.get Feature.load.index = .one ∧
    t.procs[(0 : Fin 1)].vector.get Feature.memory.index = .ofFraction 1 2 ∧
    t.procs[(0 : Fin 1)].vector.attention =
      Score.attention ((Vector.replicate 8 .zero).set 2 (.ofFraction 1 2)) ∧
    t.procs[(0 : Fin 1)].vector.lastUpdate = 7 := by
  let s : Session 1 :=
    fresh [{ hz := 1000 }, { hz := 1000 }] [] (freshRoster (.ofFn fun p => (.ofNat p, true)))
  let steps : List (Step 1) :=
    [.call (.host 0 (.setFeature 0 2 (.ofFraction 1 2))), .call (.host 0 (.ready 0)),
      .call (.record 0 (.setCognitive false)), .call (.host 0 (.setFeature 0 2 .one)),
      .call (.host 0 (.ready 0)), .call (.record 0 (.setCognitive true)),
      .call (.host 0 (.setFeature 0 9 .one)), .call (.clock 1 (.set 5)),
      .call (.host 1 (.refresh 0)), .call (.host 1 (.refresh 0)),
      .call (.host 1 (.setFeature 0 0 .one)), .call (.clock 0 (.set 7)), .call (.host 0 .select)]
  obtain ⟨t, h, _⟩ := exists_leads s steps (fun _ => ()) (x := ()) (by decide +kernel)
  obtain ⟨hfed, hwritten, hattention, hlastUpdate, _⟩ := h.remembers 0
  refine ⟨_, t, h, (hfed .io rfl).trans ?_, (hwritten .load rfl).trans ?_,
    (hwritten .memory rfl).trans ?_, hattention.trans ?_, hlastUpdate.trans ?_⟩ <;> decide +kernel

end Session

end AttentionScheduler
