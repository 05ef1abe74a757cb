import AttentionScheduler.Proofs.Activity
import Mathlib.Algebra.BigOperators.Group.Finset.Basic

/-!
Where every process keeps to one allocator, the active count of an allocator is the number of its
tracked processes. Where they do not, the counts together still cover all tracked processes.
-/

namespace AttentionScheduler

open Finset (range univ)
open scoped Finset

variable {n k m : Nat} {p : Fin n}

theorem card_recount {b c : Fin n → Bool} (h : ∀ q, q ≠ p → c q = b q) :
    #{q | c q = true} = recount (b p) (c p) #{q | b q = true} := by
  have same (hp : c p = b p) : c = b := funext fun q => by
    by_cases hq : q = p
    · rw [hq, hp]
    · exact h q hq
  cases hb : b p <;> cases hc : c p
  · rw [same (hc.trans hb.symm), recount_self]
  · have hinsert :
        ({q | c q = true} : Finset (Fin n)) = insert p ({q | b q = true} : Finset (Fin n)) := by
      ext q
      by_cases hq : q = p
      · simp [hq, hc]
      · simp [hq, h q hq]
    rw [hinsert, Finset.card_insert_of_notMem (by simp [hb])]
    rfl
  · have herase :
        ({q | c q = true} : Finset (Fin n)) = ({q | b q = true} : Finset (Fin n)).erase p := by
      ext q
      by_cases hq : q = p
      · simp [hq, hc]
      · simp [hq, h q hq]
    rw [herase, Finset.card_erase_of_mem (by simp [hb])]
    rfl
  · rw [same (hc.trans hb.symm), recount_self]

theorem card_lt_of_unset {b : Fin n → Bool} (hp : b p = false) : #{q | b q = true} < n := by
  have hlt : #{q | b q = true} < #(univ : Finset (Fin n)) := by
    refine Finset.card_lt_card (Finset.filter_ssubset.mpr ⟨p, Finset.mem_univ p, ?_⟩)
    simp [hp]
  rwa [Finset.card_univ, Fintype.card_fin] at hlt

theorem sum_of_changed {f g : Nat → Nat} {a : Nat} (ha : a < m) (h : ∀ b, b ≠ a → g b = f b) :
    ∑ b ∈ range m, g b + f a = ∑ b ∈ range m, f b + g a := by
  have hmem : a ∈ range m := Finset.mem_range.mpr ha
  have hrest : ∑ b ∈ (range m).erase a, g b = ∑ b ∈ (range m).erase a, f b :=
    Finset.sum_congr rfl fun b hb => h b (Finset.ne_of_mem_erase hb)
  rw [← Finset.add_sum_erase _ g hmem, ← Finset.add_sum_erase _ f hmem, hrest]
  omega

theorem recount_le (was is : Bool) (k : Nat) : recount was is k ≤ k + 1 := by
  cases was <;> cases is <;> simp only [recount] <;> omega

theorem Call.counts?_iff {c : Call n} {a : Nat} :
    c.counts? = some (a, p) ↔ c = .host a (.ready p) ∨ c = .host a (.retire p) := by
  constructor
  · intro h
    unfold counts? at h
    split at h <;> cases h
    · exact .inl rfl
    · exact .inr rfl
  · rintro (rfl | rfl) <;> rfl

namespace Event

open Roster (only stamped)

variable {e : Event n}

/-- What an event makes of the tracked flag of `p`: a process made ready while cognitive gets it, unless
the allocator does not even start, and a process retired without contention loses it. -/
def standing? (p : Fin n) (e : Event n) : Option Bool :=
  match e.call with
  | .host a (.ready q) =>
    if q = p ∧ e.before.procs[p].cognitive ∧ e.done.session.started a then some true else none
  | .host _ (.retire q) =>
    if q = p ∧ e.done.answer ≠ .host (.removal .contended) then some false else none
  | _ => none

theorem revise_tracked (e : Event n) (p : Fin n) :
    (e.revise p e.before.procs[p]).tracked = (e.standing? p).getD e.before.procs[p].tracked := by
  obtain ⟨s, c, d⟩ := e
  have kept {q : Fin n} {f : Record → Record} (hf : (f s.procs[p]).tracked = s.procs[p].tracked) :
      (only q f p s.procs[p]).tracked = s.procs[p].tracked :=
    Roster.only_keeps (x := (·.tracked)) hf
  cases c with
  | clock | bucket => rfl
  | record q call => exact kept (by cases call <;> rfl)
  | host a call =>
    cases call with
    | ready q =>
      exact Roster.only_writes (x := (·.tracked)) rfl
    | retire q =>
      exact Roster.only_writes (x := (·.tracked)) rfl
    | refresh q => exact kept (by split <;> rfl)
    | setFeature q i x => exact kept (by split <;> rfl)
    | select | drain =>
      change (stamped _ _ p s.procs[p]).tracked = s.procs[p].tracked
      unfold stamped
      split <;> rfl
    | start | remove | attention | levelFor | setEmergency | setBudget | lastUpdate | stats | config
      | dump | dumpToLog | buckets | tensor => rfl

theorem standing?_of_counts? (h : ∀ a, e.call.counts? ≠ some (a, p)) : e.standing? p = none := by
  unfold standing?
  split
  · next a q hc =>
    rw [if_neg]
    rintro ⟨rfl, _⟩
    exact h a (by rw [hc]; rfl)
  · next a q hc =>
    rw [if_neg]
    rintro ⟨rfl, _⟩
    exact h a (by rw [hc]; rfl)
  · rfl

end Event

namespace Session

variable {s t u : Session n} {a : Nat} {c : Call n} {d : Done n} {es : List (Event n)}
  {os : List Opening} {queues : List (Nat × Single)} {ps : Vector (UInt64 × Bool) n} {home : Fin n → Nat}

/-- There are at most `m` allocators, and their settings passed the checks. -/
def Seats (m : Nat) (s : Session n) : Prop :=
  ∀ a x, s.allocator? a = some x → a < m ∧ x.config.Accepted

theorem Seats.evolves (hs : s.Seats m) (h : s.Evolves k t) : t.Seats m := by
  intro a y hy
  obtain ⟨x, hx, hevolves⟩ := h a y hy
  rw [hevolves.config]
  exact hs a x hx

theorem exists_of_counts? (hc : s.call c = .ok d) (h : c.counts? = some (a, p)) :
    ∃ x, s.allocator? a = some x := by
  unfold Call.counts? at h
  split at h <;> cases h
  · obtain ⟨seat, hs⟩ := seat_of_call hc
    exact ⟨_, allocator?_of_seat hs⟩
  · obtain ⟨seat, hs⟩ := seat_of_call hc
    exact ⟨_, allocator?_of_seat hs⟩

/-- How the flags and the counts of two sessions compare, across a call that is about the given
allocator and process. -/
inductive Balances (s t : Session n) : Option (Nat × Fin n) → Prop where
  | still (tracked : ∀ q : Fin n, t.procs[q].tracked = s.procs[q].tracked)
      (active : ∀ b, t.active b = s.active b) : Balances s t none
  | moved {a : Nat} {p : Fin n} (tracked : ∀ q : Fin n, q ≠ p → t.procs[q].tracked = s.procs[q].tracked)
      (active : ∀ b, b ≠ a → t.active b = s.active b) (there : ∃ x, s.allocator? a = some x)
      (count : t.active a = recount s.procs[p].tracked t.procs[p].tracked (s.active a)) :
      Balances s t (some (a, p))

theorem Seats.balances (hs : s.Seats m) (hc : s.call c = .ok d)
    (hroom : ∀ a p, c.counts? = some (a, p) → s.procs[p].tracked = false →
      s.active a + 1 < Word.limit) :
    s.Balances d.session c.counts? := by
  obtain ⟨hothers, hown⟩ := call_active hc (fun a x hx => (hs a x hx).2) hroom
  have hrevises := call_revises (fun a x hx => (hs a x hx).2.divisor) hc
  have htracked (q : Fin n) (hq : ∀ a, c.counts? ≠ some (a, q)) :
      d.session.procs[q].tracked = s.procs[q].tracked := by
    rw [hrevises.tracked q]
    exact (Event.revise_tracked ⟨s, c, d⟩ q).trans (by rw [Event.standing?_of_counts? hq]; rfl)
  cases hcounts : c.counts? with
  | none =>
    rw [hcounts] at hothers htracked
    exact .still (fun q => htracked q nofun) fun b => hothers b nofun
  | some ap =>
    obtain ⟨a, p⟩ := ap
    rw [hcounts] at hothers htracked
    refine .moved (fun q hq => htracked q fun b hb => ?_) (fun b hb => hothers b fun q hq => ?_)
      (exists_of_counts? hc hcounts) (hown a p hcounts)
    · cases hb
      exact hq rfl
    · cases hq
      exact hb rfl

/-- Every active count is the number of tracked processes at home there. -/
def Tallied (home : Fin n → Nat) (s : Session n) : Prop :=
  ∀ a, s.active a = #{p : Fin n | (decide (home p = a) && s.procs[p].tracked) = true}

theorem Tallied.congr (h : s.Tallied home)
    (htracked : ∀ q : Fin n, t.procs[q].tracked = s.procs[q].tracked)
    (hactive : ∀ a, t.active a = s.active a) : t.Tallied home := by
  intro a
  simp only [hactive, htracked]
  exact h a

theorem Tallied.call (h : s.Tallied home) (hs : s.Seats m) (hn : n < UInt64.size)
    (hc : s.call c = .ok d) (hhome : ∀ a p, c.counts? = some (a, p) → a = home p) :
    d.session.Tallied home := by
  have hroom : ∀ a p, c.counts? = some (a, p) → s.procs[p].tracked = false →
      s.active a + 1 < Word.limit := by
    intro a p _ hp
    have hlt : s.active a < n := h a ▸ card_lt_of_unset (p := p) (by rw [hp, Bool.and_false])
    exact Nat.lt_of_le_of_lt hlt hn
  have hbalances := hs.balances hc hroom
  generalize c.counts? = counts? at hbalances hhome
  cases hbalances with
  | still tracked active => exact h.congr tracked active
  | @moved a p tracked active there count =>
    cases hhome a p rfl
    intro b
    have hcard := card_recount (p := p) (b := fun q => decide (home q = b) && s.procs[q].tracked)
      (c := fun q => decide (home q = b) && d.session.procs[q].tracked)
      fun q hq => by rw [tracked q hq]
    rw [hcard, ← h b]
    by_cases hb : home p = b
    · subst hb
      simp [count]
    · simp [hb, active b (Ne.symm hb)]

theorem Leads.tallied (h : s.Leads es t) (hs : s.Seats m) (ht : s.Tallied home) (hn : n < UInt64.size)
    (hhome : ∀ e ∈ es, ∀ a p, e.call.counts? = some (a, p) → a = home p) : t.Tallied home := by
  induction h with
  | refl => exact ht
  | call hc _ ih =>
    exact ih (hs.evolves (call_evolves hc)) (ht.call hs hn hc (hhome _ List.mem_cons_self))
      fun e he => hhome e (List.mem_cons_of_mem _ he)
  | @seize s u t place b es hb hseize _ ih =>
    exact ih (hs.evolves (seize_evolves hb hseize))
      (ht.congr (fun q => by rw [procs_seize hseize]) (active_seize hseize)) hhome
  | @release s t place es _ ih =>
    exact ih (hs.evolves (release_evolves s place))
      (ht.congr (fun q => by rw [procs_release]) (active_release s place)) hhome

/-- The active counts of the first `m` allocators cover the tracked processes. -/
def Covers (m : Nat) (s : Session n) : Prop :=
  #{p : Fin n | s.procs[p].tracked = true} ≤ ∑ a ∈ range m, s.active a

theorem Covers.congr (h : s.Covers m) (htracked : ∀ q : Fin n, t.procs[q].tracked = s.procs[q].tracked)
    (hactive : ∀ a, t.active a = s.active a) : t.Covers m := by
  simp only [Covers, hactive, htracked]
  exact h

theorem Covers.call (h : s.Covers m) (hs : s.Seats m) (hbalances : s.Balances d.session c.counts?) :
    d.session.Covers m ∧ ∀ a, d.session.active a ≤ s.active a + 1 := by
  generalize c.counts? = counts? at hbalances
  cases hbalances with
  | still tracked active => exact ⟨h.congr tracked active, fun a => active a ▸ Nat.le_succ _⟩
  | @moved a p tracked active there count =>
    obtain ⟨x, hx⟩ := there
    have hcard := card_recount (p := p) (b := fun q => s.procs[q].tracked)
      (c := fun q => d.session.procs[q].tracked) tracked
    have hsum := sum_of_changed (f := s.active) (g := d.session.active) (hs a x hx).1 active
    refine ⟨?_, fun b => ?_⟩
    · rw [count] at hsum
      unfold Covers at h ⊢
      rw [hcard]
      cases hwas : s.procs[p].tracked <;> cases his : d.session.procs[p].tracked <;>
        simp only [recount, hwas, his] at hsum ⊢ <;> omega
    · by_cases hb : b = a
      · rw [hb, count]
        exact recount_le _ _ _
      · rw [active b hb]
        exact Nat.le_succ _

theorem Leads.covers (h : s.Leads es t) (hs : s.Seats m) (ht : s.Covers m)
    (hroom : ∀ a, s.active a + es.length < Word.limit) : t.Covers m := by
  induction h with
  | refl => exact ht
  | @call s t c d es hc _ ih =>
    have hfirst : ∀ a, s.active a + 1 < Word.limit := fun a =>
      Nat.lt_of_le_of_lt (by simp) (hroom a)
    obtain ⟨hcovers, hgrows⟩ := ht.call hs (hs.balances hc fun a _ _ _ => hfirst a)
    refine ih (hs.evolves (call_evolves hc)) hcovers fun a => ?_
    have hle := hgrows a
    have hlt : s.active a + (es.length + 1) < Word.limit := hroom a
    omega
  | @seize s u t place b es hb hseize _ ih =>
    exact ih (hs.evolves (seize_evolves hb hseize))
      (ht.congr (fun q => by rw [procs_seize hseize]) (active_seize hseize))
      fun a => active_seize hseize a ▸ hroom a
  | @release s t place es _ ih =>
    exact ih (hs.evolves (release_evolves s place))
      (ht.congr (fun q => by rw [procs_release]) (active_release s place))
      fun a => active_release s place a ▸ hroom a

theorem tracked_freshRoster (ps : Vector (UInt64 × Bool) n) (p : Fin n) :
    (freshRoster ps)[p].tracked = false :=
  congrArg Record.tracked (Vector.getElem_map _ p.isLt)

theorem seats_fresh {procs : Roster n} : (fresh os queues procs).Seats os.length := by
  intro a x hx
  refine ⟨Nat.lt_of_not_le fun ha => ?_, (fresh_sturdy hx).1.config⟩
  have hnone : (fresh os queues procs).seats[a]? = none := by
    refine List.getElem?_eq_none (Nat.le_trans ?_ ha)
    simp [fresh]
  rw [allocator?, seat, hnone] at hx
  cases hx

theorem active_fresh {procs : Roster n} (a : Nat) : (fresh os queues procs).active a = 0 := by
  unfold active
  cases hx : (fresh os queues procs).allocator? a with
  | none => rfl
  | some x => exact (fresh_sturdy hx).2.2

/-- What the active counts say of the tracked flags. As every process takes up memory of its own, a word
is enough to count them. Without a home for each, a long history may still overrun a count. -/
theorem Leads.tallies (h : (fresh os queues (freshRoster ps)).Leads es t) :
    (∀ home : Fin n → Nat, n < UInt64.size →
      (∀ e ∈ es, ∀ a p, e.call = .host a (.ready p) ∨ e.call = .host a (.retire p) → a = home p) →
      (∀ a x core, t.allocator? a = some x → x.core? = some core →
        core.tensor.active = #{p : Fin n | home p = a ∧ t.procs[p].tracked = true}) ∧
      ∀ e ∈ es, ∀ a p x core, e.call = .host a (.retire p) → e.before.procs[p].tracked = true →
        e.before.allocator? a = some x → x.core? = some core → core.tensor.active ≠ 0) ∧
    (∀ p : Fin n, t.procs[p].tracked = (es.filterMap (·.standing? p)).getLast?.getD false) ∧
    (es.length < UInt64.size →
      #{p : Fin n | t.procs[p].tracked = true} ≤ ∑ a ∈ range os.length, t.active a) := by
  have hfresh : ∀ p : Fin n, (fresh os queues (freshRoster ps)).procs[p].tracked = false :=
    tracked_freshRoster ps
  have hnobody {b : Fin n → Bool} (hb : ∀ p, b p = false) : #{p : Fin n | b p = true} = 0 := by
    simp [hb]
  refine ⟨fun home hn hhome => ?_, fun p => ?_, fun hlength => ?_⟩
  · have htallied {past : List (Event n)} {u : Session n}
        (hu : (fresh os queues (freshRoster ps)).Leads past u) (hsub : ∀ e ∈ past, e ∈ es) (a : Nat) :
        u.active a = #{p : Fin n | home p = a ∧ u.procs[p].tracked = true} := by
      have hstart : (fresh os queues (freshRoster ps)).Tallied home := fun a => by
        rw [active_fresh, hnobody fun p => by rw [hfresh, Bool.and_false]]
      have hu' := hu.tallied seats_fresh hstart hn fun e he a p hc =>
        hhome e (hsub e he) a p (Call.counts?_iff.mp hc)
      rw [hu' a]
      simp only [Bool.and_eq_true, decide_eq_true_eq]
    have hcount {u : Session n} {a : Nat} {x : Allocator n} {core : Core n}
        (hx : u.allocator? a = some x) (hcore : x.core? = some core) :
        core.tensor.active = u.active a := by
      rw [active, hx, ← Allocator.active_of_core? hcore]
      rfl
    refine ⟨fun a x core hx hcore => ?_, fun e he a p x core hc hp hx hcore => ?_⟩
    · rw [hcount hx hcore]
      exact htallied h (fun _ he => he) a
    · obtain ⟨past, rest, rfl⟩ := List.append_of_mem he
      obtain ⟨hbefore, _, _⟩ := h.split
      rw [hcount hx hcore, htallied hbefore (fun e he => List.mem_append_left _ he) a]
      refine Finset.card_ne_zero_of_mem (a := p) ?_
      simp [hp, ← hhome e he a p (.inr hc)]
  · have hlast : t.procs[p].tracked =
        (es.filterMap (·.standing? p)).getLast?.getD (freshRoster ps)[p].tracked :=
      h.last_of (x := fun r => r[p].tracked) fun e he =>
        ((h.revises he).tracked p).trans (e.revise_tracked p)
    rwa [tracked_freshRoster] at hlast
  · refine h.covers seats_fresh ?_ fun a => ?_
    · rw [Covers, hnobody hfresh]
      exact Nat.zero_le _
    · rw [active_fresh, Nat.zero_add]
      exact hlength

theorem tallies_two_homes : ∃ es, ∃ t : Session 3,
    (fresh [{ hz := 1000 }, { hz := 1000 }] []
      (freshRoster (.ofFn fun p => (.ofNat p, true)))).Leads es t ∧
    (∃ e ∈ es, e.call = .host 0 (.retire 0) ∧ e.done.answer = .host (.removal .contended)) ∧
    #{p : Fin 3 | p.val / 2 = 0 ∧ t.procs[p].tracked = true} = 2 ∧
    #{p : Fin 3 | p.val / 2 = 1 ∧ t.procs[p].tracked = true} = 0 ∧
    #{p : Fin 3 | t.procs[p].tracked = true} ≤ t.active 0 + t.active 1 ∧
    t.procs[(0 : Fin 3)].tracked = true ∧ t.procs[(2 : Fin 3)].tracked = false := by
  let s : Session 3 :=
    fresh [{ hz := 1000 }, { hz := 1000 }] [] (freshRoster (.ofFn fun p => (.ofNat p, true)))
  let steps : List (Step 3) :=
    [.call (.host 0 (.ready 0)), .call (.host 0 (.ready 1)), .call (.host 1 (.ready 2)),
      .hold (.own 0 3) [.call (.host 0 (.retire 0))], .call (.host 0 .select),
      .call (.host 0 (.ready 0)), .call (.host 1 (.retire 2))]
  let count (t : Session 3) (a : Nat) : Option Nat :=
    ((t.allocator? a).bind (·.core?)).map (·.tensor.active)
  obtain ⟨t, h, hactive⟩ := exists_leads s steps (fun t => (count t 0, count t 1))
    (x := (some 2, some 0)) (by decide +kernel)
  have hhome : ∀ e ∈ s.events steps, ∀ a p,
      e.call = .host a (.ready p) ∨ e.call = .host a (.retire p) → a = p.val / 2 := by
    have hall :
        ((s.events steps).all fun e => e.call.counts?.all fun ap => ap.1 = ap.2.val / 2) = true := by
      decide +kernel
    intro e he a p hc
    have hap := List.all_eq_true.mp hall e he
    rw [Call.counts?_iff.mpr hc] at hap
    exact of_decide_eq_true hap
  obtain ⟨hagrees, hstanding, hcovers⟩ := h.tallies
  obtain ⟨hcounts, _⟩ := hagrees (fun p => p.val / 2) (by decide) hhome
  have hcount {a k : Nat} (hk : count t a = some k) :
      #{p : Fin 3 | p.val / 2 = a ∧ t.procs[p].tracked = true} = k := by
    obtain ⟨core, hcore, rfl⟩ := Option.map_eq_some_iff.mp hk
    obtain ⟨x, hx, hcore⟩ := Option.bind_eq_some_iff.mp hcore
    exact (hcounts a x core hx hcore).symm
  have hsum := hcovers (by decide +kernel)
  refine ⟨_, t, h, by decide +kernel, hcount (congrArg Prod.fst hactive),
    hcount (congrArg Prod.snd hactive), ?_, (hstanding 0).trans ?_, (hstanding 2).trans ?_⟩
  · simpa [Finset.sum_range_succ] using hsum
  · decide +kernel
  · decide +kernel

end Session

end AttentionScheduler
