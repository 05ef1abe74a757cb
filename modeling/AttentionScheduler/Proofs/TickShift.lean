import AttentionScheduler.Proofs.Alignment

/-!
A session whose ticks are all later by the same distance, modulo the number of ticks, schedules alike. It
is the time since the last update that a refresh goes by, and no call compares two ticks otherwise.
-/

namespace AttentionScheduler

variable {n : Nat} {k : Tick}

/-- Every tick is `k` later. What ticks the rings hold, and the last updates of the allocators, is free. -/
def Leeway.shift (k : Tick) : Leeway where
  ahead := k
  ticks := true
  ticks_of_ahead := nofun

namespace Opening

theorem clockPlaces_append (os : List Opening) (o : Opening) :
    clockPlaces (os ++ [o]) = clockPlaces os ++
      [(o.share?.bind ((clockPlaces os)[·]?)).getD (clockPlaces os).length] :=
  List.foldl_concat ..

theorem clockPlaces_lt (os : List Opening) :
    (clockPlaces os).length = os.length ∧ ∀ place ∈ clockPlaces os, place < os.length := by
  induction os using List.reverseRecOn with
  | nil => exact ⟨rfl, fun _ hplace => by cases hplace⟩
  | append_singleton os o ih =>
    obtain ⟨hlength, hplaces⟩ := ih
    rw [clockPlaces_append, List.length_append, List.length_append, List.length_singleton,
      List.length_singleton, hlength]
    refine ⟨rfl, fun place hplace => Nat.lt_succ_of_le ?_⟩
    rcases List.mem_append.mp hplace with hplace | hplace
    · exact Nat.le_of_lt (hplaces place hplace)
    · rw [List.mem_singleton.mp hplace]
      cases hshare : o.share?.bind ((clockPlaces os)[·]?) with
      | none => exact Nat.le_refl _
      | some shared =>
        obtain ⟨_, _, hshared⟩ := Option.bind_eq_some_iff.mp hshare
        exact Nat.le_of_lt (hplaces shared (List.mem_of_getElem? hshared))

end Opening

namespace Session

variable {s t : Session n} {xs : List (Step n)} {es fs : List (Event n)} {c : Call n}

instance (s : Session n) (c : Call n) : Decidable (s.Overruns c) :=
  match c with
  | .clock a (.advance _) =>
    match hs : s.seat a with
    | .ok _ => decidable_of_iff _ (overruns_iff hs).symm
    | .error _ => .isFalse fun ⟨_, _, _, h, hs', _⟩ => by cases h; cases hs.symm.trans hs'
  | .clock _ (.set _) | .clock _ .read | .host .. | .record .. | .bucket .. =>
    .isFalse fun ⟨_, _, _, h, _⟩ => by cases h

/-- No clock passes its last tick. -/
def Calm (es : List (Event n)) : Prop := ∀ e ∈ es, ¬ e.before.Overruns e.call

theorem answers_of_calm {l : Leeway} (h : List.Forall₂ (Event.Akin l) es fs) (hes : Calm es)
    (hfs : Calm fs) :
    List.Forall₂ (fun e f => e.Akin l f ∧ e.done.answer.Akin l f.done.answer) es fs := by
  induction h with
  | nil => exact .nil
  | cons h _ ih =>
    obtain ⟨he, hes⟩ := List.forall_mem_cons.mp hes
    obtain ⟨hf, hfs⟩ := List.forall_mem_cons.mp hfs
    exact .cons ⟨h, h.answer fun _ => ⟨he, hf⟩⟩ (ih hes hfs)

def later (k : Tick) (s : Session n) : Session n :=
  { s with
    procs := s.procs.map (·.withVector (·.later k))
    clocks := s.clocks.map (·.later k) }

theorem akin_later (hs : ∀ a x, s.seat a = .ok x → x.clock < s.clocks.length) (k : Tick) :
    s.Akin (.shift k) (s.later k) := by
  refine akin_of_seats (fun q => ?_) rfl rfl rfl nofun fun _ => hs
  have hlater : (s.later k).procs[q] = s.procs[q].withVector (·.later k) :=
    Vector.getElem_map ..
  rw [hlater]
  exact ⟨fun _ => rfl, rfl, rfl, rfl, rfl, rfl, rfl⟩

theorem fresh_clock_lt {os : List Opening} {queues : List (Nat × Single)} {procs : Roster n} {a : Nat}
    {x : Seat n} (h : (fresh os queues procs).seat a = .ok x) :
    x.clock < (fresh os queues procs).clocks.length := by
  obtain ⟨o, lines, hplace, _⟩ := make_of_seat h
  have hclocks : (fresh os queues procs).clocks.length = os.length := List.length_map _
  rw [hclocks]
  exact (Opening.clockPlaces_lt os).2 _ (List.of_mem_zip hplace).2

/-- Every session that comes about has another one that is `k` ticks ahead of it. -/
theorem Leads.akin_later {os : List Opening} {queues : List (Nat × Single)} {procs : Roster n}
    (h : (fresh os queues procs).Leads es s) (k : Tick) : s.Akin (.shift k) (s.later k) := by
  obtain ⟨u, hu⟩ := h.akin (Session.akin_later (fun _ _ => fresh_clock_lt) 1)
  refine Session.akin_later (fun a x hx => ?_) k
  have hseat := hu.seats a
  rw [hx] at hseat
  generalize u.seat a = e at hseat
  cases hseat with
  | ok hxy => exact hxy.clock_lt (by decide)

/-- Two sessions of which the second is `k` ticks ahead stay so, at every call, and answer alike. -/
theorem run_alike_of_shift (h : s.Akin (.shift k) t) (xs : List (Step n)) (hs : Calm (s.events xs))
    (ht : Calm (t.events (Step.mapAll (Call.later k) xs))) :
    Outcomes (fun r r' => r.1.Akin (.shift k) r'.1) (s.run xs)
      (t.run (Step.mapAll (Call.later k) xs)) ∧
    List.Forall₂ (fun e f => e.Akin (.shift k) f ∧ e.done.answer.Akin (.shift k) f.done.answer)
      (s.events xs) (t.events (Step.mapAll (Call.later k) xs)) := by
  obtain ⟨hends, hevents⟩ := h.run_later xs
  exact ⟨hends, answers_of_calm hevents hs ht⟩

/-- The second session dispatches in its last tick and refreshes three ticks later. -/
theorem run_alike_past_the_last_tick : ∃ (k : Tick) (s t : Session 2) (steps : List (Step 2)),
    k + 3 = 0 ∧
    Outcomes (fun r r' => r.1.Akin (.shift k) r'.1) (s.run steps)
      (t.run (Step.mapAll (Call.later k) steps)) ∧
    List.Forall₂ (fun e f => e.Akin (.shift k) f ∧ e.done.answer.Akin (.shift k) f.done.answer)
      (s.events steps) (t.events (Step.mapAll (Call.later k) steps)) ∧
    (t.events (Step.mapAll (Call.later k) steps)).map (·.done.answer) =
      [.host (.mark (some 2)), .clock (.tick 0xffffffffffffffff), .host (.selected (some 0)),
        .clock (.tick 2), .host .done, .clock (.tick 6), .host (.mark (some 2))] ∧
    (s.run steps).toOption.map (fun r => (r.1.procs[(0 : Fin 2)].vector.lastUpdate,
      r.1.procs[(0 : Fin 2)].vector.get 3)) = some (5, .one) ∧
    (t.run (Step.mapAll (Call.later k) steps)).toOption.map
      (fun r => (r.1.procs[(0 : Fin 2)].vector.lastUpdate,
        r.1.procs[(0 : Fin 2)].vector.get 3)) = some (2, .one) := by
  let k : Tick := 0xfffffffffffffffd
  let s : Session 2 :=
    fresh [{ hz := 1000, config? := some { attentionLevels := 3, maxProcs := 2, timeWindow := 2 } }] []
      (freshRoster (.ofFn fun p => (.ofNat p, true)))
  let t : Session 2 := s.later k
  let steps : List (Step 2) :=
    [.call (.host 0 (.ready 0)), .call (.clock 0 (.set 2)), .call (.host 0 .select),
      .call (.clock 0 (.set 5)), .call (.host 0 (.refresh 0)), .call (.clock 0 (.advance 4)),
      .call (.host 0 (.ready 0))]
  have hs : Calm (s.events steps) := by
    unfold Calm
    decide +kernel
  have ht : Calm (t.events (Step.mapAll (Call.later k) steps)) := by
    unfold Calm
    decide +kernel
  obtain ⟨hends, hevents⟩ := run_alike_of_shift ((Leads.refl s).akin_later k) steps hs ht
  exact ⟨k, s, t, steps, by decide, hends, hevents, by decide +kernel, by decide +kernel,
    by decide +kernel⟩

end Session

end AttentionScheduler
