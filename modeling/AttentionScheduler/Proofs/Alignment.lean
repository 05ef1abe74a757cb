import AttentionScheduler.Proofs.SessionLeeway

/-!
Two runs within a leeway. Their steps are the same, some ticks later, but for idle calls that only one of
them makes. No answer to the other calls tells the two apart.
-/

namespace AttentionScheduler

variable {n : Nat} {l : Leeway} {idle : Call n → Bool} {f : Call n → Call n}

namespace Step

mutual

def map (f : Call n → Call n) : Step n → Step n
  | .call c => .call (f c)
  | .hold place body => .hold place (mapAll f body)

def mapAll (f : Call n → Call n) : List (Step n) → List (Step n)
  | [] => []
  | first :: rest => first.map f :: mapAll f rest

end

/-- The second list has `f c` for a call `c` of the first one, and each may have idle calls that the
other one does not have. -/
inductive Aligned (idle : Call n → Bool) (f : Call n → Call n) :
    List (Step n) → List (Step n) → Prop where
  | nil : Aligned idle f [] []
  | call (c : Call n) {xs ys : List (Step n)} (rest : Aligned idle f xs ys) :
      Aligned idle f (.call c :: xs) (.call (f c) :: ys)
  | hold (place : Place) {inside inside' xs ys : List (Step n)} (body : Aligned idle f inside inside')
      (rest : Aligned idle f xs ys) :
      Aligned idle f (.hold place inside :: xs) (.hold place inside' :: ys)
  | left {c : Call n} {xs ys : List (Step n)} (h : idle c = true) (rest : Aligned idle f xs ys) :
      Aligned idle f (.call c :: xs) ys
  | right {c : Call n} {xs ys : List (Step n)} (h : idle c = true) (rest : Aligned idle f xs ys) :
      Aligned idle f xs (.call c :: ys)

theorem aligned_mapAll (idle : Call n → Bool) (f : Call n → Call n) :
    (xs : List (Step n)) → Aligned idle f xs (mapAll f xs)
  | [] => .nil
  | .call c :: rest => .call c (aligned_mapAll idle f rest)
  | .hold place body :: rest => .hold place (aligned_mapAll idle f body) (aligned_mapAll idle f rest)

theorem mapAll_id : (xs : List (Step n)) → mapAll id xs = xs
  | [] => rfl
  | .call c :: rest => congrArg (Step.call c :: ·) (mapAll_id rest)
  | .hold place body :: rest => by rw [mapAll, Step.map, mapAll_id body, mapAll_id rest]

end Step

namespace Session

variable {s t : Session n} {xs ys : List (Step n)}

/-- The run gets no further than an idle call. -/
inductive Stalls (idle : Call n → Bool) : Session n → List (Step n) → Prop where
  | here {s : Session n} {c : Call n} {stop : Stop} {rest : List (Step n)} (h : idle c = true)
      (stopped : s.call c = .error stop) : Stalls idle s (.call c :: rest)
  | inside {s t : Session n} {place : Place} {b : Bucket n} {body rest : List (Step n)}
      (there : s.bucket? place = .ok (some b)) (seized : s.seize place b = .ok t)
      (h : Stalls idle t body) : Stalls idle s (.hold place body :: rest)
  | later {s t : Session n} {first : Step n} {r : Report n} {rest : List (Step n)}
      (passed : s.step first = .ok (t, r)) (h : Stalls idle t rest) : Stalls idle s (first :: rest)

theorem Stalls.run_eq_none (h : s.Stalls idle xs) : (s.run xs).toOption = none := by
  induction h with
  | here h stopped =>
    rw [run, step, stopped]
    rfl
  | @inside s t place b body rest there seized h ih =>
    rw [run, step, there]
    simp only [seized]
    cases hbody : t.run body with
    | error stop => rfl
    | ok v =>
      rw [hbody] at ih
      cases ih
  | @later s t first r rest passed h ih =>
    rw [run, passed]
    dsimp only
    cases hrest : t.run rest with
    | error stop => rfl
    | ok v =>
      rw [hrest] at ih
      cases ih

theorem not_stalls (hidle : ∀ c, idle c = false) : ¬ s.Stalls idle xs := by
  intro h
  induction h with
  | @here s c stop rest h stopped => cases (hidle c).symm.trans h
  | inside there seized h ih => exact ih
  | later passed h ih => exact ih

/-- The events besides the idle calls. -/
def besides (idle : Call n → Bool) (es : List (Event n)) : List (Event n) :=
  es.filter fun e => !idle e.call

theorem of_mem_besides {es : List (Event n)} {e : Event n} (he : e ∈ besides idle es) :
    idle e.call = false := by
  have hcall := (List.mem_filter.mp he).2
  cases hc : idle e.call with
  | false => rfl
  | true =>
    rw [hc] at hcall
    cases hcall

theorem besides_append (es fs : List (Event n)) :
    besides idle (es ++ fs) = besides idle es ++ besides idle fs :=
  List.filter_append ..

theorem besides_singleton (e : Event n) : besides idle [e] = if idle e.call then [] else [e] := by
  rw [besides, List.filter_singleton]
  cases idle e.call <;> rfl

theorem besides_eq_self (hidle : ∀ c, idle c = false) (es : List (Event n)) : besides idle es = es :=
  List.filter_eq_self.mpr fun e _ => by rw [hidle]; rfl

/-- The two runs end alike, with sessions within the leeway, and so does every call on the way that is not
idle. -/
structure InStep (l : Leeway) (idle : Call n → Bool) (s : Session n) (xs : List (Step n))
    (t : Session n) (ys : List (Step n)) : Prop where
  ends : Outcomes (fun r r' => r.1.Akin l r'.1) (s.run xs) (t.run ys)
  events : List.Forall₂ (Event.Akin l) (besides idle (s.events xs)) (besides idle (t.events ys))

namespace InStep

theorem cons {first first' : Step n}
    (hends : Outcomes (fun r r' => r.1.Akin l r'.1) (s.step first) (t.step first'))
    (hevents : List.Forall₂ (Event.Akin l) (besides idle (s.stepEvents first))
      (besides idle (t.stepEvents first')))
    (hrest : ∀ r r', s.step first = .ok r → t.step first' = .ok r' → r.1.Akin l r'.1 →
      InStep l idle r.1 xs r'.1 ys) :
    InStep l idle s (first :: xs) t (first' :: ys) := by
  generalize hs : s.step first = e at hends hrest
  generalize ht : t.step first' = e' at hends hrest
  cases hends with
  | error stop =>
    refine ⟨?_, ?_⟩
    · rw [run, run, hs, ht]
      exact .error stop
    · rw [Session.events, Session.events, hs, ht]
      exact hevents
  | @ok r r' h =>
    have hrest := hrest r r' rfl rfl h
    refine ⟨?_, ?_⟩
    · have hends := hrest.ends
      rw [run, run, hs, ht]
      dsimp only
      generalize r.1.run xs = u at hends
      generalize r'.1.run ys = v at hends
      cases hends with
      | error stop => exact .error stop
      | ok h => exact .ok h
    · rw [Session.events, Session.events, hs, ht]
      dsimp only
      rw [besides_append, besides_append]
      exact List.rel_append hevents hrest.events

theorem left {c : Call n} {d : Done n} (hidle : idle c = true) (hc : s.call c = .ok d)
    (hrest : InStep l idle d.session xs t ys) : InStep l idle s (.call c :: xs) t ys := by
  refine ⟨?_, ?_⟩
  · have hends := hrest.ends
    rw [run, step, hc]
    dsimp only [Except.map]
    generalize d.session.run xs = u at hends
    generalize t.run ys = v at hends
    cases hends with
    | error stop => exact .error stop
    | ok h => exact .ok h
  · rw [Session.events, step, stepEvents, hc]
    dsimp only [Except.map]
    rw [besides_append, besides_singleton, if_pos hidle]
    exact hrest.events

theorem right {c : Call n} {d : Done n} (hidle : idle c = true) (hc : t.call c = .ok d)
    (hrest : InStep l idle s xs d.session ys) : InStep l idle s xs t (.call c :: ys) := by
  refine ⟨?_, ?_⟩
  · have hends := hrest.ends
    rw [run.eq_2 t, step, hc]
    dsimp only [Except.map]
    generalize s.run xs = u at hends
    generalize d.session.run ys = v at hends
    cases hends with
    | error stop => exact .error stop
    | ok h => exact .ok h
  · rw [Session.events.eq_2 t, step, stepEvents, hc]
    dsimp only [Except.map]
    rw [besides_append, besides_singleton, if_pos hidle]
    exact hrest.events

end InStep

theorem Akin.hold {inside inside' : List (Step n)} (h : s.Akin l t) (place : Place)
    (hbody : ∀ b u v, s.bucket? place = .ok (some b) → s.seize place b = .ok u →
      t.seize place b = .ok v → u.Akin l v → InStep l idle u inside v inside') :
    Outcomes (fun r r' => r.1.Akin l r'.1) (s.step (.hold place inside)) (t.step (.hold place inside')) ∧
      List.Forall₂ (Event.Akin l) (besides idle (s.stepEvents (.hold place inside)))
        (besides idle (t.stepEvents (.hold place inside'))) := by
  rw [step, step, stepEvents, stepEvents, h.bucket? place]
  cases hb : s.bucket? place with
  | error stop => exact ⟨.error stop, .nil⟩
  | ok b? =>
    cases b? with
    | none => exact ⟨.ok h, .nil⟩
    | some b =>
      have hseize := h.seize place b
      dsimp only
      generalize hu : s.seize place b = e at hseize
      generalize hv : t.seize place b = e' at hseize
      cases hseize with
      | error stop => exact ⟨.error stop, .nil⟩
      | @ok u v huv =>
        obtain ⟨hends, hevents⟩ := hbody b u v hb hu hv huv
        dsimp only
        refine ⟨?_, hevents⟩
        generalize u.run inside = r at hends
        generalize v.run inside' = r' at hends
        cases hends with
        | error stop => exact .error stop
        | ok hr => exact .ok (hr.release place)

/-- An idle call changes nothing beyond the leeway. -/
structure Idles (l : Leeway) (idle : Call n → Bool) : Prop where
  later : ∀ c, idle (c.later l.ahead) = idle c
  left : ∀ {s t : Session n} {c : Call n} {d : Done n}, s.Akin l t → idle c = true →
    s.call c = .ok d → d.session.Akin l t
  right : ∀ {s t : Session n} {c : Call n} {d : Done n}, s.Akin l t → idle c = true →
    t.call c = .ok d → s.Akin l d.session

theorem Akin.run (h : s.Akin l t) (hidle : Idles l idle)
    (hsteps : Step.Aligned idle (Call.later l.ahead) xs ys) (hx : ¬ s.Stalls idle xs)
    (hy : ¬ t.Stalls idle ys) : InStep l idle s xs t ys := by
  induction hsteps generalizing s t with
  | nil => exact ⟨.ok h, .nil⟩
  | @call c xs ys _ ih =>
    have hcall := h.call c
    refine .cons ?_ ?_ fun r r' hr hr' hrest => ih hrest (fun hx' => hx (.later hr hx'))
      fun hy' => hy (.later hr' hy')
    · rw [step, step]
      generalize s.call c = e at hcall
      generalize t.call (c.later l.ahead) = e' at hcall
      cases hcall with
      | error stop => exact .error stop
      | ok he => exact .ok he.session
    · rw [stepEvents, stepEvents]
      generalize s.call c = e at hcall
      generalize t.call (c.later l.ahead) = e' at hcall
      cases hcall with
      | error stop => exact .nil
      | ok he =>
        dsimp only
        rw [besides_singleton, besides_singleton, hidle.later]
        split
        · exact .nil
        · exact .cons he .nil
  | @hold place inside inside' xs ys _ _ ihbody ihrest =>
    have hbody (b : Bucket n) (u v : Session n) (hb : s.bucket? place = .ok (some b))
        (hu : s.seize place b = .ok u) (hv : t.seize place b = .ok v) (huv : u.Akin l v) :
        InStep l idle u inside v inside' :=
      ihbody huv (fun hx' => hx (.inside hb hu hx'))
        fun hy' => hy (.inside ((h.bucket? place).trans hb) hv hy')
    obtain ⟨hends, hevents⟩ := h.hold place hbody
    exact .cons hends hevents fun r r' hr hr' hrest => ihrest hrest (fun hx' => hx (.later hr hx'))
      fun hy' => hy (.later hr' hy')
  | @left c xs ys hc _ ih =>
    cases hd : s.call c with
    | error stop => exact absurd (.here hc hd) hx
    | ok d =>
      have hstep : s.step (.call c) = .ok (d.session, report d c.process? c.allocator?) := by
        rw [step, hd]
        rfl
      exact .left hc hd (ih (hidle.left h hc hd) (fun hx' => hx (.later hstep hx')) hy)
  | @right c xs ys hc _ ih =>
    cases hd : t.call c with
    | error stop => exact absurd (.here hc hd) hy
    | ok d =>
      have hstep : t.step (.call c) = .ok (d.session, report d c.process? c.allocator?) := by
        rw [step, hd]
        rfl
      exact .right hc hd (ih (hidle.right h hc hd) hx fun hy' => hy (.later hstep hy'))

theorem Leads.akin {u : Session n} {es : List (Event n)} (h : s.Leads es t) (hu : s.Akin l u) :
    ∃ v, t.Akin l v := by
  induction h generalizing u with
  | refl s => exact ⟨u, hu⟩
  | @call s t c d es hc _ ih =>
    have hcall := hu.call c
    rw [hc] at hcall
    generalize u.call (c.later l.ahead) = e at hcall
    cases hcall with
    | ok he => exact ih he.session
  | @seize s t v place b es hb hs _ ih =>
    have hseize := hu.seize place b
    rw [hs] at hseize
    generalize u.seize place b = e at hseize
    cases hseize with
    | ok ht => exact ih ht
  | release place _ ih => exact ih (hu.release place)

/-- The same steps, each clock set as much later as the other one is ahead. -/
theorem Akin.run_later (h : s.Akin l t) (xs : List (Step n)) :
    Outcomes (fun r r' => r.1.Akin l r'.1) (s.run xs) (t.run (Step.mapAll (Call.later l.ahead) xs)) ∧
      List.Forall₂ (Event.Akin l) (s.events xs) (t.events (Step.mapAll (Call.later l.ahead) xs)) := by
  have hidle : Idles l fun _ : Call n => false := ⟨fun _ => rfl, nofun, nofun⟩
  have hrun := h.run hidle (Step.aligned_mapAll _ _ xs) (not_stalls fun _ => rfl)
    (not_stalls fun _ => rfl)
  refine ⟨hrun.ends, ?_⟩
  have hevents := hrun.events
  rwa [besides_eq_self fun _ => rfl, besides_eq_self fun _ => rfl] at hevents

end Session

end AttentionScheduler
