import AttentionScheduler.Proofs.Alignment
import AttentionScheduler.Proofs.Bystanders

/-!
A run without some of its calls. Those that name a bystander can be left out, and every other call
answers, logs and does the same.
-/

namespace AttentionScheduler

variable {n : Nat} {p : Fin n} {φ : Feed n} {idle : Call n → Bool}

namespace Step

mutual

def calls : Step n → List (Call n)
  | .call c => [c]
  | .hold _ body => callsAll body

def callsAll : List (Step n) → List (Call n)
  | [] => []
  | first :: rest => first.calls ++ callsAll rest

end

mutual

def besides (idle : Call n → Bool) : Step n → List (Step n)
  | .call c => if idle c then [] else [.call c]
  | .hold place body => [.hold place (besidesAll idle body)]

/-- The steps without the idle calls, at any depth. -/
def besidesAll (idle : Call n → Bool) : List (Step n) → List (Step n)
  | [] => []
  | first :: rest => first.besides idle ++ besidesAll idle rest

end

theorem callsAll_append (xs ys : List (Step n)) : callsAll (xs ++ ys) = callsAll xs ++ callsAll ys := by
  induction xs with
  | nil => rfl
  | cons first xs ih => simp only [List.cons_append, callsAll, ih, List.append_assoc]

mutual

theorem callsAll_besides : (step : Step n) → callsAll (step.besides idle) = step.calls.filter (!idle ·)
  | .call c => by cases h : idle c <;> simp [besides, calls, callsAll, h]
  | .hold place body => by simp [besides, calls, callsAll, callsAll_besidesAll body]

/-- The calls that are left are those that are not idle, in their order. -/
theorem callsAll_besidesAll :
    (steps : List (Step n)) → callsAll (besidesAll idle steps) = (callsAll steps).filter (!idle ·)
  | [] => rfl
  | first :: rest => by
    rw [besidesAll, callsAll_append, callsAll_besides first, callsAll_besidesAll rest, callsAll,
      List.filter_append]

end

end Step

namespace Report

mutual

def besides (idle : Call n → Bool) : Step n → Report n → List (Report n)
  | .call c, r => if idle c then [] else [r]
  | .hold _ body, .held inside sight => [.held (besidesAll idle body inside) sight]
  | .hold _ _, .called answer sight lines => [.called answer sight lines]

/-- The reports of a run of these steps without those of the idle calls. -/
def besidesAll (idle : Call n → Bool) : List (Step n) → List (Report n) → List (Report n)
  | first :: rest, r :: rs => besides idle first r ++ besidesAll idle rest rs
  | _, _ => []

end

end Report

namespace Session

variable {s t : Session n} {es : List (Event n)}

theorem run_append (s : Session n) (xs ys : List (Step n)) :
    s.run (xs ++ ys) = (s.run xs).bind fun r => (r.1.run ys).map fun r' => (r'.1, r.2 ++ r'.2) := by
  induction xs generalizing s with
  | nil =>
    rw [List.nil_append, run.eq_1]
    change s.run ys = (s.run ys).map id
    cases s.run ys <;> rfl
  | cons first xs ih =>
    rw [List.cons_append, run, run]
    cases s.step first with
    | error stop => rfl
    | ok r =>
      dsimp only
      rw [ih]
      cases r.1.run xs with
      | error stop => rfl
      | ok r' =>
        dsimp only [Except.bind, Except.map]
        cases r'.1.run ys <;> rfl

theorem events_append (s : Session n) (xs ys : List (Step n)) :
    s.events (xs ++ ys) = s.events xs ++ ((s.run xs).map fun r => r.1.events ys).toOption.getD [] := by
  induction xs generalizing s with
  | nil => rfl
  | cons first xs ih =>
    rw [List.cons_append, events, events, run]
    cases s.step first with
    | error stop => exact (List.append_nil _).symm
    | ok r =>
      dsimp only
      rw [ih, List.append_assoc]
      cases r.1.run xs <;> rfl

theorem run_singleton (s : Session n) (x : Step n) :
    s.run [x] = (s.step x).map fun r => (r.1, [r.2]) := by
  rw [run]
  cases s.step x <;> rfl

theorem events_singleton (s : Session n) (x : Step n) : s.events [x] = s.stepEvents x := by
  rw [events]
  cases s.step x with
  | error stop => rfl
  | ok r => exact List.append_nil _

mutual

theorem mem_calls_of_mem_stepEvents {e : Event n} (s : Session n) :
    (step : Step n) → e ∈ s.stepEvents step → e.call ∈ step.calls
  | .call c, h => by
    rw [stepEvents] at h
    split at h
    · rw [List.mem_singleton.mp h]
      exact List.mem_singleton_self c
    · cases h
  | .hold place body, h => by
    rw [stepEvents] at h
    split at h
    · split at h
      · exact mem_calls_of_mem_events _ body h
      · cases h
    · cases h

theorem mem_calls_of_mem_events {e : Event n} (s : Session n) :
    (steps : List (Step n)) → e ∈ s.events steps → e.call ∈ Step.callsAll steps
  | [], h => by cases h
  | first :: rest, h => by
    rw [events] at h
    rw [Step.callsAll]
    split at h
    · rcases List.mem_append.mp h with h | h
      · exact List.mem_append_left _ (mem_calls_of_mem_stepEvents s first h)
      · exact List.mem_append_right _ (mem_calls_of_mem_events _ rest h)
    · exact List.mem_append_left _ (mem_calls_of_mem_stepEvents s first h)

end

mutual

theorem stepEvents_lead (s : Session n) : (step : Step n) → ∃ t, s.Leads (s.stepEvents step) t
  | .call c => by
    rw [stepEvents]
    cases hc : s.call c with
    | error stop => exact ⟨s, .refl s⟩
    | ok d => exact ⟨d.session, .call hc (.refl _)⟩
  | .hold place body => by
    rw [stepEvents]
    split
    · next b hb =>
      split
      · next u hs =>
        obtain ⟨t, h⟩ := events_lead u body
        exact ⟨t, .seize hb hs h⟩
      · exact ⟨s, .refl s⟩
    · exact ⟨s, .refl s⟩

/-- The calls of a run that came back, also of one that stops, are a history. -/
theorem events_lead (s : Session n) : (steps : List (Step n)) → ∃ t, s.Leads (s.events steps) t
  | [] => ⟨s, .refl s⟩
  | first :: rest => by
    rw [events]
    split
    · next v r hf =>
      obtain ⟨t, h⟩ := events_lead v rest
      exact ⟨t, (step_leads s v r first hf).trans h⟩
    · exact stepEvents_lead s first

end

/-- While `I` holds, a call for which `Q` holds comes back if it names the process that the host feeds,
and nothing is left of it but what is fed. -/
structure Unheard (φ : Feed n) (I : Session n → Prop) (Q : Call n → Prop) : Prop where
  leads : ∀ {s t : Session n} {es : List (Event n)}, I s → s.Leads es t →
    (∀ e ∈ es, Q e.call) → I t
  call : ∀ {s : Session n} {c : Call n}, I s → Q c → c.process? = some φ.process →
    ∃ d, s.call c = .ok d ∧ d.session.fed φ = s.fed φ

namespace Unheard

variable {I : Session n → Prop} {Q : Call n → Prop}

mutual

theorem step_besides (h : Unheard φ I Q) (s : Session n) (hs : I s) :
    (step : Step n) → (∀ c ∈ step.calls, Q c) →
      (s.fed φ).run (step.besides (Call.names φ.process)) =
          (s.step step).map (fun r => (r.1.fed φ, Report.besides (Call.names φ.process) step r.2)) ∧
        (s.fed φ).events (step.besides (Call.names φ.process)) =
          (besides (Call.names φ.process) (s.stepEvents step)).map (Event.fed φ)
  | .call c, hQ => by
    by_cases hc : c.process? = some φ.process
    · have hnames : Call.names φ.process c = true := decide_eq_true hc
      obtain ⟨d, hd, hfed⟩ := h.call hs (hQ c (List.mem_singleton_self c)) hc
      rw [Step.besides, if_pos hnames, step, stepEvents, hd]
      dsimp only [Except.map]
      rw [besides_singleton, if_pos hnames, Report.besides, if_pos hnames, hfed]
      exact ⟨rfl, rfl⟩
    · have hnames : ¬ Call.names φ.process c = true := fun hn => hc (of_decide_eq_true hn)
      rw [Step.besides, if_neg hnames, run_singleton, events_singleton, step, step, stepEvents,
        stepEvents, s.fed_call hc]
      cases s.call c with
      | error stop => exact ⟨rfl, rfl⟩
      | ok d =>
        have hsight : report (d.fed φ) c.process? c.allocator? = report d c.process? c.allocator? :=
          congrArg (Report.called d.answer · d.lines) (sight_fed hc d.session c.allocator?)
        dsimp only [Except.map]
        rw [besides_singleton, if_neg hnames, Report.besides, if_neg hnames, hsight]
        exact ⟨rfl, rfl⟩
  | .hold place body, hQ => by
    rw [Step.besides, run_singleton, events_singleton, step, step, stepEvents, stepEvents,
      bucket?_fed]
    cases hb : s.bucket? place with
    | error stop => exact ⟨rfl, rfl⟩
    | ok b? =>
      cases b? with
      | none => exact ⟨rfl, rfl⟩
      | some b =>
        dsimp only
        rw [fed_seize]
        cases hseize : s.seize place b with
        | error stop => exact ⟨rfl, rfl⟩
        | ok u =>
          have hu : I u := h.leads hs (.seize hb hseize (.refl u)) (by simp)
          obtain ⟨hrun, hevents⟩ := run_besides h u hu body hQ
          dsimp only [Except.map]
          rw [hrun, hevents]
          refine ⟨?_, rfl⟩
          cases u.run body with
          | error stop => rfl
          | ok r =>
            dsimp only [Except.map]
            rw [fed_release]
            rfl

/-- A run without the calls that name the process, beside the one with them. -/
theorem run_besides (h : Unheard φ I Q) (s : Session n) (hs : I s) :
    (steps : List (Step n)) → (∀ c ∈ Step.callsAll steps, Q c) →
      (s.fed φ).run (Step.besidesAll (Call.names φ.process) steps) =
          (s.run steps).map
            (fun r => (r.1.fed φ, Report.besidesAll (Call.names φ.process) steps r.2)) ∧
        (s.fed φ).events (Step.besidesAll (Call.names φ.process) steps) =
          (besides (Call.names φ.process) (s.events steps)).map (Event.fed φ)
  | [], _ => ⟨rfl, rfl⟩
  | first :: rest, hQ => by
    rw [Step.callsAll, List.forall_mem_append] at hQ
    obtain ⟨hrun, hevents⟩ := step_besides h s hs first hQ.1
    rw [Step.besidesAll, run_append, events_append, hrun, hevents, run, events]
    cases hf : s.step first with
    | error stop => exact ⟨rfl, List.append_nil _⟩
    | ok v =>
      have hv : I v.1 := h.leads hs (step_leads s v.1 v.2 first hf)
        fun e he => hQ.1 _ (mem_calls_of_mem_stepEvents s first he)
      obtain ⟨hrun', hevents'⟩ := run_besides h v.1 hv rest hQ.2
      dsimp only [Except.map, Except.bind]
      rw [hrun', besides_append, List.map_append, ← hevents']
      refine ⟨?_, rfl⟩
      cases v.1.run rest <;> rfl

end

end Unheard

section

variable {os : List Opening} {queues : List (Nat × Single)} {ps : Vector (UInt64 × Bool) n}
  {steps : List (Step n)}

theorem fed_fresh (os : List Opening) (queues : List (Nat × Single)) (ps : Vector (UInt64 × Bool) n)
    (p : Fin n) :
    (fresh os queues (freshRoster ps)).fed ⟨p, 0, 0⟩ = fresh os queues (freshRoster ps) := by
  have hself : (freshRoster ps).fed ⟨p, 0, 0⟩ = freshRoster ps :=
    Roster.update_self (by rw [getElem_freshRoster ps p]; rfl)
  exact congrArg (fun procs => { fresh os queues (freshRoster ps) with procs }) hself

/-- The call does not expose `p`, and if it names `p` it is on what the session has. -/
structure Discreet (p : Fin n) (s : Session n) (c : Call n) : Prop where
  unexposed : c.exposes p = false
  offered : c.process? = some p → s.offers c = true

theorem unheard_bystander (hp : (freshRoster ps)[p].cognitive = false) :
    Unheard ⟨p, 0, 0⟩
      (fun s => ∃ past, (fresh os queues (freshRoster ps)).Leads past s ∧
        ∀ e ∈ past, (fresh os queues (freshRoster ps)).Discreet p e.call)
      ((fresh os queues (freshRoster ps)).Discreet p) where
  leads := by
    rintro s t es ⟨past, hpast, hcalls⟩ h hes
    exact ⟨past ++ es, hpast.trans h, List.forall_mem_append.mpr ⟨hcalls, hes⟩⟩
  call := by
    rintro s c ⟨past, hpast, hcalls⟩ hdiscreet hc
    have hs := (hpast.bystander hp fun e he => (hcalls e he).unexposed).1
    obtain ⟨d, hd, -, hfed⟩ :=
      hs.call_naming hc hdiscreet.unexposed ((hpast.offers c).trans (hdiscreet.offered hc))
    exact ⟨d, hd, hfed⟩

/-- A process that is not cognitive stays as it was built, and nobody hands it out. Without the steps
that name it a run answers, logs and does the same, down to when it starts an allocator and to where it
stops. -/
theorem run_without_bystander (os : List Opening) (queues : List (Nat × Single))
    (hp : (freshRoster ps)[p].cognitive = false)
    (hsteps : ∀ c ∈ Step.callsAll steps, (fresh os queues (freshRoster ps)).Discreet p c) :
    let s := fresh os queues (freshRoster ps)
    s.run (Step.besidesAll (Call.names p) steps) =
        (s.run steps).map
          (fun r => (r.1.fed ⟨p, 0, 0⟩, Report.besidesAll (Call.names p) steps r.2)) ∧
      s.events (Step.besidesAll (Call.names p) steps) =
        (besides (Call.names p) (s.events steps)).map (Event.fed ⟨p, 0, 0⟩) ∧
      (∀ r, s.run steps = .ok r → r.1.Bystander p s.procs[p].pid) ∧
      ∀ e ∈ s.events steps, e.before.Bystander p s.procs[p].pid ∧
        e.done.session.Bystander p s.procs[p].pid ∧ p ∉ e.yields ∧
        (e.call.process? = some p →
          e.done.lines = [] ∧ e.done.session.fed ⟨p, 0, 0⟩ = e.before.fed ⟨p, 0, 0⟩) := by
  intro s
  have hcalls : ∀ e ∈ s.events steps, s.Discreet p e.call :=
    fun e he => hsteps _ (mem_calls_of_mem_events s steps he)
  have hexposes : ∀ e ∈ s.events steps, e.call.exposes p = false :=
    fun e he => (hcalls e he).unexposed
  obtain ⟨hrun, hevents⟩ := (unheard_bystander hp).run_besides s ⟨[], .refl s, by simp⟩ steps hsteps
  have hfresh : s.fed ⟨p, 0, 0⟩ = s := fed_fresh os queues ps p
  rw [hfresh] at hrun hevents
  refine ⟨hrun, hevents, fun r hr => ?_, fun e he => ?_⟩
  · exact ((run_leads s r.1 r.2 steps hr).bystander hp hexposes).1
  · obtain ⟨t, hleads⟩ := s.events_lead steps
    have hyields := (hleads.bystander hp hexposes).2 e he
    obtain ⟨past, rest, hes⟩ := List.append_of_mem he
    rw [hes] at hleads hexposes
    obtain ⟨hbefore, hcall, -⟩ := hleads.split
    rw [List.forall_mem_append, List.forall_mem_cons] at hexposes
    obtain ⟨hpast, hfirst, -⟩ := hexposes
    have hb := (hbefore.bystander hp hpast).1
    have hnext : s.Leads (past ++ [e]) e.done.session := hbefore.trans (.call hcall (.refl _))
    have hd := (hnext.bystander hp (List.forall_mem_append.mpr ⟨hpast, by simpa using hfirst⟩)).1
    refine ⟨hb, hd, hyields, fun hn => ?_⟩
    have hoffers := (hbefore.offers _).trans ((hcalls e he).offered hn)
    obtain ⟨d, hd', hlines, hfed⟩ := hb.call_naming hn hfirst hoffers
    cases hcall.symm.trans hd'
    exact ⟨hlines, hfed⟩

/-- The bystander is readied before the allocator starts, is fed and refreshed, and is withdrawn while
buckets are held. -/
theorem run_without_bystander_under_holds : ∃ (s : Session 2) (xs ys : List (Step 2)),
    s = fresh [{ hz := 1000, config? := some { attentionLevels := 3 } }] [(2, .zero)]
      (freshRoster (.ofFn fun p => (.ofNat p, p == 0))) ∧
    ys = Step.besidesAll (Call.names 1) xs ∧
    s.run ys = (s.run xs).map
      (fun r => (r.1.fed ⟨1, 0, 0⟩, Report.besidesAll (Call.names 1) xs r.2)) ∧
    s.events ys = (besides (Call.names 1) (s.events xs)).map (Event.fed ⟨1, 0, 0⟩) ∧
    (∀ r, s.run xs = .ok r → r.1.Bystander 1 s.procs[(1 : Fin 2)].pid) ∧
    (∃ e ∈ s.events xs, e.call = .host 0 (.ready 1) ∧
      e.before.Bystander 1 s.procs[(1 : Fin 2)].pid ∧ e.done.lines = []) ∧
    (s.events xs).map (·.call.names 1) = [true, true, false, true, true, true, false, false, true, false,
      true, true, false, false] ∧
    (s.events ys).map (·.done.answer) = [.host (.mark (some 2)), .host (.removal .contended),
      .clock (.tick 5), .host .done, .host (.selected (some 0)), .host (.selected none)] ∧
    (s.run xs).toOption.map (fun r => r.1.procs[(1 : Fin 2)]) = some { pid := 1, cpu := 900 } := by
  let s : Session 2 := fresh [{ hz := 1000, config? := some { attentionLevels := 3 } }] [(2, .zero)]
    (freshRoster (.ofFn fun p => (.ofNat p, p == 0)))
  let xs : List (Step 2) :=
    [.call (.host 0 (.ready 1)), .call (.record 1 (.setCpu 900)), .call (.host 0 (.ready 0)),
      .call (.host 0 (.setFeature 1 0 .one)),
      .hold (.own 0 2) [.call (.host 0 (.remove 1)), .call (.host 0 (.retire 1)),
        .call (.host 0 (.remove 0))],
      .call (.clock 0 (.advance 5)), .call (.host 0 (.refresh 1)), .call (.host 0 (.refresh 0)),
      .hold (.loose 0) [.call (.bucket (.loose 0) (.remove 1))], .call (.record 1 (.setCognitive false)),
      .call (.host 0 .select), .call (.host 0 .select)]
  let ys : List (Step 2) :=
    [.call (.host 0 (.ready 0)), .hold (.own 0 2) [.call (.host 0 (.remove 0))],
      .call (.clock 0 (.advance 5)), .call (.host 0 (.refresh 0)), .hold (.loose 0) [],
      .call (.host 0 .select), .call (.host 0 .select)]
  have hunexposed : ∀ c ∈ Step.callsAll xs, c.exposes 1 = false := by decide +kernel
  have hoffered : ∀ c ∈ Step.callsAll xs, c.process? = some 1 → s.offers c = true := by decide +kernel
  have hsteps : ∀ c ∈ Step.callsAll xs, s.Discreet 1 c :=
    fun c hc => ⟨hunexposed c hc, hoffered c hc⟩
  obtain ⟨hrun, hevents, hends, heach⟩ := run_without_bystander
    [{ hz := 1000, config? := some { attentionLevels := 3 } }] [(2, .zero)] (by decide +kernel) hsteps
  obtain ⟨e, he, hready⟩ : ∃ e ∈ s.events xs, e.call = .host 0 (.ready 1) := by decide +kernel
  obtain ⟨hbefore, -, -, hnamed⟩ := heach e he
  have hquiet := hnamed (by rw [hready]; rfl)
  exact ⟨s, xs, ys, rfl, rfl, hrun, hevents, hends, ⟨e, he, hready, hbefore, hquiet.1⟩,
    by decide +kernel, by decide +kernel, by decide +kernel⟩

end

end Session

end AttentionScheduler
