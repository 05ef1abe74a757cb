import AttentionScheduler.Session.Run

/-!
A history of a session is the series of calls that came back, with the locks that come and go in
between. Every run of steps is one, and so is a run that is broken off inside a hold.
-/

namespace AttentionScheduler

variable {n : Nat}

structure Event (n : Nat) where
  before : Session n
  call : Call n
  done : Done n

namespace Session

variable {s t u : Session n} {es fs : List (Event n)}

theorem procs_putBucket (s : Session n) (b : Bucket n) (place : Place) :
    (s.putBucket b place).procs = s.procs := by
  cases place <;> rfl

section

variable {α : Type} {b : Bucket n} {place : Place}

theorem same_of_seize (x : Session n → α)
    (hput : ∀ (s : Session n) b place, x (s.putBucket b place) = x s)
    (h : s.seize place b = .ok t) : x t = x s := by
  unfold seize at h
  split at h <;> cases h
  exact hput s _ place

theorem same_of_release (x : Session n → α)
    (hput : ∀ (s : Session n) b place, x (s.putBucket b place) = x s)
    (s : Session n) (place : Place) : x (s.release place) = x s := by
  unfold release
  split
  · exact hput s _ place
  · rfl

end

theorem procs_seize {b : Bucket n} {place : Place} (h : s.seize place b = .ok t) :
    t.procs = s.procs := same_of_seize procs procs_putBucket h

theorem procs_release (s : Session n) (place : Place) : (s.release place).procs = s.procs :=
  same_of_release procs procs_putBucket s place

theorem free_of_seize {b : Bucket n} {place : Place} (h : s.seize place b = .ok t) : b.held = false := by
  unfold Session.seize at h
  split at h
  · cases h
  · next hh => exact Bool.eq_false_iff.mpr hh

/-- A session moves on by calls that come back, and by buckets that are locked and unlocked in
between, in whatever order. -/
inductive Leads : Session n → List (Event n) → Session n → Prop where
  | refl (s : Session n) : Leads s [] s
  | call {s t : Session n} {c : Call n} {d : Done n} {es : List (Event n)} :
      s.call c = .ok d → Leads d.session es t → Leads s (⟨s, c, d⟩ :: es) t
  | seize {s t u : Session n} {place : Place} {b : Bucket n} {es : List (Event n)} :
      s.bucket? place = .ok (some b) → s.seize place b = .ok t → Leads t es u → Leads s es u
  | release {s t : Session n} (place : Place) {es : List (Event n)} :
      Leads (s.release place) es t → Leads s es t

theorem Leads.trans (h : s.Leads es t) (h' : t.Leads fs u) : s.Leads (es ++ fs) u := by
  induction h with
  | refl => exact h'
  | call hc _ ih => exact .call hc (ih h')
  | seize hb hs _ ih => exact .seize hb hs (ih h')
  | release place _ ih => exact .release place (ih h')

theorem Leads.split {e : Event n} (h : s.Leads (es ++ e :: fs) t) :
    s.Leads es e.before ∧ e.before.call e.call = .ok e.done ∧ e.done.session.Leads fs t := by
  generalize hes : es ++ e :: fs = events at h
  induction h generalizing es with
  | refl => exact absurd hes (by simp)
  | @call s t c d rest hc hrest ih =>
    cases es with
    | nil =>
      obtain ⟨rfl, rfl⟩ := List.cons.inj hes
      exact ⟨.refl s, hc, hrest⟩
    | cons first es =>
      obtain ⟨rfl, htail⟩ := List.cons.inj hes
      obtain ⟨hbefore, hcall, hafter⟩ := ih htail
      exact ⟨.call hc hbefore, hcall, hafter⟩
  | seize hb hs _ ih =>
    obtain ⟨hbefore, h⟩ := ih hes
    exact ⟨.seize hb hs hbefore, h⟩
  | release place _ ih =>
    obtain ⟨hbefore, h⟩ := ih hes
    exact ⟨.release place hbefore, h⟩

theorem Leads.call_of_mem {e : Event n} (h : s.Leads es t) (he : e ∈ es) :
    (∃ past, s.Leads past e.before) ∧ e.before.call e.call = .ok e.done := by
  obtain ⟨past, _, rfl⟩ := List.append_of_mem he
  obtain ⟨hbefore, hcall, _⟩ := h.split
  exact ⟨⟨past, hbefore⟩, hcall⟩

mutual

def stepEvents (s : Session n) : Step n → List (Event n)
  | .call c =>
    match s.call c with
    | .ok d => [⟨s, c, d⟩]
    | .error _ => []
  | .hold place body =>
    match s.bucket? place with
    | .ok (some b) =>
      match s.seize place b with
      | .ok t => events t body
      | .error _ => []
    | _ => []

def events (s : Session n) : List (Step n) → List (Event n)
  | [] => []
  | first :: rest =>
    match s.step first with
    | .ok (t, _) => stepEvents s first ++ events t rest
    | .error _ => stepEvents s first

end

mutual

theorem step_leads (s t : Session n) (r : Report n) :
    (step : Step n) → s.step step = .ok (t, r) → s.Leads (s.stepEvents step) t
  | .call c, h => by
    rw [Session.step] at h
    cases hc : s.call c with
    | error stop =>
      rw [hc] at h
      cases h
    | ok d =>
      rw [hc] at h
      cases h
      rw [stepEvents, hc]
      exact .call hc (.refl _)
  | .hold place body, h => by
    rw [Session.step] at h
    rw [stepEvents]
    cases hb : s.bucket? place with
    | error stop =>
      rw [hb] at h
      cases h
    | ok b? =>
      cases b? with
      | none =>
        rw [hb] at h
        cases h
        exact .refl _
      | some b =>
        simp only [hb] at h ⊢
        cases hs : s.seize place b with
        | error stop =>
          rw [hs] at h
          cases h
        | ok u =>
          simp only [hs] at h ⊢
          cases hr : u.run body with
          | error stop =>
            rw [hr] at h
            cases h
          | ok v =>
            rw [hr] at h
            cases h
            have hbody := run_leads u v.1 v.2 body hr
            have hfree : v.1.Leads [] (v.1.release place) := .release place (.refl _)
            have hrun := hbody.trans hfree
            rw [List.append_nil] at hrun
            exact .seize hb hs hrun

theorem run_leads (s t : Session n) (rs : List (Report n)) :
    (steps : List (Step n)) → s.run steps = .ok (t, rs) → s.Leads (s.events steps) t
  | [], h => by
    rw [run] at h
    cases h
    exact .refl _
  | first :: rest, h => by
    rw [run] at h
    rw [events]
    cases hf : s.step first with
    | error stop =>
      rw [hf] at h
      cases h
    | ok v =>
      rw [hf] at h
      cases hr : v.1.run rest with
      | error stop =>
        simp only [hr] at h
        cases h
      | ok w =>
        simp only [hr] at h
        cases h
        exact (step_leads s v.1 v.2 first hf).trans (run_leads v.1 w.1 w.2 rest hr)

end

theorem exists_leads {α : Type} {x : α} (s : Session n) (steps : List (Step n)) (f : Session n → α)
    (h : (s.run steps).toOption.map (fun r => f r.1) = some x) :
    ∃ t, s.Leads (s.events steps) t ∧ f t = x := by
  cases hr : s.run steps with
  | error stop =>
    rw [hr] at h
    cases h
  | ok r =>
    rw [hr] at h
    exact ⟨r.1, run_leads s r.1 r.2 steps hr, Option.some.inj h⟩

end Session

end AttentionScheduler
