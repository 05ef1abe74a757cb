import AttentionScheduler.Proofs.SessionFiles

/-!
A drain is the series of selections up to the first that finds nobody. Put in its place in a history,
they lead to the same session and hand out the same processes.
-/

namespace AttentionScheduler

variable {n : Nat}

namespace Answer

def taken? : Answer n → Option (Fin n)
  | .host (.selected p?) => p?
  | .host (.removal m) | .bucket (.removal m) => m.process?
  | _ => none

end Answer

namespace Event

def yields (e : Event n) : List (Fin n) :=
  match e.done.answer with
  | .host (.drained ps) => ps
  | answer => answer.taken?.toList

end Event

namespace Session

def population (s : Session n) (a : Nat) : Nat := Bucket.population (s.bucketsOf a)

def selections : Nat → Session n → Nat → List (Event n)
  | 0, _, _ => []
  | k + 1, s, a =>
    match s.call (.host a .select) with
    | .ok d =>
      ⟨s, .host a .select, d⟩ ::
        match d.answer with
        | .host (.selected (some _)) => selections k d.session a
        | _ => []
    | .error _ => []

end Session

namespace Event

def parts (e : Event n) : List (Event n) :=
  match e.call with
  | .host a .drain => e.before.selections (e.before.population a + 1) a
  | _ => [e]

end Event

namespace Host

variable {h k : Host n}

def Same (h k : Host n) : Prop := k.allocator = h.allocator ∧ k.procs = h.procs

theorem selectNext_same (hk : h.Same k) (now : Tick) :
    (h.selectNext now).1.Same (k.selectNext now).1 ∧
      (k.selectNext now).2 = (h.selectNext now).2 := by
  obtain ⟨ha, hp⟩ := hk
  cases hc : h.allocator.core? with
  | none =>
    have hc' : k.allocator.core? = none := by rw [ha, hc]
    simp only [selectNext, hc, hc']
    exact ⟨⟨ha, hp⟩, trivial⟩
  | some core =>
    rw [selectNext_eq_handOut hc, selectNext_eq_handOut (ha ▸ hc), hp]
    generalize Sweep.along core.buckets h.procs = w
    simp only [handOut, noteBusy_eq]
    cases w.taken with
    | none => exact ⟨⟨by simp [count, withAllocator, withShelf, withCore, ha], rfl⟩, rfl⟩
    | some taken =>
      exact ⟨⟨by simp [say, count, touch, withAllocator, withShelf, withCore, ha], rfl⟩, rfl⟩

theorem selectNext_lines (hk : h.Same k) (now : Tick) :
    ∃ ls, (h.selectNext now).1.lines = h.lines ++ ls ∧ (k.selectNext now).1.lines = k.lines ++ ls := by
  obtain ⟨ha, hp⟩ := hk
  cases hc : h.allocator.core? with
  | none =>
    have hc' : k.allocator.core? = none := by rw [ha, hc]
    simp only [selectNext, hc, hc']
    exact ⟨[], by simp⟩
  | some core =>
    rw [selectNext_eq_handOut hc, selectNext_eq_handOut (ha ▸ hc), hp]
    generalize Sweep.along core.buckets h.procs = w
    simp only [handOut, noteBusy_eq]
    cases w.taken with
    | none => exact ⟨_, rfl, rfl⟩
    | some taken => exact ⟨_, List.append_assoc .., List.append_assoc ..⟩

end Host

namespace Session

variable {s t : Session n} {a : Nat} {seat : Seat n} {h : Host n}

theorem seat_putHost (hs : s.seat a = .ok seat) (h : Host n) :
    (s.putHost a h).seat a = .ok { seat with allocator := h.allocator } := by
  have hseat : (s.putHost a h).seat a = _ :=
    seat_modify s a (fun seat => { seat with allocator := h.allocator }) a
  rw [hseat, if_pos rfl, hs]
  rfl

theorem putHost_same {k : Host n} (hk : h.Same k) : s.putHost a k = s.putHost a h := by
  simp only [putHost, hk.1, hk.2]

theorem putHost_putHost (s : Session n) (a : Nat) (h k : Host n) :
    (s.putHost a h).putHost a k = s.putHost a k := by
  simp only [putHost, putAllocator, List.modify_modify_eq]
  congr 2
  funext seat?
  cases seat? <;> rfl

theorem putHost_self (hs : s.seat a = .ok seat) : s.putHost a (s.host seat) = s := by
  have hseats : s.seats.modify a (·.map fun x => { x with allocator := seat.allocator }) =
      s.seats := by
    apply List.ext_getElem?
    intro i
    rw [List.getElem?_modify]
    split
    · next hi =>
      subst hi
      unfold Session.seat at hs
      rcases hx : s.seats[a]? with _ | (_ | x)
      · rfl
      · rfl
      · rw [hx] at hs
        cases hs
        rfl
    · simp
  cases s
  simp only [putHost, putAllocator, host] at hseats ⊢
  rw [hseats]

theorem call_select (hs : s.seat a = .ok seat) :
    s.call (.host a .select) =
      .ok ⟨s.putHost a ((s.host seat).selectNext (s.clock seat).now).1,
        .host (.selected ((s.host seat).selectNext (s.clock seat).now).2),
        ((s.host seat).selectNext (s.clock seat).now).1.lines⟩ := by
  simp only [call, callHost, hs, Host.call, Ending.ofPair, Ending.mapAnswer, Ending.map, id]

theorem drainFor_leads (k : Nat) (hs : s.seat a = .ok seat) (hh : (s.host seat).Same h) :
    s.Leads (s.selections k a) (s.putHost a (h.drainFor k (s.clock seat).now).1) ∧
      (s.selections k a).flatMap Event.yields = (h.drainFor k (s.clock seat).now).2 := by
  induction k generalizing s seat h with
  | zero =>
    simp only [Host.drainFor, selections, putHost_same hh, putHost_self hs]
    exact ⟨.refl s, rfl⟩
  | succ k ih =>
    have hcall := call_select hs
    -- A drain goes on with the lines of the earlier selections, a call of its own without them.
    obtain ⟨hsame, hp⟩ := Host.selectNext_same hh (s.clock seat).now
    rw [Host.drainFor, selections, hcall]
    generalize (s.host seat).selectNext (s.clock seat).now = r at hcall hsame hp
    generalize h.selectNext (s.clock seat).now = r' at hsame hp
    obtain ⟨h', p?⟩ := r'
    obtain ⟨k', q?⟩ := r
    cases hp
    cases p? with
    | none =>
      dsimp only
      rw [putHost_same hsame]
      exact ⟨.call hcall (.refl _), rfl⟩
    | some p =>
      obtain ⟨hleads, hyields⟩ := ih (seat_putHost hs k') hsame
      rw [putHost_putHost] at hleads
      exact ⟨.call hcall hleads, congrArg (p :: ·) hyields⟩

theorem drainFor_lines (k : Nat) (hs : s.seat a = .ok seat) (hh : (s.host seat).Same h) :
    (h.drainFor k (s.clock seat).now).1.lines =
      h.lines ++ (s.selections k a).flatMap (·.done.lines) := by
  induction k generalizing s seat h with
  | zero => rw [Host.drainFor, selections, List.flatMap_nil, List.append_nil]
  | succ k ih =>
    have hcall := call_select hs
    obtain ⟨ls, hlines, hlines'⟩ := Host.selectNext_lines hh (s.clock seat).now
    obtain ⟨hsame, hp⟩ := Host.selectNext_same hh (s.clock seat).now
    rw [Host.drainFor, selections, hcall]
    generalize (s.host seat).selectNext (s.clock seat).now = r at hcall hsame hp hlines
    generalize h.selectNext (s.clock seat).now = r' at hsame hp hlines'
    obtain ⟨h', p?⟩ := r'
    obtain ⟨k', q?⟩ := r
    cases hp
    have hfirst : k'.lines = ls := hlines
    have hgrown : h'.lines = h.lines ++ ls := hlines'
    cases p? with
    | none =>
      change h'.lines = h.lines ++ [Event.mk ..].flatMap (·.done.lines)
      rw [List.flatMap_singleton, hgrown, ← hfirst]
    | some p =>
      have hrest := ih (seat_putHost hs k') hsame
      rw [List.flatMap_cons, ← List.append_assoc]
      change (h'.drainFor k (s.clock seat).now).1.lines = h.lines ++ k'.lines ++ _
      rw [hfirst, ← hgrown]
      exact hrest

theorem drain_eq (hs : s.seat a = .ok seat) :
    let r := (s.host seat).drainFor (s.population a + 1) (s.clock seat).now
    s.call (.host a .drain) = .ok ⟨s.putHost a r.1, .host (.drained r.2), r.1.lines⟩ := by
  have hpop : s.population a = Bucket.population (s.host seat).allocator.buckets := by
    rw [population, bucketsOf_of_seat hs]
    rfl
  rw [hpop]
  simp only [call, callHost, hs]
  rfl

theorem lines_drain {d : Done n} (hc : s.call (.host a .drain) = .ok d) :
    (s.selections (s.population a + 1) a).flatMap (·.done.lines) = d.lines := by
  obtain ⟨seat, hs⟩ := seat_of_call hc
  cases (drain_eq hs).symm.trans hc
  exact (drainFor_lines (s.population a + 1) hs ⟨rfl, rfl⟩).symm

theorem call_drain {d : Done n} (hc : s.call (.host a .drain) = .ok d) :
    s.Leads (s.selections (s.population a + 1) a) d.session ∧
      d.answer = .host (.drained ((s.selections (s.population a + 1) a).flatMap Event.yields)) := by
  obtain ⟨seat, hs⟩ := seat_of_call hc
  cases (drain_eq hs).symm.trans hc
  obtain ⟨hleads, hyields⟩ := drainFor_leads (s.population a + 1) hs ⟨rfl, rfl⟩
  rw [hyields]
  exact ⟨hleads, rfl⟩

theorem selections_select (k : Nat) (s : Session n) (a : Nat) :
    ∀ e ∈ s.selections k a, e.call = .host a .select := by
  induction k generalizing s with
  | zero => simp [selections]
  | succ k ih =>
    intro e he
    rw [selections] at he
    split at he
    · next d hc =>
      rcases List.mem_cons.mp he with rfl | he
      · rfl
      · split at he
        · exact ih d.session e he
        · cases he
    · cases he

end Session

namespace Event

variable {s t : Session n} {c : Call n} {d : Done n} {es : List (Event n)}

theorem parts_of_ne_drain {e : Event n} (h : ∀ a, e.call ≠ .host a .drain) : e.parts = [e] := by
  unfold parts
  split
  · next a he => exact absurd he (h a)
  · rfl

theorem call_of_mem_parts {e part : Event n} (hp : part ∈ e.parts) :
    part = e ∧ (∀ a, e.call ≠ .host a .drain) ∨ ∃ a, part.call = .host a .select := by
  by_cases he : ∃ a, e.call = .host a .drain
  · obtain ⟨a, he⟩ := he
    rw [parts, he] at hp
    exact .inr ⟨a, Session.selections_select _ _ _ part hp⟩
  · have hne : ∀ a, e.call ≠ .host a .drain := not_exists.mp he
    rw [parts_of_ne_drain hne] at hp
    exact .inl ⟨List.mem_singleton.mp hp, hne⟩

theorem parts_leads (hc : s.call c = .ok d) : s.Leads (parts ⟨s, c, d⟩) d.session := by
  by_cases he : ∃ a, c = .host a .drain
  · obtain ⟨a, rfl⟩ := he
    exact (Session.call_drain hc).1
  · rw [parts_of_ne_drain (not_exists.mp he)]
    exact .call hc (.refl _)

theorem yields_parts (hc : s.call c = .ok d) :
    (parts ⟨s, c, d⟩).flatMap yields = yields ⟨s, c, d⟩ := by
  by_cases he : ∃ a, c = .host a .drain
  · obtain ⟨a, rfl⟩ := he
    simp only [parts, yields, (Session.call_drain hc).2]
  · rw [parts_of_ne_drain (not_exists.mp he), List.flatMap_singleton]

theorem lines_parts (hc : s.call c = .ok d) :
    (parts ⟨s, c, d⟩).flatMap (·.done.lines) = d.lines := by
  by_cases he : ∃ a, c = .host a .drain
  · obtain ⟨a, rfl⟩ := he
    exact Session.lines_drain hc
  · rw [parts_of_ne_drain (not_exists.mp he), List.flatMap_singleton]

end Event

namespace Session

variable {s t : Session n} {es : List (Event n)}

/-- Every history is also one without drains. -/
theorem Leads.spelt (h : s.Leads es t) : s.Leads (es.flatMap Event.parts) t := by
  induction h with
  | refl => exact .refl _
  | call hc _ ih => exact (Event.parts_leads hc).trans ih
  | seize hb hs _ ih => exact .seize hb hs ih
  | release place _ ih => exact .release place ih

theorem spelt_ne_drain (es : List (Event n)) :
    ∀ e ∈ es.flatMap Event.parts, ∀ a, e.call ≠ .host a .drain := by
  intro part hpart a
  obtain ⟨e, _, hp⟩ := List.mem_flatMap.mp hpart
  rcases Event.call_of_mem_parts hp with ⟨rfl, hne⟩ | ⟨x, hx⟩
  · exact hne a
  · rw [hx]
    simp

theorem Leads.lines_parts (h : s.Leads es t) :
    (es.flatMap Event.parts).flatMap (·.done.lines) = es.flatMap (·.done.lines) := by
  rw [List.flatMap_assoc]
  apply List.flatMap_congr
  intro e he
  exact Event.lines_parts (h.call_of_mem he).2

theorem Leads.yields_parts (h : s.Leads es t) :
    ∀ e ∈ es, e.parts.flatMap Event.yields = e.yields := by
  induction h with
  | refl => simp
  | call hc _ ih =>
    intro e he
    rcases List.mem_cons.mp he with rfl | he
    · exact Event.yields_parts hc
    · exact ih e he
  | seize _ _ _ ih => exact ih
  | release _ _ ih => exact ih

end Session

end AttentionScheduler
