import AttentionScheduler.Proofs.Ownership

/-!
Who entered the buckets of an allocator by an event and who left them, read off its call and its answer.
The journal has the same entries.
-/

namespace AttentionScheduler

variable {n : Nat}

namespace Change

def enters (a : Nat) (p : Fin n) : Change n → Bool
  | link place q => place.allocator? = some a ∧ q = p
  | _ => false

def leaves (a : Nat) (p : Fin n) : Change n → Bool
  | unlink place q => place.allocator? = some a ∧ q = p
  | _ => false

end Change

namespace Event

variable {a x : Nat} {p q : Fin n} {s : Session n} {d : Done n}

def readied? (a : Nat) (e : Event n) : Option (Fin n) :=
  match e.call with
  | .host x (.ready p) => if x = a ∧ e.filed?.isSome then some p else none
  | _ => none

/-- The process that was filed anew, having been in a bucket already. -/
def moved? (a : Nat) (e : Event n) : Option (Fin n) :=
  (e.readied? a).filter fun p => e.before.procs[p].mark.isSome

def joined? (a : Nat) (e : Event n) : Option (Fin n) :=
  match e.call with
  | .bucket (.own x _) (.push p) =>
    if x = a ∧ e.done.answer = .bucket (.joined true) then some p else none
  | _ => none

def dispatched? (a : Nat) (e : Event n) : Option (Fin n) :=
  match e.call with
  | .host x .select => if x = a then e.done.answer.taken? else none
  | _ => none

/-- The process that was removed or retired, or taken out of a bucket of `a` directly. -/
def withdrawn? (a : Nat) (e : Event n) : Option (Fin n) :=
  match e.call with
  | .host x (.remove _) | .host x (.retire _) | .bucket (.own x _) .popFront
    | .bucket (.own x _) (.remove _) => if x = a then e.done.answer.taken? else none
  | _ => none

theorem taken_of_dispatched {e : Event n} (h : e.dispatched? a = some p) :
    e.done.answer.taken? = some p := by
  unfold dispatched? at h
  split at h
  · exact (ite_eq_iff.mp h).elim And.right fun h => nomatch h.2
  · cases h

theorem taken_of_withdrawn {e : Event n} (h : e.withdrawn? a = some p) :
    e.done.answer.taken? = some p := by
  unfold withdrawn? at h
  split at h <;> first | cases h | exact (ite_eq_iff.mp h).elim And.right fun h => nomatch h.2

theorem readied_of_moved {e : Event n} (h : e.moved? a = some p) : e.readied? a = some p :=
  (Option.filter_eq_some_iff.mp h).1

theorem countP_opening (e : Event n) (f : Change n → Bool)
    (hf : ∀ a levels, f (.shelve a levels) = false) : e.opening.countP f = 0 := by
  apply List.countP_eq_zero.mpr
  intro c hc
  obtain ⟨a, levels, _, rfl⟩ := mem_opening hc
  simp [hf]

theorem countP_leaving_enters (e : Event n) (x : Nat) (q : Fin n) :
    (e.leaving x q).countP (·.enters a p) = 0 := by
  apply List.countP_eq_zero.mpr
  intro c hc
  obtain ⟨level, rfl⟩ := mem_leaving hc
  simp [Change.enters]

theorem countP_leaving_leaves (e : Event n) (x : Nat) (q : Fin n) :
    (e.leaving x q).countP (·.leaves a p) =
      if x = a ∧ e.before.procs[q].mark.isSome ∧ q = p then 1 else 0 := by
  unfold leaving Shelf.leaving
  cases e.before.procs[q].mark with
  | none => simp
  | some level => simp [List.countP_cons, Change.leaves, Place.allocator?]

theorem countP_enters (e : Event n) (a : Nat) (p : Fin n) :
    e.changes.countP (·.enters a p) =
      (if e.readied? a = some p then 1 else 0) + if e.joined? a = some p then 1 else 0 := by
  rw [changes, List.countP_append, countP_opening e _ fun _ _ => rfl, Nat.zero_add]
  obtain ⟨s, c, d⟩ := e
  cases c with
  | host x call =>
    cases call with
    | ready q =>
      cases hf : filed? ⟨s, .host x (.ready q), d⟩ with
      | none => simp [filing, readied?, joined?, hf]
      | some level =>
        simp only [filing, readied?, joined?, hf]
        rw [List.countP_append, countP_leaving_enters]
        by_cases hx : x = a <;> simp [hx, List.countP_cons, Change.enters, Place.allocator?]
    | select | remove q | retire q =>
      cases ht : d.answer.taken? with
      | none => simp [filing, readied?, joined?, ht]
      | some q => simp [filing, readied?, joined?, ht, countP_leaving_enters]
    | start | drain | refresh | setFeature | attention | levelFor | setEmergency | setBudget
      | lastUpdate | stats | config | dump | dumpToLog | buckets | tensor => rfl
  | clock x call => rfl
  | record q call => rfl
  | bucket place call =>
    cases call with
    | push q =>
      by_cases hj : d.answer = .bucket (.joined true)
      · cases place <;> simp [filing, readied?, joined?, hj, Change.enters, Place.allocator?,
          List.countP_cons]
      · cases place <;> simp [filing, readied?, joined?, hj]
    | popFront | remove q =>
      cases d.answer.taken? <;> cases place <;>
        simp [filing, readied?, joined?, Change.enters]
    | size | view => cases place <;> rfl

theorem countP_leaves (e : Event n) (a : Nat) (p : Fin n)
    (hm : ∀ x call, e.call = .host x call → ∀ q, e.done.answer.taken? = some q →
      e.before.procs[q].mark.isSome) :
    e.changes.countP (·.leaves a p) =
      (if e.moved? a = some p then 1 else 0) + (if e.dispatched? a = some p then 1 else 0) +
        if e.withdrawn? a = some p then 1 else 0 := by
  rw [changes, List.countP_append, countP_opening e _ fun _ _ => rfl, Nat.zero_add]
  obtain ⟨s, c, d⟩ := e
  cases c with
  | host x call =>
    cases call with
    | ready q =>
      cases hf : filed? ⟨s, .host x (.ready q), d⟩ with
      | none => simp [filing, moved?, readied?, dispatched?, withdrawn?, hf]
      | some level =>
        simp only [filing, hf]
        rw [List.countP_append, countP_leaving_leaves]
        simp only [moved?, readied?, dispatched?, withdrawn?, hf]
        by_cases hx : x = a <;> by_cases hs : s.procs[q].mark.isSome <;>
          simp [-Fin.getElem_fin, hx, hs, Change.leaves, Option.filter]
    | select | remove q | retire q =>
      cases ht : d.answer.taken? with
      | none => simp [filing, moved?, readied?, dispatched?, withdrawn?, ht]
      | some q =>
        have hs : s.procs[q].mark.isSome := hm x _ rfl q ht
        by_cases hx : x = a <;>
          simp [-Fin.getElem_fin, filing, moved?, readied?, dispatched?, withdrawn?, ht, hx, hs,
            countP_leaving_leaves]
    | start | drain | refresh | setFeature | attention | levelFor | setEmergency | setBudget
      | lastUpdate | stats | config | dump | dumpToLog | buckets | tensor => rfl
  | clock x call => rfl
  | record q call => rfl
  | bucket place call =>
    cases call with
    | push q =>
      by_cases hj : d.answer = .bucket (.joined true) <;> cases place <;>
        simp [filing, moved?, readied?, dispatched?, withdrawn?, hj, Change.leaves]
    | popFront | remove q =>
      cases ht : d.answer.taken? <;> cases place <;>
        simp [filing, moved?, readied?, dispatched?, withdrawn?, ht, Change.leaves,
          Place.allocator?, List.countP_cons]
    | size | view => cases place <;> rfl

end Event

end AttentionScheduler
