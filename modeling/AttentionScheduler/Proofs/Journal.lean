import AttentionScheduler.Proofs.Calls
import AttentionScheduler.Proofs.Drains

/-!
The journal of a history without drains: which changes of the files each event stands for, read off its
call and its answer. On sound files the journal is exact, so they stay sound through every history.
-/

namespace AttentionScheduler

open Files

variable {n : Nat}

namespace Answer

theorem taken?_of_mute {answer : Answer n} (h : answer.mute = true) : answer.taken? = none := by
  cases answer with
  | host answer => cases answer <;> first | rfl | cases h
  | bucket answer => cases answer <;> first | rfl | cases h
  | clock | record | noBucket | fault => rfl

end Answer

namespace Event

def opening (e : Event n) : List (Change n) :=
  match e.call with
  | .host a _ =>
    match e.before.allocator? a, e.done.session.allocator? a with
    | some x, some y =>
      if x.isStarted then []
      else if y.isStarted then [.shelve a x.config.levels]
      else []
    | _, _ => []
  | _ => []

def leaving (e : Event n) (a : Nat) (p : Fin n) : List (Change n) :=
  Shelf.leaving a e.before.procs[p].mark p

/-- The level under which a process made ready is filed. It is not if it is not cognitive, or if its
mark turns out to name a level that the allocator does not have. -/
def filed? (e : Event n) : Option Nat :=
  match e.call, e.done.answer with
  | .host a (.ready p), .host (.mark (some level)) =>
    if e.before.procs[p].cognitive ∧ (e.done.session.bucketAt (.own a level)).isSome then some level
    else none
  | _, _ => none

def filing (e : Event n) : List (Change n) :=
  match e.call with
  | .host a (.ready p) =>
    match e.filed? with
    | some level => e.leaving a p ++ [.link (.own a level) p]
    | none => []
  | .host a .select | .host a (.remove _) | .host a (.retire _) =>
    e.done.answer.taken?.toList.flatMap (e.leaving a)
  | .bucket place (.push p) => if e.done.answer = .bucket (.joined true) then [.link place p] else []
  | .bucket place .popFront | .bucket place (.remove _) =>
    e.done.answer.taken?.toList.map (.unlink place)
  | _ => []

def changes (e : Event n) : List (Change n) := e.opening ++ e.filing

end Event

namespace Session

variable {s t : Session n} {a : Nat} {seat : Seat n} {call : HostCall n} {k : Host n}
  {answer : Answer n} {lines : List Line}

theorem bucketAt_putHost (hs : s.seat a = .ok seat) (k : Host n) (level : Nat) :
    (s.putHost a k).bucketAt (.own a level) = k.allocator.buckets[level]? := by
  rw [bucketAt, bucketsOf_putHost hs, if_pos rfl]

theorem opening_putHost (hs : s.seat a = .ok seat) :
    Event.opening ⟨s, .host a call, ⟨s.putHost a k, answer, lines⟩⟩ =
      Host.opening a (s.host seat) k := by
  simp only [Event.opening, allocator?_of_seat hs, allocator?_putHost hs, ↓reduceIte]
  rfl

theorem filing_of_quiet {d : Done n} (hq : call.quiet = true) :
    Event.filing ⟨s, .host a call, d⟩ = [] := by
  cases call <;> first | rfl | cases hq

theorem filing_of_fault {fault : Fault} :
    Event.filing ⟨s, .host a call, ⟨t, .fault fault, lines⟩⟩ = [] := by
  cases call <;> rfl

theorem filing_of_not_filed {p : Fin n} {d : Done n}
    (h : Event.filed? ⟨s, .host a (.ready p), d⟩ = none) :
    Event.filing ⟨s, .host a (.ready p), d⟩ = [] := by
  simp only [Event.filing, h]

theorem filing_of_filed {p : Fin n} {level : Nat} {d : Done n}
    (h : Event.filed? ⟨s, .host a (.ready p), d⟩ = some level) :
    Event.filing ⟨s, .host a (.ready p), d⟩ =
      Shelf.leaving a s.procs[p].mark p ++ [.link (.own a level) p] := by
  simp only [Event.filing, h]
  rfl

theorem filed?_of_plain {p : Fin n} {d : Done n} (hp : s.procs[p].cognitive = false) :
    Event.filed? ⟨s, .host a (.ready p), d⟩ = none := by
  unfold Event.filed?
  split
  · next x q level hcall _ =>
    cases hcall
    rw [if_neg]
    rintro ⟨hcog, _⟩
    rw [hp] at hcog
    cases hcog
  · rfl

theorem filed?_of_absent {p : Fin n} {level : Nat} (hs : s.seat a = .ok seat)
    (h : k.allocator.buckets[level]? = none) :
    Event.filed? ⟨s, .host a (.ready p), ⟨s.putHost a k, .host (.mark (some level)), lines⟩⟩ =
      none := by
  apply if_neg
  rintro ⟨_, hsome⟩
  rw [bucketAt_putHost hs, h] at hsome
  cases hsome

theorem filed?_of_there {p : Fin n} {level : Nat} (hs : s.seat a = .ok seat)
    (hp : s.procs[p].cognitive = true) (h : (k.allocator.buckets[level]?).isSome) :
    Event.filed? ⟨s, .host a (.ready p), ⟨s.putHost a k, .host (.mark (some level)), lines⟩⟩ =
      some level := by
  apply if_pos
  refine ⟨hp, ?_⟩
  rwa [bucketAt_putHost hs]

theorem edits_of_opening (hs : s.seat a = .ok seat)
    (h : Edits (s.files.withShelf a (s.host seat).row) (Host.opening a (s.host seat) k)
      (s.files.withShelf a k.row))
    (hf : Event.filing ⟨s, .host a call, ⟨s.putHost a k, answer, lines⟩⟩ = []) :
    Edits s.files (Event.changes ⟨s, .host a call, ⟨s.putHost a k, answer, lines⟩⟩)
      (s.putHost a k).files := by
  rw [Event.changes, hf, List.append_nil, opening_putHost hs]
  exact edits_putHost hs h

theorem edits_of_alike (hs : s.seat a = .ok seat) (ha : (s.host seat).Alike k)
    (hf : Event.filing ⟨s, .host a call, ⟨s.putHost a k, answer, lines⟩⟩ = []) :
    Edits s.files (Event.changes ⟨s, .host a call, ⟨s.putHost a k, answer, lines⟩⟩)
      (s.putHost a k).files := by
  apply edits_of_opening hs _ hf
  rw [Host.opening_congr ha.started.symm, ha.files]
  exact .nil _

theorem edits_of_unlink {p : Fin n} {level : Nat} (hs : s.seat a = .ok seat)
    (hm : s.procs[p].mark = some level)
    (started : k.allocator.isStarted = (s.host seat).allocator.isStarted)
    (h : Edit (s.files.withShelf a (s.host seat).row) (.unlink (.own a level) p)
      (s.files.withShelf a k.row))
    (hf : Event.filing ⟨s, .host a call, ⟨s.putHost a k, answer, lines⟩⟩ =
      Shelf.leaving a s.procs[p].mark p) :
    Edits s.files (Event.changes ⟨s, .host a call, ⟨s.putHost a k, answer, lines⟩⟩)
      (s.putHost a k).files := by
  rw [Event.changes, hf, hm, opening_putHost hs, Host.opening_congr started.symm]
  exact .single (edit_putHost hs h)

theorem host_edits (hsound : s.files.Sound) (hs : s.seat a = .ok seat)
    (hd : (s.host seat).Does s.files a call k answer) :
    Edits s.files (Event.changes ⟨s, .host a call, ⟨s.putHost a k, answer, lines⟩⟩)
      (s.putHost a k).files := by
  cases hd with
  | quiet kind quiet mute => exact edits_of_alike hs quiet.1 (filing_of_quiet kind)
  | faulted counters edits => exact edits_of_opening hs edits filing_of_fault
  | started counters edits => exact edits_of_opening hs edits rfl
  | @ignored p plain =>
    exact edits_of_alike hs (.refl _) (filing_of_not_filed (filed?_of_plain plain))
  | @refused p k mark cognitive counters absent edits marked =>
    exact edits_of_opening hs edits (filing_of_not_filed (filed?_of_absent hs absent))
  | @filed p k level cognitive counters scored there edits =>
    rw [Event.changes, filing_of_filed (filed?_of_there hs cognitive there), opening_putHost hs]
    exact edits_putHost hs edits
  | nobody none_yields alike counters => exact edits_of_alike hs alike rfl
  | @taken k p level b there free first none_yields started counters edit =>
    have hat : s.files.bucket? (.own a level) = some b :=
      (bucketAt_of_seat hs level).trans there
    have hown := hsound.own_level hat
    have hm : s.procs[p].mark = some level := by
      rw [← hown.1]
      exact hsound.marked hat hown.2 (List.mem_of_mem_head? first)
    exact edits_of_unlink hs hm started edit (List.append_nil _)
  | contended kind marked there held alike procs counters =>
    refine edits_of_alike hs alike ?_
    rcases kind with rfl | rfl <;> rfl
  | notFound kind absent alike counters =>
    refine edits_of_alike hs alike ?_
    rcases kind with rfl | rfl <;> rfl
  | removed kind marked started counters edit =>
    refine edits_of_unlink hs marked started edit ?_
    rcases kind with rfl | rfl <;> exact List.append_nil _
  | idle => exact edits_of_alike hs (.refl _) rfl
  | written alike changed counters => exact edits_of_alike hs alike rfl

theorem Does.edits {c : Call n} {d : Done n} (hsound : s.files.Sound) (hd : s.Does c d) :
    Edits s.files (Event.changes ⟨s, c, d⟩) d.session.files := by
  cases hd with
  | host seated does => exact host_edits hsound seated does
  | aside kind files keeps mute =>
    rw [files]
    have hnone : Event.changes ⟨s, c, d⟩ = [] := by
      cases c with
      | host a call => cases kind
      | clock a call => rfl
      | record p call => rfl
      | bucket place call => cases call <;> first | rfl | cases kind
    rw [hnone]
    exact .nil _
  | @absent place call nowhere =>
    have hnone : Event.changes ⟨s, .bucket place call, ⟨s, .noBucket, []⟩⟩ = [] := by
      cases call <;> rfl
    rw [hnone]
    exact .nil _
  | marked there marked files keeps =>
    rw [files]
    exact .nil _
  | joined there unmarked edit keeps => exact .single edit
  | contended kind there held files keeps =>
    rw [files]
    rcases kind with rfl | ⟨p, rfl⟩ <;> exact .nil _
  | empty there free empty files keeps =>
    rw [files]
    exact .nil _
  | missing there free missing files keeps =>
    rw [files]
    exact .nil _
  | popped there free first edit keeps => exact .single edit
  | removed there free member edit keeps => exact .single edit

end Session

end AttentionScheduler
