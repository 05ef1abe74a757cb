import AttentionScheduler.Proofs.Ledger
import AttentionScheduler.Proofs.Counters
import Mathlib.Algebra.BigOperators.Fin
import Mathlib.Algebra.Order.BigOperators.Group.Finset

/-!
No process is lost and none is handed out twice: whoever entered the buckets of an allocator and has not
left them since is there exactly once.
-/

namespace AttentionScheduler

open Files

variable {n : Nat}

namespace Ledger

variable {r : Ledger n} {a : Nat} {p q : Fin n} {f g : Files n} {c : Change n} {cs : List (Change n)}

theorem map_strike (r : Ledger n) (p : Fin n) :
    (r.strike p).map (·.1) = (r.map (·.1)).filter (· ≠ p) := by
  rw [strike, List.filter_map]
  rfl

theorem count_strike (hr : (r.map (·.1)).Nodup) (hp : p ∈ r.map (·.1)) (q : Fin n) :
    ((r.strike p).map (·.1)).count q + (if p = q then 1 else 0) = (r.map (·.1)).count q := by
  by_cases h : p = q
  · subst h
    rw [List.count_eq_zero.mpr not_mem_strike, List.count_eq_one_of_mem hr hp, if_pos rfl]
  · rw [map_strike, List.count_filter (by simpa using Ne.symm h), if_neg h, Nat.add_zero]

theorem enters_of_ne (h : c.allocator? ≠ some a) : c.enters a p = false := by
  cases c with
  | link place q => exact decide_eq_false fun hq => h hq.1
  | shelve | unlink | latch => rfl

theorem leaves_of_ne (h : c.allocator? ≠ some a) : c.leaves a p = false := by
  cases c with
  | unlink place q => exact decide_eq_false fun hq => h hq.1
  | shelve | link | latch => rfl

theorem Fits.count_edit (hr : r.Fits a f) (h : Edit f c g) (q : Fin n) :
    ((r.enter a c).map (·.1)).count q + (if c.leaves a q then 1 else 0) =
      (r.map (·.1)).count q + if c.enters a q then 1 else 0 := by
  by_cases hc : c.allocator? = some a
  · cases h with
    | shelve absent small => rfl
    | @link place b p there free unmarked =>
      cases place with
      | own x level =>
        cases hc
        simp [enter, Change.leaves, Change.enters, Place.allocator?, List.count_singleton]
      | loose i => cases hc
    | @unlink place b p there free member =>
      cases place with
      | own x level =>
        cases hc
        have hp : p ∈ r.map (·.1) := List.mem_map_of_mem (hr.mem_iff.mpr ⟨b, there, member⟩)
        simpa [enter, Change.leaves, Change.enters, Place.allocator?] using
          count_strike hr.nodup hp q
      | loose i => cases hc
    | @latch place b held there => cases place <;> rfl
  · rw [enter_of_ne hc, enters_of_ne hc, leaves_of_ne hc]

theorem Fits.count_edits (hr : r.Fits a f) (hs : f.Sound) (h : Edits f cs g) (q : Fin n) :
    ((cs.foldl (enter a) r).map (·.1)).count q + cs.countP (·.leaves a q) =
      (r.map (·.1)).count q + cs.countP (·.enters a q) := by
  induction h generalizing r with
  | nil => rfl
  | @cons f g k c cs edit _ ih =>
    have hfirst := hr.count_edit edit q
    have hrest := ih (hr.edit hs edit) (hs.edit edit)
    rw [List.foldl_cons, List.countP_cons, List.countP_cons]
    omega

end Ledger

namespace Session

open Ledger

variable {s t : Session n} {a : Nat} {p : Fin n} {c : Call n} {d : Done n} {es : List (Event n)}

def entered (a : Nat) (p : Fin n) (es : List (Event n)) : Nat :=
  es.countP (·.readied? a = some p) + es.countP (·.joined? a = some p)

def left (a : Nat) (p : Fin n) (es : List (Event n)) : Nat :=
  es.countP (·.moved? a = some p) + es.countP (·.dispatched? a = some p) +
    es.countP (·.withdrawn? a = some p)

def inside (s : Session n) (a : Nat) : List (Fin n) := (s.bucketsOf a).flatMap (·.members)

theorem Does.marked_of_taken {x : Nat} {call : HostCall n} (hs : s.files.Sound)
    (hd : s.Does (.host x call) d) {q : Fin n} (hq : d.answer.taken? = some q) :
    s.procs[q].mark.isSome := by
  cases hd with
  | aside kind files keeps mute => cases kind
  | host seated does =>
    cases does with
    | quiet kind quiet mute =>
      rw [Answer.taken?_of_mute mute] at hq
      cases hq
    | @taken k p level b there free first none_yields started counters edit =>
      cases hq
      have hat : s.files.bucket? (.own x level) = some b := (bucketAt_of_seat seated level).trans there
      have hm : s.files.mark q = some b.level :=
        hs.marked hat (hs.own_level hat).2 (List.mem_of_mem_head? first)
      exact Option.isSome_of_eq_some hm
    | removed kind marked started counters edit =>
      cases hq
      exact Option.isSome_of_eq_some marked
    | faulted | started | ignored | refused | filed | nobody | contended | notFound | idle
      | written => cases hq

theorem countP_enters (e : Event n) (a : Nat) (p : Fin n) :
    e.changes.countP (·.enters a p) = entered a p [e] := by
  rw [Event.countP_enters, entered, List.countP_singleton, List.countP_singleton]
  simp

theorem Does.countP_leaves (hs : s.files.Sound) (hd : s.Does c d) (a : Nat) (p : Fin n) :
    (Event.changes ⟨s, c, d⟩).countP (·.leaves a p) = left a p [⟨s, c, d⟩] := by
  rw [Event.countP_leaves, left, List.countP_singleton, List.countP_singleton,
    List.countP_singleton]
  · simp
  · rintro x call rfl q hq
    exact hd.marked_of_taken hs hq

theorem entered_append (a : Nat) (p : Fin n) (es fs : List (Event n)) :
    entered a p (es ++ fs) = entered a p es + entered a p fs := by
  simp only [entered, List.countP_append]
  omega

theorem left_append (a : Nat) (p : Fin n) (es fs : List (Event n)) :
    left a p (es ++ fs) = left a p es + left a p fs := by
  simp only [left, List.countP_append]
  omega

theorem Leads.balance {os : List Opening} {queues : List (Nat × Single)}
    {ps : Vector (UInt64 × Bool) n} (h : (fresh os queues (freshRoster ps)).Leads es t) (a : Nat) :
    ∃ r : Ledger n, r.Fits a t.files ∧ ∀ p,
      (r.map (·.1)).count p + left a p (es.flatMap Event.parts) =
        entered a p (es.flatMap Event.parts) := by
  -- Which ledger it is does not matter, so nothing is asked of who uses whom.
  refine h.induct (I := fun u past => ∃ r : Ledger n, r.Fits a u.files ∧
    ∀ p, (r.map (·.1)).count p + left a p past = entered a p past)
    (fresh_sound os queues ps) ?_ ?_ ?_
  · intro u past c d _ hs hd hI
    obtain ⟨r, hr, hcount⟩ := hI
    refine ⟨_, hr.edits hs (hd.edits hs), fun p => ?_⟩
    have hstep := hr.count_edits hs (hd.edits hs) p
    rw [countP_enters, hd.countP_leaves hs] at hstep
    have hpast := hcount p
    rw [left_append, entered_append]
    omega
  · intro u v past hs hl hI
    obtain ⟨r, hr, hcount⟩ := hI
    exact ⟨r, hr.locks hs hl, hcount⟩
  · exact ⟨[], fits_fresh, fun p => rfl⟩

theorem mem_inside : p ∈ s.inside a ↔ ∃ level b, s.bucketAt (.own a level) = some b ∧
    p ∈ b.members := by
  constructor
  · intro h
    obtain ⟨b, hb, hp⟩ := List.mem_flatMap.mp h
    obtain ⟨level, hl⟩ := List.mem_iff_getElem?.mp hb
    exact ⟨level, b, hl, hp⟩
  · rintro ⟨level, b, hb, hp⟩
    exact List.mem_flatMap.mpr ⟨b, List.mem_of_getElem? hb, hp⟩

theorem inside_nodup (hs : s.files.Sound) (a : Nat) : (s.inside a).Nodup := by
  apply List.nodup_flatMap.mpr
  constructor
  · intro b hb
    obtain ⟨level, hl⟩ := List.mem_iff_getElem?.mp hb
    have hat : s.files.bucket? (.own a level) = some b := hl
    exact hs.nodup hat (hs.own_level hat).2
  · rw [List.pairwise_iff_getElem]
    intro i j hi hj hij p hp hq
    have hati : s.files.bucket? (.own a i) = some (s.bucketsOf a)[i] := List.getElem?_eq_getElem hi
    have hatj : s.files.bucket? (.own a j) = some (s.bucketsOf a)[j] := List.getElem?_eq_getElem hj
    have hplace := hs.apart hati hatj (hs.own_level hati).2 (hs.own_level hatj).2 hp hq
    exact Nat.ne_of_lt hij (Place.own.inj hplace).2

theorem inside_perm {r : Ledger n} (hs : s.files.Sound) (hr : r.Fits a s.files) :
    (s.inside a).Perm (r.map (·.1)) := by
  apply (List.perm_ext_iff_of_nodup (inside_nodup hs a) hr.nodup).mpr
  intro p
  rw [mem_inside]
  constructor
  · rintro ⟨level, b, hb, hp⟩
    exact List.mem_map_of_mem (hr.mem_iff.mpr ⟨b, hb, hp⟩)
  · intro hp
    obtain ⟨⟨_, level⟩, hx, rfl⟩ := List.mem_map.mp hp
    obtain ⟨b, hb, hpb⟩ := hr.mem_iff.mp hx
    exact ⟨level, b, hb, hpb⟩

end Session

end AttentionScheduler
