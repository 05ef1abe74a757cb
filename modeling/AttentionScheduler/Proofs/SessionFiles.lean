import AttentionScheduler.Proofs.Dispatching
import AttentionScheduler.Proofs.History

/-!
The files of a session, and how each call of a history changes them.
-/

namespace AttentionScheduler

open Files

variable {n : Nat}

namespace Session

variable {s t : Session n} {a b : Nat} {seat : Seat n} {place : Place}

def allocator? (s : Session n) (a : Nat) : Option (Allocator n) :=
  (s.seat a).toOption.map (·.allocator)

def bucketsOf (s : Session n) (a : Nat) : List (Bucket n) :=
  match s.allocator? a with
  | some x => x.buckets
  | none => []

def bucketAt (s : Session n) : Place → Option (Bucket n)
  | .own a level => (s.bucketsOf a)[level]?
  | .loose q => s.queues[q]?

def files (s : Session n) : Files n := ⟨s.bucketAt, fun p => s.procs[p].mark⟩

theorem allocator?_of_seat (h : s.seat a = .ok seat) : s.allocator? a = some seat.allocator := by
  rw [allocator?, h]
  rfl

theorem seat_of_allocator? {x : Allocator n} (h : s.allocator? a = some x) :
    ∃ seat, s.seat a = .ok seat ∧ seat.allocator = x := by
  cases hs : s.seat a with
  | error stop =>
    rw [allocator?, hs] at h
    cases h
  | ok seat =>
    rw [allocator?_of_seat hs] at h
    exact ⟨seat, rfl, Option.some.inj h⟩

theorem seat_of_call {call : HostCall n} {d : Done n} (h : s.call (.host a call) = .ok d) :
    ∃ seat, s.seat a = .ok seat := by
  cases hs : s.seat a with
  | error stop =>
    rw [Session.call, callHost, hs] at h
    cases h
  | ok seat => exact ⟨seat, rfl⟩

theorem bucketsOf_of_seat (h : s.seat a = .ok seat) : s.bucketsOf a = seat.allocator.buckets := by
  rw [bucketsOf, allocator?_of_seat h]

theorem bucketAt_of_seat (h : s.seat a = .ok seat) (level : Nat) :
    s.bucketAt (.own a level) = seat.allocator.buckets[level]? := by
  rw [bucketAt, bucketsOf_of_seat h]

theorem bucketAt_of_bucket? {b? : Option (Bucket n)} (h : s.bucket? place = .ok b?) :
    s.bucketAt place = b? := by
  cases place with
  | own a level =>
    cases hs : s.seat a with
    | error stop =>
      rw [bucket?, hs] at h
      cases h
    | ok seat =>
      rw [bucket?, hs] at h
      cases h
      rw [bucketAt, bucketsOf_of_seat hs]
  | loose q =>
    rw [bucket?] at h
    rw [bucketAt]
    cases hq : s.queues[q]? with
    | none =>
      rw [hq] at h
      cases h
    | some b =>
      rw [hq] at h
      cases h
      rfl

theorem bucket?_of_bucketAt {b : Bucket n} (hb : s.bucketAt place = some b) :
    s.bucket? place = .ok (some b) := by
  cases place with
  | own a level =>
    rw [bucketAt, bucketsOf] at hb
    rw [bucket?]
    cases hs : s.seat a with
    | error stop =>
      rw [allocator?, hs] at hb
      cases hb
    | ok seat =>
      rw [allocator?_of_seat hs] at hb
      exact congrArg Except.ok hb
  | loose q =>
    rw [bucketAt] at hb
    rw [bucket?, hb]

theorem seat_modify (s : Session n) (a : Nat) (g : Seat n → Seat n) (x : Nat) :
    ({ s with seats := s.seats.modify a (·.map g) } : Session n).seat x =
      if x = a then (s.seat a).map g else s.seat x := by
  unfold seat
  simp only [List.getElem?_modify]
  by_cases hx : x = a
  · subst hx
    rcases hs : s.seats[x]? with _ | (_ | seat) <;> simp [Except.map]
  · have hx' : ¬ a = x := fun h => hx h.symm
    simp [hx, hx']

theorem allocator?_putHost (hs : s.seat a = .ok seat) (h : Host n) (x : Nat) :
    (s.putHost a h).allocator? x = if x = a then some h.allocator else s.allocator? x := by
  have hseat : (s.putHost a h).seat x = _ :=
    seat_modify s a (fun seat => { seat with allocator := h.allocator }) x
  rw [allocator?, hseat]
  split
  · rw [hs]
    rfl
  · rfl

theorem bucketsOf_putHost (hs : s.seat a = .ok seat) (h : Host n) (x : Nat) :
    (s.putHost a h).bucketsOf x = if x = a then h.allocator.buckets else s.bucketsOf x := by
  rw [bucketsOf, allocator?_putHost hs]
  by_cases hx : x = a
  · simp only [hx, ↓reduceIte]
  · simp only [hx, ↓reduceIte, bucketsOf]

theorem files_putHost (hs : s.seat a = .ok seat) (h : Host n) :
    (s.putHost a h).files = s.files.withShelf a h.row := by
  apply Files.ext
  · intro place
    cases place with
    | own x level =>
      simp only [files, bucketAt, bucketsOf_putHost hs, withShelf, withRow, Host.row]
      split <;> rfl
    | loose q => rfl
  · exact fun _ => rfl

theorem files_host (hs : s.seat a = .ok seat) : s.files.withShelf a (s.host seat).row = s.files := by
  apply Files.ext
  · intro place
    cases place with
    | own x level =>
      simp only [files, bucketAt, withShelf, withRow, Host.row, host]
      split
      · next hx => rw [hx, bucketsOf_of_seat hs]
      · rfl
    | loose q => rfl
  · exact fun _ => rfl

theorem edits_putHost {k : Host n} {cs : List (Change n)} (hs : s.seat a = .ok seat)
    (h : Edits (s.files.withShelf a (s.host seat).row) cs (s.files.withShelf a k.row)) :
    Edits s.files cs (s.putHost a k).files := by
  rw [files_putHost hs]
  rwa [files_host hs] at h

theorem edit_putHost {k : Host n} {c : Change n} (hs : s.seat a = .ok seat)
    (h : Edit (s.files.withShelf a (s.host seat).row) c (s.files.withShelf a k.row)) :
    Edit s.files c (s.putHost a k).files :=
  (edits_putHost hs (.single h)).of_single

theorem files_putHost_alike {k : Host n} (hs : s.seat a = .ok seat) (hk : (s.host seat).Alike k) :
    (s.putHost a k).files = s.files := by
  rw [files_putHost hs, hk.files, files_host hs]

theorem allocator?_putBucket (b : Bucket n) (place : Place) (x : Nat) :
    (s.putBucket b place).allocator? x =
      match place with
      | .own a level =>
        if x = a then (s.allocator? a).map (·.putBucket level b) else s.allocator? x
      | .loose _ => s.allocator? x := by
  cases place with
  | own a level =>
    have hseat : (s.putBucket b (.own a level)).seat x = _ :=
      seat_modify s a (fun seat => { seat with allocator := seat.allocator.putBucket level b }) x
    rw [allocator?, hseat]
    dsimp only
    split
    · rw [allocator?]
      cases s.seat a <;> rfl
    · rfl
  | loose q => rfl

theorem buckets_putBucket (x : Allocator n) (level : Nat) (b : Bucket n) :
    (x.putBucket level b).buckets = x.buckets.set level b := by
  unfold Allocator.putBucket
  cases hc : x.core? with
  | none => simp [Allocator.buckets_of_not_started hc]
  | some core => rw [Allocator.buckets_withCore, Allocator.buckets_of_core? hc]

theorem bucketsOf_putBucket_own (b : Bucket n) (a level x : Nat) :
    (s.putBucket b (.own a level)).bucketsOf x =
      if x = a then (s.bucketsOf a).set level b else s.bucketsOf x := by
  rw [bucketsOf, allocator?_putBucket]
  by_cases hx : x = a
  · simp only [hx, ↓reduceIte, bucketsOf]
    cases s.allocator? a with
    | none => rfl
    | some y => exact buckets_putBucket y level b
  · simp only [hx, ↓reduceIte, bucketsOf]

theorem files_putBucket {b : Bucket n} (hb : s.bucketAt place = some b) (c : Bucket n) :
    (s.putBucket c place).files = s.files.put place c := by
  apply Files.ext
  · intro other
    cases place with
    | own a level =>
      obtain ⟨hl, _⟩ := List.getElem?_eq_some_iff.mp hb
      cases other with
      | own x l =>
        by_cases hx : x = a
        · subst hx
          by_cases hl' : l = level
          · subst hl'
            simp [files, bucketAt, bucketsOf_putBucket_own, hl]
          · have hne : Place.own x l ≠ .own x level := by simp [hl']
            simp [files, bucketAt, bucketsOf_putBucket_own, put_bucket?_of_ne hne, Ne.symm hl']
        · have hne : Place.own x l ≠ .own a level := by simp [hx]
          simp [files, bucketAt, bucketsOf_putBucket_own, put_bucket?_of_ne hne, hx]
      | loose q =>
        have hne : Place.loose q ≠ .own a level := by simp
        rw [put_bucket?_of_ne hne]
        rfl
    | loose i =>
      obtain ⟨hi, _⟩ := List.getElem?_eq_some_iff.mp hb
      cases other with
      | own x l =>
        have hne : Place.own x l ≠ .loose i := by simp
        rw [put_bucket?_of_ne hne]
        rfl
      | loose q =>
        by_cases hq : q = i
        · subst hq
          simp [files, bucketAt, putBucket, hi]
        · have hne : Place.loose q ≠ .loose i := by simp [hq]
          simp [files, bucketAt, putBucket, put_bucket?_of_ne hne, Ne.symm hq]
  · intro p
    cases place <;> rfl

theorem bucketAt_putBucket {b : Bucket n} (hb : s.bucketAt place = some b) (c : Bucket n) :
    (s.putBucket c place).bucketAt place = some c := by
  change (s.putBucket c place).files.bucket? place = _
  rw [files_putBucket hb]
  exact put_bucket?_self

theorem files_putFiled {b : Bucket n} (hb : s.bucketAt place = some b) (f : Filed n) :
    (s.putFiled place f).files = s.files.withFiled place f := by
  have h := files_putBucket hb f.bucket
  apply Files.ext
  · intro other
    exact congrFun (congrArg Files.bucket? h) other
  · exact fun _ => rfl

theorem files_shows {b : Bucket n} (hb : s.bucketAt place = some b) :
    s.files.Shows place ⟨b, s.procs⟩ :=
  ⟨hb, fun _ => rfl⟩

theorem seize_edit {b : Bucket n} (hb : s.bucket? place = .ok (some b))
    (hs : s.seize place b = .ok t) : Edit s.files (.latch place true) t.files := by
  have hat := bucketAt_of_bucket? hb
  unfold seize at hs
  split at hs
  · cases hs
  · cases hs
    rw [files_putBucket hat]
    exact .latch hat

theorem release_edits (s : Session n) (place : Place) :
    ∃ cs, Edits s.files cs (s.release place).files ∧ ∀ c ∈ cs, c = .latch place false := by
  unfold release
  split
  · next b hb =>
    have hat := bucketAt_of_bucket? hb
    rw [files_putBucket hat]
    exact ⟨[.latch place false], .single (.latch hat), by simp⟩
  · exact ⟨[], .nil _, by simp⟩

end Session

end AttentionScheduler
