import AttentionScheduler.Proofs.Evolution
import AttentionScheduler.Proofs.Soundness

/-!
The allocators of a session keep their shape through every history, and each call of the history adds one
process at most to the active count of one of them. They start in shape, with nothing tracked.
-/

namespace AttentionScheduler

variable {n k m : Nat} {x : Allocator n}

namespace Allocator

theorem putBucket_evolves {level : Nat} {b c : Bucket n} (hb : x.buckets[level]? = some b)
    (hc : c.label = b.label) : x.Evolves 0 (x.putBucket level c) := by
  unfold putBucket
  split
  · next core hcore =>
    rw [buckets_of_core? hcore] at hb
    obtain ⟨hl, rfl⟩ := List.getElem?_eq_some_iff.mp hb
    apply evolves_of_labels hcore
    rw [List.map_set, hc, ← List.map_set, List.set_getElem_self]
  · exact .refl _

end Allocator

namespace Session

variable {s t u : Session n} {a : Nat} {seat : Seat n} {place : Place} {b : Bucket n} {c : Call n}
  {d : Done n} {es : List (Event n)} {os : List Opening} {queues : List (Nat × Single)}
  {procs : Roster n}

/-- What `k` calls at most can do to the allocators of a session. -/
def Evolves (k : Nat) (s t : Session n) : Prop :=
  ∀ a y, t.allocator? a = some y → ∃ x, s.allocator? a = some x ∧ x.Evolves k y

theorem evolves_of_seats (h : t.seats = s.seats) : s.Evolves 0 t := by
  intro a y hy
  have hsame : t.allocator? a = s.allocator? a := by simp only [allocator?, Session.seat, h]
  exact ⟨y, hsame ▸ hy, .refl y⟩

theorem Evolves.trans (h : s.Evolves k t) (h' : t.Evolves m u) : s.Evolves (k + m) u := by
  intro a z hz
  obtain ⟨y, hy, hyz⟩ := h' a z hz
  obtain ⟨x, hx, hxy⟩ := h a y hy
  exact ⟨x, hx, hxy.trans hyz⟩

theorem Evolves.mono (h : s.Evolves k t) (hk : k ≤ m) : s.Evolves m t := by
  intro a y hy
  obtain ⟨x, hx, hxy⟩ := h a y hy
  exact ⟨x, hx, hxy.mono hk⟩

theorem evolves_putHost (hs : s.seat a = .ok seat) {g : Host n}
    (h : seat.allocator.Evolves k g.allocator) : s.Evolves k (s.putHost a g) := by
  intro b y hy
  rw [allocator?_putHost hs] at hy
  split at hy
  · next hb =>
    cases hy
    exact ⟨seat.allocator, hb ▸ allocator?_of_seat hs, h⟩
  · exact ⟨y, hy, (Allocator.Evolves.refl y).mono (Nat.zero_le k)⟩

theorem evolves_putBucket {b' : Bucket n} (hb : s.bucketAt place = some b)
    (hl : b'.label = b.label) : s.Evolves 0 (s.putBucket b' place) := by
  intro x y hy
  rw [allocator?_putBucket] at hy
  cases place with
  | loose q => exact ⟨y, hy, .refl y⟩
  | own a level =>
    dsimp only at hy
    split at hy
    · next hx =>
      obtain ⟨z, hz, rfl⟩ := Option.map_eq_some_iff.mp hy
      rw [bucketAt, bucketsOf, hz] at hb
      exact ⟨z, hx ▸ hz, Allocator.putBucket_evolves hb hl⟩
    · exact ⟨y, hy, .refl y⟩

theorem seize_evolves (hb : s.bucket? place = .ok (some b)) (hs : s.seize place b = .ok t) :
    s.Evolves 0 t := by
  unfold seize at hs
  split at hs <;> cases hs
  exact evolves_putBucket (bucketAt_of_bucket? hb) rfl

theorem release_evolves (s : Session n) (place : Place) : s.Evolves 0 (s.release place) := by
  unfold release
  split
  · next b hb => exact evolves_putBucket (bucketAt_of_bucket? hb) rfl
  · exact evolves_of_seats rfl

theorem call_evolves (hc : s.call c = .ok d) : s.Evolves 1 d.session := by
  cases c with
  | host a call =>
    simp only [Session.call, callHost] at hc
    split at hc
    · cases hc
    · next seat hs =>
      have hcall := (s.host seat).call_evolves (s.clock seat) call
      split at hc <;> cases hc
      · next hr =>
        rw [hr] at hcall
        exact evolves_putHost hs hcall
      · next hr =>
        rw [hr] at hcall
        exact evolves_putHost hs hcall.1
  | clock a call =>
    obtain ⟨seat, k, hd, -⟩ := putClock_of_call hc
    rw [hd]
    exact (evolves_of_seats rfl).mono (Nat.zero_le 1)
  | record p call =>
    cases hc
    exact (evolves_of_seats rfl).mono (Nat.zero_le 1)
  | bucket place call =>
    rcases (putFiled_of_call hc).1 with hd | ⟨b, f, hb, hf, hd⟩
    · rw [hd]
      exact (evolves_of_seats rfl).mono (Nat.zero_le 1)
    · rw [hd]
      have hbucket := evolves_putBucket (bucketAt_of_bucket? hb) hf.label
      exact (hbucket.trans (evolves_of_seats rfl)).mono (Nat.zero_le 1)

theorem Leads.evolves (h : s.Leads es t) : s.Evolves es.length t := by
  induction h with
  | refl s => exact evolves_of_seats rfl
  | call hc _ ih =>
    rw [List.length_cons, Nat.add_comm]
    exact (call_evolves hc).trans ih
  | seize hb hs _ ih => exact ((seize_evolves hb hs).trans ih).mono (Nat.le_of_eq (Nat.zero_add _))
  | @release s t place es _ ih =>
    exact ((s.release_evolves place).trans ih).mono (Nat.le_of_eq (Nat.zero_add _))

theorem sturdy_of_default : ({ config := {} } : Allocator n).Sturdy 0 where
  shaped := ⟨Config.accepted_of_validate Config.validate_default, fun _ h => by cases h⟩
  unbroken := by simp
  room := show Core.bucketBytes * ({} : Config).levels ≤ Word.maxBytes by decide
  active := show 0 < Word.limit by decide

theorem make_sturdy {o : Opening} {lines : List Line} (h : o.make procs = .ok (x, lines)) :
    x.Shaped ∧ x.startup ≠ .failed ∧ x.active = 0 := by
  rcases make_cases h with ⟨c, hv, rfl, -⟩ | ⟨k, hk, rfl, -⟩
  · exact ⟨⟨Config.accepted_of_validate hv, fun _ h => by cases h⟩, by simp, rfl⟩
  · obtain ⟨hsturdy, hactive⟩ := Host.sturdy_of_start (h := ⟨{ config := {} }, procs, []⟩)
      sturdy_of_default
    rw [hk]
    exact ⟨hsturdy.shaped, hsturdy.unbroken, Nat.le_zero.mp hactive⟩

theorem fresh_sturdy (h : (fresh os queues procs).allocator? a = some x) :
    x.Shaped ∧ x.startup ≠ .failed ∧ x.active = 0 := by
  cases hs : (fresh os queues procs).seat a with
  | error stop =>
    rw [allocator?, hs] at h
    cases h
  | ok seat =>
    rw [allocator?_of_seat hs] at h
    cases h
    obtain ⟨o, lines, -, hmake⟩ := make_of_seat hs
    exact make_sturdy hmake

theorem Leads.shaped (h : (fresh os queues procs).Leads es t) (hx : t.allocator? a = some x) :
    x.Shaped := by
  obtain ⟨y, hy, hevolves⟩ := h.evolves a x hx
  exact hevolves.shaped (fresh_sturdy hy).1

end Session

end AttentionScheduler
