import AttentionScheduler.Proofs.Revision

/-!
The outline of an allocator is all of it but its buckets and its counts. The policy that the host sets and
the ring are in it, and few calls write to it; the rest leave it as it is, or start the allocator.
-/

namespace AttentionScheduler

variable {n : Nat}

structure Outline where
  config : Config
  budget : UInt64
  lastUpdate : Tick
  emergency : Bool
  ring? : Option Tensor

namespace Allocator

variable {x y : Allocator n}

/-- The active count is left out, also of the ring. -/
def outline (x : Allocator n) : Outline where
  config := x.config
  budget := x.budget
  lastUpdate := x.lastUpdate
  emergency := x.emergency
  ring? := x.core?.map fun core => { core.tensor with active := 0 }

theorem outline_withCore {core core' : Core n} (hc : x.core? = some core)
    (h : { core'.tensor with active := 0 } = { core.tensor with active := 0 }) :
    (x.withCore core').outline = x.outline := by
  rw [outline, outline, hc]
  exact congrArg (fun ring => Outline.mk x.config x.budget x.lastUpdate x.emergency (some ring)) h

theorem outline_putBucket (x : Allocator n) (level : Nat) (b : Bucket n) :
    (x.putBucket level b).outline = x.outline := by
  unfold putBucket
  split
  · next hc => exact outline_withCore hc rfl
  · rfl

/-- The allocator has not been started before, and now it has. -/
def Begins (x y : Allocator n) : Prop :=
  x.core? = none ∧ ∃ core, Core.build x.config = .ok core ∧ y.outline = (x.begun core).outline

end Allocator

namespace HostCall

/-- Whether the call can change the outline otherwise than by a start. -/
def outlines : HostCall n → Bool
  | setEmergency _ | setBudget _ | refresh _ | tensor (.advance _) => true
  | _ => false

end HostCall

namespace Host

variable {h k : Host n} {core : Core n} {p : Fin n}

def Keeps (h k : Host n) : Prop := k.allocator.outline = h.allocator.outline

def Moves (h k : Host n) : Prop := h.Keeps k ∨ h.allocator.Begins k.allocator

theorem Moves.keeps {g : Host n} (h' : h.Moves g) (hk : g.Keeps k) : h.Moves k := by
  obtain hg | ⟨hpending, core, hbuild, hg⟩ := h'
  · exact .inl (Eq.trans hk hg)
  · exact .inr ⟨hpending, core, hbuild, Eq.trans hk hg⟩

theorem Moves.config (hk : h.Moves k) : k.allocator.config = h.allocator.config := by
  obtain hkeeps | ⟨-, core, -, hbegun⟩ := hk
  · exact congrArg Outline.config hkeeps
  · exact congrArg Outline.config hbegun

theorem keeps_withShelf (hc : h.allocator.core? = some core) (s : Shelf n) :
    h.Keeps (h.withShelf core s) := Allocator.outline_withCore hc rfl

theorem start_moves (h : Host n) : h.start.Leaves h.Moves := by
  unfold start
  dsimp only
  split
  · exact .inl rfl
  · exact .inl rfl
  · next hpending =>
    have hnone : h.allocator.core? = none := by rw [Allocator.core?, hpending]
    split
    · refine .inl ?_
      rw [Keeps, Allocator.outline, Allocator.outline, hnone]
      rfl
    · next core hbuild => exact .inr ⟨hnone, core, hbuild, rfl⟩

theorem moves_of_start (h : Host n) : h.Moves (h.start.stateOr h) :=
  h.start_moves.stateOr (.inl rfl)

theorem enrol_keeps (hc : h.allocator.core? = some core) (p : Fin n) :
    (h.enrol core p).Leaves h.Keeps := by
  unfold enrol
  split
  · exact rfl
  · dsimp only
    cases ht : core.tensor.track with
    | ok tensor =>
      refine Allocator.outline_withCore hc ?_
      unfold Tensor.track at ht
      cases hroom : Word.add core.tensor.active 1 with
      | ok active =>
        rw [hroom] at ht
        cases ht
        rfl
      | error fault =>
        rw [hroom] at ht
        cases ht
    | error fault => exact rfl

theorem enter_moves (h : Host n) (p : Fin n) : (h.enter p).Leaves h.Moves := by
  have hmoves := h.start_moves
  unfold enter
  cases hs : h.start with
  | stuck stop => trivial
  | faulted k fault =>
    rw [hs] at hmoves
    exact hmoves
  | returned g core =>
    rw [hs] at hmoves
    have hg : h.Moves g := hmoves
    have hcore : g.allocator.core? = some core := core?_of_start hs
    have henrol := enrol_keeps (h := g.touch p (·.withVector (·.rescore))) hcore p
    exact henrol.imp fun k hk => hg.keeps hk

theorem place_keeps (hc : h.allocator.core? = some core) (p : Fin n) (score : Single) :
    (h.place core p score).Leaves h.Keeps := by
  unfold place
  cases Level.ofScore h.allocator.config.levels score with
  | error fault => exact rfl
  | ok level =>
    simp only [Ending.ofExcept, Ending.bind_returned]
    cases (h.shelf core).file level p with
    | stuck stop => trivial
    | faulted s fault => exact keeps_withShelf hc s
    | returned s filing => cases filing <;> exact keeps_withShelf hc s

theorem ready_moves (h : Host n) (p : Fin n) : (h.ready p).Leaves h.Moves := by
  cases hcog : h.procs[p].cognitive with
  | false =>
    rw [ready, hcog]
    exact .inl rfl
  | true =>
    rw [ready_eq hcog]
    have henter := h.enter_moves p
    have hends := h.enter_ends p
    generalize h.enter p = e at henter hends
    cases hends with
    | unstarted procs => exact henter
    | full untracked procs => exact henter
    | @entered g core built procs =>
      have hg : h.Moves g := henter
      exact (place_keeps built p _).imp fun k hk => hg.keeps hk

theorem noteBusy_keeps (levels : List Nat) (h : Host n) : h.Keeps (h.noteBusy levels) := by
  induction levels generalizing h with
  | nil => exact rfl
  | cons level levels ih => exact ih _

theorem selectNext_keeps (h : Host n) (now : Tick) : h.Keeps (h.selectNext now).1 := by
  unfold selectNext
  split
  · exact rfl
  · next core hc =>
    have hbusy := (noteBusy_keeps (h.shelf core).sweep.busy _).trans
      (keeps_withShelf hc (h.shelf core).sweep.shelf)
    dsimp only
    split <;> exact hbusy

theorem drainFor_keeps (fuel : Nat) (h : Host n) (now : Tick) :
    h.Keeps (h.drainFor fuel now).1 := by
  induction fuel generalizing h with
  | zero => exact rfl
  | succ fuel ih =>
    have hselect := h.selectNext_keeps now
    rw [drainFor]
    generalize h.selectNext now = r at hselect
    obtain ⟨g, p?⟩ := r
    cases p? with
    | none => exact hselect
    | some p => exact (ih g).trans hselect

theorem remove_keeps (h : Host n) (p : Fin n) : h.Keeps (h.remove p).1 := by
  unfold remove
  split
  · exact rfl
  · next core hc =>
    dsimp only
    split <;> exact keeps_withShelf hc ((h.shelf core).withdraw p).1

theorem untrack_keeps (h : Host n) (p : Fin n) : h.Keeps (h.untrack p) := by
  unfold untrack
  split
  · dsimp only
    split
    · exact rfl
    · next hc => exact Allocator.outline_withCore hc rfl
  · exact rfl

theorem retire_keeps (h : Host n) (p : Fin n) : h.Keeps (h.retire p).1 := by
  have hremove := h.remove_keeps p
  unfold retire
  dsimp only
  split
  · exact hremove
  · exact (untrack_keeps _ p).trans hremove

theorem setFeature_keeps (h : Host n) (p : Fin n) (i : Nat) (x : Single) :
    h.Keeps (h.setFeature p i x) := by
  unfold setFeature
  split
  · exact rfl
  · exact rfl

theorem callTensor_keeps (h : Host n) {call : TensorCall} (hcall : ∀ now, call ≠ .advance now) :
    (h.callTensor call).Leaves h.Keeps := by
  unfold callTensor
  split
  · exact rfl
  · next core hc =>
    cases call with
    | advance now => exact absurd rfl (hcall now)
    | sample proc feature time =>
      rw [Tensor.call]
      cases core.tensor.sample proc feature time <;> exact Allocator.outline_withCore hc rfl
    | slot | timestamp | timestamps | info => exact Allocator.outline_withCore hc rfl

theorem call_moves (h : Host n) (clock : Clock) {call : HostCall n} (hcall : call.outlines = false) :
    (h.call clock call).Leaves h.Moves := by
  have same {α : Type} {e : Ending (Host n) α} (he : e.Leaves (·.allocator = h.allocator)) :
      e.Leaves h.Moves := he.imp fun k hk => .inl (congrArg Allocator.outline hk)
  cases call with
  | start => exact h.start_moves.bind fun _ _ hk => hk
  | ready p => exact (h.ready_moves p).bind fun _ _ hk => hk
  | select => exact .inl (h.selectNext_keeps clock.now)
  | drain => exact .inl (h.drainFor_keeps _ clock.now)
  | remove p => exact .inl (h.remove_keeps p)
  | retire p => exact .inl (h.retire_keeps p)
  | setFeature p i x => exact .inl (h.setFeature_keeps p i x)
  | levelFor score =>
    change (Ending.mapAnswer _ (.ofExcept h _)).Leaves _
    cases Level.ofScore h.allocator.config.levels score <;> exact .inl rfl
  | refresh | setEmergency | setBudget => cases hcall
  | dump => exact (same (h.dump_same.imp fun _ hk => congrArg Host.allocator hk)).mapAnswer _
  | dumpToLog => exact (same (h.dumpToLog_same.imp fun _ hk => hk.1)).mapAnswer _
  | buckets => exact (same (h.viewBuckets_same.imp fun _ hk => congrArg Host.allocator hk)).mapAnswer _
  | tensor call =>
    have hadvance : ∀ now, call ≠ .advance now := by
      rintro now rfl
      cases hcall
    exact ((h.callTensor_keeps hadvance).imp fun _ hk => .inl hk).mapAnswer _
  | attention | lastUpdate | stats | config => exact .inl rfl

end Host

namespace Session

variable {s t : Session n} {a : Nat} {seat : Seat n}

def outlineAt (s : Session n) (a : Nat) : Option Outline := (s.allocator? a).map (·.outline)

theorem outlineAt_of_seat (hs : s.seat a = .ok seat) : s.outlineAt a = some seat.allocator.outline := by
  rw [outlineAt, allocator?_of_seat hs]
  rfl

theorem outlineAt_putHost (hs : s.seat a = .ok seat) (k : Host n) (b : Nat) :
    (s.putHost a k).outlineAt b = if b = a then some k.allocator.outline else s.outlineAt b := by
  rw [outlineAt, allocator?_putHost hs]
  split <;> rfl

theorem outlineAt_putBucket (s : Session n) (b : Bucket n) (place : Place) (a : Nat) :
    (s.putBucket b place).outlineAt a = s.outlineAt a := by
  rw [outlineAt, allocator?_putBucket]
  cases place with
  | loose q => rfl
  | own a' level =>
    dsimp only
    split
    · next ha =>
      rw [outlineAt, ha]
      cases s.allocator? a' with
      | none => rfl
      | some x => exact congrArg some (x.outline_putBucket level b)
    · rfl

theorem outlineAt_of_elsewhere {c : Call n} {d : Done n} (hc : s.call c = .ok d)
    (helse : ∀ call, c ≠ .host a call) : d.session.outlineAt a = s.outlineAt a := by
  cases c with
  | host b call =>
    obtain ⟨seat, hs⟩ := seat_of_call hc
    obtain ⟨k, _, hd⟩ := leaves_of_call (P := fun _ => True) hs hc
      (by cases (s.host seat).call (s.clock seat) call <;> trivial)
    rw [hd, outlineAt_putHost hs, if_neg]
    rintro rfl
    exact helse call rfl
  | clock b call =>
    obtain ⟨seat, k, hd, -⟩ := putClock_of_call hc
    rw [hd]
    rfl
  | record p call =>
    cases hc
    rfl
  | bucket place call =>
    rcases (putFiled_of_call hc).1 with hd | ⟨b, f, -, -, hd⟩
    · rw [hd]
    · rw [hd]
      exact outlineAt_putBucket s f.bucket place a

end Session

end AttentionScheduler
