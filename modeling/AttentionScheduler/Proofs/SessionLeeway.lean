import AttentionScheduler.Proofs.HostLeeway
import AttentionScheduler.Proofs.Safety

/-!
Two sessions within a leeway. A call has the same outcome on both, the answers and the lines of the log
differ as far as the leeway allows, and the two sessions stay within it.
-/

namespace AttentionScheduler

variable {n : Nat} {l : Leeway} {p : Fin n}

def ClockCall.later (k : Tick) : ClockCall → ClockCall
  | set tick => set (tick + k)
  | call => call

def Call.later (k : Tick) : Call n → Call n
  | clock a call => clock a (call.later k)
  | call => call

theorem Call.later_zero : Call.later (n := n) 0 = id := by
  funext c
  cases c with
  | clock a call =>
    cases call with
    | set tick => rw [later, ClockCall.later, UInt64.add_zero, id]
    | advance | read => rfl
  | host | record | bucket => rfl

/-- Whether the answer shows nothing of what the leeway may leave free. -/
def Call.plain (l : Leeway) : Call n → Bool
  | host _ call => call.plain
  | clock _ _ => decide (l.ahead = 0)
  | record _ .info => false
  | record _ _ | bucket _ _ => true

inductive Answer.Akin (l : Leeway) : Answer n → Answer n → Prop where
  | host {x y : HostAnswer n} (h : x.Akin l y) : Akin l (.host x) (.host y)
  | tick (t : Tick) : Akin l (.clock (.tick t)) (.clock (.tick (t + l.ahead)))
  | reading (now : Tick) (hz : UInt64) :
      Akin l (.clock (.reading now hz)) (.clock (.reading (now + l.ahead) hz))
  | done : Akin l (.record .done) (.record .done)
  | feature (x : Single) : Akin l (.record (.feature x)) (.record (.feature x))
  | info {r s : Record} (h : r.Akin l s) : Akin l (.record (.info r)) (.record (.info s))
  | bucket (answer : BucketAnswer n) : Akin l (.bucket answer) (.bucket answer)
  | noBucket : Akin l .noBucket .noBucket
  | fault (fault : Fault) : Akin l (.fault fault) (.fault fault)

namespace Record

variable {r s : Record}

theorem Akin.call (h : r.Akin l s) (call : RecordCall) :
    (r.call call).1.Akin l (s.call call).1 ∧
      Answer.Akin (n := n) l (.record (r.call call).2) (.record (s.call call).2) := by
  cases call with
  | setCognitive on => exact ⟨{ h with cognitive := rfl }, .done⟩
  | setCpu perMille => exact ⟨{ h with cpu := rfl }, .done⟩
  | setPriority priority => exact ⟨{ h with priority := rfl }, .done⟩
  | feature i =>
    refine ⟨h, ?_⟩
    rw [Record.call, Record.call, h.vector]
    exact .feature _
  | info => exact ⟨h, .info h⟩

end Record

/-- Two allocators that read the same of `clocks` many clocks. -/
structure Seat.Akin (l : Leeway) (clocks : Nat) (x y : Seat n) : Prop where
  clock : y.clock = x.clock
  clock_lt : l.ahead ≠ 0 → x.clock < clocks
  allocator : x.allocator.Akin l y.allocator

namespace Session

variable {s t : Session n} {x y : Seat n} {place : Place}

structure Akin (l : Leeway) (s t : Session n) : Prop where
  procs : s.procs.Akin l t.procs
  clocks : t.clocks = s.clocks.map (·.later l.ahead)
  seats : ∀ a, Outcomes (Seat.Akin l s.clocks.length) (s.seat a) (t.seat a)
  queues : t.queues = s.queues

theorem clocks_later (hl : l.ahead = 0) (cs : List Clock) : cs.map (·.later l.ahead) = cs := by
  simp only [hl, Clock.later_zero, List.map_id']

theorem akin_of_seats (hprocs : s.procs.Akin l t.procs)
    (hclocks : t.clocks = s.clocks.map (·.later l.ahead)) (hseats : t.seats = s.seats)
    (hqueues : t.queues = s.queues)
    (hshaped : l.advice = true → ∀ a x, s.allocator? a = some x → x.Shaped)
    (hclock : l.ahead ≠ 0 → ∀ a x, s.seat a = .ok x → x.clock < s.clocks.length) : s.Akin l t := by
  refine ⟨hprocs, hclocks, fun a => ?_, hqueues⟩
  have hseat : t.seat a = s.seat a := by rw [Session.seat, Session.seat, hseats]
  rw [hseat]
  cases hs : s.seat a with
  | error stop => exact .error stop
  | ok x =>
    exact .ok ⟨rfl, fun hahead => hclock hahead a x hs,
      Allocator.akin_self fun hl => hshaped hl a _ (allocator?_of_seat hs)⟩

namespace Akin

theorem symm (h : s.Akin l t) (hl : l.ahead = 0) : t.Akin l s := by
  have hclocks : t.clocks = s.clocks := h.clocks.trans (clocks_later hl _)
  refine ⟨fun q => (h.procs q).symm hl, ?_, fun a => ?_, h.queues.symm⟩
  · rw [clocks_later hl, hclocks]
  · have hseat := h.seats a
    rw [hclocks]
    generalize s.seat a = e at hseat
    generalize t.seat a = e' at hseat
    cases hseat with
    | error stop => exact .error stop
    | ok hx => exact .ok ⟨hx.clock.symm, fun hahead => absurd hl hahead, hx.allocator.symm⟩

theorem clock (h : s.Akin l t) (hx : Seat.Akin l s.clocks.length x y) :
    t.clock y = (s.clock x).later l.ahead := by
  rw [Session.clock, Session.clock, hx.clock, h.clocks, List.getElem?_map]
  cases hc : s.clocks[x.clock]? with
  | some c => rfl
  | none =>
    have hahead : l.ahead = 0 := Classical.byContradiction fun hahead =>
      absurd (List.getElem?_eq_none_iff.mp hc) (Nat.not_le.mpr (hx.clock_lt hahead))
    rw [hahead, Clock.later_zero]
    rfl

theorem host (h : s.Akin l t) (hx : Seat.Akin l s.clocks.length x y) :
    (s.host x).Akin l (t.host y) :=
  ⟨hx.allocator, h.procs, .nil⟩

theorem modify (h : s.Akin l t) (a : Nat) {f g : Seat n → Seat n}
    (hfg : ∀ x y, Seat.Akin l s.clocks.length x y → Seat.Akin l s.clocks.length (f x) (g y)) :
    Session.Akin l { s with seats := s.seats.modify a (·.map f) }
      { t with seats := t.seats.modify a (·.map g) } := by
  refine { h with seats := fun b => ?_ }
  rw [seat_modify, seat_modify]
  split
  · have hseat := h.seats a
    generalize s.seat a = e at hseat
    generalize t.seat a = e' at hseat
    cases hseat with
    | ok hx => exact .ok (hfg _ _ hx)
    | error stop => exact .error stop
  · exact h.seats b

theorem putHost (h : s.Akin l t) (a : Nat) {g k : Host n} (hk : g.Akin l k) :
    (s.putHost a g).Akin l (t.putHost a k) := by
  have hseats := h.modify a (f := fun seat => { seat with allocator := g.allocator })
    (g := fun seat => { seat with allocator := k.allocator })
    fun _ _ hx => { hx with allocator := hk.allocator }
  exact { hseats with procs := hk.procs }

theorem putClock (h : s.Akin l t) (hx : Seat.Akin l s.clocks.length x y) (c : Clock) :
    (s.putClock x c).Akin l (t.putClock y (c.later l.ahead)) := by
  refine { h with clocks := ?_, seats := ?_ }
  · simp only [Session.putClock, h.clocks, hx.clock, List.map_set]
  · rw [Session.putClock, List.length_set]
    exact h.seats

theorem putBucket (h : s.Akin l t) (b : Bucket n) (place : Place) :
    (s.putBucket b place).Akin l (t.putBucket b place) := by
  cases place with
  | own a level => exact h.modify a fun _ _ hx => { hx with allocator := hx.allocator.putBucket level b }
  | loose q => exact { h with queues := congrArg (·.set q b) h.queues }

theorem bucket? (h : s.Akin l t) (place : Place) : t.bucket? place = s.bucket? place := by
  cases place with
  | own a level =>
    have hseat := h.seats a
    rw [Session.bucket?, Session.bucket?]
    generalize s.seat a = e at hseat
    generalize t.seat a = e' at hseat
    cases hseat with
    | ok hx => exact congrArg (fun bs => Except.ok bs[level]?) hx.allocator.buckets
    | error stop => rfl
  | loose q => rw [Session.bucket?, Session.bucket?, h.queues]

theorem seize (h : s.Akin l t) (place : Place) (b : Bucket n) :
    Outcomes (Session.Akin l) (s.seize place b) (t.seize place b) := by
  unfold Session.seize
  split
  · exact .error _
  · exact .ok (h.putBucket _ place)

theorem release (h : s.Akin l t) (place : Place) : (s.release place).Akin l (t.release place) := by
  unfold Session.release
  rw [h.bucket?]
  split
  · exact h.putBucket _ place
  · exact h

end Akin

end Session

/-- Two calls that came back, in sessions within the leeway. Their answers are alike, unless a clock has
passed its last tick. -/
structure Event.Akin (l : Leeway) (e f : Event n) : Prop where
  before : e.before.Akin l f.before
  call : f.call = e.call.later l.ahead
  session : e.done.session.Akin l f.done.session
  answer : (l.ahead ≠ 0 → ¬ e.before.Overruns e.call ∧ ¬ f.before.Overruns f.call) →
    e.done.answer.Akin l f.done.answer
  same : e.call.plain l = true → f.done.answer = e.done.answer
  lines : List.Forall₂ (Line.Akin l) e.done.lines f.done.lines

namespace Session

variable {s t : Session n} {a : Nat} {x : Seat n}

theorem callClock_advance (hs : s.seat a = .ok x) (delta : Tick) :
    s.callClock a (.advance delta) = .ok {
      session := s.putClock x ((s.clock x).set ((s.clock x).now + delta))
      answer :=
        if (s.clock x).now.toNat + delta.toNat < UInt64.size then
          .clock (.tick ((s.clock x).now + delta))
        else .fault .addOverflow } := by
  simp only [callClock, hs, Clock.call, Clock.advance]
  by_cases hbound : (s.clock x).now.toNat + delta.toNat < UInt64.size
  · rw [if_pos hbound, if_pos hbound]
    rfl
  · rw [if_neg hbound, if_neg hbound]
    rfl

end Session

namespace Session.Akin

variable {s t : Session n}

theorem callHost (h : s.Akin l t) (a : Nat) (call : HostCall n) :
    Outcomes (fun d d' => Event.Akin l ⟨s, .host a call, d⟩ ⟨t, .host a call, d'⟩)
      (s.callHost a call) (t.callHost a call) := by
  have hseat := h.seats a
  unfold Session.callHost
  generalize s.seat a = e at hseat
  generalize t.seat a = e' at hseat
  cases hseat with
  | error stop => exact .error stop
  | @ok x y hx =>
    have hcall := (h.host hx).call (s.clock x) call
    dsimp only
    rw [h.clock hx]
    generalize (s.host x).call (s.clock x) call = r at hcall
    generalize (t.host y).call ((s.clock x).later l.ahead) call = r' at hcall
    cases hcall with
    | returned hk =>
      obtain ⟨hk, hanswer, hsame⟩ := hk
      exact .ok ⟨h, rfl, h.putHost a hk, fun _ => .host hanswer,
        fun hplain => congrArg Answer.host (hsame hplain), hk.lines⟩
    | faulted hk fault =>
      exact .ok ⟨h, rfl, h.putHost a hk, fun _ => .fault fault, fun _ => rfl, hk.lines⟩
    | stuck stop => exact .error stop

theorem callClock (h : s.Akin l t) (a : Nat) (call : ClockCall) :
    Outcomes (fun d d' => Event.Akin l ⟨s, .clock a call, d⟩ ⟨t, .clock a (call.later l.ahead), d'⟩)
      (s.callClock a call) (t.callClock a (call.later l.ahead)) := by
  have hseat := h.seats a
  generalize hs : s.seat a = e at hseat
  generalize ht : t.seat a = e' at hseat
  cases hseat with
  | error stop =>
    rw [Session.callClock, Session.callClock, hs, ht]
    exact .error stop
  | @ok x y hx =>
    have hclock := h.clock hx
    have hplain (hplain : Call.plain (n := n) l (.clock a call) = true) : l.ahead = 0 :=
      of_decide_eq_true hplain
    cases call with
    | set tick =>
      rw [Session.callClock, Session.callClock, hs, ht]
      refine .ok ⟨h, rfl, hclock ▸ h.putClock hx ((s.clock x).set tick), fun _ => .tick tick,
        fun hp => ?_, .nil⟩
      rw [hplain hp, UInt64.add_zero]
    | read =>
      rw [Session.callClock, Session.callClock, hs, ht]
      dsimp only [ClockCall.later, Clock.call]
      rw [hclock]
      refine .ok ⟨h, rfl, h.putClock hx (s.clock x), fun _ => .reading _ _, fun hp => ?_, .nil⟩
      rw [hplain hp, Clock.later_zero]
    | advance delta =>
      have hsum : (t.clock y).now + delta = (s.clock x).now + delta + l.ahead := by
        rw [hclock]
        change (s.clock x).now + l.ahead + delta = _
        grind
      have hput : (s.putClock x ((s.clock x).set ((s.clock x).now + delta))).Akin l
          (t.putClock y ((t.clock y).set ((t.clock y).now + delta))) := by
        rw [hsum, hclock]
        exact h.putClock hx _
      have hlater : (ClockCall.advance delta).later l.ahead = .advance delta := rfl
      rw [hlater, callClock_advance hs, callClock_advance ht]
      refine .ok ⟨h, rfl, hput, fun hcalm => ?_, fun hp => ?_, .nil⟩
      · have hbound : (t.clock y).now.toNat + delta.toNat < UInt64.size ↔
            (s.clock x).now.toNat + delta.toNat < UInt64.size := by
          by_cases hahead : l.ahead = 0
          · rw [hclock, hahead, Clock.later_zero]
          · obtain ⟨hover, hover'⟩ := hcalm hahead
            rw [overruns_iff hs, Nat.not_le] at hover
            rw [overruns_iff ht, Nat.not_le] at hover'
            exact iff_of_true hover' hover
        simp only [hbound, hsum]
        split
        · exact .tick _
        · exact .fault _
      · rw [hclock, hplain hp, Clock.later_zero]

theorem callRecord (h : s.Akin l t) (p : Fin n) (call : RecordCall) :
    Event.Akin l ⟨s, .record p call, s.callRecord p call⟩ ⟨t, .record p call, t.callRecord p call⟩ := by
  obtain ⟨hrecord, hanswer⟩ := (h.procs p).call call
  refine ⟨h, rfl, { h with procs := h.procs.update hrecord }, fun _ => hanswer, fun hp => ?_, .nil⟩
  cases call with
  | info => cases hp
  | feature i => exact congrArg (fun v => Answer.record (.feature (v.get i))) (h.procs p).vector
  | setCognitive | setCpu | setPriority => rfl

theorem callBucket (h : s.Akin l t) (place : Place) (call : BucketCall n) :
    Outcomes (fun d d' => Event.Akin l ⟨s, .bucket place call, d⟩ ⟨t, .bucket place call, d'⟩)
      (s.callBucket place call) (t.callBucket place call) := by
  have hput {f g : Filed n} (hf : f.Akin l g) : (s.putFiled place f).Akin l (t.putFiled place g) := by
    have hbucket := h.putBucket f.bucket place
    rw [putFiled, putFiled, hf.bucket]
    exact { hbucket with procs := hf.procs }
  unfold Session.callBucket
  rw [h.bucket?]
  split
  · exact .error _
  · exact .ok ⟨h, rfl, h, fun _ => .noBucket, fun _ => rfl, .nil⟩
  · next b _ =>
    have hcall := Filed.Akin.call (f := ⟨b, s.procs⟩) (g := ⟨b, t.procs⟩) ⟨rfl, h.procs⟩ call
    generalize (Filed.mk b s.procs).call call = r at hcall
    generalize (Filed.mk b t.procs).call call = r' at hcall
    cases hcall with
    | returned hf =>
      obtain ⟨hf, rfl⟩ := hf
      exact .ok ⟨h, rfl, hput hf, fun _ => .bucket _, fun _ => rfl, .nil⟩
    | faulted hf fault => exact .ok ⟨h, rfl, hput hf, fun _ => .fault fault, fun _ => rfl, .nil⟩
    | stuck stop => exact .error stop

theorem call (h : s.Akin l t) (c : Call n) :
    Outcomes (fun d d' => Event.Akin l ⟨s, c, d⟩ ⟨t, c.later l.ahead, d'⟩)
      (s.call c) (t.call (c.later l.ahead)) := by
  cases c with
  | host a call => exact h.callHost a call
  | clock a call => exact h.callClock a call
  | record p call => exact .ok (h.callRecord p call)
  | bucket place call => exact h.callBucket place call

end Session.Akin

end AttentionScheduler
