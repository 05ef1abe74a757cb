import AttentionScheduler.Session.Basic

/-!
A call of a session is one on an allocator, on its clock, on a record or on a bucket. A call that
faults answers the fault, and the session goes on from where the call broke off.
-/

namespace AttentionScheduler

variable {n : Nat}

inductive RecordCall where
  | setCognitive (on : Bool)
  | setCpu (perMille : UInt32)
  | setPriority (priority : UInt32)
  | feature (i : Nat)
  | info
deriving DecidableEq

inductive RecordAnswer where
  | done
  | feature (x : Single)
  | info (record : Record)
deriving DecidableEq

inductive BucketCall (n : Nat) where
  | push (p : Fin n)
  | popFront
  | remove (p : Fin n)
  | size
  | view
deriving DecidableEq

inductive BucketAnswer (n : Nat) where
  | joined (yes : Bool)
  | removal (r : Removal n)
  | size (count : Nat)
  | view (b : Bucket n)
deriving DecidableEq

inductive Call (n : Nat) where
  | host (a : Nat) (call : HostCall n)
  | clock (a : Nat) (call : ClockCall)
  | record (p : Fin n) (call : RecordCall)
  | bucket (place : Place) (call : BucketCall n)
deriving DecidableEq

inductive Answer (n : Nat) where
  | host (answer : HostAnswer n)
  | clock (answer : ClockAnswer)
  | record (answer : RecordAnswer)
  | bucket (answer : BucketAnswer n)
  | noBucket
  | fault (fault : Fault)
deriving DecidableEq

namespace Record

def call (record : Record) : RecordCall → Record × RecordAnswer
  | .setCognitive on => ({ record with cognitive := on }, .done)
  | .setCpu perMille => ({ record with cpu := perMille }, .done)
  | .setPriority priority => ({ record with priority }, .done)
  | .feature i => (record, .feature (record.vector.get i))
  | .info => (record, .info record)

end Record

namespace BucketCall

def process? : BucketCall n → Option (Fin n)
  | push p | remove p => some p
  | _ => none

end BucketCall

namespace Filed

/-- Past the allocator: tracking and counters do not see it. -/
def call (f : Filed n) : BucketCall n → Ending (Filed n) (BucketAnswer n)
  | .push p => (f.push p).mapAnswer .joined
  | .popFront => (Ending.ofPair f.popFront).mapAnswer .removal
  | .remove p => (Ending.ofPair (f.remove p)).mapAnswer .removal
  | .size => .returned f (.size f.bucket.count)
  | .view => if f.bucket.held then .stuck .waiting else .returned f (.view f.bucket)

end Filed

namespace Call

def process? : Call n → Option (Fin n)
  | host _ call => call.process?
  | clock _ _ => none
  | record p _ => some p
  | bucket _ call => call.process?

def allocator? : Call n → Option Nat
  | host a _ | clock a _ => some a
  | record _ _ => none
  | bucket place _ => place.allocator?

end Call

structure Done (n : Nat) where
  session : Session n
  answer : Answer n
  lines : List Line := []
deriving DecidableEq

namespace Session

def callHost (s : Session n) (a : Nat) (call : HostCall n) : Except Stop (Done n) :=
  match s.seat a with
  | .error stop => .error stop
  | .ok seat =>
    match (s.host seat).call (s.clock seat) call with
    | .returned h answer => .ok ⟨s.putHost a h, .host answer, h.lines⟩
    | .faulted h fault => .ok ⟨s.putHost a h, .fault fault, h.lines⟩
    | .stuck stop => .error stop

def callClock (s : Session n) (a : Nat) (call : ClockCall) : Except Stop (Done n) :=
  match s.seat a with
  | .error stop => .error stop
  | .ok seat =>
    match (s.clock seat).call call with
    | .returned c answer => .ok { session := s.putClock seat c, answer := .clock answer }
    | .faulted c fault => .ok { session := s.putClock seat c, answer := .fault fault }
    | .stuck stop => .error stop

def callRecord (s : Session n) (p : Fin n) (call : RecordCall) : Done n where
  session := { s with procs := s.procs.update p fun record => (record.call call).1 }
  answer := .record (s.procs[p].call call).2

def callBucket (s : Session n) (place : Place) (call : BucketCall n) : Except Stop (Done n) :=
  match s.bucket? place with
  | .error stop => .error stop
  | .ok none => .ok { session := s, answer := .noBucket }
  | .ok (some b) =>
    match (Filed.mk b s.procs).call call with
    | .returned f answer => .ok { session := s.putFiled place f, answer := .bucket answer }
    | .faulted f fault => .ok { session := s.putFiled place f, answer := .fault fault }
    | .stuck stop => .error stop

def call (s : Session n) : Call n → Except Stop (Done n)
  | .host a call => s.callHost a call
  | .clock a call => s.callClock a call
  | .record p call => .ok (s.callRecord p call)
  | .bucket place call => s.callBucket place call

end Session

end AttentionScheduler
