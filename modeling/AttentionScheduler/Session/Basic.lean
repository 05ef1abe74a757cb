import AttentionScheduler.Host.Call

/-!
A session holds several allocators, loose buckets that belong to none of them, clocks that allocators
may share, and the one roster that all of them work on.
-/

namespace AttentionScheduler

variable {n : Nat}

structure Seat (n : Nat) where
  clock : Nat
  allocator : Allocator n
deriving DecidableEq

structure Session (n : Nat) where
  procs : Roster n
  clocks : List Clock := []
  /-- Nothing stands where a configuration was turned down. -/
  seats : List (Option (Seat n)) := []
  queues : List (Bucket n) := []
deriving DecidableEq

/-- A request for an allocator. Without a configuration it has the default one and starts at once. -/
structure Opening where
  hz : UInt64
  config? : Option Config := none
  /-- The opening whose clock it reads, if not one of its own. -/
  share? : Option Nat := none
deriving DecidableEq

inductive Place where
  | own (allocator level : Nat)
  | loose (queue : Nat)
deriving DecidableEq

namespace Place

def allocator? : Place → Option Nat
  | own a _ => some a
  | loose _ => none

end Place

namespace Opening

def clockPlaces (os : List Opening) : List Nat :=
  os.foldl (fun places o => places ++ [(o.share?.bind (places[·]?)).getD places.length]) []

def make (o : Opening) (procs : Roster n) : Except Defect (Allocator n × List Line) :=
  match o.config? with
  | some c => (Allocator.create c).map fun a => (a, [])
  | none =>
    let h := (Host.start ⟨{ config := {} }, procs, []⟩).stateOr ⟨{ config := {} }, procs, []⟩
    .ok (h.allocator, h.lines)

end Opening

namespace Session

def freshRoster (ps : Vector (UInt64 × Bool) n) : Roster n :=
  ps.map fun (pid, cognitive) => { pid, cognitive }

def fresh (os : List Opening) (queues : List (Nat × Single)) (procs : Roster n) : Session n where
  procs := procs
  clocks := os.map fun o => { hz := o.hz }
  seats := (os.zip (Opening.clockPlaces os)).map fun (o, clock) =>
    match o.make procs with
    | .ok (allocator, _) => some { clock, allocator }
    | .error _ => none
  queues := queues.map fun (level, threshold) => { level, threshold }

def seat (s : Session n) (a : Nat) : Except Stop (Seat n) :=
  match s.seats[a]? with
  | some (some seat) => .ok seat
  | _ => .error (.noAllocator a)

def clock (s : Session n) (seat : Seat n) : Clock := s.clocks[seat.clock]?.getD { hz := 0 }

def host (s : Session n) (seat : Seat n) : Host n := ⟨seat.allocator, s.procs, []⟩

def putAllocator (s : Session n) (a : Nat) (allocator : Allocator n) : Session n :=
  { s with seats := s.seats.modify a (·.map fun seat => { seat with allocator }) }

def putHost (s : Session n) (a : Nat) (h : Host n) : Session n :=
  { s.putAllocator a h.allocator with procs := h.procs }

def putClock (s : Session n) (seat : Seat n) (c : Clock) : Session n :=
  { s with clocks := s.clocks.set seat.clock c }

/-- An allocator has no bucket at a level that it lacks, and none at all before it starts. -/
def bucket? (s : Session n) : Place → Except Stop (Option (Bucket n))
  | .own a level => (s.seat a).map fun seat => seat.allocator.buckets[level]?
  | .loose q =>
    match s.queues[q]? with
    | some b => .ok (some b)
    | none => .error (.noQueue q)

def putBucket (s : Session n) (b : Bucket n) : Place → Session n
  | .own a level =>
    { s with
      seats := s.seats.modify a
        (·.map fun seat => { seat with allocator := seat.allocator.putBucket level b }) }
  | .loose q => { s with queues := s.queues.set q b }

def putFiled (s : Session n) (place : Place) (f : Filed n) : Session n :=
  { s.putBucket f.bucket place with procs := f.procs }

end Session

end AttentionScheduler
