import AttentionScheduler.Bucket

/-!
A shelf is a row of buckets over one roster. A process is filed under a level, the head of the first
bucket that yields is taken, and a process is withdrawn from the bucket that its mark names.
-/

namespace AttentionScheduler

variable {n : Nat}

structure Shelf (n : Nat) where
  buckets : List (Bucket n)
  procs : Roster n

inductive Filing where
  | linked
  /-- The process is queued under a mark for which the shelf has no bucket. -/
  | refused (mark : Nat)
deriving DecidableEq

namespace Shelf

def filed? (s : Shelf n) (level : Nat) : Option (Filed n) :=
  s.buckets[level]?.map fun bucket => ⟨bucket, s.procs⟩

def put (s : Shelf n) (level : Nat) (f : Filed n) : Shelf n :=
  ⟨s.buckets.set level f.bucket, f.procs⟩

/-- One round of filing: an unmarked process joins, and a marked one first leaves the bucket that its
mark names. After a round without an answer there is another one. -/
def round (s : Shelf n) (level : Nat) (p : Fin n) : Ending (Shelf n) (Option Filing) :=
  match s.filed? level with
  | none => .faulted s (.outOfBounds s.buckets.length level)
  | some target =>
    match s.procs[p].mark with
    | none => (target.push p).map (s.put level) fun joined => if joined then some .linked else none
    | some mark =>
      match s.filed? mark with
      | none => .returned s (some (.refused mark))
      | some current =>
        if current.bucket.held then .stuck .waiting
        else .returned (s.put mark (current.unlink p).1) none

def rounds : Nat → Shelf n → Nat → Fin n → Ending (Shelf n) Filing
  | 0, _, _, _ => .stuck .spinning
  | k + 1, s, level, p =>
    (s.round level p).bind fun s filing? =>
      match filing? with
      | some filing => .returned s filing
      | none => rounds k s level p

/-- A round without an answer unlinks an entry, or it changes nothing and so would every later one. -/
def file (s : Shelf n) (level : Nat) (p : Fin n) : Ending (Shelf n) Filing :=
  s.rounds (Bucket.population s.buckets + 2) level p

end Shelf

structure Sweep (n : Nat) where
  shelf : Shelf n
  busy : List Nat := []
  taken : Option (Nat × Fin n) := none

namespace Sweep

def past (w : Sweep n) (b : Bucket n) (busy : List Nat) : Sweep n :=
  { w with shelf := { w.shelf with buckets := b :: w.shelf.buckets }, busy := busy ++ w.busy }

def along : List (Bucket n) → Roster n → Sweep n
  | [], procs => { shelf := ⟨[], procs⟩ }
  | b :: rest, procs =>
    if b.count = 0 then (along rest procs).past b []
    else
      match (Filed.mk b procs).popFront with
      | (f, .removed p) =>
        { shelf := ⟨f.bucket :: rest, f.procs⟩, taken := some (b.level, p) }
      | (_, .contended) => (along rest procs).past b [b.level]
      | (_, .notFound) => (along rest procs).past b []

end Sweep

namespace Shelf

def sweep (s : Shelf n) : Sweep n := .along s.buckets s.procs

def withdraw (s : Shelf n) (p : Fin n) : Shelf n × Removal n :=
  match s.procs[p].mark with
  | none => (s, .notFound)
  | some mark =>
    match s.filed? mark with
    | none => (s, .notFound)
    | some f => (s.put mark (f.remove p).1, (f.remove p).2)

end Shelf

end AttentionScheduler
