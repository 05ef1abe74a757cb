import AttentionScheduler.Ending
import AttentionScheduler.Record

/-!
A bucket is a queue of processes behind a lock. Joining it marks the record, leaving it takes the mark
off. Whoever joins waits for the lock; whoever takes a member out finds the bucket contended instead.
-/

namespace AttentionScheduler

variable {n : Nat}

structure Bucket (n : Nat) where
  level : Nat
  threshold : Single
  members : List (Fin n) := []
  /-- The length as last published, which is read without the lock. -/
  count : Nat := 0
  held : Bool := false
deriving DecidableEq

inductive Removal (n : Nat) where
  | removed (p : Fin n)
  | notFound
  | contended
deriving DecidableEq

namespace Removal

def name : Removal n → String
  | removed _ => "Removed"
  | notFound => "NotFound"
  | contended => "Contended"

def isRemoved : Removal n → Bool
  | removed _ => true
  | _ => false

def isContended : Removal n → Bool
  | contended => true
  | _ => false

def process? : Removal n → Option (Fin n)
  | removed p => some p
  | _ => none

end Removal

structure Filed (n : Nat) where
  bucket : Bucket n
  procs : Roster n

namespace Bucket

def withMembers (b : Bucket n) (members : List (Fin n)) : Bucket n :=
  { b with members, count := members.length }

def hold (b : Bucket n) : Bucket n := { b with held := true }

def free (b : Bucket n) : Bucket n := { b with held := false }

def population : List (Bucket n) → Nat
  | [] => 0
  | b :: rest => b.members.length + population rest

end Bucket

namespace Filed

/-- Appends `p` unless its record is marked already; the answer says whether it was. -/
def push (f : Filed n) (p : Fin n) : Ending (Filed n) Bool :=
  if f.bucket.held then .stuck .waiting
  else match f.procs[p].claim f.bucket.level with
    | none => .returned f false
    | some record =>
      .returned ⟨f.bucket.withMembers (f.bucket.members ++ [p]), f.procs.update p fun _ => record⟩
        true

def letGo (f : Filed n) (p : Fin n) (rest : List (Fin n)) : Filed n :=
  ⟨f.bucket.withMembers rest, f.procs.update p (·.release f.bucket.level)⟩

def unlink (f : Filed n) (p : Fin n) : Filed n × Removal n :=
  if p ∈ f.bucket.members then (f.letGo p (f.bucket.members.erase p), .removed p)
  else (f, .notFound)

def popFront (f : Filed n) : Filed n × Removal n :=
  if f.bucket.held then (f, .contended)
  else match f.bucket.members with
    | [] => (f, .notFound)
    | p :: rest => (f.letGo p rest, .removed p)

def remove (f : Filed n) (p : Fin n) : Filed n × Removal n :=
  if f.bucket.held then (f, .contended) else f.unlink p

end Filed

end AttentionScheduler
