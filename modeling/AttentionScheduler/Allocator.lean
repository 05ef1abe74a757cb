import AttentionScheduler.Config
import AttentionScheduler.Shelf
import AttentionScheduler.Tensor
import AttentionScheduler.Threshold

/-!
An allocator keeps the buckets and the history of one scheduler, with its counters and the policy that
the host has set. Buckets and history are made when it starts, and it starts once.
-/

namespace AttentionScheduler

variable {n : Nat}

structure Core (n : Nat) where
  buckets : List (Bucket n)
  tensor : Tensor
deriving DecidableEq

namespace Core

def bucketBytes : Nat := 64

def emptyBuckets (levels : Nat) : List (Bucket n) :=
  (List.range levels).map fun level => { level, threshold := threshold level levels }

def build (c : Config) : Except Fault (Core n) := do
  Word.reserve c.levels bucketBytes
  let tensor ← Tensor.create c.maxProcs.toNat c.timeWindow.toNat
  return { buckets := emptyBuckets c.levels, tensor }

end Core

inductive Startup (n : Nat) where
  | pending
  | failed
  | built (core : Core n)
deriving DecidableEq

structure Counters where
  enqueued : UInt64 := 0
  dispatched : UInt64 := 0
  contended : UInt64 := 0
  refreshes : UInt64 := 0
deriving DecidableEq

structure Allocator (n : Nat) where
  config : Config
  startup : Startup n := .pending
  budget : UInt64 := 0
  lastUpdate : Tick := 0
  emergency : Bool := false
  counters : Counters := {}
deriving DecidableEq

structure Stats where
  counters : Counters
  lengths : List Nat
  emergency : Bool
  budget : UInt64
  lastUpdate : Tick
  slot : Nat
  active : Nat
deriving DecidableEq

namespace Allocator

def create (c : Config) : Except Defect (Allocator n) :=
  c.validate.map fun _ => { config := c }

def core? (a : Allocator n) : Option (Core n) :=
  match a.startup with
  | .built core => some core
  | _ => none

def isStarted (a : Allocator n) : Bool := a.core?.isSome

def buckets (a : Allocator n) : List (Bucket n) :=
  match a.core? with
  | some core => core.buckets
  | none => []

def withCore (a : Allocator n) (core : Core n) : Allocator n := { a with startup := .built core }

def putBucket (a : Allocator n) (level : Nat) (b : Bucket n) : Allocator n :=
  match a.core? with
  | some core => a.withCore { core with buckets := core.buckets.set level b }
  | none => a

def begun (a : Allocator n) (core : Core n) : Allocator n :=
  { a with
    startup := .built core, budget := a.config.attentionBudget, lastUpdate := 0, emergency := false }

def stats (a : Allocator n) : Stats where
  counters := a.counters
  lengths := a.buckets.map (·.count)
  emergency := a.emergency
  budget := a.budget
  lastUpdate := a.lastUpdate
  slot := (a.core?.map (·.tensor.slot)).getD 0
  active := (a.core?.map (·.tensor.active)).getD 0

@[simp] theorem core?_withCore (a : Allocator n) (core : Core n) :
    (a.withCore core).core? = some core := rfl

@[simp] theorem core?_begun (a : Allocator n) (core : Core n) :
    (a.begun core).core? = some core := rfl

end Allocator

end AttentionScheduler
