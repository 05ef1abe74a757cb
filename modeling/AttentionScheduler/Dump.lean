import AttentionScheduler.Host.Basic

/-!
The report on an allocator: its policy, its active count, and every bucket that has members with those
members in order. Its text has one line for each of them.
-/

namespace AttentionScheduler

variable {n : Nat}

namespace Dump

structure Entry where
  pid : UInt64
  attention : Single
  signals : List Single
deriving DecidableEq

structure Group where
  level : Nat
  threshold : Single
  entries : List Entry
deriving DecidableEq

def Entry.ofRecord (r : Record) : Entry where
  pid := r.pid
  attention := r.vector.attention
  signals := r.vector.signals.toList.take Feature.dumped

def Entry.line (e : Entry) : String :=
  s!"  Process {e.pid}: attention={e.attention.fixed 2} features=[" ++
    ",".intercalate (e.signals.map (·.fixed 2)) ++ "]"

def Group.ofBucket (procs : Roster n) (b : Bucket n) : Group where
  level := b.level
  threshold := b.threshold
  entries := b.members.map fun p => Entry.ofRecord procs[p]

def Group.lines (g : Group) : List String :=
  s!"Attention queue {g.level} (threshold {g.threshold.fixed 2}): {g.entries.length} processes" ::
    g.entries.map Entry.line

end Dump

structure Dump where
  budget : UInt64
  emergency : Bool
  active : Nat
  groups : List Dump.Group
deriving DecidableEq

namespace Dump

def ofCore (a : Allocator n) (core : Core n) (procs : Roster n) : Dump where
  budget := a.budget
  emergency := a.emergency
  active := core.tensor.active
  groups := (core.buckets.filter (¬ ·.members.isEmpty)).map (Group.ofBucket procs)

def lines (d : Dump) : List String :=
  "Cognitive Scheduler State:" ::
    s!"Total attention: {d.budget}, Emergency mode: {d.emergency.toNat}" ::
    s!"Active processes in tensor: {d.active}" ::
    d.groups.flatMap Group.lines

def report : Option Dump → List String
  | some d => d.lines
  | none => ["Cognitive scheduler not initialized"]

def text (d? : Option Dump) : String := String.join ((report d?).map (· ++ "\n"))

end Dump

namespace Host

def dump (h : Host n) : Ending (Host n) (Option Dump) :=
  match h.allocator.core? with
  | none => .returned h none
  | some core =>
    if core.buckets.any (·.held) then .stuck .waiting
    else .returned h (some (Dump.ofCore h.allocator core h.procs))

def dumpToLog (h : Host n) : Ending (Host n) Unit :=
  h.dump.bind fun h d? => .returned ((Dump.report d?).foldl (fun h s => h.say (.dumped s)) h) ()

end Host

end AttentionScheduler
