import AttentionScheduler.Dump
import AttentionScheduler.Host.Dispatch
import AttentionScheduler.Host.Filing
import AttentionScheduler.Host.Policy
import AttentionScheduler.Host.Refresh
import AttentionScheduler.Host.Withdrawal

/-!
The calls that a host makes on an allocator, as data, and what each of them answers.
-/

namespace AttentionScheduler

variable {n : Nat}

inductive HostCall (n : Nat) where
  | start
  | ready (p : Fin n)
  | select
  | drain
  | remove (p : Fin n)
  | retire (p : Fin n)
  | refresh (p : Fin n)
  | setFeature (p : Fin n) (i : Nat) (x : Single)
  | attention (p : Fin n)
  | levelFor (score : Single)
  | setEmergency (on : Bool)
  | setBudget (budget : UInt64)
  | lastUpdate
  | stats
  | config
  | dump
  | dumpToLog
  | buckets
  | tensor (call : TensorCall)
deriving DecidableEq

inductive HostAnswer (n : Nat) where
  | done
  | started (on : Bool)
  | mark (mark : Option Nat)
  | selected (p? : Option (Fin n))
  | drained (ps : List (Fin n))
  | removal (r : Removal n)
  | attention (score : Single) (cognitive : Bool)
  | level (level : Nat)
  | emergency (on : Bool)
  | budget (budget : UInt64)
  | tick (t : Tick)
  | stats (s : Stats)
  | config (c : Config)
  | dump (d? : Option Dump)
  | buckets (bs : List (Bucket n))
  | tensor (answer? : Option TensorAnswer)
deriving DecidableEq

namespace HostCall

def process? : HostCall n → Option (Fin n)
  | ready p | remove p | retire p | refresh p | setFeature p _ _ | attention p => some p
  | _ => none

end HostCall

namespace Host

def callTensor (h : Host n) (call : TensorCall) : Ending (Host n) (Option TensorAnswer) :=
  match h.allocator.core? with
  | none => .returned h none
  | some core => (core.tensor.call call).map (fun tensor => h.withCore { core with tensor }) some

def viewBuckets (h : Host n) : Ending (Host n) (List (Bucket n)) :=
  if h.allocator.buckets.any (·.held) then .stuck .waiting else .returned h h.allocator.buckets

def call (h : Host n) (clock : Clock) : HostCall n → Ending (Host n) (HostAnswer n)
  | .start => h.start.bind fun h _ => .returned h (.started h.allocator.isStarted)
  | .ready p => (h.ready p).bind fun h _ => .returned h (.mark h.procs[p].mark)
  | .select => (Ending.ofPair (h.selectNext clock.now)).mapAnswer .selected
  | .drain => (Ending.ofPair (h.drain clock.now)).mapAnswer .drained
  | .remove p => (Ending.ofPair (h.remove p)).mapAnswer .removal
  | .retire p => (Ending.ofPair (h.retire p)).mapAnswer .removal
  | .refresh p => (h.refresh clock p).mapAnswer fun _ => .done
  | .setFeature p i x => .returned (h.setFeature p i x) .done
  | .attention p => .returned h (.attention (h.attention p) h.procs[p].cognitive)
  | .levelFor score =>
    (Ending.ofExcept h (Level.ofScore h.allocator.config.levels score)).mapAnswer .level
  | .setEmergency on =>
    .returned (h.setEmergency on) (.emergency (h.setEmergency on).allocator.emergency)
  | .setBudget budget => .returned (h.setBudget budget) (.budget (h.setBudget budget).allocator.budget)
  | .lastUpdate => .returned h (.tick h.allocator.lastUpdate)
  | .stats => .returned h (.stats h.allocator.stats)
  | .config => .returned h (.config h.allocator.config)
  | .dump => h.dump.mapAnswer .dump
  | .dumpToLog => h.dumpToLog.mapAnswer fun _ => .done
  | .buckets => h.viewBuckets.mapAnswer .buckets
  | .tensor call => (h.callTensor call).mapAnswer .tensor

end Host

end AttentionScheduler
