import AttentionScheduler.Feature
import AttentionScheduler.Single.Decimal

/-!
The lines that a scheduler writes to the log of its host.
-/

namespace AttentionScheduler

inductive Severity where
  | info
  | warn
  | debug
  | trace
deriving DecidableEq

namespace Severity

def name : Severity → String
  | info => "INFO"
  | warn => "WARN"
  | debug => "DEBUG"
  | trace => "TRACE"

end Severity

inductive Line where
  | started (levels maxProcs timeWindow : Nat) (budget : UInt64)
  /-- A process is queued under a level that the allocator does not have. -/
  | foreign (pid : UInt64) (mark : Nat)
  | filed (pid : UInt64) (score : Single) (level : Nat)
  | dispatched (pid : UInt64) (level : Nat)
  | skipped (level : Nat)
  | removed (pid : UInt64)
  | removalContended (pid : UInt64)
  | refreshed (pid : UInt64) (tick : Tick)
  | emergencyOn
  | emergencyOff
  | budgetSet (budget : UInt64)
  | dumped (text : String)
deriving DecidableEq

namespace Line

def severity : Line → Severity
  | started .. | emergencyOff | budgetSet _ | dumped _ => .info
  | foreign .. | emergencyOn => .warn
  | skipped _ | removed _ | removalContended _ => .debug
  | filed .. | dispatched .. | refreshed .. => .trace

def text : Line → String
  | started levels maxProcs timeWindow budget =>
    s!"CogSched: initialized ({levels} levels, tensor {maxProcs}x{Feature.count}x{timeWindow}, " ++
      s!"budget {budget})"
  | foreign pid mark => s!"CogSched: pid {pid} queued in foreign bucket {mark}"
  | filed pid score level =>
    s!"CogSched: pid {pid} ready, attention {score.fixed 3} -> bucket {level}"
  | dispatched pid level => s!"CogSched: dispatch pid {pid} from bucket {level}"
  | skipped level => s!"CogSched: bucket {level} busy, skipped"
  | removed pid => s!"CogSched: pid {pid} removed"
  | removalContended pid => s!"CogSched: pid {pid} removal contended"
  | refreshed pid tick => s!"CogSched: pid {pid} refreshed at tick {tick}"
  | emergencyOn => "CogSched: emergency mode enabled, host should bypass attention"
  | emergencyOff => "CogSched: emergency mode cleared"
  | budgetSet budget => s!"CogSched: attention budget set to {budget}"
  | dumped text => text

def render (l : Line) : String := l.severity.name ++ " " ++ l.text

end Line

end AttentionScheduler
