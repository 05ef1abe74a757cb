import AttentionScheduler.Feature
import AttentionScheduler.Rejection
import AttentionScheduler.Word

/-!
The settings of an allocator and the checks they must pass before one is made.
-/

namespace AttentionScheduler

structure Config where
  attentionLevels : UInt64 := 4
  maxProcs : UInt64 := 256
  timeWindow : UInt64 := 32
  attentionBudget : UInt64 := 1000
  priorityLevels : UInt32 := 20
  interactiveDivisor : UInt64 := 10
  memoryBaseline : Single := .ofFraction 1 2
deriving DecidableEq

inductive Defect where
  | noLevels
  | noProcs
  | noWindow
  | noPriorityScale
  | noDivisor
  | baselineOutside
  | tooManyCells
deriving DecidableEq

namespace Defect

def rejection : Defect → Rejection
  | noLevels => .invalidField "attention_levels" "at least one attention bucket is required"
  | noProcs => .invalidField "max_procs" "tensor capacity must be non-zero"
  | noWindow => .invalidField "time_window" "time window must hold at least one slot"
  | noPriorityScale => .invalidField "priority_levels" "priority scale must be non-zero"
  | noDivisor => .invalidField "interactive_divisor" "interactive divisor must be non-zero"
  | baselineOutside => .invalidField "memory_baseline" "memory baseline must lie in [0, 1]"
  | tooManyCells =>
    { kind := .capacityExceeded, message := "history tensor exceeds addressable cells" }

end Defect

namespace Config

def levels (c : Config) : Nat := c.attentionLevels.toNat

def maxCells : Nat := UInt32.size - 1

def tensorCells (c : Config) : Option Nat :=
  match Word.mul c.maxProcs.toNat Feature.count with
  | .error _ => none
  | .ok rows => (Word.mul rows c.timeWindow.toNat).toOption

/-- Whether the history fits. A size that cannot be computed never does. -/
def fits (c : Config) : Bool :=
  match c.tensorCells with
  | some cells => cells ≤ maxCells
  | none => false

def validate (c : Config) : Except Defect Unit :=
  if c.attentionLevels = 0 then .error .noLevels
  else if c.maxProcs = 0 then .error .noProcs
  else if c.timeWindow = 0 then .error .noWindow
  else if c.priorityLevels = 0 then .error .noPriorityScale
  else if c.interactiveDivisor = 0 then .error .noDivisor
  else if ¬ (.zero ≤ c.memoryBaseline ∧ c.memoryBaseline ≤ .one) then .error .baselineOutside
  else if ¬ c.fits then .error .tooManyCells
  else .ok ()

/-- Equal settings, where the baselines are compared as numbers. -/
def agrees (c d : Config) : Bool :=
  c.attentionLevels = d.attentionLevels && c.maxProcs = d.maxProcs &&
    c.timeWindow = d.timeWindow && c.attentionBudget = d.attentionBudget &&
    c.priorityLevels = d.priorityLevels && c.interactiveDivisor = d.interactiveDivisor &&
    c.memoryBaseline.same d.memoryBaseline

theorem levels_lt (c : Config) : c.levels < UInt64.size := c.attentionLevels.toNat_lt_size

theorem validate_default : validate {} = .ok () := rfl

end Config

end AttentionScheduler
