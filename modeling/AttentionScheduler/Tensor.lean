import AttentionScheduler.Ending
import AttentionScheduler.Feature
import AttentionScheduler.Word

/-!
The history of an allocator: a ring of ticks, one slot for each refresh, and a block of cells for
each process, feature and slot. No call writes to the cells.
-/

namespace AttentionScheduler

structure Tensor where
  maxProcs : Nat
  timeWindow : Nat
  history : Array Single
  stamps : Array Tick
  slot : Nat := 0
  active : Nat := 0
deriving DecidableEq

namespace Tensor

def cellBytes : Nat := 4

def stampBytes : Nat := 8

def create (maxProcs timeWindow : Nat) : Except Fault Tensor := do
  let rows ← Word.mul maxProcs Feature.count
  let cells ← Word.mul rows timeWindow
  Word.reserve cells cellBytes
  Word.reserve timeWindow stampBytes
  return {
    maxProcs, timeWindow
    history := Array.replicate cells .zero
    stamps := Array.replicate timeWindow 0 }

def advance (t : Tensor) (now : Tick) : Except Fault (Tensor × Nat) := do
  let next ← Word.add t.slot 1
  let slot ← Word.mod next t.timeWindow
  if slot < t.stamps.size then
    .ok ({ t with slot, stamps := t.stamps.setIfInBounds slot now }, slot)
  else .error (.outOfBounds t.stamps.size slot)

def timestamp (t : Tensor) (slot : Nat) : Tick := t.stamps[slot]?.getD 0

/-- The place of a cell: time runs fastest, then the feature. -/
def cellIndex (t : Tensor) (proc feature time : Nat) : Except Fault Nat := do
  let row ← Word.mul proc Feature.count
  let row ← Word.add row feature
  let start ← Word.mul row t.timeWindow
  Word.add start time

def sample (t : Tensor) (proc feature time : Nat) : Except Fault Single :=
  if proc < t.maxProcs ∧ feature < Feature.count ∧ time < t.timeWindow then do
    let index ← t.cellIndex proc feature time
    match t.history[index]? with
    | some x => .ok x
    | none => .error (.outOfBounds t.history.size index)
  else .ok .zero

def track (t : Tensor) : Except Fault Tensor := do
  let active ← Word.add t.active 1
  return { t with active }

def untrack (t : Tensor) : Tensor := { t with active := t.active - 1 }

def text (t : Tensor) : String :=
  "AttentionTensor \x7b max_procs: " ++ toString t.maxProcs ++ ", time_window: " ++
    toString t.timeWindow ++ ", current_slot: " ++ toString t.slot ++ ", active_count: " ++
    toString t.active ++ " \x7d"

end Tensor

inductive TensorCall where
  | advance (now : Tick)
  | slot
  | timestamp (slot : Nat)
  | timestamps
  | sample (proc feature time : Nat)
  | info
deriving DecidableEq

inductive TensorAnswer where
  | slot (k : Nat)
  | tick (t : Tick)
  | ticks (ts : List Tick)
  | sample (x : Single)
  | info (maxProcs timeWindow slot active : Nat) (text : String)
deriving DecidableEq

namespace Tensor

def call (t : Tensor) : TensorCall → Ending Tensor TensorAnswer
  | .advance now =>
    match t.advance now with
    | .ok (t', slot) => .returned t' (.slot slot)
    | .error fault => .faulted t fault
  | .slot => .returned t (.slot t.slot)
  | .timestamp slot => .returned t (.tick (t.timestamp slot))
  | .timestamps => .returned t (.ticks t.stamps.toList)
  | .sample proc feature time => .ofExcept t ((t.sample proc feature time).map .sample)
  | .info => .returned t (.info t.maxProcs t.timeWindow t.slot t.active t.text)

end Tensor

end AttentionScheduler
