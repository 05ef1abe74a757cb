import AttentionScheduler.Ending
import AttentionScheduler.Feature

/-!
The clock of a host: a tick counter and its rate.
-/

namespace AttentionScheduler

structure Clock where
  now : Tick := 0
  hz : UInt64
deriving DecidableEq

namespace Clock

def set (c : Clock) (t : Tick) : Clock := { c with now := t }

/-- Past the last tick the clock has wrapped around, and the call is a fault. -/
def advance (c : Clock) (delta : Tick) : Ending Clock Tick :=
  let c' := c.set (c.now + delta)
  if c.now.toNat + delta.toNat < UInt64.size then .returned c' c'.now else .faulted c' .addOverflow

end Clock

inductive ClockCall where
  | set (tick : Tick)
  | advance (delta : Tick)
  | read
deriving DecidableEq

inductive ClockAnswer where
  | tick (t : Tick)
  | reading (now : Tick) (hz : UInt64)
deriving DecidableEq

namespace Clock

def call (c : Clock) : ClockCall → Ending Clock ClockAnswer
  | .set t => .returned (c.set t) (.tick t)
  | .advance delta => (c.advance delta).mapAnswer .tick
  | .read => .returned c (.reading c.now c.hz)

end Clock

end AttentionScheduler
