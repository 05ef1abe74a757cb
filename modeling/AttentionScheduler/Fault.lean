/-!
Faults: the ways in which a call breaks off instead of answering.
-/

namespace AttentionScheduler

inductive Fault where
  | addOverflow
  | subOverflow
  | mulOverflow
  | remainderByZero
  | divisionByZero
  | capacityOverflow
  | outOfBounds (length index : Nat)
  /-- An earlier start broke off, and a start is tried only once. -/
  | brokenStart
deriving DecidableEq

namespace Fault

def message : Fault → String
  | addOverflow => "attempt to add with overflow"
  | subOverflow => "attempt to subtract with overflow"
  | mulOverflow => "attempt to multiply with overflow"
  | remainderByZero => "attempt to calculate the remainder with a divisor of zero"
  | divisionByZero => "attempt to divide by zero"
  | capacityOverflow => "capacity overflow"
  | outOfBounds length index =>
    s!"index out of bounds: the len is {length} but the index is {index}"
  | brokenStart => "Once panicked"

end Fault

end AttentionScheduler
