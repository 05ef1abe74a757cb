import AttentionScheduler.Fault

/-!
Sizes and indices are natural numbers below `2 ^ 64`. An operation that would leave that range is a
fault, never a wrapped result.
-/

namespace AttentionScheduler.Word

def limit : Nat := UInt64.size

def maxBytes : Nat := UInt64.size / 2 - 1

def add (a b : Nat) : Except Fault Nat :=
  if a + b < limit then .ok (a + b) else .error .addOverflow

def sub (a b : Nat) : Except Fault Nat :=
  if b ≤ a then .ok (a - b) else .error .subOverflow

def mul (a b : Nat) : Except Fault Nat :=
  if a * b < limit then .ok (a * b) else .error .mulOverflow

def mod (a b : Nat) : Except Fault Nat :=
  if b = 0 then .error .remainderByZero else .ok (a % b)

def reserve (count bytes : Nat) : Except Fault Unit :=
  if bytes * count ≤ maxBytes then .ok () else .error .capacityOverflow

theorem add_eq_ok {a b : Nat} (h : a + b < limit) : add a b = .ok (a + b) := if_pos h

theorem sub_eq_ok {a b : Nat} (h : b ≤ a) : sub a b = .ok (a - b) := if_pos h

theorem mul_eq_ok {a b : Nat} (h : a * b < limit) : mul a b = .ok (a * b) := if_pos h

theorem mod_eq_ok {a b : Nat} (h : b ≠ 0) : mod a b = .ok (a % b) := if_neg h

theorem reserve_eq_ok {count bytes : Nat} (h : bytes * count ≤ maxBytes) :
    reserve count bytes = .ok () := if_pos h

end AttentionScheduler.Word
