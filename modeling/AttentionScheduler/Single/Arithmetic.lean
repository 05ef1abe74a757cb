import AttentionScheduler.Single.Rounding

/-!
Sum, product and quotient of two numbers: the exact result, rounded once.
-/

namespace AttentionScheduler

namespace Magnitude

def isInfinite (m : Magnitude) : Bool := m = infinity

def signedUnits (s : Bool) (m : Magnitude) : Int :=
  if s then -(m.units : Int) else m.units

end Magnitude

namespace Single

open Magnitude

/-- A sum that is exactly zero is negative only if both terms are. -/
protected def add : Single → Single → Single
  | num s m, num t k =>
    if m.isInfinite && k.isInfinite then (if s = t then num s m else nan)
    else if m.isInfinite then num s m
    else if k.isInfinite then num t k
    else
      let sum := signedUnits s m + signedUnits t k
      if sum = 0 then num (s && t) .zero else num (sum < 0) (nearest sum.natAbs 1)
  | _, _ => nan

protected def mul : Single → Single → Single
  | num s m, num t k =>
    if m.isInfinite || k.isInfinite then
      (if m = .zero || k = .zero then nan else infinity (s != t))
    else num (s != t) (nearest (m.units * k.units) (1 <<< 149))
  | _, _ => nan

protected def div : Single → Single → Single
  | num s m, num t k =>
    if m.isInfinite then (if k.isInfinite then nan else infinity (s != t))
    else if k.isInfinite then num (s != t) .zero
    else if k = .zero then (if m = .zero then nan else infinity (s != t))
    else num (s != t) (nearest (m.units <<< 149) k.units)
  | _, _ => nan

instance : Add Single := ⟨Single.add⟩

instance : Mul Single := ⟨Single.mul⟩

instance : Div Single := ⟨Single.div⟩

/-- A number brought into `[0, 1]`. Zero keeps its sign, and not-a-number becomes zero. -/
def clampUnit (x : Single) : Single :=
  if x = nan then zero
  else if x < zero then zero
  else if one < x then one
  else x

theorem clampUnit_nan : clampUnit nan = zero := rfl

theorem clampUnit_negZero : clampUnit negZero = negZero := by decide

end Single

end AttentionScheduler
