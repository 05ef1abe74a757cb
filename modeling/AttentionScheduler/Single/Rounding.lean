import AttentionScheduler.Single.Basic

/-!
One rounding for every operation: an exact fraction goes to the nearest number, a tie to the one
whose last bit is zero.
-/

namespace AttentionScheduler

/-- The integer nearest to `a / b`, the even one of two. -/
def roundDiv (a b : Nat) : Nat :=
  let quotient := a / b
  let rest := 2 * (a % b)
  if rest < b then quotient
  else if b < rest then quotient + 1
  else quotient + quotient % 2

namespace Magnitude

/-- How many bits of a value of `v` units lie below its last significant one. -/
def excess (v : Nat) : Nat := v.log2 - 23

def nearest (a b : Nat) : Magnitude :=
  let e := excess (a / b)
  let m := e * 0x800000 + roundDiv a (b <<< e)
  if h : m < 0x7f800001 then ⟨m, h⟩ else infinity

end Magnitude

namespace Single

def ofFraction (a b : Nat) : Single := num false (Magnitude.nearest (a <<< 149) b)

def ofNat (k : Nat) : Single := ofFraction k 1

example : ofFraction 1 5 = ofBits 0x3e4ccccd := by decide

example : ofNat 1 = one := by decide

end Single

end AttentionScheduler
