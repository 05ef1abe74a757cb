import AttentionScheduler.Single.Arithmetic
import AttentionScheduler.Word

/-!
The score that each level asks for. Level `0` asks for one, and the others share the way down to zero
evenly; a score belongs to the first level whose threshold it meets.
-/

namespace AttentionScheduler

def threshold (level levels : Nat) : Single := .ofNat (levels - level) / .ofNat levels

def threshold? (level levels : Nat) : Except Fault Single := do
  let above ← Word.sub levels level
  return .ofNat above / .ofNat levels

theorem threshold?_eq_ok {level levels : Nat} (h : level ≤ levels) :
    threshold? level levels = .ok (threshold level levels) := by
  rw [threshold?, Word.sub_eq_ok h]
  rfl

namespace Level

def firstMet (levels : Nat) (x : Single) : Nat → Option Nat
  | 0 => none
  | left + 1 =>
    let level := levels - (left + 1)
    if threshold level levels ≤ x then some level else firstMet levels x left

/-- A score that meets no threshold goes to the last level. -/
def ofScore (levels : Nat) (x : Single) : Except Fault Nat :=
  match firstMet levels x levels with
  | some level => .ok level
  | none => Word.sub levels 1

end Level

end AttentionScheduler
