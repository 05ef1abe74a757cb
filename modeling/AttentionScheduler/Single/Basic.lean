/-!
Single-precision numbers. A number is a sign and a magnitude: the low 31 bits of its usual encoding,
which rise with the value and end at infinity. All not-a-number patterns are one value.
-/

namespace AttentionScheduler

/-- Magnitudes from zero up to infinity, which is the last one. -/
abbrev Magnitude := Fin 0x7f800001

namespace Magnitude

def zero : Magnitude := 0

def infinity : Magnitude := 0x7f800000

/-- The value of a finite magnitude, in units of the least positive number `2 ^ (-149)`. -/
def units (m : Magnitude) : Nat :=
  if m.val < 0x800000 then m.val
  else (0x800000 + m.val % 0x800000) <<< (m.val / 0x800000 - 1)

end Magnitude

inductive Single where
  | nan
  | num (negative : Bool) (magnitude : Magnitude)
deriving DecidableEq

namespace Single

def zero : Single := num false .zero

def negZero : Single := num true .zero

def one : Single := num false 0x3f800000

def infinity (negative : Bool) : Single := num negative Magnitude.infinity

instance : Inhabited Single := ⟨zero⟩

def ofBits (bits : UInt32) : Single :=
  let m := bits.toNat % 0x80000000
  if h : m < 0x7f800001 then num (0x80000000 ≤ bits.toNat) ⟨m, h⟩ else nan

def toBits : Single → UInt32
  | nan => 0x7fc00000
  | num s m => UInt32.ofNat ((if s then 0x80000000 else 0) + m.val)

theorem toNat_toBits (s : Bool) (m : Magnitude) :
    (num s m).toBits.toNat = (if s then 0x80000000 else 0) + m.val := by
  have hm := m.isLt
  rw [toBits, UInt32.toNat_ofNat_of_lt']
  cases s <;> simp [UInt32.size] <;> omega

theorem ofBits_toBits (x : Single) : ofBits x.toBits = x := by
  cases x with
  | nan => rfl
  | num s m =>
    have hm := m.isLt
    have hr : (num s m).toBits.toNat % 0x80000000 = m.val := by
      rw [toNat_toBits]
      cases s <;> simp <;> omega
    have hs : decide (0x80000000 ≤ (num s m).toBits.toNat) = s := by
      rw [toNat_toBits]
      cases s with
      | false =>
        simp only [Bool.false_eq_true, ↓reduceIte, Nat.zero_add, decide_eq_false_iff_not]
        omega
      | true => simp
    unfold ofBits
    simp only [hr, hs, hm, dite_true, Fin.eta]

def rank (s : Bool) (m : Magnitude) : Int :=
  if s then -(m.val : Int) else m.val

protected def le : Single → Single → Bool
  | num s m, num t k => rank s m ≤ rank t k
  | _, _ => false

protected def lt : Single → Single → Bool
  | num s m, num t k => rank s m < rank t k
  | _, _ => false

instance : LE Single := ⟨fun x y => x.le y = true⟩

instance : LT Single := ⟨fun x y => x.lt y = true⟩

instance (x y : Single) : Decidable (x ≤ y) := inferInstanceAs (Decidable (x.le y = true))

instance (x y : Single) : Decidable (x < y) := inferInstanceAs (Decidable (x.lt y = true))

def same (x y : Single) : Bool := x ≤ y && y ≤ x

@[simp] theorem num_le_num {s t : Bool} {m k : Magnitude} :
    num s m ≤ num t k ↔ rank s m ≤ rank t k := by
  simp [LE.le, Single.le]

@[simp] theorem num_lt_num {s t : Bool} {m k : Magnitude} :
    num s m < num t k ↔ rank s m < rank t k := by
  simp [LT.lt, Single.lt]

@[simp] theorem not_nan_le (x : Single) : ¬ nan ≤ x := by simp [LE.le, Single.le]

@[simp] theorem not_le_nan (x : Single) : ¬ x ≤ nan := by cases x <;> simp [LE.le, Single.le]

end Single

end AttentionScheduler
