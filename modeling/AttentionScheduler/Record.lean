import AttentionScheduler.Score

/-!
The record of a process carries the mark of the bucket that the process sits in. A roster holds all
records, and a process is its place in the roster.
-/

namespace AttentionScheduler

/-- The level that leaves no mark, since an unmarked record is stored as this number. -/
def unmarkedLevel : Nat := UInt64.size - 1

def markOf (level : Nat) : Option Nat := if level = unmarkedLevel then none else some level

theorem markOf_eq_some {level : Nat} (h : level ≠ unmarkedLevel) : markOf level = some level :=
  if_neg h

structure Record where
  pid : UInt64
  cognitive : Bool := false
  /-- Counted as active by the allocator that filed it first. -/
  tracked : Bool := false
  cpu : UInt32 := 0
  priority : UInt32 := 0
  vector : FeatureVector := {}
  mark : Option Nat := none
deriving DecidableEq

namespace Record

def flags (r : Record) : Nat := (if r.cognitive then 1 else 0) + if r.tracked then 2 else 0

def claim (r : Record) (level : Nat) : Option Record :=
  if r.mark = none then some { r with mark := markOf level } else none

def release (r : Record) (level : Nat) : Record :=
  if r.mark = markOf level then { r with mark := none } else r

def withVector (r : Record) (f : FeatureVector → FeatureVector) : Record :=
  { r with vector := f r.vector }

end Record

abbrev Roster (n : Nat) := Vector Record n

namespace Roster

variable {n : Nat}

instance : GetElem (Roster n) (Fin n) Record fun _ _ => True := ⟨fun r p _ => r.get p⟩

def update (r : Roster n) (p : Fin n) (f : Record → Record) : Roster n := r.set p (f r[p]) p.isLt

@[simp] theorem getElem_update_self (r : Roster n) (p : Fin n) (f : Record → Record) :
    (r.update p f)[p] = f r[p] :=
  Vector.getElem_set_self p.isLt

theorem getElem_update_ne (r : Roster n) {p q : Fin n} (h : q ≠ p) (f : Record → Record) :
    (r.update p f)[q] = r[q] :=
  Vector.getElem_set_ne p.isLt q.isLt fun e => h (Fin.ext e.symm)

theorem update_congr {r : Roster n} {p : Fin n} {f g : Record → Record} (h : f r[p] = g r[p]) :
    r.update p f = r.update p g := by
  rw [update, update, h]

theorem update_update (r : Roster n) (p : Fin n) (f g : Record → Record) :
    (r.update p f).update p g = r.update p fun record => g (f record) := by
  rw [update, getElem_update_self, update, update, Vector.set_set]

end Roster

end AttentionScheduler
