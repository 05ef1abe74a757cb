import AttentionScheduler.Single.Arithmetic

/-!
The eight signals of a process. Every stored signal lies in `[0, 1]`: a write clamps, and a write
outside the eight slots is dropped.
-/

namespace AttentionScheduler

abbrev Tick := UInt64

inductive Feature where
  | load
  | memory
  | io
  | interactive
  | realtime
  | network
  | priority
  | emergent
deriving DecidableEq

namespace Feature

def count : Nat := 8

def dumped : Nat := 4

def all : List Feature :=
  [load, memory, io, interactive, realtime, network, priority, emergent]

def index : Feature → Fin 8
  | load => 0
  | memory => 1
  | io => 2
  | interactive => 3
  | realtime => 4
  | network => 5
  | priority => 6
  | emergent => 7

def ofIndex? (i : Nat) : Option Feature := all[i]?

def name : Feature → String
  | load => "Load"
  | memory => "Memory"
  | io => "Io"
  | interactive => "Interactive"
  | realtime => "Realtime"
  | network => "Network"
  | priority => "Priority"
  | emergent => "Emergent"

theorem ofIndex?_index (f : Feature) : ofIndex? f.index = some f := by
  cases f <;> rfl

end Feature

abbrev Signals := Vector Single 8

structure FeatureVector where
  signals : Signals := Vector.replicate 8 Single.zero
  attention : Single := Single.zero
  lastUpdate : Tick := 0
deriving DecidableEq

namespace FeatureVector

def get (v : FeatureVector) (i : Nat) : Single :=
  if h : i < 8 then v.signals[i] else Single.zero

def set (v : FeatureVector) (i : Nat) (x : Single) : FeatureVector :=
  if h : i < 8 then { v with signals := v.signals.set i x.clampUnit } else v

def setFeature (v : FeatureVector) (f : Feature) (x : Single) : FeatureVector := v.set f.index x

def setAttention (v : FeatureVector) (x : Single) : FeatureVector :=
  { v with attention := x.clampUnit }

def stamp (v : FeatureVector) (t : Tick) : FeatureVector := { v with lastUpdate := t }

theorem get_set_self (v : FeatureVector) {i : Nat} (h : i < 8) (x : Single) :
    (v.set i x).get i = x.clampUnit := by
  simp [get, set, h]

theorem get_set_ne (v : FeatureVector) {i j : Nat} (h : j ≠ i) (x : Single) :
    (v.set i x).get j = v.get j := by
  unfold get set
  by_cases hi : i < 8 <;> by_cases hj : j < 8 <;> simp [hi, hj, h.symm]

theorem set_of_le (v : FeatureVector) {i : Nat} (h : 8 ≤ i) (x : Single) : v.set i x = v := by
  simp [set, show ¬ i < 8 by omega]

end FeatureVector

end AttentionScheduler
