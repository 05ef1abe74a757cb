import AttentionScheduler.Host.Basic

/-!
Signals that the host feeds, and the advice that it keeps here: an emergency flag and a budget.
Scheduling reads neither of the two.
-/

namespace AttentionScheduler.Host

variable {n : Nat}

def setFeature (h : Host n) (p : Fin n) (i : Nat) (x : Single) : Host n :=
  if h.procs[p].cognitive ∧ i < Feature.count then h.touch p (·.withVector (·.set i x)) else h

def attention (h : Host n) (p : Fin n) : Single :=
  if h.procs[p].cognitive then h.procs[p].vector.attention else .zero

def setEmergency (h : Host n) (on : Bool) : Host n :=
  (h.withAllocator fun a => { a with emergency := on }).say
    (if on then .emergencyOn else .emergencyOff)

def setBudget (h : Host n) (budget : UInt64) : Host n :=
  (h.withAllocator fun a => { a with budget }).say (.budgetSet budget)

end AttentionScheduler.Host
