import AttentionScheduler.Clock
import AttentionScheduler.Host.Basic

/-!
A refresh brings four signals of a process up to date. Its score and its bucket stay as they are until
it is filed again.
-/

namespace AttentionScheduler

variable {n : Nat}

namespace Record

/-- The share of the processor, given in thousandths. -/
def loadSignal (r : Record) : Single := .ofNat r.cpu.toNat / .ofNat 1000

def prioritySignal (r : Record) (c : Config) : Single :=
  .ofNat r.priority.toNat / .ofNat c.priorityLevels.toNat

def interactiveSignal (gap window : Tick) : Single :=
  if gap < window then .one else .ofFraction 1 10

def gap (r : Record) (now : Tick) : Tick := now - r.vector.lastUpdate

def refreshed (r : Record) (c : Config) (clock : Clock) : Record :=
  r.withVector fun v =>
    let v := v.setFeature .load r.loadSignal
    let v := v.setFeature .memory c.memoryBaseline
    let window := clock.hz / c.interactiveDivisor
    let v := v.setFeature .interactive (interactiveSignal (r.gap clock.now) window)
    let v := v.setFeature .priority (r.prioritySignal c)
    v.stamp clock.now

end Record

namespace Host

def stampRing (h : Host n) (now : Tick) : Ending (Host n) Unit :=
  match h.allocator.core? with
  | none => .returned h ()
  | some core =>
    match core.tensor.advance now with
    | .ok (tensor, _) => .returned (h.withCore { core with tensor }) ()
    | .error fault => .faulted h fault

/-- Nothing happens to a process that is not cognitive or was touched in this very tick. -/
def refresh (h : Host n) (clock : Clock) (p : Fin n) : Ending (Host n) Unit :=
  let c := h.allocator.config
  if h.procs[p].cognitive then
    if c.interactiveDivisor = 0 then .faulted h .divisionByZero
    else if h.procs[p].gap clock.now = 0 then .returned h ()
    else
      ((h.touch p (·.refreshed c clock)).stampRing clock.now).bind fun h _ =>
        let h := h.withAllocator fun a => { a with lastUpdate := clock.now }
        let h := h.count fun k => { k with refreshes := k.refreshes + 1 }
        .returned (h.say (.refreshed h.procs[p].pid clock.now)) ()
  else .returned h ()

end Host

end AttentionScheduler
