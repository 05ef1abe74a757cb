import AttentionScheduler.Host.Basic

/-!
The next process to run is the head of the first bucket that is neither empty nor busy.
-/

namespace AttentionScheduler.Host

variable {n : Nat}

def noteBusy (h : Host n) (levels : List Nat) : Host n :=
  levels.foldl
    (fun h level =>
      (h.count fun c => { c with contended := c.contended + 1 }).say (.skipped level)) h

def selectNext (h : Host n) (now : Tick) : Host n × Option (Fin n) :=
  match h.allocator.core? with
  | none => (h, none)
  | some core =>
    let sweep := (h.shelf core).sweep
    let h := (h.withShelf core sweep.shelf).noteBusy sweep.busy
    match sweep.taken with
    | none => (h, none)
    | some (level, p) =>
      let h := h.touch p (·.withVector (·.stamp now))
      let h := h.count fun c => { c with dispatched := c.dispatched + 1 }
      (h.say (.dispatched h.procs[p].pid level), some p)

def drainFor : Nat → Host n → Tick → Host n × List (Fin n)
  | 0, h, _ => (h, [])
  | k + 1, h, now =>
    match h.selectNext now with
    | (h, none) => (h, [])
    | (h, some p) =>
      let (h, ps) := drainFor k h now
      (h, p :: ps)

/-- Selects until there is none left. Each one taken leaves the buckets with one entry less. -/
def drain (h : Host n) (now : Tick) : Host n × List (Fin n) :=
  drainFor (Bucket.population h.allocator.buckets + 1) h now

end AttentionScheduler.Host
