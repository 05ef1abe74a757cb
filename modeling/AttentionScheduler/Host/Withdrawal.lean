import AttentionScheduler.Host.Basic

/-!
A process is taken out of its bucket without waiting, and an exiting one also leaves the active count.
-/

namespace AttentionScheduler.Host

variable {n : Nat}

def remove (h : Host n) (p : Fin n) : Host n × Removal n :=
  match h.allocator.core? with
  | none => (h, .notFound)
  | some core =>
    let pid := h.procs[p].pid
    let (shelf, removal) := (h.shelf core).withdraw p
    let h := h.withShelf core shelf
    match removal with
    | .removed q => (h.say (.removed pid), .removed q)
    | .contended =>
      ((h.count fun c => { c with contended := c.contended + 1 }).say (.removalContended pid),
        .contended)
    | .notFound => (h, .notFound)

def untrack (h : Host n) (p : Fin n) : Host n :=
  if h.procs[p].tracked then
    let h := h.touch p fun record => { record with tracked := false }
    match h.allocator.core? with
    | none => h
    | some core => h.withCore { core with tensor := core.tensor.untrack }
  else h

/-- On contention only the removal has been tried, and the host tries again. -/
def retire (h : Host n) (p : Fin n) : Host n × Removal n :=
  let (h, removal) := h.remove p
  if removal.isContended then (h, removal) else (h.untrack p, removal)

end AttentionScheduler.Host
