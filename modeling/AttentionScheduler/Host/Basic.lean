import AttentionScheduler.Allocator
import AttentionScheduler.Line

/-!
What one call of a host works on: an allocator, the records of the processes, and the lines that the
call has logged so far.
-/

namespace AttentionScheduler

variable {n : Nat}

structure Host (n : Nat) where
  allocator : Allocator n
  procs : Roster n
  lines : List Line := []
deriving DecidableEq

namespace Host

def say (h : Host n) (l : Line) : Host n := { h with lines := h.lines ++ [l] }

def touch (h : Host n) (p : Fin n) (f : Record → Record) : Host n :=
  { h with procs := h.procs.update p f }

def withAllocator (h : Host n) (f : Allocator n → Allocator n) : Host n :=
  { h with allocator := f h.allocator }

def withCore (h : Host n) (core : Core n) : Host n := h.withAllocator (·.withCore core)

def count (h : Host n) (f : Counters → Counters) : Host n :=
  h.withAllocator fun a => { a with counters := f a.counters }

def shelf (h : Host n) (core : Core n) : Shelf n := ⟨core.buckets, h.procs⟩

def withShelf (h : Host n) (core : Core n) (s : Shelf n) : Host n :=
  { h.withCore { core with buckets := s.buckets } with procs := s.procs }

/-- Only the first start has an effect. One that breaks off leaves nothing for a later one to do. -/
def start (h : Host n) : Ending (Host n) (Core n) :=
  let c := h.allocator.config
  match h.allocator.startup with
  | .built core => .returned h core
  | .failed => .faulted h .brokenStart
  | .pending =>
    match Core.build c with
    | .error fault => .faulted (h.withAllocator fun a => { a with startup := .failed }) fault
    | .ok core =>
      .returned
        ((h.withAllocator (·.begun core)).say
          (.started c.levels c.maxProcs.toNat c.timeWindow.toNat c.attentionBudget))
        core

end Host

end AttentionScheduler
