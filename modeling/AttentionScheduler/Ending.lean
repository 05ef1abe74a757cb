import AttentionScheduler.Fault

/-!
How a call on shared state ends: it returns, it faults and leaves the state as far as it had come, or
it never comes back.
-/

namespace AttentionScheduler

inductive Stop where
  /-- It waits for a bucket that is held. -/
  | waiting
  /-- It repeats a round that changes nothing. -/
  | spinning
  | noAllocator (index : Nat)
  | noQueue (index : Nat)
deriving DecidableEq

inductive Ending (σ α : Type) where
  | returned (state : σ) (answer : α)
  | faulted (state : σ) (fault : Fault)
  | stuck (stop : Stop)

namespace Ending

variable {σ τ α β : Type}

def bind (e : Ending σ α) (f : σ → α → Ending σ β) : Ending σ β :=
  match e with
  | returned s a => f s a
  | faulted s c => faulted s c
  | stuck c => stuck c

def map (f : σ → τ) (g : α → β) : Ending σ α → Ending τ β
  | returned s a => returned (f s) (g a)
  | faulted s c => faulted (f s) c
  | stuck c => stuck c

def mapState (f : σ → τ) : Ending σ α → Ending τ α := map f id

def mapAnswer (g : α → β) : Ending σ α → Ending σ β := map id g

def ofPair (r : σ × α) : Ending σ α := returned r.1 r.2

def ofExcept (s : σ) : Except Fault α → Ending σ α
  | .ok a => returned s a
  | .error c => faulted s c

def stateOr (s : σ) : Ending σ α → σ
  | returned t _ => t
  | faulted t _ => t
  | stuck _ => s

def Leaves (P : σ → Prop) : Ending σ α → Prop
  | returned s _ => P s
  | faulted s _ => P s
  | stuck _ => True

@[simp] theorem bind_returned (s : σ) (a : α) (f : σ → α → Ending σ β) :
    (returned s a).bind f = f s a := rfl

@[simp] theorem bind_faulted (s : σ) (c : Fault) (f : σ → α → Ending σ β) :
    (faulted s c).bind f = faulted s c := rfl

@[simp] theorem bind_stuck (c : Stop) (f : σ → α → Ending σ β) :
    (stuck c).bind f = stuck c := rfl

theorem Leaves.bind {P : σ → Prop} {e : Ending σ α} {f : σ → α → Ending σ β}
    (he : e.Leaves P) (hf : ∀ s a, P s → (f s a).Leaves P) : (e.bind f).Leaves P := by
  cases e with
  | returned s a => exact hf s a he
  | faulted s c => exact he
  | stuck c => exact he

theorem Leaves.map {P : σ → Prop} {Q : τ → Prop} {e : Ending σ α} {f : σ → τ} {g : α → β}
    (he : e.Leaves P) (hf : ∀ s, P s → Q (f s)) : (e.map f g).Leaves Q := by
  cases e with
  | returned s a => exact hf s he
  | faulted s c => exact hf s he
  | stuck c => exact he

end Ending

end AttentionScheduler
