import AttentionScheduler.Session.Call

/-!
A run of a session is a list of steps. A step is a call, or it holds a bucket while other steps are
taken, as another processor would that has locked it.
-/

namespace AttentionScheduler

variable {n : Nat}

inductive Step (n : Nat) where
  | call (call : Call n)
  | hold (place : Place) (body : List (Step n))

structure Sight where
  record? : Option Record := none
  stats? : Option Stats := none
deriving DecidableEq

inductive Report (n : Nat) where
  | called (answer : Answer n) (sight : Sight) (lines : List Line)
  | held (inside : List (Report n)) (sight : Sight)

namespace Session

def sight (s : Session n) (p? : Option (Fin n)) (a? : Option Nat) : Sight where
  record? := p?.map fun p => s.procs[p]
  stats? := a?.bind fun a => (s.seat a).toOption.map (·.allocator.stats)

def report (d : Done n) (p? : Option (Fin n)) (a? : Option Nat) : Report n :=
  .called d.answer (d.session.sight p? a?) d.lines

def seize (s : Session n) (place : Place) (b : Bucket n) : Except Stop (Session n) :=
  if b.held then .error .waiting else .ok (s.putBucket b.hold place)

/-- Unlocks whatever bucket is there by now. -/
def release (s : Session n) (place : Place) : Session n :=
  match s.bucket? place with
  | .ok (some b) => s.putBucket b.free place
  | _ => s

mutual

def step (s : Session n) : Step n → Except Stop (Session n × Report n)
  | .call c => (s.call c).map fun d => (d.session, report d c.process? c.allocator?)
  | .hold place body =>
    match s.bucket? place with
    | .error stop => .error stop
    | .ok none => .ok (s, report ⟨s, .noBucket, []⟩ none place.allocator?)
    | .ok (some b) =>
      match s.seize place b with
      | .error stop => .error stop
      | .ok s =>
        match run s body with
        | .error stop => .error stop
        | .ok (s, inside) =>
          let s := s.release place
          .ok (s, .held inside (s.sight none place.allocator?))

def run (s : Session n) : List (Step n) → Except Stop (Session n × List (Report n))
  | [] => .ok (s, [])
  | first :: rest =>
    match step s first with
    | .error stop => .error stop
    | .ok (s, r) => (run s rest).map fun (s, rs) => (s, r :: rs)

end

end Session

end AttentionScheduler
