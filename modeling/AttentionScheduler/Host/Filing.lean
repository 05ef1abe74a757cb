import AttentionScheduler.Host.Basic

/-!
A process that can run is scored and filed under the level that its score reaches.
-/

namespace AttentionScheduler.Host

variable {n : Nat}

def enrol (h : Host n) (core : Core n) (p : Fin n) : Ending (Host n) (Core n) :=
  if h.procs[p].tracked then .returned h core
  else
    let h := h.touch p fun record => { record with tracked := true }
    match core.tensor.track with
    | .ok tensor => .returned (h.withCore { core with tensor }) { core with tensor }
    | .error fault => .faulted h fault

/-- A refusal is logged and nothing that came before it is undone. -/
def place (h : Host n) (core : Core n) (p : Fin n) (score : Single) : Ending (Host n) Unit :=
  let pid := h.procs[p].pid
  (Ending.ofExcept h (Level.ofScore h.allocator.config.levels score)).bind fun h level =>
    (((h.shelf core).file level p).mapState (h.withShelf core)).bind fun h filing =>
      match filing with
      | .refused mark => .returned (h.say (.foreign pid mark)) ()
      | .linked =>
        .returned
          ((h.count fun c => { c with enqueued := c.enqueued + 1 }).say (.filed pid score level)) ()

def ready (h : Host n) (p : Fin n) : Ending (Host n) Unit :=
  if h.procs[p].cognitive then
    h.start.bind fun h core =>
      let score := Score.attention h.procs[p].vector.signals
      ((h.touch p (·.withVector (·.rescore))).enrol core p).bind fun h core => h.place core p score
  else .returned h ()

end AttentionScheduler.Host
