import AttentionScheduler.Proofs.Frames
import AttentionScheduler.Proofs.History
import Mathlib.Logic.Relation

/-!
What the calls of a session write to the records. To file a process is the only way to score it anew.
-/

namespace AttentionScheduler

open Relation (ReflTransGen)

variable {n : Nat} {p : Fin n} {scores retires : Fin n → Prop}

/-- One write to a record. A new score is written only if the record `scores`, and only a record that
`retires` is no longer tracked. -/
inductive Record.Write (scores retires : Prop) (r : Record) : Record → Prop where
  | aside {r' : Record} (vector : r'.vector = r.vector)
      (tracked : r.tracked = true → r'.tracked = true) : Write scores retires r r'
  | untrack (allowed : retires) : Write scores retires r { r with tracked := false }
  | stamp (t : Tick) : Write scores retires r (r.withVector (·.stamp t))
  | set (i : Nat) (x : Single) : Write scores retires r (r.withVector (·.set i x))
  | rescore (allowed : scores) : Write scores retires r (r.withVector (·.rescore))

namespace Record

variable {r r' : Record} {scores retires : Prop}

theorem attention_of_writes (h : ReflTransGen (Write scores retires) r r') (hscores : ¬ scores) :
    r'.vector.attention = r.vector.attention := by
  induction h with
  | refl => rfl
  | tail _ write ih =>
    refine Eq.trans ?_ ih
    cases write with
    | aside vector tracked => rw [vector]
    | untrack allowed => rfl
    | stamp t => rfl
    | set i x =>
      simp only [withVector, FeatureVector.set]
      split <;> rfl
    | rescore allowed => exact absurd allowed hscores

theorem tracked_of_writes (h : ReflTransGen (Write scores retires) r r') (hretires : ¬ retires)
    (hr : r.tracked = true) : r'.tracked = true := by
  induction h with
  | refl => exact hr
  | tail _ write ih =>
    cases write with
    | aside vector tracked => exact tracked ih
    | untrack allowed => exact absurd allowed hretires
    | stamp | set | rescore => exact ih

end Record

namespace Roster

variable {r s t : Roster n}

def Writes (scores retires : Fin n → Prop) (r s : Roster n) : Prop :=
  ∀ q : Fin n, ReflTransGen (Record.Write (scores q) (retires q)) r[q] s[q]

theorem Writes.refl (r : Roster n) : r.Writes scores retires r := fun _ => .refl

theorem Writes.trans (h : r.Writes scores retires s) (h' : s.Writes scores retires t) :
    r.Writes scores retires t := fun q => (h q).trans (h' q)

theorem Remarked.writes (h : r.Remarked s) : r.Writes scores retires s := fun q =>
  .single (.aside (h.vector q) (h.tracked q))

theorem writes_update {f : Record → Record}
    (hf : ReflTransGen (Record.Write (scores p) (retires p)) r[p] (f r[p])) :
    r.Writes scores retires (r.update p f) := by
  intro q
  by_cases hq : q = p
  · subst hq
    rw [getElem_update_self]
    exact hf
  · rw [getElem_update_ne _ hq]

end Roster

/-- The record of a process that has been scored and enrolled. -/
def Record.entered (r : Record) : Record := { r.withVector (·.rescore) with tracked := true }

theorem Record.entered_of_tracked {r : Record} (hr : r.tracked = true) :
    r.withVector (·.rescore) = r.entered := by
  rw [entered, withVector, ← hr]

namespace HostCall

def Scores : HostCall n → Fin n → Prop
  | ready p => (p = ·)
  | _ => fun _ => False

def Retires : HostCall n → Fin n → Prop
  | retire p => (p = ·)
  | _ => fun _ => False

end HostCall

namespace Host

variable {h k : Host n}

theorem writes_touch {f : Record → Record}
    (hf : Record.Write (scores p) (retires p) h.procs[p] (f h.procs[p])) :
    h.procs.Writes scores retires (h.touch p f).procs :=
  Roster.writes_update (.single hf)

theorem procs_touch (h : Host n) (p : Fin n) (f : Record → Record) :
    (h.touch p f).procs = h.procs.update p f := rfl

theorem start_ne_stuck (h : Host n) (stop : Stop) : h.start ≠ .stuck stop := by
  unfold start
  dsimp only
  split
  · simp
  · simp
  · split <;> simp

theorem start_procs (h : Host n) : h.start.Leaves fun k => k.procs = h.procs := by
  unfold start
  dsimp only
  split
  · rfl
  · rfl
  · split <;> rfl

/-- What comes before a process made ready is placed. -/
def enter (h : Host n) (p : Fin n) : Ending (Host n) (Core n) :=
  h.start.bind fun h core => (h.touch p (·.withVector (·.rescore))).enrol core p

theorem ready_eq (hcog : h.procs[p].cognitive = true) : h.ready p =
    (h.enter p).bind fun k core => k.place core p (Score.attention h.procs[p].vector.signals) := by
  have hstart := h.start_procs
  rw [ready, if_pos hcog, enter]
  cases hs : h.start with
  | returned g core =>
    rw [hs] at hstart
    have hprocs : g.procs = h.procs := hstart
    simp only [Ending.bind_returned, hprocs]
  | faulted g fault => rfl
  | stuck stop => rfl

inductive EnterEnds (h : Host n) (p : Fin n) : Ending (Host n) (Core n) → Prop where
  | unstarted {k : Host n} {fault : Fault} (procs : k.procs = h.procs) :
      EnterEnds h p (.faulted k fault)
  | full {k : Host n} {fault : Fault} (untracked : h.procs[p].tracked = false)
      (procs : k.procs = h.procs.update p (·.entered)) : EnterEnds h p (.faulted k fault)
  | entered {k : Host n} {core : Core n} (built : k.allocator.core? = some core)
      (procs : k.procs = h.procs.update p (·.entered)) : EnterEnds h p (.returned k core)

theorem core?_of_start {core : Core n} (hs : h.start = .returned k core) :
    k.allocator.core? = some core := by
  unfold start at hs
  dsimp only at hs
  split at hs
  · next hbuilt =>
    cases hs
    rw [Allocator.core?, hbuilt]
  · cases hs
  · split at hs <;> cases hs
    rfl

theorem enter_ends (h : Host n) (p : Fin n) : EnterEnds h p (h.enter p) := by
  have hstart := h.start_procs
  unfold enter
  cases hs : h.start with
  | stuck stop =>
    exact absurd hs (start_ne_stuck h stop)
  | faulted k fault =>
    rw [hs] at hstart
    exact .unstarted hstart
  | returned g core =>
    rw [hs] at hstart
    have hprocs : g.procs = h.procs := hstart
    have hrescored : (g.touch p (·.withVector (·.rescore))).procs =
        h.procs.update p (·.withVector (·.rescore)) := by rw [procs_touch, hprocs]
    have htracked : (g.touch p (·.withVector (·.rescore))).procs[p].tracked = h.procs[p].tracked := by
      rw [hrescored, Roster.getElem_update_self]
      rfl
    rw [Ending.bind_returned, enrol, htracked]
    split
    · next ht =>
      have hcore : g.allocator.core? = some core := core?_of_start hs
      exact .entered hcore (hrescored.trans (Roster.update_congr (Record.entered_of_tracked ht)))
    · next ht =>
      have hentered : ((g.touch p (·.withVector (·.rescore))).touch p fun record =>
          { record with tracked := true }).procs = h.procs.update p (·.entered) := by
        rw [procs_touch, hrescored, Roster.update_update]
        rfl
      dsimp only
      split
      · exact .entered rfl hentered
      · exact .full (Bool.eq_false_iff.mpr ht) hentered

theorem writes_entered (hp : scores p) (r : Roster n) :
    r.Writes scores retires (r.update p (·.entered)) := by
  have hrescored : ReflTransGen (Record.Write (scores p) (retires p)) r[p]
      (r[p].withVector (·.rescore)) := .single (.rescore hp)
  exact Roster.writes_update (hrescored.tail (.aside rfl fun _ => rfl))

theorem enter_writes (h : Host n) (p : Fin n) (hp : scores p) :
    (h.enter p).Leaves fun k => h.procs.Writes scores retires k.procs := by
  have hends := h.enter_ends p
  generalize h.enter p = e at hends
  have hwrites : h.procs.Writes scores retires (h.procs.update p (·.entered)) := writes_entered hp _
  cases hends with
  | @unstarted k fault procs =>
    change h.procs.Writes scores retires k.procs
    rw [procs]
    exact .refl _
  | @full k fault untracked procs =>
    change h.procs.Writes scores retires k.procs
    rwa [procs]
  | @entered k core built procs =>
    change h.procs.Writes scores retires k.procs
    rwa [procs]

theorem place_remarked (h : Host n) (core : Core n) (p : Fin n) (score : Single) :
    (h.place core p score).Leaves fun k => h.procs.Remarked k.procs := by
  unfold place
  cases Level.ofScore h.allocator.config.levels score with
  | error fault => exact .refl _
  | ok level =>
    have hfile := (h.shelf core).shifts_file level p
    simp only [Ending.ofExcept, Ending.bind_returned]
    refine (hfile.map (Q := fun k : Host n => h.procs.Remarked k.procs) ?_).bind ?_
    · exact fun s hs => hs.procs
    · intro k filing hk
      cases filing <;> exact hk

theorem place_writes (h : Host n) (core : Core n) (p : Fin n) (score : Single) :
    (h.place core p score).Leaves fun k => h.procs.Writes scores retires k.procs :=
  (h.place_remarked core p score).imp fun _ hk => hk.writes

theorem ready_writes (h : Host n) (p : Fin n) (hp : scores p) :
    (h.ready p).Leaves fun k => h.procs.Writes scores retires k.procs := by
  cases hcog : h.procs[p].cognitive with
  | false =>
    rw [ready, hcog]
    exact .refl _
  | true =>
    rw [ready_eq hcog]
    refine (h.enter_writes p hp).bind fun k core hk => ?_
    exact (place_writes k core p _).imp fun _ hlast => hk.trans hlast

/-- A process that was made ready has the score that its signals had before. -/
theorem ready_scores (hcog : h.procs[p].cognitive = true) (hr : h.ready p = .returned k ()) :
    k.procs[p].vector.attention = h.procs[p].vector.rescore.attention ∧
      k.procs[p].tracked = true := by
  rw [ready_eq hcog] at hr
  have hends := h.enter_ends p
  generalize h.enter p = e at hr hends
  cases hends with
  | unstarted procs => cases hr
  | full untracked procs => cases hr
  | @entered g core built procs =>
    rw [Ending.bind_returned] at hr
    have hlast : (g.place core p (Score.attention h.procs[p].vector.signals)).Leaves fun k =>
        g.procs.Writes (fun _ => False) (fun _ => False) k.procs := place_writes g core p _
    rw [hr, procs] at hlast
    have hwrites := hlast p
    rw [Roster.getElem_update_self] at hwrites
    exact ⟨Record.attention_of_writes hwrites id, Record.tracked_of_writes hwrites id rfl⟩

theorem noteBusy_procs (levels : List Nat) (h : Host n) : (h.noteBusy levels).procs = h.procs := by
  induction levels generalizing h with
  | nil => rfl
  | cons level rest ih => exact ih _

theorem selectNext_writes (h : Host n) (now : Tick) :
    h.procs.Writes scores retires (h.selectNext now).1.procs := by
  unfold selectNext
  split
  · exact .refl _
  · next core _ =>
    have hwalk : h.procs.Writes scores retires
        ((h.withShelf core (h.shelf core).sweep.shelf).noteBusy (h.shelf core).sweep.busy).procs := by
      rw [noteBusy_procs]
      exact (Shelf.shifts_along h.procs core.buckets).procs.writes
    dsimp only
    split
    · exact hwalk
    · exact hwalk.trans (writes_touch (f := (·.withVector (·.stamp now))) (.stamp now))

theorem drainFor_writes (k : Nat) (h : Host n) (now : Tick) :
    h.procs.Writes scores retires (h.drainFor k now).1.procs := by
  induction k generalizing h with
  | zero => exact .refl _
  | succ k ih =>
    have hfirst : h.procs.Writes scores retires (h.selectNext now).1.procs := h.selectNext_writes now
    rw [drainFor]
    split
    · next g hg =>
      rw [hg] at hfirst
      exact hfirst
    · next g q hg =>
      rw [hg] at hfirst
      exact hfirst.trans (ih g)

theorem remove_remarked (h : Host n) (p : Fin n) : h.procs.Remarked (h.remove p).1.procs := by
  unfold remove
  split
  · exact .refl _
  · next core _ =>
    have hshifts : h.procs.Remarked (h.withShelf core ((h.shelf core).withdraw p).1).procs :=
      ((h.shelf core).shifts_withdraw p).procs
    dsimp only
    split <;> exact hshifts

theorem remove_writes (h : Host n) (p : Fin n) : h.procs.Writes scores retires (h.remove p).1.procs :=
  (h.remove_remarked p).writes

theorem untrack_writes (h : Host n) (p : Fin n) (hp : retires p) :
    h.procs.Writes scores retires (h.untrack p).procs := by
  have htouch : h.procs.Writes scores retires
      (h.touch p fun record => { record with tracked := false }).procs :=
    writes_touch (.untrack hp)
  unfold untrack
  split
  · dsimp only
    split <;> exact htouch
  · exact .refl _

theorem retire_writes (h : Host n) (p : Fin n) (hp : retires p) :
    h.procs.Writes scores retires (h.retire p).1.procs := by
  have hremove : h.procs.Writes scores retires (h.remove p).1.procs := h.remove_writes p
  unfold retire
  dsimp only
  split
  · exact hremove
  · exact hremove.trans (untrack_writes _ p hp)

theorem writes_refreshed (r : Record) (c : Config) (clock : Clock) {scores retires : Prop} :
    ReflTransGen (Record.Write scores retires) r (r.refreshed c clock) := by
  let load := r.withVector (·.setFeature .load r.loadSignal)
  let memory := load.withVector (·.setFeature .memory c.memoryBaseline)
  let interactive := memory.withVector (·.setFeature .interactive
    (Record.interactiveSignal (r.gap clock.now) (clock.hz / c.interactiveDivisor)))
  let priority := interactive.withVector (·.setFeature .priority (r.prioritySignal c))
  have hload : ReflTransGen (Record.Write scores retires) r load := .single (.set _ _)
  have hmemory : ReflTransGen (Record.Write scores retires) r memory := hload.tail (.set _ _)
  have hinteractive : ReflTransGen (Record.Write scores retires) r interactive := hmemory.tail (.set _ _)
  have hpriority : ReflTransGen (Record.Write scores retires) r priority := hinteractive.tail (.set _ _)
  exact hpriority.tail (.stamp clock.now)

theorem stampRing_procs (h : Host n) (now : Tick) :
    (h.stampRing now).Leaves fun k => k.procs = h.procs := by
  unfold stampRing
  split
  · rfl
  · split <;> rfl

theorem refresh_writes (h : Host n) (clock : Clock) (p : Fin n) :
    (h.refresh clock p).Leaves fun k => h.procs.Writes scores retires k.procs := by
  unfold refresh
  dsimp only
  split
  · split
    · exact .refl _
    · split
      · exact .refl _
      · let g := h.touch p (·.refreshed h.allocator.config clock)
        have hg : h.procs.Writes scores retires g.procs := Roster.writes_update (writes_refreshed _ _ _)
        refine ((g.stampRing_procs clock.now).imp fun k hk => ?_).bind fun k _ hk => hk
        rw [hk]
        exact hg
  · exact .refl _

theorem setFeature_writes (h : Host n) (p : Fin n) (i : Nat) (x : Single) :
    h.procs.Writes scores retires (h.setFeature p i x).procs := by
  unfold setFeature
  split
  · exact writes_touch (.set i x)
  · exact .refl _

theorem foldl_say {α : Type} (f : α → Line) (xs : List α) (h : Host n) :
    xs.foldl (fun g x => g.say (f x)) h = { h with lines := h.lines ++ xs.map f } := by
  induction xs generalizing h with
  | nil => rw [List.map_nil, List.append_nil, List.foldl_nil]
  | cons x xs ih =>
    rw [List.foldl_cons, ih, say, List.map_cons, List.append_assoc]
    rfl

theorem dump_same (h : Host n) : h.dump.Leaves (· = h) := by
  unfold dump
  split
  · rfl
  · split
    · trivial
    · rfl

theorem dumpToLog_same (h : Host n) :
    h.dumpToLog.Leaves fun k => k.allocator = h.allocator ∧ k.procs = h.procs := by
  have hdump : h.dump.Leaves fun k => k.allocator = h.allocator ∧ k.procs = h.procs :=
    h.dump_same.imp fun k hk => hk ▸ ⟨rfl, rfl⟩
  refine hdump.bind fun k d? hk => ?_
  rw [foldl_say]
  exact hk

theorem viewBuckets_same (h : Host n) : h.viewBuckets.Leaves (· = h) := by
  unfold viewBuckets
  split
  · trivial
  · rfl

theorem dump_procs (h : Host n) : h.dump.Leaves fun k => k.procs = h.procs :=
  h.dump_same.imp fun _ hk => congrArg Host.procs hk

theorem dumpToLog_procs (h : Host n) : h.dumpToLog.Leaves fun k => k.procs = h.procs :=
  h.dumpToLog_same.imp fun _ hk => hk.2

theorem viewBuckets_procs (h : Host n) : h.viewBuckets.Leaves fun k => k.procs = h.procs :=
  h.viewBuckets_same.imp fun _ hk => congrArg Host.procs hk

theorem callTensor_procs (h : Host n) (call : TensorCall) :
    (h.callTensor call).Leaves fun k => k.procs = h.procs := by
  unfold callTensor
  split
  · rfl
  · next core _ => cases core.tensor.call call <;> first | rfl | trivial

theorem call_writes (h : Host n) (clock : Clock) (call : HostCall n) :
    (h.call clock call).Leaves fun k => h.procs.Writes call.Scores call.Retires k.procs := by
  have same {α : Type} {e : Ending (Host n) α} (he : e.Leaves fun k => k.procs = h.procs) :
      e.Leaves fun k => h.procs.Writes call.Scores call.Retires k.procs :=
    he.imp fun k hk => hk ▸ .refl _
  cases call with
  | start => exact (same h.start_procs).bind fun _ _ hk => hk
  | ready p =>
    have hready : (h.ready p).Leaves fun k =>
        h.procs.Writes (HostCall.Scores (.ready p)) (HostCall.Retires (.ready p)) k.procs :=
      h.ready_writes p rfl
    exact hready.bind fun _ _ hk => hk
  | select => exact h.selectNext_writes clock.now
  | drain => exact h.drainFor_writes _ clock.now
  | remove p => exact h.remove_writes p
  | retire p => exact h.retire_writes p rfl
  | refresh p => exact (h.refresh_writes clock p).map fun _ hk => hk
  | setFeature p i x => exact h.setFeature_writes p i x
  | levelFor score =>
    change (Ending.mapAnswer _ (.ofExcept h _)).Leaves _
    cases Level.ofScore h.allocator.config.levels score <;> exact .refl _
  | dump => exact (same h.dump_procs).map fun _ hk => hk
  | dumpToLog => exact (same h.dumpToLog_procs).map fun _ hk => hk
  | buckets => exact (same h.viewBuckets_procs).map fun _ hk => hk
  | tensor call => exact (same (h.callTensor_procs call)).map fun _ hk => hk
  | attention | setEmergency | setBudget | lastUpdate | stats | config => exact .refl _

end Host

namespace Call

def Scores : Call n → Fin n → Prop
  | host _ call => call.Scores
  | _ => fun _ => False

def Retires : Call n → Fin n → Prop
  | host _ call => call.Retires
  | _ => fun _ => False

theorem scores_iff {c : Call n} : c.Scores p ↔ ∃ a, c = .host a (.ready p) := by
  constructor
  · intro h
    cases c with
    | host a call => cases call <;> cases h; exact ⟨a, rfl⟩
    | clock | record | bucket => cases h
  · rintro ⟨a, rfl⟩
    rfl

theorem retires_iff {c : Call n} : c.Retires p ↔ ∃ a, c = .host a (.retire p) := by
  constructor
  · intro h
    cases c with
    | host a call => cases call <;> cases h; exact ⟨a, rfl⟩
    | clock | record | bucket => cases h
  · rintro ⟨a, rfl⟩
    rfl

end Call

namespace Session

variable {s t : Session n} {c : Call n} {d : Done n}

theorem call_writes (hc : s.call c = .ok d) : s.procs.Writes c.Scores c.Retires d.session.procs := by
  cases c with
  | host a call =>
    simp only [Session.call, callHost] at hc
    split at hc
    · cases hc
    · next seat _ =>
      have hwrites := (s.host seat).call_writes (s.clock seat) call
      split at hc <;> cases hc
      · next hcall =>
        rw [hcall] at hwrites
        exact hwrites
      · next hcall =>
        rw [hcall] at hwrites
        exact hwrites
  | clock a call =>
    obtain ⟨seat, k, hd, -⟩ := putClock_of_call hc
    rw [hd]
    exact .refl _
  | record p call =>
    cases hc
    have hcall : (s.procs[p].call call).1.vector = s.procs[p].vector ∧
        (s.procs[p].call call).1.tracked = s.procs[p].tracked := by
      cases call <;> exact ⟨rfl, rfl⟩
    exact Roster.writes_update (.single (.aside hcall.1 hcall.2.trans))
  | bucket place call =>
    rcases (putFiled_of_call hc).1 with hd | ⟨b, f, -, hf, hd⟩
    · rw [hd]
      exact .refl _
    · rw [hd]
      exact hf.procs.writes

end Session

end AttentionScheduler
