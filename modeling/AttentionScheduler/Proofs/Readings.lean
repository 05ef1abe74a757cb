import AttentionScheduler.Host.Call
import AttentionScheduler.Proofs.Leeway

/-!
What a host reads off two allocators within a leeway: the lines of the log, the statistics and the dump.
Two texts are the same but for the digits of a pid, or they are the line of a dump that shows the policy.
-/

namespace AttentionScheduler

variable {n : Nat} {l : Leeway}

inductive Leeway.Texts (l : Leeway) : String → String → Prop where
  | same (x : String) : l.Texts x x
  | pid (start rest : String) (p q : UInt64) (h : l.pids = true) :
      l.Texts (start ++ toString p ++ rest) (start ++ toString q ++ rest)
  | policy (b c : UInt64) (i j : Bool) (h : l.advice = true) :
      l.Texts s!"Total attention: {b}, Emergency mode: {i.toNat}"
        s!"Total attention: {c}, Emergency mode: {j.toNat}"

namespace Line

def withPid (q : UInt64) : Line → Line
  | foreign _ mark => foreign q mark
  | filed _ score level => filed q score level
  | dispatched _ level => dispatched q level
  | removed _ => removed q
  | removalContended _ => removalContended q
  | refreshed _ tick => refreshed q tick
  | line => line

def later (k : Tick) : Line → Line
  | refreshed pid tick => refreshed pid (tick + k)
  | line => line

inductive Akin (l : Leeway) : Line → Line → Prop where
  | line (line : Line) (q : UInt64) (h : l.pids = false → line.withPid q = line) :
      Akin l line ((line.withPid q).later l.ahead)
  | dumped {x y : String} (h : l.Texts x y) : Akin l (.dumped x) (.dumped y)

theorem later_zero (line : Line) : line.later 0 = line := by
  cases line with
  | refreshed pid tick => rw [later, UInt64.add_zero]
  | _ => rfl

theorem texts_withPid (line : Line) (q : UInt64) (hl : l.pids = true) :
    l.Texts line.text (line.withPid q).text := by
  have pid (start middle rest : String) (p : UInt64) :
      l.Texts (start ++ toString p ++ middle ++ rest) (start ++ toString q ++ middle ++ rest) := by
    have hpid := Leeway.Texts.pid start (middle ++ rest) p q hl
    rwa [← String.append_assoc, ← String.append_assoc] at hpid
  cases line with
  | started | skipped | emergencyOn | emergencyOff | budgetSet | dumped => exact .same _
  | foreign p mark => exact pid "CogSched: pid " " queued in foreign bucket " (toString mark) p
  | filed p score level =>
    have hfiled := pid "CogSched: pid " (" ready, attention " ++ score.fixed 3)
      (" -> bucket " ++ toString level) p
    simp only [← String.append_assoc] at hfiled
    exact hfiled
  | dispatched p level => exact pid "CogSched: dispatch pid " " from bucket " (toString level) p
  | removed p => exact .pid "CogSched: pid " " removed" p q hl
  | removalContended p => exact .pid "CogSched: pid " " removal contended" p q hl
  | refreshed p tick => exact pid "CogSched: pid " " refreshed at tick " (toString tick) p

/-- Where the clocks agree and the pids need not, a line reads the same but for the digits of a pid. -/
theorem Akin.reads {x y : Line} (h : x.Akin l y) (hl : l.pids = true) (hahead : l.ahead = 0) :
    y.severity = x.severity ∧ l.Texts x.text y.text := by
  cases h with
  | line _ q =>
    rw [hahead, later_zero]
    exact ⟨by cases x <;> rfl, x.texts_withPid q hl⟩
  | dumped h => exact ⟨rfl, h⟩

end Line

namespace Dump

structure Entry.Akin (l : Leeway) (e f : Entry) : Prop where
  pid : l.pids = false → f.pid = e.pid
  attention : f.attention = e.attention
  signals : f.signals = e.signals

structure Group.Akin (l : Leeway) (g h : Group) : Prop where
  level : h.level = g.level
  threshold : h.threshold = g.threshold
  entries : List.Forall₂ (Entry.Akin l) g.entries h.entries

structure Akin (l : Leeway) (d e : Dump) : Prop where
  budget : l.advice = false → e.budget = d.budget
  emergency : l.advice = false → e.emergency = d.emergency
  active : e.active = d.active
  groups : List.Forall₂ (Group.Akin l) d.groups e.groups

theorem Entry.akin_ofRecord {r s : Record} (h : r.Akin l s) :
    (Entry.ofRecord r).Akin l (.ofRecord s) := by
  refine ⟨h.pid, ?_, ?_⟩
  · rw [Entry.ofRecord, h.vector]
    rfl
  · rw [Entry.ofRecord, h.vector]
    rfl

theorem Group.akin_ofBucket {r s : Roster n} (h : r.Akin l s) (b : Bucket n) :
    (Group.ofBucket r b).Akin l (.ofBucket s b) := by
  refine ⟨rfl, rfl, ?_⟩
  rw [Group.ofBucket, Group.ofBucket, List.forall₂_map_left_iff, List.forall₂_map_right_iff,
    List.forall₂_same]
  exact fun p _ => Entry.akin_ofRecord (h p)

theorem Entry.Akin.line {e f : Entry} (h : e.Akin l f) : l.Texts e.line f.line := by
  cases hl : l.pids with
  | false =>
    have hsame : f = e := by
      cases e
      cases f
      cases h.pid hl
      cases h.attention
      cases h.signals
      rfl
    rw [hsame]
    exact .same _
  | true =>
    have hline := Leeway.Texts.pid "  Process " (": attention=" ++ e.attention.fixed 2 ++
      " features=[" ++ ",".intercalate (e.signals.map (·.fixed 2)) ++ "]") e.pid f.pid hl
    simp only [← String.append_assoc] at hline
    unfold Entry.line
    rw [h.attention, h.signals]
    exact hline

theorem Group.Akin.lines {g h : Group} (hg : g.Akin l h) :
    List.Forall₂ l.Texts g.lines h.lines := by
  rw [Group.lines, Group.lines, hg.level, hg.threshold, hg.entries.length_eq]
  refine .cons (.same _) ?_
  rw [List.forall₂_map_left_iff, List.forall₂_map_right_iff]
  exact hg.entries.imp fun _ _ he => he.line

theorem Akin.lines {d e : Dump} (h : d.Akin l e) : List.Forall₂ l.Texts d.lines e.lines := by
  have hpolicy : l.Texts s!"Total attention: {d.budget}, Emergency mode: {d.emergency.toNat}"
      s!"Total attention: {e.budget}, Emergency mode: {e.emergency.toNat}" := by
    cases hl : l.advice with
    | false =>
      rw [h.budget hl, h.emergency hl]
      exact .same _
    | true => exact .policy _ _ _ _ hl
  rw [Dump.lines, Dump.lines, h.active]
  exact .cons (.same _) (.cons hpolicy (.cons (.same _)
    (List.rel_flatMap h.groups fun _ _ hg => hg.lines)))

theorem akin_report {d? e? : Option Dump} (h : Option.Rel (Akin l) d? e?) :
    List.Forall₂ l.Texts (report d?) (report e?) := by
  cases h with
  | none => exact .cons (.same _) .nil
  | some h => exact h.lines

end Dump

structure Stats.Akin (l : Leeway) (s t : Stats) : Prop where
  counters : t.counters = s.counters
  lengths : t.lengths = s.lengths
  active : t.active = s.active
  emergency : l.advice = false → t.emergency = s.emergency
  budget : l.advice = false → t.budget = s.budget
  slot : l.advice = false → t.slot = s.slot
  lastUpdate : l.ticks = false → t.lastUpdate = s.lastUpdate

inductive HostAnswer.Akin (l : Leeway) : HostAnswer n → HostAnswer n → Prop where
  | same (answer : HostAnswer n) : Akin l answer answer
  | tick {t u : Tick} (h : l.ticks = false → u = t) : Akin l (.tick t) (.tick u)
  | stats {s t : Stats} (h : s.Akin l t) : Akin l (.stats s) (.stats t)
  | dump {d? e? : Option Dump} (h : Option.Rel (Dump.Akin l) d? e?) : Akin l (.dump d?) (.dump e?)
  | tensor {a? b? : Option TensorAnswer} (h : Option.Rel (TensorAnswer.Akin l) a? b?) :
      Akin l (.tensor a?) (.tensor b?)

end AttentionScheduler
