import AttentionScheduler.Proofs.Notices
import AttentionScheduler.Proofs.SessionEvolution

/-!
What the text of a dump tells, read back from it line by line. Its numbers can be of any length, but no
printed number has a space or a newline in it.
-/

namespace AttentionScheduler

open Notice (Free words number words_intercalate)

variable {n : Nat}

/-- A bucket with its members, and the number of them that is announced. -/
structure Digest.Group where
  level : Nat
  announced : Nat
  pids : List UInt64
deriving DecidableEq

structure Digest where
  budget : UInt64
  emergency : Bool
  active : Nat
  groups : List Digest.Group
deriving DecidableEq

namespace Digest

inductive Row where
  | title
  | policy (budget : UInt64) (emergency : Bool)
  | active (count : Nat)
  | header (level announced : Nat)
  | member (pid : UInt64)
  | other
deriving DecidableEq

/-- The number with which the word begins. -/
def leading (word : String) : Nat := Nat.ofDigitChars 10 (word.toList.takeWhile Char.isDigit) 0

def Row.ofWords : List String → Row
  | ["Cognitive", "Scheduler", "State:"] => title
  | ["Total", "attention:", budget, "Emergency", "mode:", flag] =>
    policy (.ofNat (leading budget)) (flag = "1")
  | ["Active", "processes", "in", "tensor:", count] => active (number count)
  | ["Attention", "queue", level, "(threshold", _, announced, "processes"] =>
    header (number level) (number announced)
  -- The two spaces that indent the line make two empty words.
  | ["", "", "Process", pid, _, _] => member (.ofNat (leading pid))
  | _ => other

def Row.read (line : String) : Row := ofWords (words line)

/-- The groups of the rows, and the members that come before the first header. -/
def gather : List Row → Option (List UInt64 × List Group)
  | [] => some ([], [])
  | .member pid :: rows => (gather rows).map fun (pids, groups) => (pid :: pids, groups)
  | .header level announced :: rows =>
    (gather rows).map fun (pids, groups) => ([], ⟨level, announced, pids⟩ :: groups)
  | _ => none

def ofRows : List Row → Option Digest
  | .title :: .policy budget emergency :: .active count :: rows =>
    match gather rows with
    | some ([], groups) => some ⟨budget, emergency, count, groups⟩
    | _ => none
  | _ => none

/-- The lines of a text, each of which a newline ends. -/
def linesOf (text : String) : List String := ((text.toList.splitOn '\n').map String.ofList).dropLast

def read (text : String) : Option Digest := ofRows ((linesOf text).map Row.read)

theorem linesOf_join {ls : List String} (h : ∀ l ∈ ls, Free '\n' l) :
    linesOf (String.join (ls.map (· ++ "\n"))) = ls := by
  have hsplit : (String.join (ls.map (· ++ "\n"))).toList.splitOn '\n' = ls.map String.toList ++ [[]] := by
    induction ls with
    | nil => rfl
    | cons l ls ih =>
      have hl : ∀ c ∈ l.toList, (c == '\n') = false := fun c hc =>
        beq_false_of_ne fun heq => h l List.mem_cons_self (heq ▸ hc)
      have htext : (String.join ((l :: ls).map (· ++ "\n"))).toList =
          l.toList ++ '\n' :: (String.join (ls.map (· ++ "\n"))).toList := by
        simp
      rw [htext, List.splitOn, List.splitOnP_append_cons_of_forall_mem hl _ rfl]
      exact congrArg (l.toList :: ·) (ih fun l' hl' => h l' (List.mem_cons_of_mem _ hl'))
  rw [linesOf, hsplit, List.map_append, List.map_singleton, List.dropLast_concat, List.map_map]
  exact List.map_id'' (fun l => String.ofList_toList) ls

/-- A text that is neither broken into words nor into lines. -/
def Plain (text : String) : Prop := Free ' ' text ∧ Free '\n' text

instance (text : String) : Decidable (Plain text) := inferInstanceAs (Decidable (_ ∧ _))

theorem plain_append {s t : String} (hs : Plain s) (ht : Plain t) : Plain (s ++ t) :=
  ⟨Notice.free_append hs.1 ht.1, Notice.free_append hs.2 ht.2⟩

theorem plain_nat (k : Nat) : Plain (toString k) :=
  ⟨Notice.free_nat (by decide) k, Notice.free_nat (by decide) k⟩

theorem plain_word (x : UInt64) : Plain (toString x) := plain_nat x.toNat

theorem plain_fixed (places : Nat) (x : Single) : Plain (x.fixed places) :=
  ⟨Notice.free_fixed (by decide) (by decide) places x, Notice.free_fixed (by decide) (by decide) places x⟩

theorem free_intercalate {c : Char} {sep : String} {ws : List String} (hsep : Free c sep)
    (h : ∀ w ∈ ws, Free c w) : Free c (sep.intercalate ws) := by
  induction ws with
  | nil => exact List.not_mem_nil
  | cons w ws ih =>
    have hw := h w List.mem_cons_self
    cases ws with
    | nil => rwa [String.intercalate_singleton]
    | cons v ws =>
      rw [String.intercalate_cons_of_ne_nil (List.cons_ne_nil v ws)]
      exact Notice.free_append (Notice.free_append hw hsep) (ih fun u hu => h u (List.mem_cons_of_mem w hu))

theorem plain_intercalate {sep : String} {ws : List String} (hsep : Plain sep) (h : ∀ w ∈ ws, Plain w) :
    Plain (sep.intercalate ws) :=
  ⟨free_intercalate hsep.1 fun w hw => (h w hw).1, free_intercalate hsep.2 fun w hw => (h w hw).2⟩

theorem leading_nat (k : Nat) {rest : String} (h : rest.toList.takeWhile Char.isDigit = []) :
    leading (toString k ++ rest) = k := by
  have hdigits : ∀ c ∈ (toString k).toList, c.isDigit = true := by
    rw [Nat.toString_eq_repr, Nat.toList_repr]
    exact fun c hc => Nat.isDigit_of_mem_toDigits (by decide) (by decide) hc
  rw [leading, String.toList_append, List.takeWhile_append_of_pos hdigits, h, List.append_nil]
  exact Notice.number_nat k

theorem leading_word (x : UInt64) {rest : String} (h : rest.toList.takeWhile Char.isDigit = []) :
    UInt64.ofNat (leading (toString x ++ rest)) = x := by
  have hlead : leading (toString x ++ rest) = x.toNat := leading_nat x.toNat h
  rw [hlead, UInt64.ofNat_toNat]

/-- A line of the text, and the row that is read from it. -/
structure Reads (line : String) (row : Row) : Prop where
  free : Free '\n' line
  read : Row.read line = row

theorem free_of_reads {lines : List String} {rows : List Row} (h : List.Forall₂ Reads lines rows) :
    ∀ line ∈ lines, Free '\n' line := by
  induction h with
  | nil => exact fun _ hl => absurd hl List.not_mem_nil
  | cons hline _ ih => exact List.forall_mem_cons.mpr ⟨hline.free, ih⟩

theorem read_of_reads {lines : List String} {rows : List Row} (h : List.Forall₂ Reads lines rows) :
    lines.map Row.read = rows := by
  induction h with
  | nil => rfl
  | cons hline _ ih => rw [List.map_cons, hline.read, ih]

theorem reads_of_words {line : String} {row : Row} (ws : List String) (hws : ws ≠ [])
    (hline : line = " ".intercalate ws) (hplain : ∀ w ∈ ws, Plain w) (hrow : Row.ofWords ws = row) :
    Reads line row := by
  subst hline
  refine ⟨free_intercalate (by decide) fun w hw => (hplain w hw).2, ?_⟩
  rw [Row.read, words_intercalate hws fun w hw => (hplain w hw).1, hrow]

end Digest

namespace Dump

open Digest (Reads Row reads_of_words Plain plain_append plain_nat plain_word plain_fixed plain_intercalate)

def Group.rows (g : Group) : List Row :=
  .header g.level g.entries.length :: g.entries.map fun e => .member e.pid

def rows (d : Dump) : List Row :=
  .title :: .policy d.budget d.emergency :: .active d.active :: d.groups.flatMap Group.rows

theorem reads_title : Reads "Cognitive Scheduler State:" .title :=
  reads_of_words ["Cognitive", "Scheduler", "State:"] (List.cons_ne_nil _ _) (by decide) (by decide) rfl

theorem reads_policy (budget : UInt64) (emergency : Bool) : Reads
    s!"Total attention: {budget}, Emergency mode: {emergency.toNat}" (.policy budget emergency) := by
  refine reads_of_words
    ["Total", "attention:", toString budget ++ ",", "Emergency", "mode:", toString emergency.toNat]
    (List.cons_ne_nil _ _) ?_ ?_ ?_
  · rw [← String.toList_inj]
    change ("Total attention: " ++ toString budget ++ ", Emergency mode: " ++
      toString emergency.toNat).toList = _
    simp
  · have hbudget : Plain (toString budget ++ ",") := plain_append (plain_word budget) (by decide)
    simp only [List.forall_mem_cons, List.not_mem_nil, false_implies, implies_true, hbudget, plain_nat,
      true_and, and_true]
    decide
  · change Row.policy (.ofNat (Digest.leading (toString budget ++ ","))) _ = _
    rw [Digest.leading_word budget rfl]
    cases emergency <;> rfl

theorem reads_active (active : Nat) : Reads s!"Active processes in tensor: {active}" (.active active) := by
  refine reads_of_words ["Active", "processes", "in", "tensor:", toString active]
    (List.cons_ne_nil _ _) ?_ ?_ ?_
  · rw [← String.toList_inj]
    change ("Active processes in tensor: " ++ toString active).toList = _
    simp
  · simp only [List.forall_mem_cons, List.not_mem_nil, false_implies, implies_true, plain_nat, and_true]
    decide
  · exact congrArg Row.active (Notice.number_nat active)

theorem reads_header (level count : Nat) (threshold : Single) : Reads
    s!"Attention queue {level} (threshold {threshold.fixed 2}): {count} processes" (.header level count) := by
  refine reads_of_words ["Attention", "queue", toString level, "(threshold", threshold.fixed 2 ++ "):",
    toString count, "processes"] (List.cons_ne_nil _ _) ?_ ?_ ?_
  · rw [← String.toList_inj]
    change ("Attention queue " ++ toString level ++ " (threshold " ++ threshold.fixed 2 ++ "): " ++
      toString count ++ " processes").toList = _
    simp
  · have hthreshold : Plain (threshold.fixed 2 ++ "):") := plain_append (plain_fixed 2 _) (by decide)
    simp only [List.forall_mem_cons, List.not_mem_nil, false_implies, implies_true, plain_nat, hthreshold,
      true_and, and_true]
    decide
  · exact congrArg₂ Row.header (Notice.number_nat level) (Notice.number_nat count)

theorem reads_entry (e : Entry) : Reads e.line (.member e.pid) := by
  refine reads_of_words ["", "", "Process", toString e.pid ++ ":", "attention=" ++ e.attention.fixed 2,
    "features=[" ++ ",".intercalate (e.signals.map (·.fixed 2)) ++ "]"] (List.cons_ne_nil _ _) ?_ ?_ ?_
  · rw [← String.toList_inj]
    change ("  Process " ++ toString e.pid ++ ": attention=" ++ e.attention.fixed 2 ++ " features=[" ++
      ",".intercalate (e.signals.map (·.fixed 2)) ++ "]").toList = _
    simp
  · have hpid : Plain (toString e.pid ++ ":") := plain_append (plain_word _) (by decide)
    have hattention : Plain ("attention=" ++ e.attention.fixed 2) :=
      plain_append (by decide) (plain_fixed 2 _)
    have hlist : Plain (",".intercalate (e.signals.map (·.fixed 2))) :=
      plain_intercalate (by decide) (List.forall_mem_map.mpr fun x _ => plain_fixed 2 x)
    have hsignals : Plain ("features=[" ++ ",".intercalate (e.signals.map (·.fixed 2)) ++ "]") :=
      plain_append (plain_append (by decide) hlist) (by decide)
    simp only [List.forall_mem_cons, List.not_mem_nil, false_implies, implies_true, hpid, hattention,
      hsignals, and_true]
    decide
  · exact congrArg Row.member (Digest.leading_word e.pid rfl)

theorem reads_group (g : Group) : List.Forall₂ Reads g.lines g.rows := by
  refine .cons (reads_header g.level g.entries.length g.threshold) ?_
  rw [List.forall₂_map_left_iff, List.forall₂_map_right_iff, List.forall₂_same]
  exact fun e _ => reads_entry e

theorem reads_lines (d : Dump) : List.Forall₂ Reads d.lines d.rows := by
  have hgroups : List.Forall₂ Reads (d.groups.flatMap Group.lines) (d.groups.flatMap Group.rows) := by
    induction d.groups with
    | nil => exact .nil
    | cons g groups ih => exact List.rel_append (reads_group g) ih
  exact .cons reads_title (.cons (reads_policy d.budget d.emergency) (.cons (reads_active d.active) hgroups))

def Group.digest (g : Group) : Digest.Group := ⟨g.level, g.entries.length, g.entries.map (·.pid)⟩

def digest (d : Dump) : Digest := ⟨d.budget, d.emergency, d.active, d.groups.map Group.digest⟩

theorem gather_members (es : List Entry) {rows : List Row} {groups : List Digest.Group}
    (h : Digest.gather rows = some ([], groups)) :
    Digest.gather (es.map (fun e => .member e.pid) ++ rows) = some (es.map (·.pid), groups) := by
  induction es with
  | nil => exact h
  | cons e es ih => rw [List.map_cons, List.cons_append, Digest.gather, ih]; rfl

theorem gather_groups (gs : List Group) :
    Digest.gather (gs.flatMap Group.rows) = some ([], gs.map Group.digest) := by
  induction gs with
  | nil => rfl
  | cons g gs ih =>
    rw [List.flatMap_cons, Group.rows, List.cons_append, Digest.gather, gather_members g.entries ih]
    rfl

theorem ofRows_rows (d : Dump) : Digest.ofRows d.rows = some d.digest := by
  rw [rows, Digest.ofRows, gather_groups]
  rfl

theorem reads_report (d? : Option Dump) : List.Forall₂ Reads (report d?) ((d?.map rows).getD [.other]) := by
  cases d? with
  | none =>
    exact .cons (reads_of_words ["Cognitive", "scheduler", "not", "initialized"] (List.cons_ne_nil _ _)
      (by decide) (by decide) rfl) .nil
  | some d => exact d.reads_lines

theorem free_report (d? : Option Dump) : ∀ line ∈ report d?, Free '\n' line :=
  Digest.free_of_reads (reads_report d?)

theorem linesOf_text (d? : Option Dump) : Digest.linesOf (text d?) = report d? :=
  Digest.linesOf_join (free_report d?)

theorem read_text (d? : Option Dump) : Digest.read (text d?) = d?.map digest := by
  rw [Digest.read, linesOf_text, Digest.read_of_reads (reads_report d?)]
  cases d? with
  | none => rfl
  | some d => exact d.ofRows_rows

end Dump

namespace Allocator

variable {x : Allocator n} {procs : Roster n}

def dump? (x : Allocator n) (procs : Roster n) : Option Dump := x.core?.map (Dump.ofCore x · procs)

/-- What a dump of the allocator is to tell. A bucket without members has no part in it. -/
def digest? (x : Allocator n) (procs : Roster n) : Option Digest :=
  x.core?.map fun core => {
    budget := x.budget
    emergency := x.emergency
    active := core.tensor.active
    groups := core.buckets.zipIdx.filterMap fun (b, level) =>
      if b.members.isEmpty then none
      else some ⟨level, b.members.length, b.members.map fun p => procs[p].pid⟩ }

theorem zipIdx_of_shaped {c : Config} {core : Core n} (h : core.Shaped c) :
    core.buckets.zipIdx = core.buckets.map fun b => (b, b.level) := by
  apply List.ext_getElem
  · simp
  · intro level hlevel hlevel'
    rw [List.length_map] at hlevel'
    obtain ⟨-, hlabel, -⟩ := h.label (List.getElem?_eq_getElem hlevel')
    rw [List.getElem_zipIdx, List.getElem_map, Nat.zero_add, hlabel]

theorem digest_ofBucket (procs : Roster n) (b : Bucket n) : (Dump.Group.ofBucket procs b).digest =
    ⟨b.level, b.members.length, b.members.map fun p => procs[p].pid⟩ := by
  rw [Dump.Group.digest, Dump.Group.ofBucket]
  dsimp only
  rw [List.length_map, List.map_map]
  rfl

theorem digest_ofBuckets (procs : Roster n) (bs : List (Bucket n)) :
    ((bs.filter (¬ ·.members.isEmpty)).map (Dump.Group.ofBucket procs)).map Dump.Group.digest =
      bs.filterMap fun b => if b.members.isEmpty then none
        else some ⟨b.level, b.members.length, b.members.map fun p => procs[p].pid⟩ := by
  induction bs with
  | nil => rfl
  | cons b bs ih =>
    rw [List.filter_cons, List.filterMap_cons, ← ih, ← digest_ofBucket]
    cases b.members.isEmpty <;> rfl

theorem digest_dump? (hx : x.Shaped) (procs : Roster n) :
    (x.dump? procs).map Dump.digest = x.digest? procs := by
  rw [dump?, digest?, Option.map_map]
  refine Option.map_congr fun core hcore => ?_
  rw [zipIdx_of_shaped (hx.core core hcore), List.filterMap_map]
  exact congrArg (Digest.mk x.budget x.emergency core.tensor.active) (digest_ofBuckets procs core.buckets)

end Allocator

theorem Host.dump_eq (h : Host n) : h.dump =
    if h.allocator.buckets.any (·.held) then .stuck .waiting
    else .returned h (h.allocator.dump? h.procs) := by
  unfold dump Allocator.dump? Allocator.buckets
  cases h.allocator.core? <;> rfl

namespace Session

variable {s : Session n} {a : Nat} {seat : Seat n} {text : String}

def Dumps (s : Session n) (a : Nat) (text : String) : Prop :=
  ∃ d d?, s.call (.host a .dump) = .ok d ∧ d.answer = .host (.dump d?) ∧ text = Dump.text d?

theorem any_held_iff {bs : List (Bucket n)} : bs.any (·.held) = false ↔ ∀ b ∈ bs, b.held = false := by
  simp

theorem dump_of_free (hfree : ∀ b ∈ seat.allocator.buckets, b.held = false) :
    (s.host seat).dump = .returned (s.host seat) (seat.allocator.dump? s.procs) := by
  have hdump := (s.host seat).dump_eq
  rwa [if_neg] at hdump
  rw [Bool.not_eq_true]
  exact any_held_iff.mpr hfree

theorem call_dump (hs : s.seat a = .ok seat) (hfree : ∀ b ∈ seat.allocator.buckets, b.held = false) :
    s.call (.host a .dump) = .ok ⟨s, .host (.dump (seat.allocator.dump? s.procs)), []⟩ := by
  have hcall : s.call (.host a .dump) =
      .ok ⟨s.putHost a (s.host seat), .host (.dump (seat.allocator.dump? s.procs)), []⟩ := by
    simp only [call, callHost, hs, Host.call, dump_of_free hfree]
    rfl
  rwa [putHost_self hs] at hcall

theorem free_of_call_dump {d : Done n} (hs : s.seat a = .ok seat) (hc : s.call (.host a .dump) = .ok d) :
    ∀ b ∈ seat.allocator.buckets, b.held = false := by
  rw [← any_held_iff, ← Bool.not_eq_true]
  intro hany
  have hdump : (s.host seat).dump = .stuck .waiting := (s.host seat).dump_eq.trans (if_pos hany)
  simp only [call, callHost, hs, Host.call, hdump] at hc
  cases hc

theorem text_of_dumps {x : Allocator n} (hx : s.allocator? a = some x) (h : s.Dumps a text) :
    text = Dump.text (x.dump? s.procs) := by
  obtain ⟨seat, hs, rfl⟩ := seat_of_allocator? hx
  obtain ⟨d, d?, hc, hanswer, rfl⟩ := h
  cases hc.symm.trans (call_dump hs (free_of_call_dump hs hc))
  cases hanswer
  rfl

theorem call_dumpToLog (hs : s.seat a = .ok seat) (hfree : ∀ b ∈ seat.allocator.buckets, b.held = false) :
    s.call (.host a .dumpToLog) =
      .ok ⟨s, .host .done, (Dump.report (seat.allocator.dump? s.procs)).map .dumped⟩ := by
  let k : Host n := { s.host seat with
    lines := (Dump.report (seat.allocator.dump? s.procs)).map .dumped }
  have hlog : (s.host seat).dumpToLog = .returned k () := by
    rw [Host.dumpToLog, dump_of_free hfree, Ending.bind_returned, Host.foldl_say]
    rfl
  have hcall : s.call (.host a .dumpToLog) = .ok ⟨s.putHost a k, .host .done, k.lines⟩ := by
    simp only [call, callHost, hs, Host.call, hlog]
    rfl
  have hsame : s.putHost a k = s := putHost_self hs
  rw [hcall, hsame]

theorem Leads.reads_dump {es : List (Event n)} {os : List Opening} {queues : List (Nat × Single)}
    {ps : Vector (UInt64 × Bool) n} {x : Allocator n} (h : (fresh os queues (freshRoster ps)).Leads es s)
    (hx : s.allocator? a = some x) (hdumps : s.Dumps a text) :
    Digest.read text = x.digest? s.procs := by
  rw [text_of_dumps hx hdumps, Dump.read_text, Allocator.digest_dump? (h.shaped hx)]

/-- A dump tells the policy, the active count and the pids in every bucket, and its lines are what the log
is given. -/
theorem dumps_read_back :
    (∀ {n : Nat} {os : List Opening} {queues : List (Nat × Single)} {ps : Vector (UInt64 × Bool) n}
      {es : List (Event n)} {s : Session n} {a : Nat} {x : Allocator n},
      (fresh os queues (freshRoster ps)).Leads es s → s.allocator? a = some x →
      (∀ b ∈ x.buckets, b.held = false) → ∃ text d,
        s.Dumps a text ∧ Digest.read text = x.digest? s.procs ∧
        (x.isStarted = true → text ≠ Dump.text none) ∧
        s.call (.host a .dumpToLog) = .ok d ∧ (∀ l ∈ d.lines, l.severity = .info) ∧
        d.lines.map Line.text = Digest.linesOf text ∧
        String.join (d.lines.map (·.text ++ "\n")) = text) ∧
    ∀ {n m : Nat} {os os' : List Opening} {queues queues' : List (Nat × Single)}
      {ps : Vector (UInt64 × Bool) n} {ps' : Vector (UInt64 × Bool) m} {es : List (Event n)}
      {es' : List (Event m)} {s : Session n} {s' : Session m} {a b : Nat} {x : Allocator n} {y : Allocator m}
      {text : String}, (fresh os queues (freshRoster ps)).Leads es s →
      (fresh os' queues' (freshRoster ps')).Leads es' s' → s.allocator? a = some x →
      s'.allocator? b = some y → s.Dumps a text → s'.Dumps b text →
      x.digest? s.procs = y.digest? s'.procs := by
  constructor
  · intro n os queues ps es s a x h hx hfree
    obtain ⟨seat, hseat, rfl⟩ := seat_of_allocator? hx
    have hdumps : s.Dumps a (Dump.text (seat.allocator.dump? s.procs)) :=
      ⟨_, _, call_dump hseat hfree, rfl, rfl⟩
    have hread := h.reads_dump hx hdumps
    refine ⟨_, _, hdumps, hread, fun hon htext => ?_, call_dumpToLog hseat hfree, fun l hl => ?_, ?_, ?_⟩
    · rw [htext, Dump.read_text, Option.map_none, Allocator.digest?, eq_comm, Option.map_eq_none_iff] at hread
      rw [Allocator.isStarted, hread] at hon
      cases hon
    · obtain ⟨text, -, rfl⟩ := List.mem_map.mp hl
      rfl
    · rw [Dump.linesOf_text, List.map_map]
      exact List.map_id _
    · rw [List.map_map]
      rfl
  · intro n m os os' queues queues' ps ps' es es' s s' a b x y text h h' hx hy hdumps hdumps'
    rw [← h.reads_dump hx hdumps, ← h'.reads_dump hy hdumps']

/-- The last call feeds a signal that no dump shows. -/
theorem dumps_read_back_with_a_negative_zero : ∃ es es', ∃ s s' : Session 3, ∃ x y text d,
    (fresh [{ hz := 1000 }] [] (freshRoster #v[(7, true), (8, true), (9, true)])).Leads es s ∧
    (fresh [{ hz := 1000 }] [] (freshRoster #v[(7, true), (8, true), (9, true)])).Leads es' s' ∧
    s.allocator? 0 = some x ∧ s'.allocator? 0 = some y ∧ s.procs ≠ s'.procs ∧
    (s.procs[(0 : Fin 3)].vector.get 0).fixed 2 = "-0.00" ∧ s.Dumps 0 text ∧ s'.Dumps 0 text ∧
    Digest.read text = some ⟨18446744073709551615, true, 3, [⟨0, 1, [8]⟩, ⟨3, 2, [7, 9]⟩]⟩ ∧
    text ≠ Dump.text none ∧ s.call (.host 0 .dumpToLog) = .ok d ∧
    d.lines.map Line.text = Digest.linesOf text ∧ x.digest? s.procs = y.digest? s'.procs := by
  let s₀ : Session 3 := fresh [{ hz := 1000 }] [] (freshRoster #v[(7, true), (8, true), (9, true)])
  let calls : List (Call 3) :=
    [.host 0 (.setFeature 0 0 .negZero), .host 0 (.ready 0), .host 0 (.setBudget 18446744073709551615),
      .host 0 (.setEmergency true)] ++
    ((List.range 8).map fun i => .host 0 (.setFeature 1 i .one)) ++ [.host 0 (.ready 1), .host 0 (.ready 2)]
  let steps : List (Step 3) := calls.map .call
  let view (t : Session 3) := (t.allocator? 0).map fun x =>
    (decide (∀ b ∈ x.buckets, b.held = false), x.dump? t.procs, t.procs[(2 : Fin 3)].vector.get 7)
  let dump : Dump := {
    budget := 18446744073709551615, emergency := true, active := 3
    groups := [⟨0, .one, [⟨8, .one, .replicate 4 .one⟩]⟩,
      ⟨3, .ofFraction 1 4, [⟨7, .zero, [.negZero, .zero, .zero, .zero]⟩, ⟨9, .zero, .replicate 4 .zero⟩]⟩] }
  obtain ⟨s, h, hend⟩ := exists_leads s₀ steps
    (fun s => (view s, (s.procs[(0 : Fin 3)].vector.get 0).fixed 2))
    (x := (some (true, some dump, .zero), "-0.00")) (by decide +kernel)
  obtain ⟨s', h', hend'⟩ := exists_leads s₀ (steps ++ [.call (.host 0 (.setFeature 2 7 .one))]) view
    (x := some (true, some dump, .one)) (by decide +kernel)
  obtain ⟨hview, hzero⟩ := Prod.mk.inj hend
  obtain ⟨x, hx, hview⟩ := Option.map_eq_some_iff.mp hview
  obtain ⟨y, hy, hview'⟩ := Option.map_eq_some_iff.mp hend'
  simp only [Prod.mk.injEq] at hview hview'
  obtain ⟨hfree, hdump, hfed⟩ := hview
  obtain ⟨hfree', hdump', hfed'⟩ := hview'
  obtain ⟨hreads, hagree⟩ := dumps_read_back
  obtain ⟨text, d, hdumps, hread, hstarted, hlog, -, hlines, -⟩ := hreads h hx (of_decide_eq_true hfree)
  obtain ⟨text', _, hdumps', -⟩ := hreads h' hy (of_decide_eq_true hfree')
  have htext : text' = text := by
    rw [text_of_dumps hx hdumps, text_of_dumps hy hdumps', hdump, hdump']
  rw [htext] at hdumps'
  have hother : s.procs ≠ s'.procs := by
    intro hsame
    rw [← hsame, hfed] at hfed'
    cases hfed'
  refine ⟨_, _, s, s', x, y, text, d, h, h', hx, hy, hother, hzero, hdumps, hdumps', ?_, hstarted ?_, hlog,
    hlines, hagree h h' hx hy hdumps hdumps'⟩
  · rw [text_of_dumps hx hdumps, hdump, Dump.read_text]
    rfl
  · have hsome : (x.dump? s.procs).isSome = true := by rw [hdump]; rfl
    rwa [Allocator.dump?, Option.isSome_map] at hsome

end Session

end AttentionScheduler
