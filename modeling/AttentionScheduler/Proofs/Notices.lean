import AttentionScheduler.Proofs.Dispatching
import Mathlib.Data.List.Basic

/-!
What the log says, read off the texts of its lines: word by word, with the numbers as they are printed.
-/

namespace AttentionScheduler

variable {n : Nat}

/-- What a line of the log tells of the buckets and of the counters. -/
inductive Notice where
  | started
  | filed (pid level : Nat)
  | dispatched (pid level : Nat)
  | removed (pid : Nat)
  | skipped
  | contended
  | refreshed
  | other
deriving DecidableEq

namespace Notice

def words (text : String) : List String := (text.toList.splitOn ' ').map String.ofList

def number (word : String) : Nat := Nat.ofDigitChars 10 word.toList 0

def ofWords : List String → Notice
  | "initialized" :: _ => started
  | ["pid", pid, "ready,", "attention", _, "->", "bucket", level] => filed (number pid) (number level)
  | ["dispatch", "pid", pid, "from", "bucket", level] => dispatched (number pid) (number level)
  | ["pid", pid, "removed"] => removed (number pid)
  | ["bucket", _, "busy,", "skipped"] => skipped
  | ["pid", _, "removal", "contended"] => contended
  | ["pid", _, "refreshed", "at", "tick", _] => refreshed
  | _ => other

def read (text : String) : Notice :=
  if (words text).head? = some "CogSched:" then ofWords (words text).tail else other

/-- The character stands nowhere in the text. -/
def Free (c : Char) (text : String) : Prop := c ∉ text.toList

instance (c : Char) (text : String) : Decidable (Free c text) := inferInstanceAs (Decidable (_ ∉ _))

/-- A text without a space in it is one word. -/
def Solid (text : String) : Prop := ' ' ∉ text.toList

instance (text : String) : Decidable (Solid text) := inferInstanceAs (Decidable (_ ∉ _))

theorem words_intercalate {ws : List String} (hws : ws ≠ []) (h : ∀ w ∈ ws, Solid w) :
    words (" ".intercalate ws) = ws := by
  have hlist : (" ".intercalate ws).toList = [' '].intercalate (ws.map String.toList) := by
    rw [String.toList_intercalate]
    rfl
  rw [words, hlist, List.splitOn_intercalate]
  · simp
  · intro l hl
    obtain ⟨w, hw, rfl⟩ := List.mem_map.mp hl
    exact h w hw
  · simpa using hws

theorem read_intercalate {ws : List String} (h : ∀ w ∈ ws, Solid w) :
    read (" ".intercalate ("CogSched:" :: ws)) = ofWords ws := by
  have hwords : words (" ".intercalate ("CogSched:" :: ws)) = "CogSched:" :: ws := by
    apply words_intercalate (List.cons_ne_nil _ _)
    intro w hw
    rcases List.mem_cons.mp hw with rfl | hw
    · simp [Solid]
    · exact h w hw
  rw [read, hwords, List.head?_cons, if_pos rfl, List.tail_cons]

theorem read_of_not_prefix {text : String} (h : ¬ "CogSched:".toList <+: text.toList) :
    read text = other := by
  apply if_neg
  intro hhead
  refine h ?_
  have hsplit : [' '].intercalate (text.toList.splitOn ' ') = text.toList :=
    List.intercalate_splitOn ' '
  cases hs : text.toList.splitOn ' ' with
  | nil =>
    rw [words, hs] at hhead
    cases hhead
  | cons first more =>
    rw [words, hs] at hhead
    have hfirst : first = "CogSched:".toList := by
      rw [← Option.some.inj hhead, String.toList_ofList]
    rw [← hsplit, hs, hfirst]
    cases more with
    | nil => simp
    | cons second more => simp [List.intercalate_cons_cons]

theorem free_append {c : Char} {s t : String} (hs : Free c s) (ht : Free c t) : Free c (s ++ t) := by
  rw [Free, String.toList_append]
  exact fun h => (List.mem_append.mp h).elim hs ht

theorem free_nat {c : Char} (hc : c.isDigit = false) (k : Nat) : Free c (toString k) := by
  rw [Free, Nat.toString_eq_repr, Nat.toList_repr]
  intro h
  have hdigit := Nat.isDigit_of_mem_toDigits (by decide) (by decide) h
  cases hc.symm.trans hdigit

theorem free_fixed {c : Char} (hc : c.isDigit = false) (hmark : Free c "-.NaNinf") (places : Nat)
    (x : Single) : Free c (x.fixed places) := by
  have hpart {text : String} (h : text.toList ⊆ "-.NaNinf".toList) : Free c text := fun hmem => hmark (h hmem)
  have hpadded (width k : Nat) : Free c (Single.padded width k) := by
    refine free_append ?_ (free_nat hc k)
    rw [Free, String.toList_ofList]
    intro hmem
    cases (List.mem_replicate.mp hmem).2
    cases hc
  have hplaced (k : Nat) : Free c (Single.placed places k) := by
    unfold Single.placed
    split
    · exact free_nat hc k
    · exact free_append (free_append (free_nat hc _) (hpart (by decide))) (hpadded _ _)
  cases x with
  | nan =>
    have hnan : Free c "NaN" := hpart (by decide)
    exact hnan
  | num s m =>
    refine free_append ?_ ?_
    · cases s <;> exact hpart (by decide)
    · split
      · exact hpart (by decide)
      · exact hplaced _

theorem solid_append {s t : String} (hs : Solid s) (ht : Solid t) : Solid (s ++ t) := free_append hs ht

theorem solid_nat (k : Nat) : Solid (toString k) := free_nat (by decide) k

theorem solid_word (x : UInt64) : Solid (toString x) := solid_nat x.toNat

theorem number_nat (k : Nat) : number (toString k) = k := by
  rw [number, Nat.toString_eq_repr, Nat.toList_repr]
  exact Nat.ofDigitChars_toDigits (by decide) (by decide)

theorem number_word (x : UInt64) : number (toString x) = x.toNat := number_nat x.toNat

theorem solid_fixed (places : Nat) (x : Single) : Solid (x.fixed places) :=
  free_fixed (by decide) (by decide) places x

end Notice

namespace Line

open Notice (Solid solid_append solid_nat solid_word solid_fixed)

/-- The words of a line after the name of the scheduler. -/
def words : Line → List String
  | started levels maxProcs timeWindow budget =>
    ["initialized", "(" ++ toString levels, "levels,", "tensor",
      toString maxProcs ++ "x" ++ toString Feature.count ++ "x" ++ toString timeWindow ++ ",",
      "budget", toString budget ++ ")"]
  | foreign pid mark => ["pid", toString pid, "queued", "in", "foreign", "bucket", toString mark]
  | filed pid score level =>
    ["pid", toString pid, "ready,", "attention", score.fixed 3, "->", "bucket", toString level]
  | dispatched pid level => ["dispatch", "pid", toString pid, "from", "bucket", toString level]
  | skipped level => ["bucket", toString level, "busy,", "skipped"]
  | removed pid => ["pid", toString pid, "removed"]
  | removalContended pid => ["pid", toString pid, "removal", "contended"]
  | refreshed pid tick => ["pid", toString pid, "refreshed", "at", "tick", toString tick]
  | emergencyOn => ["emergency", "mode", "enabled,", "host", "should", "bypass", "attention"]
  | emergencyOff => ["emergency", "mode", "cleared"]
  | budgetSet budget => ["attention", "budget", "set", "to", toString budget]
  | dumped _ => []

theorem text_eq_words (l : Line) (h : ∀ text, l ≠ dumped text) :
    l.text = " ".intercalate ("CogSched:" :: l.words) := by
  -- The words within one literal show in its characters only.
  rw [← String.toList_inj]
  cases l with
  | dumped text => exact absurd rfl (h text)
  | started levels maxProcs timeWindow budget =>
    change ("CogSched: initialized (" ++ toString levels ++ " levels, tensor " ++ toString maxProcs ++
      "x" ++ toString Feature.count ++ "x" ++ toString timeWindow ++ ", " ++
        ("budget " ++ toString budget ++ ")")).toList = _
    simp [words]
  | foreign pid mark =>
    change ("CogSched: pid " ++ toString pid ++ " queued in foreign bucket " ++
      toString mark).toList = _
    simp [words]
  | filed pid score level =>
    change ("CogSched: pid " ++ toString pid ++ " ready, attention " ++ score.fixed 3 ++
      " -> bucket " ++ toString level).toList = _
    simp [words]
  | dispatched pid level =>
    change ("CogSched: dispatch pid " ++ toString pid ++ " from bucket " ++ toString level).toList = _
    simp [words]
  | skipped level =>
    change ("CogSched: bucket " ++ toString level ++ " busy, skipped").toList = _
    simp [words]
  | removed pid =>
    change ("CogSched: pid " ++ toString pid ++ " removed").toList = _
    simp [words]
  | removalContended pid =>
    change ("CogSched: pid " ++ toString pid ++ " removal contended").toList = _
    simp [words]
  | refreshed pid tick =>
    change ("CogSched: pid " ++ toString pid ++ " refreshed at tick " ++ toString tick).toList = _
    simp [words]
  | emergencyOn =>
    change "CogSched: emergency mode enabled, host should bypass attention".toList = _
    simp [words]
  | emergencyOff =>
    change "CogSched: emergency mode cleared".toList = _
    simp [words]
  | budgetSet budget =>
    change ("CogSched: attention budget set to " ++ toString budget).toList = _
    simp [words]

theorem solid_words (l : Line) : ∀ w ∈ l.words, Solid w := by
  cases l with
  | started levels maxProcs timeWindow budget =>
    have hlevels : Solid ("(" ++ toString levels) := solid_append (by decide) (solid_nat levels)
    have hx {before : String} (h : Solid before) (k : Nat) : Solid (before ++ "x" ++ toString k) :=
      solid_append (solid_append h (by decide)) (solid_nat k)
    have hshape :
        Solid (toString maxProcs ++ "x" ++ toString Feature.count ++ "x" ++ toString timeWindow ++ ",") :=
      solid_append (hx (hx (solid_nat maxProcs) Feature.count) timeWindow) (by decide)
    have hbudget : Solid (toString budget ++ ")") := solid_append (solid_word budget) (by decide)
    simp only [words, List.forall_mem_cons, List.not_mem_nil, false_implies, implies_true, hlevels,
      hshape, hbudget, true_and, and_true]
    decide
  | dumped text => exact fun w hw => absurd hw List.not_mem_nil
  | _ =>
    simp only [words, List.forall_mem_cons, List.not_mem_nil, false_implies, implies_true,
      solid_nat, solid_word, solid_fixed, true_and, and_true]
    decide

def notice (l : Line) : Notice := .read l.text

def gist : Line → Notice
  | started .. => .started
  | filed pid _ level => .filed pid.toNat level
  | dispatched pid level => .dispatched pid.toNat level
  | skipped _ => .skipped
  | removed pid => .removed pid.toNat
  | removalContended _ => .contended
  | refreshed .. => .refreshed
  | foreign .. | emergencyOn | emergencyOff | budgetSet _ | dumped _ => .other

theorem ofWords_words (l : Line) : Notice.ofWords l.words = l.gist := by
  cases l with
  | filed pid score level =>
    change Notice.filed (Notice.number (toString pid)) (Notice.number (toString level)) = _
    rw [Notice.number_word, Notice.number_nat]
    rfl
  | dispatched pid level =>
    change Notice.dispatched (Notice.number (toString pid)) (Notice.number (toString level)) = _
    rw [Notice.number_word, Notice.number_nat]
    rfl
  | removed pid =>
    change Notice.removed (Notice.number (toString pid)) = _
    rw [Notice.number_word]
    rfl
  | _ => rfl

theorem read_report {text : String} {d? : Option Dump} (h : text ∈ Dump.report d?) :
    Notice.read text = .other := by
  have hopens {start : String} (rest : String) (hlength : 9 ≤ start.toList.length)
      (hstart : start.toList.take 9 ≠ "CogSched:".toList) : Notice.read (start ++ rest) = .other := by
    apply Notice.read_of_not_prefix
    intro hprefix
    have htake := List.prefix_iff_eq_take.mp hprefix
    rw [String.toList_append] at htake
    exact hstart ((List.take_append_of_le_length hlength).symm.trans htake.symm)
  cases d? with
  | none =>
    rw [List.mem_singleton.mp h]
    exact Notice.read_of_not_prefix (by decide)
  | some d =>
    simp only [Dump.report, Dump.lines, List.mem_cons, List.mem_flatMap] at h
    rcases h with rfl | rfl | rfl | ⟨g, -, hg⟩
    · exact Notice.read_of_not_prefix (by decide)
    · simp only [String.append_assoc]
      exact hopens _ (by decide) (by decide)
    · exact hopens _ (by decide) (by decide)
    · rcases List.mem_cons.mp hg with rfl | hg
      · simp only [String.append_assoc]
        exact hopens _ (by decide) (by decide)
      · obtain ⟨e, -, rfl⟩ := List.mem_map.mp hg
        simp only [Dump.Entry.line, String.append_assoc]
        exact hopens _ (by decide) (by decide)

theorem notice_eq_gist (l : Line) (h : ∀ text, l = dumped text → ∃ d?, text ∈ Dump.report d?) :
    l.notice = l.gist := by
  by_cases hl : ∃ text, l = dumped text
  · obtain ⟨text, rfl⟩ := hl
    obtain ⟨d?, hd⟩ := h text rfl
    exact read_report hd
  · rw [notice, text_eq_words l (not_exists.mp hl), Notice.read_intercalate l.solid_words,
      ofWords_words]

theorem Plain.notice {l : Line} (h : l.Plain) : l.notice = .other := by
  cases l with
  | emergencyOn | emergencyOff | budgetSet _ => exact notice_eq_gist _ (by simp)
  | dumped text => exact notice_eq_gist _ fun _ he => dumped.inj he ▸ h
  | started | foreign | filed | dispatched | skipped | removed | removalContended | refreshed =>
    exact absurd h id

end Line

end AttentionScheduler
