import AttentionScheduler.Proofs.Readying
import AttentionScheduler.Proofs.Records
import Mathlib.Tactic.MkIffOfInductiveProp

/-!
What a process made ready leaves behind once it is filed, in one equation: wherever it was queued before,
it is taken out there and put last in the bucket of its level.
-/

namespace AttentionScheduler

open Files

variable {n : Nat}

theorem erase_append_of_notMem {α : Type} [DecidableEq α] {a : α} {l m : List α} (h : a ∉ m) :
    (l ++ m).erase a = l.erase a ++ m := by
  rw [List.erase_append]
  split
  · rfl
  · next hl => rw [List.erase_of_not_mem h, List.erase_of_not_mem hl]

namespace Bucket

variable {b : Bucket n} {p q : Fin n} {level level' : Nat}

/-- The bucket with `p` taken out, and put last if the bucket is that of `level`. -/
def refiled (level : Nat) (p : Fin n) (b : Bucket n) : Bucket n :=
  b.withMembers (b.members.erase p ++ if b.level = level then [p] else [])

theorem refiled_of_absent (hp : p ∉ b.members) (hcount : b.count = b.members.length)
    (hlevel : b.level ≠ level) : b.refiled level p = b := by
  rw [refiled, if_neg hlevel, List.append_nil, List.erase_of_not_mem hp, withMembers, ← hcount]

theorem refiled_of_own (hp : p ∉ b.members) (hlevel : b.level = level) :
    b.refiled level p = b.withMembers (b.members ++ [p]) := by
  rw [refiled, if_pos hlevel, List.erase_of_not_mem hp]

theorem refiled_without (hnodup : b.members.Nodup) :
    (b.withMembers (b.members.erase p)).refiled level p = b.refiled level p := by
  have hgone : p ∉ b.members.erase p := hnodup.not_mem_erase
  change b.withMembers ((b.members.erase p).erase p ++ _) = _
  rw [List.erase_of_not_mem hgone]
  rfl

theorem refiled_self (hnodup : b.members.Nodup) :
    (b.refiled level p).refiled level p = b.refiled level p := by
  have hgone : p ∉ b.members.erase p := hnodup.not_mem_erase
  have hmembers : ((b.members.erase p ++ if b.level = level then [p] else []).erase p ++
      if b.level = level then [p] else []) = b.members.erase p ++ if b.level = level then [p] else [] := by
    by_cases hl : b.level = level
    · rw [if_pos hl, List.erase_append_right _ hgone, List.erase_cons_head, List.append_nil]
    · rw [if_neg hl, List.append_nil, List.append_nil, List.erase_of_not_mem hgone]
  exact congrArg b.withMembers hmembers

theorem members_refiled_refiled (hpq : p ≠ q) : ((b.refiled level p).refiled level' q).members =
    (b.members.erase p).erase q ++ (if b.level = level then [p] else []) ++
      if b.level = level' then [q] else [] := by
  change (b.members.erase p ++ _).erase q ++ _ = _
  rw [erase_append_of_notMem]
  · rfl
  · split <;> simp [hpq.symm]

theorem refiled_comm (hpq : p ≠ q) (hlevel : b.level = level → b.level ≠ level') :
    (b.refiled level p).refiled level' q = (b.refiled level' q).refiled level p := by
  have hmembers : ((b.refiled level p).refiled level' q).members =
      ((b.refiled level' q).refiled level p).members := by
    rw [members_refiled_refiled hpq, members_refiled_refiled hpq.symm, List.erase_comm]
    by_cases hl : b.level = level
    · rw [if_pos hl, if_neg (hlevel hl), List.append_nil, List.append_nil]
    · rw [if_neg hl, List.append_nil, List.append_nil]
  exact congrArg b.withMembers hmembers

/-- Two processes that go to one bucket end up there in the order in which they came. -/
theorem refiled_swap (hpq : p ≠ q) (hlevel : b.level = level) : ∃ front,
    ((b.refiled level p).refiled level q).members = front ++ [p, q] ∧
      (b.refiled level q).refiled level p =
        { (b.refiled level p).refiled level q with members := front ++ [q, p] } := by
  have hmembers : ((b.refiled level p).refiled level q).members =
      (b.members.erase p).erase q ++ [p, q] := by
    rw [members_refiled_refiled hpq, if_pos hlevel, if_pos hlevel, List.append_assoc]
    rfl
  have hmembers' : ((b.refiled level q).refiled level p).members =
      (b.members.erase p).erase q ++ [q, p] := by
    rw [members_refiled_refiled hpq.symm, if_pos hlevel, if_pos hlevel, List.append_assoc,
      List.erase_comm]
    rfl
  have hbucket : (b.refiled level p).refiled level q =
      b.withMembers ((b.members.erase p).erase q ++ [p, q]) :=
    congrArg b.withMembers hmembers
  have hbucket' : (b.refiled level q).refiled level p =
      b.withMembers ((b.members.erase p).erase q ++ [q, p]) :=
    congrArg b.withMembers hmembers'
  refine ⟨_, hmembers, ?_⟩
  rw [hbucket, hbucket', withMembers, withMembers, List.length_append, List.length_append]
  rfl

theorem mem_refiled_self (hlevel : b.level = level) : p ∈ (b.refiled level p).members := by
  change p ∈ b.members.erase p ++ _
  rw [if_pos hlevel]
  exact List.mem_append_right _ (List.mem_singleton_self p)

theorem mem_refiled (hpq : p ≠ q) : q ∈ (b.refiled level p).members ↔ q ∈ b.members := by
  change q ∈ b.members.erase p ++ _ ↔ _
  rw [List.mem_append, List.mem_erase_of_ne hpq.symm]
  constructor
  · rintro (hq | hq)
    · exact hq
    · split at hq
      · exact absurd (List.mem_singleton.mp hq).symm hpq
      · cases hq
  · exact .inl

theorem exists_refiled {bs : List (Bucket n)} {P : Bucket n → Prop} {i : Nat}
    (hP : ∀ b, P (b.refiled level p) ↔ P b) :
    (∃ b, (bs.map (·.refiled level p))[i]? = some b ∧ P b) ↔ ∃ b, bs[i]? = some b ∧ P b := by
  rw [List.getElem?_map]
  cases bs[i]? with
  | none => simp
  | some b => simp [hP]

end Bucket

def Record.readied (level : Nat) (r : Record) : Record := { r.entered with mark := some level }

namespace Shelf

variable {F : Files n} {s : Shelf n} {a level : Nat} {p : Fin n} {b : Bucket n}

def refiled (s : Shelf n) (level : Nat) (p : Fin n) : Shelf n where
  buckets := s.buckets.map (·.refiled level p)
  procs := s.procs.update p fun r => { r with mark := some level }

theorem own_of_sound (hs : (F.withShelf a s).Sound) (hb : s.buckets[level]? = some b) :
    b.level = level ∧ b.Marking ∧ b.count = b.members.length ∧ b.members.Nodup ∧
      ∀ q ∈ b.members, s.procs[q].mark = some level := by
  have hat : (F.withShelf a s).bucket? (.own a level) = some b := by rw [withShelf_own, hb]
  obtain ⟨hlevel, hmarking⟩ := hs.own_level hat
  exact ⟨hlevel, hmarking, hs.published hat, hs.nodup hat hmarking,
    fun q hq => hlevel ▸ hs.marked hat hmarking hq⟩

theorem put_joined (hs : (F.withShelf a s).Sound) (hm : s.procs[p].mark = none)
    (hb : s.buckets[level]? = some b) :
    s.put level ((Filed.mk b s.procs).joined p) = s.refiled level p := by
  have habsent {l : Nat} {c : Bucket n} (hc : s.buckets[l]? = some c) : p ∉ c.members := by
    intro hp
    obtain ⟨-, -, -, -, hmarked⟩ := own_of_sound hs hc
    cases hm.symm.trans (hmarked p hp)
  obtain ⟨hlevel, hmarking, -⟩ := own_of_sound hs hb
  have hbuckets : s.buckets.set level (b.withMembers (b.members ++ [p])) =
      s.buckets.map (·.refiled level p) := by
    apply List.ext_getElem?
    intro i
    rw [List.getElem?_map]
    by_cases hi : level = i
    · subst hi
      have hlt := (List.getElem?_eq_some_iff.mp hb).1
      rw [List.getElem?_set_self hlt, hb, Option.map_some, Bucket.refiled_of_own (habsent hb) hlevel]
    · rw [List.getElem?_set_ne hi]
      cases hc : s.buckets[i]? with
      | none => rfl
      | some c =>
        obtain ⟨hother, -, hcount, -⟩ := own_of_sound hs hc
        rw [Option.map_some, Bucket.refiled_of_absent (habsent hc) hcount (hother ▸ Ne.symm hi)]
  have hprocs : s.procs.update p (fun r => { r with mark := markOf b.level }) =
      s.procs.update p fun r => { r with mark := some level } := by
    rw [markOf_eq_some hmarking, hlevel]
  rw [put, refiled, ← hbuckets, ← hprocs]
  rfl

theorem rounds_of_unmarked (hs : (F.withShelf a s).Sound) (hm : s.procs[p].mark = none)
    (hb : s.buckets[level]? = some b) (free : b.held = false) (k : Nat) :
    s.rounds (k + 1) level p = .returned (s.refiled level p) .linked := by
  have hf : s.filed? level = some ⟨b, s.procs⟩ := by rw [filed?, hb, Option.map_some]
  rw [rounds, round_unmarked hf hm, if_neg (by simp [free]), put_joined hs hm hb]
  rfl

theorem refiled_put_letGo {mark : Nat} (hs : (F.withShelf a s).Sound) (hb : s.buckets[mark]? = some b) :
    (s.put mark ((Filed.mk b s.procs).letGo p (b.members.erase p))).refiled level p =
      s.refiled level p := by
  obtain ⟨-, -, -, hnodup, -⟩ := own_of_sound hs hb
  have hbuckets : (s.buckets.set mark (b.withMembers (b.members.erase p))).map (·.refiled level p) =
      s.buckets.map (·.refiled level p) := by
    obtain ⟨hlt, rfl⟩ := List.getElem?_eq_some_iff.mp hb
    rw [List.map_set, Bucket.refiled_without hnodup, ← List.map_set, List.set_getElem_self]
  have hprocs : (s.procs.update p (·.release b.level)).update p (fun r => { r with mark := some level }) =
      s.procs.update p fun r => { r with mark := some level } := by
    rw [Roster.update_update]
    apply Roster.update_congr
    unfold Record.release
    split <;> rfl
  rw [refiled, refiled, ← hbuckets, ← hprocs]
  rfl

/-- Filing a process on a shelf, if the buckets that it goes to and comes from are free. -/
theorem file_of_free (hs : (F.withShelf a s).Sound)
    (target : ∃ b, s.buckets[level]? = some b ∧ b.held = false)
    (home : ∀ mark, s.procs[p].mark = some mark →
      ∃ b, s.buckets[mark]? = some b ∧ b.held = false ∧ p ∈ b.members) :
    s.file level p = .returned (s.refiled level p) .linked := by
  obtain ⟨b, hb, free⟩ := target
  cases hm : s.procs[p].mark with
  | none => exact rounds_of_unmarked hs hm hb free _
  | some mark =>
    obtain ⟨c, hc, hheld, hp⟩ := home mark hm
    have hf : s.filed? level = some ⟨b, s.procs⟩ := by rw [filed?, hb, Option.map_some]
    have hfc : s.filed? mark = some ⟨c, s.procs⟩ := by rw [filed?, hc, Option.map_some]
    let t := s.put mark ((Filed.mk c s.procs).letGo p (c.members.erase p))
    have hround : s.round level p = .returned t none := by
      simp only [round, hf, hm, hfc, hheld, Bool.false_eq_true, ↓reduceIte]
      rw [Filed.unlink, if_pos hp]
    have hedit : Edit (F.withShelf a s) (.unlink (.own a mark) p) (F.withShelf a t) :=
      unlink_of_filed? hfc hheld hp
    have htarget : ∃ b', t.buckets[level]? = some b' ∧ b'.held = false := by
      change ∃ b', (s.buckets.set mark _)[level]? = some b' ∧ _
      rw [List.getElem?_set]
      split
      · next hl =>
        subst hl
        rw [if_pos (List.getElem?_eq_some_iff.mp hc).1]
        exact ⟨_, rfl, hheld⟩
      · exact ⟨b, hb, free⟩
    obtain ⟨b', hb', free'⟩ := htarget
    rw [file, rounds, hround, Ending.bind_returned, ← refiled_put_letGo hs hc]
    exact rounds_of_unmarked (hs.edit hedit) (hs.mark_of_unlink hedit) hb' free' _

end Shelf

/-- The buckets that a process leaves and joins are free, and it is in the one that it leaves. -/
theorem Files.free_of_edits {f g : Files n} {a level : Nat} {p : Fin n} {mark? : Option Nat}
    (h : Edits f (Shelf.leaving a mark? p ++ [.link (.own a level) p]) g) :
    (∃ b, f.bucket? (.own a level) = some b ∧ b.held = false) ∧
      ∀ mark, mark? = some mark →
        ∃ b, f.bucket? (.own a mark) = some b ∧ b.held = false ∧ p ∈ b.members := by
  cases mark? with
  | none =>
    cases h.of_single with
    | link there free unmarked => exact ⟨⟨_, there, free⟩, fun mark hm => nomatch hm⟩
  | some mark =>
    cases h with
    | cons edit rest =>
      obtain ⟨c, hc, hheld, hp⟩ := edit.of_unlink
      obtain rfl := edit.eq_unlinked hc
      refine ⟨?_, fun mark' hm => ?_⟩
      · cases rest.of_single with
        | link there free unmarked =>
          rcases put_eq_some there with ⟨hplace, -⟩ | ⟨-, hb⟩
          · exact ⟨c, hplace ▸ hc, hheld⟩
          · exact ⟨_, hb, free⟩
      · cases hm
        exact ⟨c, hc, hheld, hp⟩

namespace Core

variable {core : Core n} {p q : Fin n} {level level' : Nat}

def enrolled (core : Core n) (tracked : Bool) : Core n :=
  { core with tensor := { core.tensor with active := core.tensor.active + if tracked then 0 else 1 } }

def readied (core : Core n) (level : Nat) (p : Fin n) (tracked : Bool) : Core n :=
  { core.enrolled tracked with buckets := core.buckets.map (·.refiled level p) }

/-- There is room in the count of the active processes for one that is not tracked yet. -/
def Admits (core : Core n) (tracked : Bool) : Prop :=
  tracked = true ∨ core.tensor.active + 1 < Word.limit

end Core

namespace Host

variable {F : Files n} {h k : Host n} {core : Core n} {a level : Nat} {p q : Fin n}

/-- The host after `p` has been filed at `level`, apart from what it has logged. -/
def readied (h : Host n) (core : Core n) (level : Nat) (p : Fin n) : Host n where
  allocator := { h.allocator.withCore (core.readied level p h.procs[p].tracked) with
    counters := { h.allocator.counters with enqueued := h.allocator.counters.enqueued + 1 } }
  procs := h.procs.update p (·.readied level)

/-- What a started host needs so that `p` is filed at `level`. -/
@[mk_iff]
structure Readies (h : Host n) (core : Core n) (level : Nat) (p : Fin n) : Prop where
  cognitive : h.procs[p].cognitive = true
  built : h.allocator.core? = some core
  scored : Level.ofScore h.allocator.config.levels (Score.attention h.procs[p].vector.signals) = .ok level
  target : ∃ b, core.buckets[level]? = some b ∧ b.held = false
  home : ∀ mark, h.procs[p].mark = some mark →
    ∃ b, core.buckets[mark]? = some b ∧ b.held = false ∧ p ∈ b.members

theorem tracked_rescored (h : Host n) (p : Fin n) :
    (h.touch p (·.withVector (·.rescore))).procs[p].tracked = h.procs[p].tracked :=
  touch_keeps (x := (·.tracked)) rfl p

theorem enrol_of_admits (hc : h.allocator.core? = some core) (hadmits : core.Admits h.procs[p].tracked) :
    (h.touch p (·.withVector (·.rescore))).enrol core p =
      .returned ⟨h.allocator.withCore (core.enrolled h.procs[p].tracked), h.procs.update p (·.entered),
        h.lines⟩ (core.enrolled h.procs[p].tracked) := by
  rw [enrol, tracked_rescored]
  cases ht : h.procs[p].tracked with
  | true =>
    have hprocs : h.procs.update p (·.entered) = (h.touch p (·.withVector (·.rescore))).procs := by
      rw [procs_touch]
      exact (Roster.update_congr (Record.entered_of_tracked ht)).symm
    have hsame : h.allocator.withCore core = h.allocator :=
      congrArg Host.allocator (withShelf_self hc)
    have henrolled : core.enrolled true = core := rfl
    rw [if_pos rfl, henrolled, hsame, hprocs]
    rfl
  | false =>
    have hroom : core.tensor.active + 1 < Word.limit := by
      rcases hadmits with htrue | hroom
      · cases ht.symm.trans htrue
      · exact hroom
    have htrack : core.tensor.track = .ok { core.tensor with active := core.tensor.active + 1 } := by
      rw [Tensor.track, Word.add_eq_ok hroom]
      rfl
    have hprocs : (h.procs.update p (·.withVector (·.rescore))).update p
        (fun r => { r with tracked := true }) = h.procs.update p (·.entered) := by
      rw [Roster.update_update]
      rfl
    simp only [Bool.false_eq_true, ↓reduceIte, htrack, ← hprocs]
    rfl

theorem enrol_of_full (hfull : ¬ core.Admits h.procs[p].tracked) :
    ∃ k fault, (h.touch p (·.withVector (·.rescore))).enrol core p = .faulted k fault := by
  obtain ⟨hnot, hroom⟩ := not_or.mp hfull
  have htrack : core.tensor.track = .error .addOverflow := by
    rw [Tensor.track, Word.add, if_neg hroom]
    rfl
  rw [enrol, tracked_rescored, if_neg hnot, htrack]
  exact ⟨_, _, rfl⟩

theorem enter_of_start {g : Host n} (hstart : h.start = .returned g core) (p : Fin n) :
    h.enter p = (g.touch p (·.withVector (·.rescore))).enrol core p := by
  rw [enter, hstart, Ending.bind_returned]

theorem procs_of_start {g : Host n} (hstart : h.start = .returned g core) : g.procs = h.procs := by
  have hprocs := h.start_procs
  rw [hstart] at hprocs
  exact hprocs

theorem mark_of_entered (h : Host n) (p q : Fin n) :
    (h.procs.update p (·.entered))[q].mark = h.procs[q].mark :=
  mark_touch (p := p) (r := (·.entered)) rfl q

theorem ready_of_readies {g : Host n} (hs : (F.withShelf a (g.shelf core)).Sound)
    (hstart : h.start = .returned g core) (hr : g.Readies core level p)
    (hadmits : core.Admits g.procs[p].tracked) :
    ∃ lines, h.ready p = .returned { g.readied core level p with lines } () := by
  have hcog : h.procs[p].cognitive = true := procs_of_start hstart ▸ hr.cognitive
  let k : Host n :=
    ⟨g.allocator.withCore (core.enrolled g.procs[p].tracked), g.procs.update p (·.entered), g.lines⟩
  have hfiles : F.withShelf a (k.shelf (core.enrolled g.procs[p].tracked)) =
      F.withShelf a (g.shelf core) := withShelf_congr rfl (g.mark_of_entered p)
  have hfile : (k.shelf (core.enrolled g.procs[p].tracked)).file level p =
      .returned ((k.shelf (core.enrolled g.procs[p].tracked)).refiled level p) .linked :=
    Shelf.file_of_free (hfiles ▸ hs) hr.target fun mark hm =>
      hr.home mark ((g.mark_of_entered p p).symm.trans hm)
  have hprocs : (g.procs.update p (·.entered)).update p (fun r => { r with mark := some level }) =
      g.procs.update p (·.readied level) := by
    rw [Roster.update_update]
    rfl
  have hscored := hr.scored
  rw [procs_of_start hstart] at hscored
  rw [ready_eq hcog, enter_of_start hstart, enrol_of_admits hr.built hadmits, Ending.bind_returned]
  change ∃ lines, k.place _ p _ = _
  rw [place, show k.allocator.config = g.allocator.config from rfl, hscored, Ending.ofExcept,
    Ending.bind_returned, hfile]
  refine ⟨k.lines ++ [.filed k.procs[p].pid (Score.attention h.procs[p].vector.signals) level], ?_⟩
  rw [readied, ← hprocs]
  rfl

/-- If a call returns and files a process, it had what it needs for that. -/
theorem readies_of_ready {g : Host n} (hs : (F.withShelf a (g.shelf core)).Sound)
    (hstart : h.start = .returned g core) (hcog : h.procs[p].cognitive = true)
    (hready : h.ready p = .returned k ()) (hmark : k.procs[p].mark = some level)
    (hthere : (k.allocator.buckets[level]?).isSome) :
    g.Readies core level p ∧ core.Admits g.procs[p].tracked := by
  have hprocs : g.procs = h.procs := procs_of_start hstart
  have hbuilt : g.allocator.core? = some core := core?_of_start hstart
  rw [ready_eq hcog, enter_of_start hstart] at hready
  by_cases hadmits : core.Admits g.procs[p].tracked
  · let k₁ : Host n :=
      ⟨g.allocator.withCore (core.enrolled g.procs[p].tracked), g.procs.update p (·.entered), g.lines⟩
    have hfiles : F.withShelf a k₁.row = F.withShelf a (g.shelf core) :=
      withShelf_congr rfl (g.mark_of_entered p)
    rw [enrol_of_admits hbuilt hadmits, Ending.bind_returned] at hready
    have hbuilt₁ : k₁.allocator.core? = some (core.enrolled g.procs[p].tracked) := rfl
    have hplace := place_ends hbuilt₁ (hfiles ▸ hs) p (Score.attention h.procs[p].vector.signals)
    rw [hready] at hplace
    cases hplace with
    | @refused _ mark alike counters marked absent lines =>
      cases hmark.symm.trans ((alike.mark p).trans marked)
      rw [alike.buckets, absent] at hthere
      cases hthere
    | @filed _ level' started counters scored edits lines =>
      rw [hfiles] at edits
      have hlevel : some level' = some level := (hs.mark_of_link edits).1.symm.trans hmark
      cases hlevel
      obtain ⟨⟨b, hb, free⟩, home⟩ := Files.free_of_edits edits
      rw [← hprocs] at scored hcog
      refine ⟨⟨hcog, hbuilt, scored, ⟨b, ?_, free⟩, fun mark hm => ?_⟩, hadmits⟩
      · rwa [withShelf_own] at hb
      · obtain ⟨c, hc, hheld, hp⟩ := home mark ((g.mark_of_entered p p).trans hm)
        rw [withShelf_own] at hc
        exact ⟨c, hc, hheld, hp⟩
  · obtain ⟨g', fault, hfull⟩ := enrol_of_full hadmits
    rw [hfull] at hready
    cases hready

end Host

end AttentionScheduler
