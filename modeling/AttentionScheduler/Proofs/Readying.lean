import AttentionScheduler.Host.Filing
import AttentionScheduler.Proofs.Shelves

/-!
What the calls on an allocator do to the files, and what they count while they do it.
-/

namespace AttentionScheduler

open Files

variable {n : Nat} {F : Files n} {h k : Host n} {a : Nat} {p : Fin n}

namespace Allocator

theorem buckets_of_core? {x : Allocator n} {core : Core n} (hc : x.core? = some core) :
    x.buckets = core.buckets := by
  simp only [buckets, hc]

theorem buckets_of_not_started {x : Allocator n} (hc : x.core? = none) : x.buckets = [] := by
  simp only [buckets, hc]

theorem isStarted_of_core? {x : Allocator n} {core : Core n} (hc : x.core? = some core) :
    x.isStarted = true := by
  rw [isStarted, hc]
  rfl

@[simp] theorem buckets_withCore (x : Allocator n) (core : Core n) :
    (x.withCore core).buckets = core.buckets := rfl

end Allocator

namespace Host

def row (h : Host n) : Shelf n := ⟨h.allocator.buckets, h.procs⟩

theorem touch_keeps {α : Type} {x : Record → α} {r : Record → Record}
    (hr : x (r h.procs[p]) = x h.procs[p]) (q : Fin n) : x (h.touch p r).procs[q] = x h.procs[q] := by
  by_cases hq : q = p
  · subst hq
    rw [touch, Roster.getElem_update_self, hr]
  · rw [touch, Roster.getElem_update_ne _ hq]

theorem mark_touch {r : Record → Record} (hr : (r h.procs[p]).mark = h.procs[p].mark) (q : Fin n) :
    (h.touch p r).procs[q].mark = h.procs[q].mark :=
  touch_keeps hr q

theorem row_eq_shelf {core : Core n} (hc : h.allocator.core? = some core) : h.row = h.shelf core := by
  rw [row, shelf, Allocator.buckets_of_core? hc]

/-- The start that happens between `h` and `k`, if one does. -/
def opening (a : Nat) (h k : Host n) : List (Change n) :=
  if h.allocator.isStarted then []
  else if k.allocator.isStarted then [.shelve a h.allocator.config.levels]
  else []

theorem opening_of_core? {core : Core n} (hc : h.allocator.core? = some core) (a : Nat)
    (k : Host n) : opening a h k = [] := by
  simp [opening, Allocator.isStarted_of_core? hc]

theorem opening_congr (he : h.allocator.isStarted = k.allocator.isStarted) (a : Nat) :
    opening a h k = [] := by
  cases hs : h.allocator.isStarted <;> simp [opening, hs, ← he]

/-- What is logged of it. -/
def greeting (h k : Host n) : List Line :=
  let c := h.allocator.config
  if h.allocator.isStarted then []
  else if k.allocator.isStarted then
    [.started c.levels c.maxProcs.toNat c.timeWindow.toNat c.attentionBudget]
  else []

theorem greeting_of_core? {core : Core n} (hc : h.allocator.core? = some core) (k : Host n) :
    greeting h k = [] := by
  simp [greeting, Allocator.isStarted_of_core? hc]

theorem greeting_congr (he : h.allocator.isStarted = k.allocator.isStarted) : greeting h k = [] := by
  cases hs : h.allocator.isStarted <;> simp [greeting, hs, ← he]

structure Alike (h k : Host n) : Prop where
  buckets : k.allocator.buckets = h.allocator.buckets
  mark : ∀ q : Fin n, k.procs[q].mark = h.procs[q].mark
  started : k.allocator.isStarted = h.allocator.isStarted
  config : k.allocator.config = h.allocator.config

theorem Alike.refl (h : Host n) : h.Alike h := ⟨rfl, fun _ => rfl, rfl, rfl⟩

theorem Alike.trans {g : Host n} (hg : g.Alike h) (hk : h.Alike k) : g.Alike k :=
  ⟨hk.buckets.trans hg.buckets, fun q => (hk.mark q).trans (hg.mark q),
    hk.started.trans hg.started, hk.config.trans hg.config⟩

theorem Alike.files (hk : h.Alike k) : F.withShelf a k.row = F.withShelf a h.row :=
  withShelf_congr hk.buckets hk.mark

theorem Alike.opening (hk : h.Alike k) (g : Host n) : opening a g k = opening a g h := by
  simp only [Host.opening, hk.started]

theorem Alike.greeting (hk : h.Alike k) (g : Host n) : greeting g k = greeting g h := by
  simp only [Host.greeting, hk.started]

theorem alike_touch {r : Record → Record} (hr : (r h.procs[p]).mark = h.procs[p].mark) :
    h.Alike (h.touch p r) :=
  ⟨rfl, mark_touch hr, rfl, rfl⟩

theorem alike_say (l : Line) : h.Alike (h.say l) := ⟨rfl, fun _ => rfl, rfl, rfl⟩

theorem alike_count (f : Counters → Counters) : h.Alike (h.count f) := ⟨rfl, fun _ => rfl, rfl, rfl⟩

theorem alike_withCore {core core' : Core n} (hc : h.allocator.core? = some core)
    (hb : core'.buckets = core.buckets) : h.Alike (h.withCore core') := by
  refine ⟨?_, fun _ => rfl, ?_, rfl⟩
  · rw [Allocator.buckets_of_core? hc, ← hb]
    rfl
  · rw [Allocator.isStarted_of_core? hc]
    rfl

theorem isStarted_withShelf {core : Core n} (hc : h.allocator.core? = some core) (s : Shelf n) :
    (h.withShelf core s).allocator.isStarted = h.allocator.isStarted := by
  rw [Allocator.isStarted_of_core? hc]
  rfl

theorem withShelf_self {core : Core n} (hc : k.allocator.core? = some core) :
    k.withShelf core (k.shelf core) = k := by
  obtain ⟨⟨config, startup, _, _, _, _⟩, procs, lines⟩ := k
  cases startup <;> cases hc
  rfl

theorem alike_shelf {core : Core n} (hc : h.allocator.core? = some core) :
    h.Alike (h.withShelf core (h.shelf core)) := by
  rw [withShelf_self hc]
  exact .refl h

inductive StartEnds (F : Files n) (a : Nat) (h : Host n) : Ending (Host n) (Core n) → Prop where
  | faulted {k : Host n} {fault : Fault} (alike : h.Alike k)
      (counters : k.allocator.counters = h.allocator.counters) (lines : k.lines = h.lines) :
      StartEnds F a h (.faulted k fault)
  | returned {k : Host n} {core : Core n} (built : k.allocator.core? = some core)
      (procs : k.procs = h.procs) (config : k.allocator.config = h.allocator.config)
      (counters : k.allocator.counters = h.allocator.counters)
      (edits : Edits (F.withShelf a h.row) (opening a h k) (F.withShelf a k.row))
      (lines : k.lines = h.lines ++ greeting h k) : StartEnds F a h (.returned k core)

theorem build_buckets {c : Config} {core : Core n} (hb : Core.build c = .ok core) :
    core.buckets = Core.emptyBuckets c.levels := by
  unfold Core.build at hb
  cases hr : Word.reserve c.levels Core.bucketBytes with
  | error fault =>
    rw [hr] at hb
    cases hb
  | ok =>
    rw [hr] at hb
    cases ht : Tensor.create c.maxProcs.toNat c.timeWindow.toNat with
    | error fault =>
      rw [ht] at hb
      cases hb
    | ok tensor =>
      rw [ht] at hb
      cases hb
      rfl

theorem shelve_edit (hc : h.allocator.core? = none) {core : Core n}
    (hb : Core.build h.allocator.config = .ok core) (hp : k.procs = h.procs)
    (hk : k.allocator.core? = some core) :
    Edit (F.withShelf a h.row) (.shelve a h.allocator.config.levels) (F.withShelf a k.row) := by
  have he : F.withShelf a k.row =
      (F.withShelf a h.row).withRow a (Core.emptyBuckets h.allocator.config.levels) := by
    apply Files.ext
    · intro place
      cases place with
      | own x l =>
        by_cases hx : x = a
        · subst hx
          simp [withRow, row, Allocator.buckets_of_core? hk, build_buckets hb]
        · have hne : (Place.own x l).allocator? ≠ some a := by simpa [Place.allocator?] using hx
          rw [withShelf_of_ne hne, withRow_of_ne hne, withShelf_of_ne hne]
      | loose i => rfl
    · intro q
      simp [withRow, row, hp]
  rw [he]
  apply Edit.shelve
  · intro l
    rw [withShelf_own, row, Allocator.buckets_of_not_started hc]
    rfl
  · have := h.allocator.config.levels_lt
    simp only [unmarkedLevel]
    omega

theorem start_ends (F : Files n) (a : Nat) (h : Host n) : StartEnds F a h h.start := by
  unfold start
  cases hs : h.allocator.startup with
  | built core =>
    have hc : h.allocator.core? = some core := by rw [Allocator.core?, hs]
    refine .returned hc rfl rfl rfl ?_ ?_
    · rw [opening_of_core? hc]
      exact .nil _
    · rw [greeting_of_core? hc, List.append_nil]
  | failed => exact .faulted (.refl h) rfl rfl
  | pending =>
    have hc : h.allocator.core? = none := by rw [Allocator.core?, hs]
    cases hb : Core.build h.allocator.config (n := n) with
    | error fault =>
      simp only [hb]
      refine .faulted ⟨?_, fun _ => rfl, ?_, rfl⟩ rfl rfl
      · rw [Allocator.buckets_of_not_started hc]
        rfl
      · simp only [Allocator.isStarted, hc]
        rfl
    | ok core =>
      simp only [hb]
      apply StartEnds.returned
      · rfl
      · rfl
      · rfl
      · rfl
      · simp only [opening, Allocator.isStarted, hc, Option.isSome_none, Bool.false_eq_true,
          ↓reduceIte]
        exact .single (shelve_edit hc hb rfl rfl)
      · simp only [greeting, Allocator.isStarted, hc, Option.isSome_none, Bool.false_eq_true,
          ↓reduceIte]
        rfl

inductive EnrolEnds (h : Host n) (core : Core n) : Ending (Host n) (Core n) → Prop where
  | faulted {k : Host n} {fault : Fault} (alike : h.Alike k)
      (counters : k.allocator.counters = h.allocator.counters) (lines : k.lines = h.lines) :
      EnrolEnds h core (.faulted k fault)
  | returned {k : Host n} {core' : Core n} (built : k.allocator.core? = some core')
      (alike : h.Alike k) (counters : k.allocator.counters = h.allocator.counters)
      (lines : k.lines = h.lines) (pids : ∀ q : Fin n, k.procs[q].pid = h.procs[q].pid) :
      EnrolEnds h core (.returned k core')

theorem enrol_ends {core : Core n} (hc : h.allocator.core? = some core) (p : Fin n) :
    EnrolEnds h core (h.enrol core p) := by
  unfold enrol
  split
  · exact .returned hc (.refl h) rfl rfl fun _ => rfl
  · let h₁ := h.touch p fun record => { record with tracked := true }
    have ha : h.Alike h₁ := alike_touch rfl
    cases ht : core.tensor.track with
    | error fault => exact .faulted ha rfl rfl
    | ok tensor =>
      exact .returned rfl (ha.trans (alike_withCore (h := h₁) hc rfl)) rfl rfl
        (touch_keeps (x := (·.pid)) rfl)

inductive PlaceEnds (F : Files n) (a : Nat) (h : Host n) (p : Fin n) (score : Single) :
    Ending (Host n) Unit → Prop where
  | stuck (stop : Stop) : PlaceEnds F a h p score (.stuck stop)
  | faulted {k : Host n} {fault : Fault} (alike : h.Alike k)
      (counters : k.allocator.counters = h.allocator.counters) (lines : k.lines = h.lines) :
      PlaceEnds F a h p score (.faulted k fault)
  | refused {k : Host n} {mark : Nat} (alike : h.Alike k)
      (counters : k.allocator.counters = h.allocator.counters)
      (marked : h.procs[p].mark = some mark) (absent : h.allocator.buckets[mark]? = none)
      (lines : k.lines = h.lines ++ [.foreign h.procs[p].pid mark]) :
      PlaceEnds F a h p score (.returned k ())
  | filed {k : Host n} {level : Nat} (started : k.allocator.isStarted = true)
      (counters : k.allocator.counters =
        { h.allocator.counters with enqueued := h.allocator.counters.enqueued + 1 })
      (scored : Level.ofScore h.allocator.config.levels score = .ok level)
      (edits : Edits (F.withShelf a h.row)
        (Shelf.leaving a h.procs[p].mark p ++ [.link (.own a level) p]) (F.withShelf a k.row))
      (lines : k.lines = h.lines ++ [.filed h.procs[p].pid score level]) :
      PlaceEnds F a h p score (.returned k ())

theorem place_ends {core : Core n} (hc : h.allocator.core? = some core)
    (hs : (F.withShelf a h.row).Sound) (p : Fin n) (score : Single) :
    PlaceEnds F a h p score (h.place core p score) := by
  unfold place
  cases hl : Level.ofScore h.allocator.config.levels score with
  | error fault => exact .faulted (.refl h) rfl rfl
  | ok level =>
    simp only [Ending.ofExcept, Ending.bind_returned]
    rw [row_eq_shelf hc] at hs
    have hrow : h.Alike (h.withShelf core (h.shelf core)) := alike_shelf hc
    have hends := Shelf.file_ends hs level p
    generalize (h.shelf core).file level p = e at hends
    cases hends with
    | faulted fault => exact .faulted hrow rfl rfl
    | stuck stop => exact .stuck stop
    | refused marked absent =>
      rw [← row_eq_shelf hc] at absent
      exact .refused (hrow.trans (alike_say _)) rfl marked absent rfl
    | linked edits =>
      rw [← row_eq_shelf hc] at edits
      exact .filed rfl rfl hl edits rfl

inductive ReadyEnds (F : Files n) (a : Nat) (h : Host n) (p : Fin n) :
    Ending (Host n) Unit → Prop where
  | ignored (plain : h.procs[p].cognitive = false) : ReadyEnds F a h p (.returned h ())
  | stuck (stop : Stop) : ReadyEnds F a h p (.stuck stop)
  | faulted {k : Host n} {fault : Fault} (cognitive : h.procs[p].cognitive = true)
      (counters : k.allocator.counters = h.allocator.counters)
      (edits : Edits (F.withShelf a h.row) (opening a h k) (F.withShelf a k.row))
      (lines : k.lines = h.lines ++ greeting h k) : ReadyEnds F a h p (.faulted k fault)
  | refused {k : Host n} {mark : Nat} (cognitive : h.procs[p].cognitive = true)
      (counters : k.allocator.counters = h.allocator.counters)
      (marked : k.procs[p].mark = some mark) (absent : k.allocator.buckets[mark]? = none)
      (edits : Edits (F.withShelf a h.row) (opening a h k) (F.withShelf a k.row))
      (lines : k.lines = h.lines ++ greeting h k ++ [.foreign h.procs[p].pid mark]) :
      ReadyEnds F a h p (.returned k ())
  | filed {k : Host n} {level : Nat} (cognitive : h.procs[p].cognitive = true)
      (counters : k.allocator.counters =
        { h.allocator.counters with enqueued := h.allocator.counters.enqueued + 1 })
      (scored : Level.ofScore h.allocator.config.levels
        (Score.attention h.procs[p].vector.signals) = .ok level)
      (marked : k.procs[p].mark = some level) (there : (k.allocator.buckets[level]?).isSome)
      (edits : Edits (F.withShelf a h.row)
        (opening a h k ++ (Shelf.leaving a h.procs[p].mark p ++ [.link (.own a level) p]))
        (F.withShelf a k.row))
      (lines : k.lines = h.lines ++ greeting h k ++
        [.filed h.procs[p].pid (Score.attention h.procs[p].vector.signals) level]) :
      ReadyEnds F a h p (.returned k ())

theorem ready_ends (hs : (F.withShelf a h.row).Sound) (p : Fin n) :
    ReadyEnds F a h p (h.ready p) := by
  unfold ready
  cases hcog : h.procs[p].cognitive with
  | false =>
    simp only [Bool.false_eq_true, ↓reduceIte]
    exact .ignored hcog
  | true =>
    simp only [↓reduceIte]
    have hstart := start_ends F a h
    generalize h.start = e at hstart
    cases hstart with
    | faulted alike counters lines =>
      refine .faulted hcog counters ?_ ?_
      · rw [opening_congr alike.started.symm, alike.files]
        exact .nil _
      · rw [greeting_congr alike.started.symm, List.append_nil, lines]
    | @returned h₁ core built procs config counters edits lines =>
      simp only [Ending.bind_returned]
      let h₂ := h₁.touch p (·.withVector (·.rescore))
      have ha₂ : h₁.Alike h₂ := alike_touch rfl
      have henrol : EnrolEnds h₂ core (h₂.enrol core p) := enrol_ends (h := h₂) built p
      change ReadyEnds F a h p ((h₂.enrol core p).bind _)
      generalize h₂.enrol core p = e at henrol
      cases henrol with
      | faulted alike counters' lines' =>
        refine .faulted hcog (counters'.trans counters) ?_ ?_
        · rw [(ha₂.trans alike).opening, (ha₂.trans alike).files]
          exact edits
        · rw [(ha₂.trans alike).greeting]
          exact lines'.trans lines
      | @returned h₃ core' built' alike counters' lines' pids =>
        have ha₃ := ha₂.trans alike
        have hfiles : F.withShelf a h₃.row = F.withShelf a h₁.row := ha₃.files
        have hmark : h₃.procs[p].mark = h.procs[p].mark := by rw [ha₃.mark, procs]
        have hpid : h₃.procs[p].pid = h.procs[p].pid := by
          rw [pids, touch_keeps (x := (·.pid)) rfl, procs]
        have hcount : h₃.allocator.counters = h.allocator.counters := counters'.trans counters
        have hsound : (F.withShelf a h₃.row).Sound := hfiles ▸ hs.edits edits
        have hlines : h₃.lines = h.lines ++ greeting h h₃ := by
          rw [ha₃.greeting]
          exact lines'.trans lines
        rw [← hfiles, ← ha₃.opening] at edits
        simp only [Ending.bind_returned]
        have hplace := place_ends built' hsound p (Score.attention h₁.procs[p].vector.signals)
        rw [procs] at hplace ⊢
        generalize h₃.place core' p (Score.attention h.procs[p].vector.signals) = e at hplace
        cases hplace with
        | stuck stop => exact .stuck stop
        | faulted alike' counters'' lines'' =>
          refine .faulted hcog (counters''.trans hcount) ?_ ?_
          · rw [alike'.opening, alike'.files]
            exact edits
          · rw [alike'.greeting, lines'', hlines]
        | refused alike' counters'' marked absent lines'' =>
          refine .refused hcog (counters''.trans hcount) ((alike'.mark p).trans marked)
            (alike'.buckets ▸ absent) ?_ ?_
          · rw [alike'.opening, alike'.files]
            exact edits
          · rw [alike'.greeting, lines'', hlines, hpid]
        | @filed k level started counters'' scored edits' lines'' =>
          rw [hcount] at counters''
          rw [ha₃.config, config] at scored
          have started₃ := Allocator.isStarted_of_core? built'
          have hopening : opening a h k = opening a h h₃ := by
            simp only [opening, started, started₃]
          have hgreeting : greeting h k = greeting h h₃ := by
            simp only [greeting, started, started₃]
          have hall := edits.trans edits'
          rw [← hopening, hmark] at hall
          have hlast := hs.mark_of_link (List.append_assoc _ _ _ ▸ hall)
          rw [withShelf_own] at hlast
          refine .filed hcog counters'' scored hlast.1 hlast.2 hall ?_
          rw [hgreeting, lines'', hlines, hpid]

end Host

end AttentionScheduler
