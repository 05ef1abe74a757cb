import AttentionScheduler.Proofs.Readying
import AttentionScheduler.Host.Call
import Mathlib.Data.List.TakeWhile

/-!
What a selection, a removal and every other call on an allocator do to the files and the counters.
-/

namespace AttentionScheduler

open Files

variable {n : Nat} {F : Files n} {h k : Host n} {a : Nat} {p : Fin n}

/-- How many busy buckets a walk meets before the first one that yields. -/
def Bucket.met (bs : List (Bucket n)) : Nat :=
  (bs.takeWhile fun b => !b.yields).countP Bucket.busy

/-- What a walk logs of the busy buckets that it meets. -/
def Bucket.skips (bs : List (Bucket n)) : List Line :=
  ((bs.takeWhile fun b => !b.yields).filter Bucket.busy).map fun b => .skipped b.level

namespace Bucket

theorem length_skips (bs : List (Bucket n)) : (skips bs).length = met bs := by
  rw [skips, met, List.length_map, List.countP_eq_length_filter]

theorem skips_of_none_yields {bs : List (Bucket n)} (hb : ∀ b ∈ bs, b.yields = false) :
    skips bs = (bs.filter busy).map fun b => .skipped b.level := by
  have he : bs.takeWhile (fun b => !b.yields) = bs := by
    rw [List.takeWhile_eq_self_iff]
    simpa using hb
  rw [skips, he]

theorem skips_append_cons {front rest : List (Bucket n)} {b : Bucket n}
    (hb : ∀ b ∈ front, b.yields = false) (h : b.yields = true) :
    skips (front ++ b :: rest) = (front.filter busy).map fun b => .skipped b.level := by
  have he : (front ++ b :: rest).takeWhile (fun b => !b.yields) = front := by
    rw [List.takeWhile_append_of_pos (by simpa using hb)]
    simp [h]
  rw [skips, he]

theorem met_of_none_yields {bs : List (Bucket n)} (hb : ∀ b ∈ bs, b.yields = false) :
    met bs = (bs.filter busy).length := by
  rw [← length_skips, skips_of_none_yields hb, List.length_map]

theorem met_append_cons {front rest : List (Bucket n)} {b : Bucket n}
    (hb : ∀ b ∈ front, b.yields = false) (h : b.yields = true) :
    met (front ++ b :: rest) = (front.filter busy).length := by
  rw [← length_skips, skips_append_cons hb h, List.length_map]

end Bucket

/-- The lines that tell nothing of buckets and counters. -/
def Line.Plain : Line → Prop
  | .emergencyOn | .emergencyOff | .budgetSet _ => True
  | .dumped text => ∃ d?, text ∈ Dump.report d?
  | _ => False

namespace Host

theorem noteBusy_eq (levels : List Nat) (h : Host n) :
    h.noteBusy levels =
      { h.count fun c => { c with contended := c.contended + UInt64.ofNat levels.length } with
        lines := h.lines ++ levels.map .skipped } := by
  induction levels generalizing h with
  | nil => simp [noteBusy, count, withAllocator]
  | cons level rest ih =>
    have hedit : h.noteBusy (level :: rest) =
        ((h.count fun c => { c with contended := c.contended + 1 }).say (.skipped level)).noteBusy
          rest := rfl
    rw [hedit, ih]
    simp only [count, withAllocator, say, List.length_cons, List.map_cons, List.append_assoc,
      List.singleton_append, UInt64.ofNat_add]
    rw [UInt64.add_assoc, UInt64.add_comm 1]
    rfl

theorem alike_noteBusy (levels : List Nat) : h.Alike (h.noteBusy levels) := by
  rw [noteBusy_eq]
  exact ⟨rfl, fun _ => rfl, rfl, rfl⟩

inductive SelectEnds (F : Files n) (a : Nat) (h : Host n) : Host n × Option (Fin n) → Prop where
  | nobody {k : Host n} (none_yields : ∀ b ∈ h.allocator.buckets, b.yields = false)
      (alike : h.Alike k) (procs : k.procs = h.procs)
      (counters : k.allocator.counters = { h.allocator.counters with
        contended := h.allocator.counters.contended + UInt64.ofNat (Bucket.met h.allocator.buckets) })
      (lines : k.lines = h.lines ++ Bucket.skips h.allocator.buckets) : SelectEnds F a h (k, none)
  | taken {k : Host n} {p : Fin n} {level : Nat} {b : Bucket n}
      (there : h.allocator.buckets[level]? = some b) (free : b.held = false)
      (first : b.members.head? = some p)
      (none_yields : ∀ l < level, ∀ c, h.allocator.buckets[l]? = some c → c.yields = false)
      (started : k.allocator.isStarted = h.allocator.isStarted)
      (config : k.allocator.config = h.allocator.config)
      (counters : k.allocator.counters = { h.allocator.counters with
        contended := h.allocator.counters.contended + UInt64.ofNat (Bucket.met h.allocator.buckets)
        dispatched := h.allocator.counters.dispatched + 1 })
      (edit : Edit (F.withShelf a h.row) (.unlink (.own a level) p) (F.withShelf a k.row))
      (lines : k.lines = h.lines ++ Bucket.skips h.allocator.buckets ++
        [.dispatched h.procs[p].pid b.level]) : SelectEnds F a h (k, some p)

def handOut (h : Host n) (core : Core n) (now : Tick) (w : Sweep n) : Host n × Option (Fin n) :=
  let h := (h.withShelf core w.shelf).noteBusy w.busy
  match w.taken with
  | none => (h, none)
  | some (level, p) =>
    let h := h.touch p (·.withVector (·.stamp now))
    let h := h.count fun c => { c with dispatched := c.dispatched + 1 }
    (h.say (.dispatched h.procs[p].pid level), some p)

theorem selectNext_eq_handOut {core : Core n} (hc : h.allocator.core? = some core) (now : Tick) :
    h.selectNext now = h.handOut core now (.along core.buckets h.procs) := by
  rw [selectNext, hc]
  rfl

theorem select_ends (hs : (F.withShelf a h.row).Sound) (now : Tick) :
    SelectEnds F a h (h.selectNext now) := by
  cases hc : h.allocator.core? with
  | none =>
    have hb : h.allocator.buckets = [] := Allocator.buckets_of_not_started hc
    rw [selectNext, hc]
    refine .nobody (by simp [hb]) (.refl h) rfl ?_ ?_
    · simp [hb, Bucket.met]
    · simp [hb, Bucket.skips]
  | some core =>
    have hb := Allocator.buckets_of_core? hc
    have hp : ∀ b ∈ core.buckets, b.count = b.members.length := hb ▸ hs.shelf_published
    rw [selectNext_eq_handOut hc]
    have hends := Sweep.along_ends h.procs core.buckets hp
    generalize Sweep.along core.buckets h.procs = w at hends
    cases hends with
    | empty none_yields =>
      have hsame : h.Alike (h.withShelf core ⟨core.buckets, h.procs⟩) := alike_shelf hc
      refine .nobody (hb ▸ none_yields) (hsame.trans (alike_noteBusy _)) ?_ ?_ ?_
      · rw [noteBusy_eq]
        rfl
      · rw [noteBusy_eq, hb, Bucket.met_of_none_yields none_yields, List.length_map]
        rfl
      · rw [noteBusy_eq, hb, Bucket.skips_of_none_yields none_yields, List.map_map]
        rfl
    | @taken front rest b p ps split none_yields free first =>
      have there : core.buckets[front.length]? = some b := by simp [split]
      have hy : b.yields = true := by simp [Bucket.yields, free, first]
      let f : Filed n := ⟨b, h.procs⟩
      let t : Shelf n := (h.shelf core).put front.length (f.letGo p ps)
      have ht : t = ⟨front ++ (f.letGo p ps).bucket :: rest, (f.letGo p ps).procs⟩ := by
        simp [t, Shelf.put, shelf, split]
      have hedit : Edit (F.withShelf a (h.shelf core)) (.unlink (.own a front.length) p)
          (F.withShelf a t) := by
        have hf : (h.shelf core).filed? front.length = some f := by
          simp [Shelf.filed?, shelf, there, f]
        have hps : ps = b.members.erase p := by simp [first]
        have hmem : p ∈ f.bucket.members := by simp [f, first]
        have hu := Shelf.unlink_of_filed? (F := F) (a := a) hf free hmem
        rwa [show f.bucket.members.erase p = ps from hps.symm] at hu
      rw [← ht]
      let h₁ := (h.withShelf core t).noteBusy ((front.filter Bucket.busy).map (·.level))
      have hnoted : (h.withShelf core t).Alike h₁ := alike_noteBusy _
      let h₂ := h₁.touch p (·.withVector (·.stamp now))
      let h₃ := h₂.count fun c => { c with dispatched := c.dispatched + 1 }
      have hstamped : h₁.Alike h₂ := alike_touch rfl
      have halike : (h.withShelf core t).Alike (h₃.say (.dispatched h₃.procs[p].pid b.level)) :=
        hnoted.trans (hstamped.trans ((alike_count _).trans (alike_say _)))
      refine .taken (hb ▸ there) free (by simp [first]) ?_ (halike.started.trans ?_)
        halike.config ?_ ?_ ?_
      · intro l hl c hc'
        rw [hb, split, List.getElem?_append_left hl] at hc'
        exact none_yields c (List.mem_of_getElem? hc')
      · exact isStarted_withShelf hc t
      · have hmet : h₁.allocator.counters = { h.allocator.counters with
            contended := h.allocator.counters.contended +
              UInt64.ofNat (Bucket.met h.allocator.buckets) } := by
          simp only [h₁]
          rw [noteBusy_eq, hb, split, Bucket.met_append_cons none_yields hy, List.length_map]
          rfl
        change { h₁.allocator.counters with dispatched := h₁.allocator.counters.dispatched + 1 } = _
        rw [hmet]
      · rw [row_eq_shelf hc, halike.files]
        exact hedit
      · have hreleased : t.procs[p].pid = h.procs[p].pid := by
          change (h.procs.update p (·.release b.level))[p].pid = _
          rw [Roster.getElem_update_self, Record.release]
          split <;> rfl
        have hstamp : h₂.procs[p].pid = h₁.procs[p].pid := touch_keeps (x := (·.pid)) rfl p
        have hpid : h₃.procs[p].pid = h.procs[p].pid := by
          change h₂.procs[p].pid = _
          rw [hstamp, ← hreleased]
          simp only [h₁, noteBusy_eq]
          rfl
        change h₁.lines ++ [.dispatched h₃.procs[p].pid b.level] = _
        rw [hpid]
        simp only [h₁]
        rw [noteBusy_eq, hb, split, Bucket.skips_append_cons none_yields hy, List.map_map]
        rfl

inductive RemoveEnds (F : Files n) (a : Nat) (h : Host n) (p : Fin n) :
    Host n × Removal n → Prop where
  | contended {k : Host n} {mark : Nat} {b : Bucket n} (marked : h.procs[p].mark = some mark)
      (there : h.allocator.buckets[mark]? = some b) (held : b.held = true) (alike : h.Alike k)
      (procs : k.procs = h.procs)
      (counters : k.allocator.counters =
        { h.allocator.counters with contended := h.allocator.counters.contended + 1 })
      (lines : k.lines = h.lines ++ [.removalContended h.procs[p].pid]) :
      RemoveEnds F a h p (k, .contended)
  | notFound {k : Host n}
      (absent : ∀ mark b, h.procs[p].mark = some mark → h.allocator.buckets[mark]? = some b →
        b.held = false ∧ p ∉ b.members)
      (alike : h.Alike k) (counters : k.allocator.counters = h.allocator.counters)
      (lines : k.lines = h.lines) : RemoveEnds F a h p (k, .notFound)
  | removed {k : Host n} {mark : Nat} (marked : h.procs[p].mark = some mark)
      (started : k.allocator.isStarted = h.allocator.isStarted)
      (config : k.allocator.config = h.allocator.config)
      (counters : k.allocator.counters = h.allocator.counters)
      (edit : Edit (F.withShelf a h.row) (.unlink (.own a mark) p) (F.withShelf a k.row))
      (lines : k.lines = h.lines ++ [.removed h.procs[p].pid]) : RemoveEnds F a h p (k, .removed p)

theorem remove_ends (F : Files n) (a : Nat) (h : Host n) (p : Fin n) :
    RemoveEnds F a h p (h.remove p) := by
  unfold remove
  cases hc : h.allocator.core? with
  | none =>
    have hb : h.allocator.buckets = [] := Allocator.buckets_of_not_started hc
    refine .notFound ?_ (.refl h) rfl rfl
    intro mark b _ there
    simp [hb] at there
  | some core =>
    have hb := Allocator.buckets_of_core? hc
    have hsame : h.Alike (h.withShelf core (h.shelf core)) := alike_shelf hc
    have hends := Shelf.withdraw_ends F a (h.shelf core) p
    dsimp only
    generalize (h.shelf core).withdraw p = w at hends
    cases hends with
    | contended marked there held =>
      exact .contended marked (hb ▸ there) held (hsame.trans ((alike_count _).trans (alike_say _)))
        rfl rfl rfl
    | notFound absent => exact .notFound (hb ▸ absent) hsame rfl rfl
    | @removed mark t marked edit =>
      rw [← row_eq_shelf hc] at edit
      exact .removed marked (isStarted_withShelf hc t) rfl rfl edit rfl

theorem alike_untrack (h : Host n) (p : Fin n) :
    h.Alike (h.untrack p) ∧ (h.untrack p).allocator.counters = h.allocator.counters := by
  unfold untrack
  split
  · let h₁ := h.touch p fun record => { record with tracked := false }
    have ha : h.Alike h₁ := alike_touch rfl
    dsimp only
    split
    · exact ⟨ha, rfl⟩
    · next core hc => exact ⟨ha.trans (alike_withCore (h := h₁) hc rfl), rfl⟩
  · exact ⟨.refl h, rfl⟩

theorem untrack_lines (h : Host n) (p : Fin n) : (h.untrack p).lines = h.lines := by
  unfold untrack
  split
  · dsimp only
    split <;> rfl
  · rfl

theorem untrack_tracked (h : Host n) (p : Fin n) : (h.untrack p).procs[p].tracked = false := by
  unfold untrack
  split
  · dsimp only
    split
    · rw [touch, Roster.getElem_update_self]
    · rw [withCore, withAllocator, touch, Roster.getElem_update_self]
  · next ht => exact Bool.eq_false_iff.mpr ht

theorem retire_ends (F : Files n) (a : Nat) (h : Host n) (p : Fin n) :
    RemoveEnds F a h p (h.retire p) := by
  have hends := remove_ends F a h p
  unfold retire
  generalize h.remove p = r at hends
  obtain ⟨k, hcount⟩ := alike_untrack r.1 p
  have hlines := r.1.untrack_lines p
  cases hends with
  | contended marked there held alike procs counters lines =>
    exact .contended marked there held alike procs counters lines
  | notFound absent alike counters lines =>
    exact .notFound absent (alike.trans k) (hcount.trans counters) (hlines.trans lines)
  | removed marked started config counters edit lines =>
    refine .removed marked (k.started.trans started) (k.config.trans config)
      (hcount.trans counters) ?_ (hlines.trans lines)
    rw [k.files]
    exact edit

theorem retire_tracked (h : Host n) (p : Fin n) (hr : (h.retire p).2 ≠ .contended) :
    (h.retire p).1.procs[p].tracked = false := by
  unfold retire at hr ⊢
  cases hw : (h.remove p).2 with
  | contended => simp [hw, Removal.isContended] at hr
  | notFound =>
    simp only [hw, Removal.isContended, Bool.false_eq_true, ↓reduceIte]
    exact untrack_tracked _ p
  | removed q =>
    simp only [hw, Removal.isContended, Bool.false_eq_true, ↓reduceIte]
    exact untrack_tracked _ p

inductive RefreshEnds (h : Host n) (p : Fin n) : Ending (Host n) Unit → Prop where
  | faulted {k : Host n} {fault : Fault} (alike : h.Alike k)
      (counters : k.allocator.counters = h.allocator.counters) (lines : k.lines = h.lines) :
      RefreshEnds h p (.faulted k fault)
  | stuck (stop : Stop) : RefreshEnds h p (.stuck stop)
  | idle : RefreshEnds h p (.returned h ())
  | written {k : Host n} (alike : h.Alike k) (changed : k.procs[p].vector ≠ h.procs[p].vector)
      (counters : k.allocator.counters =
        { h.allocator.counters with refreshes := h.allocator.counters.refreshes + 1 })
      (lines : ∃ now, k.lines = h.lines ++ [.refreshed h.procs[p].pid now]) :
      RefreshEnds h p (.returned k ())

theorem stampRing_alike (h : Host n) (now : Tick) :
    (h.stampRing now).Leaves fun k =>
      h.Alike k ∧ k.procs = h.procs ∧ k.allocator.counters = h.allocator.counters ∧
        k.lines = h.lines := by
  unfold stampRing
  split
  · exact ⟨.refl h, rfl, rfl, rfl⟩
  · next core hc =>
    cases core.tensor.advance now with
    | error fault => exact ⟨.refl h, rfl, rfl, rfl⟩
    | ok r => exact ⟨alike_withCore hc rfl, rfl, rfl, rfl⟩

theorem refreshed_ne {r : Record} {clock : Clock} (c : Config) (hg : r.gap clock.now ≠ 0) :
    (r.refreshed c clock).vector ≠ r.vector := by
  intro h
  apply hg
  have hl : clock.now = r.vector.lastUpdate := congrArg FeatureVector.lastUpdate h
  rw [Record.gap, hl, UInt64.sub_self]

theorem refresh_ends (h : Host n) (clock : Clock) (p : Fin n) :
    RefreshEnds h p (h.refresh clock p) := by
  unfold refresh
  dsimp only
  split
  · split
    · exact .faulted (.refl h) rfl rfl
    · split
      · exact .idle
      · next hg =>
        let h₁ := h.touch p (·.refreshed h.allocator.config clock)
        have ha : h.Alike h₁ := alike_touch rfl
        have hne : h₁.procs[p].vector ≠ h.procs[p].vector := by
          simp only [h₁, touch]
          rw [Roster.getElem_update_self]
          exact refreshed_ne _ hg
        have hring := stampRing_alike h₁ clock.now
        change RefreshEnds h p ((h₁.stampRing clock.now).bind _)
        generalize h₁.stampRing clock.now = e at hring
        cases e with
        | faulted k fault => exact .faulted (ha.trans hring.1) hring.2.2.1 hring.2.2.2
        | stuck stop => exact .stuck stop
        | returned k u =>
          obtain ⟨hk, hp, hcount, hlines⟩ := hring
          have hpid : k.procs[p].pid = h.procs[p].pid := by
            rw [hp, touch_keeps (x := (·.pid)) rfl]
          refine .written (ha.trans (hk.trans ?_)) ?_ ?_ ⟨clock.now, ?_⟩
          · exact ⟨rfl, fun _ => rfl, rfl, rfl⟩
          · exact hp ▸ hne
          · change { k.allocator.counters with refreshes := k.allocator.counters.refreshes + 1 } = _
            rw [hcount]
            rfl
          · change k.lines ++ [.refreshed k.procs[p].pid clock.now] = _
            rw [hpid, hlines]
            rfl
  · exact .idle

structure Quiet (h k : Host n) : Prop where
  alike : h.Alike k
  counters : k.allocator.counters = h.allocator.counters
  lines : ∃ ls, k.lines = h.lines ++ ls ∧ ∀ l ∈ ls, l.Plain

theorem Quiet.of_silent (ha : h.Alike k) (hc : k.allocator.counters = h.allocator.counters)
    (hl : k.lines = h.lines) : h.Quiet k :=
  ⟨ha, hc, [], by rw [hl, List.append_nil], by simp⟩

theorem Quiet.refl (h : Host n) : h.Quiet h := .of_silent (.refl h) rfl rfl

theorem Quiet.say {l : Line} (hk : h.Quiet k) (hl : l.Plain) : h.Quiet (k.say l) := by
  obtain ⟨ls, hls, hall⟩ := hk.lines
  refine ⟨hk.alike.trans (alike_say _), hk.counters, ls ++ [l], ?_, ?_⟩
  · rw [Host.say, hls, List.append_assoc]
  · intro m hm
    rcases List.mem_append.mp hm with hm | hm
    · exact hall m hm
    · rw [List.mem_singleton.mp hm]
      exact hl

theorem dump_quiet (h : Host n) : h.dump.Leaves h.Quiet := by
  unfold dump
  split
  · exact .refl h
  · split
    · trivial
    · exact .refl h

theorem quiet_foldl_say {α : Type} {f : α → Line} {xs : List α} (hf : ∀ x ∈ xs, (f x).Plain)
    (hk : h.Quiet k) : h.Quiet (xs.foldl (fun g x => g.say (f x)) k) := by
  induction xs generalizing k with
  | nil => exact hk
  | cons x xs ih =>
    exact ih (fun y hy => hf y (List.mem_cons_of_mem _ hy)) (hk.say (hf x List.mem_cons_self))

theorem dumpToLog_quiet (h : Host n) : h.dumpToLog.Leaves h.Quiet :=
  (dump_quiet h).bind fun _ d? hk => quiet_foldl_say (fun _ hs => ⟨d?, hs⟩) hk

theorem viewBuckets_quiet (h : Host n) : h.viewBuckets.Leaves h.Quiet := by
  unfold viewBuckets
  split
  · trivial
  · exact .refl h

theorem callTensor_quiet (h : Host n) (call : TensorCall) : (h.callTensor call).Leaves h.Quiet := by
  unfold callTensor
  split
  · exact .refl h
  · next core hc =>
    have hall : (core.tensor.call call).Leaves fun _ => True := by
      cases core.tensor.call call <;> trivial
    exact hall.map fun tensor _ => .of_silent (alike_withCore hc rfl) rfl rfl

theorem setFeature_quiet (h : Host n) (p : Fin n) (i : Nat) (x : Single) :
    h.Quiet (h.setFeature p i x) := by
  unfold setFeature
  split
  · exact .of_silent (alike_touch rfl) rfl rfl
  · exact .refl h

end Host

def HostCall.quiet : HostCall n → Bool
  | start | ready _ | select | drain | remove _ | retire _ | refresh _ => false
  | _ => true

end AttentionScheduler
