import AttentionScheduler.Proofs.Dispatching
import AttentionScheduler.Session.Call

/-!
What a call on an allocator does, whatever the call, in one account. Only a drain is left out, which is
a series of selections.
-/

namespace AttentionScheduler

open Files

variable {n : Nat}

namespace Answer

/-- Whether the answer is none of a call that takes processes out. -/
def mute : Answer n → Bool
  | host (.selected _) | host (.drained _) | host (.removal _) | bucket (.removal _) => false
  | _ => true

end Answer

namespace Host

variable {F : Files n} {h k : Host n} {a : Nat} {p : Fin n} {call : HostCall n}

inductive Does (F : Files n) (a : Nat) (h : Host n) : HostCall n → Host n → Answer n → Prop where
  | quiet {call : HostCall n} {k : Host n} {answer : Answer n} (kind : call.quiet = true)
      (quiet : h.Quiet k) (mute : answer.mute = true) : Does F a h call k answer
  | faulted {call : HostCall n} {k : Host n} {fault : Fault}
      (counters : k.allocator.counters = h.allocator.counters)
      (edits : Edits (F.withShelf a h.row) (opening a h k) (F.withShelf a k.row))
      (lines : k.lines = h.lines ++ greeting h k) : Does F a h call k (.fault fault)
  | started {k : Host n} {on : Bool} (counters : k.allocator.counters = h.allocator.counters)
      (edits : Edits (F.withShelf a h.row) (opening a h k) (F.withShelf a k.row))
      (lines : k.lines = h.lines ++ greeting h k) : Does F a h .start k (.host (.started on))
  | ignored {p : Fin n} (plain : h.procs[p].cognitive = false) :
      Does F a h (.ready p) h (.host (.mark h.procs[p].mark))
  | refused {p : Fin n} {k : Host n} {mark : Nat}
      (cognitive : h.procs[p].cognitive = true)
      (counters : k.allocator.counters = h.allocator.counters)
      (absent : k.allocator.buckets[mark]? = none)
      (edits : Edits (F.withShelf a h.row) (opening a h k) (F.withShelf a k.row))
      (marked : k.procs[p].mark = some mark)
      (lines : k.lines = h.lines ++ greeting h k ++ [.foreign h.procs[p].pid mark]) :
      Does F a h (.ready p) k (.host (.mark (some mark)))
  | filed {p : Fin n} {k : Host n} {level : Nat} (cognitive : h.procs[p].cognitive = true)
      (counters : k.allocator.counters =
        { h.allocator.counters with enqueued := h.allocator.counters.enqueued + 1 })
      (scored : Level.ofScore h.allocator.config.levels
        (Score.attention h.procs[p].vector.signals) = .ok level)
      (there : (k.allocator.buckets[level]?).isSome)
      (edits : Edits (F.withShelf a h.row)
        (opening a h k ++ (Shelf.leaving a h.procs[p].mark p ++ [.link (.own a level) p]))
        (F.withShelf a k.row))
      (lines : k.lines = h.lines ++ greeting h k ++
        [.filed h.procs[p].pid (Score.attention h.procs[p].vector.signals) level]) :
      Does F a h (.ready p) k (.host (.mark (some level)))
  | nobody {k : Host n} (none_yields : ∀ b ∈ h.allocator.buckets, b.yields = false)
      (alike : h.Alike k)
      (counters : k.allocator.counters = { h.allocator.counters with
        contended := h.allocator.counters.contended + .ofNat (Bucket.met h.allocator.buckets) })
      (lines : k.lines = h.lines ++ Bucket.skips h.allocator.buckets) :
      Does F a h .select k (.host (.selected none))
  | taken {k : Host n} {p : Fin n} {level : Nat} {b : Bucket n}
      (there : h.allocator.buckets[level]? = some b) (free : b.held = false)
      (first : b.members.head? = some p)
      (none_yields : ∀ l < level, ∀ c, h.allocator.buckets[l]? = some c → c.yields = false)
      (started : k.allocator.isStarted = h.allocator.isStarted)
      (counters : k.allocator.counters = { h.allocator.counters with
        contended := h.allocator.counters.contended + .ofNat (Bucket.met h.allocator.buckets)
        dispatched := h.allocator.counters.dispatched + 1 })
      (edit : Edit (F.withShelf a h.row) (.unlink (.own a level) p) (F.withShelf a k.row))
      (lines : k.lines = h.lines ++ Bucket.skips h.allocator.buckets ++
        [.dispatched h.procs[p].pid b.level]) :
      Does F a h .select k (.host (.selected (some p)))
  | contended {call : HostCall n} {p : Fin n} {k : Host n} {mark : Nat} {b : Bucket n}
      (kind : call = .remove p ∨ call = .retire p) (marked : h.procs[p].mark = some mark)
      (there : h.allocator.buckets[mark]? = some b) (held : b.held = true) (alike : h.Alike k)
      (procs : k.procs = h.procs)
      (counters : k.allocator.counters =
        { h.allocator.counters with contended := h.allocator.counters.contended + 1 })
      (lines : k.lines = h.lines ++ [.removalContended h.procs[p].pid]) :
      Does F a h call k (.host (.removal .contended))
  | notFound {call : HostCall n} {p : Fin n} {k : Host n}
      (kind : call = .remove p ∨ call = .retire p)
      (absent : ∀ mark b, h.procs[p].mark = some mark → h.allocator.buckets[mark]? = some b →
        b.held = false ∧ p ∉ b.members)
      (alike : h.Alike k) (counters : k.allocator.counters = h.allocator.counters)
      (lines : k.lines = h.lines) : Does F a h call k (.host (.removal .notFound))
  | removed {call : HostCall n} {p : Fin n} {k : Host n} {mark : Nat}
      (kind : call = .remove p ∨ call = .retire p) (marked : h.procs[p].mark = some mark)
      (started : k.allocator.isStarted = h.allocator.isStarted)
      (counters : k.allocator.counters = h.allocator.counters)
      (edit : Edit (F.withShelf a h.row) (.unlink (.own a mark) p) (F.withShelf a k.row))
      (lines : k.lines = h.lines ++ [.removed h.procs[p].pid]) :
      Does F a h call k (.host (.removal (.removed p)))
  | idle {p : Fin n} : Does F a h (.refresh p) h (.host .done)
  | written {p : Fin n} {k : Host n} (alike : h.Alike k)
      (changed : k.procs[p].vector ≠ h.procs[p].vector)
      (counters : k.allocator.counters =
        { h.allocator.counters with refreshes := h.allocator.counters.refreshes + 1 })
      (lines : ∃ now, k.lines = h.lines ++ [.refreshed h.procs[p].pid now]) :
      Does F a h (.refresh p) k (.host .done)

theorem Does.faulted_of_alike {fault : Fault} (hk : h.Alike k)
    (hc : k.allocator.counters = h.allocator.counters) (hl : k.lines = h.lines) :
    h.Does F a call k (.fault fault) := by
  apply Does.faulted hc
  · rw [opening_congr hk.started.symm, hk.files]
    exact .nil _
  · rw [greeting_congr hk.started.symm, List.append_nil, hl]

def Gives (P : Host n → Answer n → Prop) : Ending (Host n) (HostAnswer n) → Prop
  | .returned k answer => P k (.host answer)
  | .faulted k fault => P k (.fault fault)
  | .stuck _ => True

theorem gives_mapAnswer {α : Type} {P : Host n → Answer n → Prop} {e : Ending (Host n) α}
    {g : α → HostAnswer n} (he : e.Leaves fun k => ∀ answer : Answer n, answer.mute = true → P k answer)
    (hg : ∀ x, (Answer.host (g x)).mute = true) : Gives P (e.mapAnswer g) := by
  cases e with
  | returned k x => exact he _ (hg x)
  | faulted k fault => exact he _ rfl
  | stuck stop => trivial

theorem quiet_does (clock : Clock) (hq : call.quiet = true) :
    Gives (h.Does F a call) (h.call clock call) := by
  have hdoes {k : Host n} (hk : h.Quiet k) (answer : Answer n) (hm : answer.mute = true) :
      h.Does F a call k answer := .quiet hq hk hm
  have hleaves {α : Type} {e : Ending (Host n) α} (he : e.Leaves h.Quiet) :
      e.Leaves fun k => ∀ answer : Answer n, answer.mute = true → h.Does F a call k answer := by
    cases e with
    | returned k x => exact hdoes he
    | faulted k fault => exact hdoes he
    | stuck stop => trivial
  cases call with
  | start | ready _ | select | drain | remove _ | retire _ | refresh _ => cases hq
  | setFeature p i x => exact hdoes (setFeature_quiet h p i x) _ rfl
  | levelFor score =>
    refine gives_mapAnswer ?_ fun _ => rfl
    cases Level.ofScore h.allocator.config.levels score <;> exact hdoes (.refl h)
  | setEmergency on =>
    have hset : h.Quiet (h.withAllocator fun a => { a with emergency := on }) :=
      .of_silent ⟨rfl, fun _ => rfl, rfl, rfl⟩ rfl rfl
    exact hdoes (hset.say (by cases on <;> trivial)) _ rfl
  | setBudget budget =>
    have hset : h.Quiet (h.withAllocator fun a => { a with budget }) :=
      .of_silent ⟨rfl, fun _ => rfl, rfl, rfl⟩ rfl rfl
    have hplain : (Line.budgetSet budget).Plain := trivial
    exact hdoes (hset.say hplain) _ rfl
  | dump => exact gives_mapAnswer (hleaves (dump_quiet h)) fun _ => rfl
  | dumpToLog => exact gives_mapAnswer (hleaves (dumpToLog_quiet h)) fun _ => rfl
  | buckets => exact gives_mapAnswer (hleaves (viewBuckets_quiet h)) fun _ => rfl
  | tensor call => exact gives_mapAnswer (hleaves (callTensor_quiet h call)) fun _ => rfl
  | attention | lastUpdate | stats | config => exact hdoes (.refl h) _ rfl

theorem start_does (clock : Clock) : Gives (h.Does F a .start) (h.call clock .start) := by
  have hends := start_ends F a h
  change Gives (h.Does F a .start)
    (h.start.bind fun h _ => .returned h (.started h.allocator.isStarted))
  generalize h.start = e at hends
  cases hends with
  | faulted alike counters lines => exact Does.faulted_of_alike alike counters lines
  | returned built procs config counters edits lines => exact Does.started counters edits lines

theorem ready_does (hs : (F.withShelf a h.row).Sound) (clock : Clock) (p : Fin n) :
    Gives (h.Does F a (.ready p)) (h.call clock (.ready p)) := by
  have hends := ready_ends hs p
  change Gives (h.Does F a (.ready p)) ((h.ready p).bind fun h _ => .returned h (.mark h.procs[p].mark))
  generalize h.ready p = e at hends
  cases hends with
  | ignored plain => exact Does.ignored plain
  | stuck stop => trivial
  | faulted cognitive counters edits lines => exact Does.faulted counters edits lines
  | @refused k mark cognitive counters marked absent edits lines =>
    change h.Does F a (.ready p) k (.host (.mark k.procs[p].mark))
    rw [marked]
    exact .refused cognitive counters absent edits marked lines
  | @filed k level cognitive counters scored marked there edits lines =>
    change h.Does F a (.ready p) k (.host (.mark k.procs[p].mark))
    rw [marked]
    exact .filed cognitive counters scored there edits lines

theorem select_does (hs : (F.withShelf a h.row).Sound) (clock : Clock) :
    Gives (h.Does F a .select) (h.call clock .select) := by
  have hends := select_ends hs clock.now
  change h.Does F a .select (h.selectNext clock.now).1 (.host (.selected (h.selectNext clock.now).2))
  generalize h.selectNext clock.now = r at hends
  cases hends with
  | nobody none_yields alike procs counters lines => exact .nobody none_yields alike counters lines
  | taken there free first none_yields started config counters edit lines =>
    exact .taken there free first none_yields started counters edit lines

theorem withdraw_does {r : Host n × Removal n} (hends : RemoveEnds F a h p r)
    (kind : call = .remove p ∨ call = .retire p) :
    h.Does F a call r.1 (.host (.removal r.2)) := by
  cases hends with
  | contended marked there held alike procs counters lines =>
    exact .contended kind marked there held alike procs counters lines
  | notFound absent alike counters lines => exact .notFound kind absent alike counters lines
  | removed marked started config counters edit lines =>
    exact .removed kind marked started counters edit lines

theorem refresh_does (clock : Clock) (p : Fin n) :
    Gives (h.Does F a (.refresh p)) (h.call clock (.refresh p)) := by
  have hends := refresh_ends h clock p
  change Gives (h.Does F a (.refresh p)) ((h.refresh clock p).mapAnswer fun _ => .done)
  generalize h.refresh clock p = e at hends
  cases hends with
  | faulted alike counters lines => exact Does.faulted_of_alike alike counters lines
  | stuck stop => trivial
  | idle => exact Does.idle
  | written alike changed counters lines => exact Does.written alike changed counters lines

theorem call_does (hs : (F.withShelf a h.row).Sound) (clock : Clock) (hd : call ≠ .drain) :
    Gives (h.Does F a call) (h.call clock call) := by
  cases hq : call.quiet with
  | true => exact quiet_does clock hq
  | false =>
    cases call with
    | drain => exact absurd rfl hd
    | start => exact start_does clock
    | ready p => exact ready_does hs clock p
    | select => exact select_does hs clock
    | remove p => exact withdraw_does (remove_ends F a h p) (.inl rfl)
    | retire p => exact withdraw_does (retire_ends F a h p) (.inr rfl)
    | refresh p => exact refresh_does clock p
    | setFeature | attention | levelFor | setEmergency | setBudget | lastUpdate | stats | config
      | dump | dumpToLog | buckets | tensor => cases hq

end Host

end AttentionScheduler
