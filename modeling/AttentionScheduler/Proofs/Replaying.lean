import AttentionScheduler.Proofs.Notices
import AttentionScheduler.Proofs.Policy
import AttentionScheduler.Proofs.Refinement
import AttentionScheduler.Proofs.Tracking

/-!
The log is a journal. Who reads its lines in order and does what they tell knows at any time which
processes are in which bucket, and what the counters are.
-/

namespace AttentionScheduler

open Files

variable {n : Nat}

namespace Notice

/-- What the buckets of an allocator hold as far as the log tells: process numbers, level by level. -/
abbrev Table := Nat → List Nat

def strike (pid : Nat) (x : Table) : Table := fun level => (x level).filter (· ≠ pid)

/-- Whoever is dispatched has to be the head of its bucket. -/
def post (x : Table) : Notice → Option Table
  | filed pid level => some (Function.update (strike pid x) level (strike pid x level ++ [pid]))
  | dispatched pid level => if (x level).head? = some pid then some (strike pid x) else none
  | removed pid => some (strike pid x)
  | started | skipped | contended | refreshed | other => some x

def replay (ms : List Notice) : Option Table := ms.foldlM post fun _ => []

def tally (ms : List Notice) : Counters where
  enqueued := .ofNat (ms.countP (· matches filed ..))
  dispatched := .ofNat (ms.countP (· matches dispatched ..))
  contended := .ofNat (ms.countP fun m => m = skipped ∨ m = contended)
  refreshes := .ofNat (ms.count refreshed)

theorem tally_append (ms ns : List Notice) : tally (ms ++ ns) = (tally ms).plus (tally ns) := by
  simp [tally, Counters.plus, UInt64.ofNat_add]

def Idle (m : Notice) : Prop := ∀ x, post x m = some x

theorem foldlM_idle {ms : List Notice} (h : ∀ m ∈ ms, m.Idle) (x : Table) :
    ms.foldlM post x = some x := by
  induction ms with
  | nil => rfl
  | cons m ms ih =>
    rw [List.foldlM_cons, h m List.mem_cons_self]
    exact ih fun m hm => h m (List.mem_cons_of_mem _ hm)

end Notice

namespace Ledger

variable {r : Ledger n} {pid : Fin n → Nat} {p : Fin n}

def pids (pid : Fin n → Nat) (r : Ledger n) : Notice.Table := fun level => (r.under level).map pid

theorem pids_strike (hpid : pid.Injective) (r : Ledger n) (p : Fin n) :
    (r.strike p).pids pid = Notice.strike (pid p) (r.pids pid) := by
  funext level
  have hunder : (r.strike p).under level = (r.under level).filter (· ≠ p) := by
    rw [under, under, strike, List.filter_map, List.filter_comm]
    rfl
  change ((r.strike p).under level).map pid = ((r.under level).map pid).filter (· ≠ pid p)
  rw [hunder, List.filter_map]
  simp only [Function.comp_def, hpid.ne_iff]

theorem pids_append (r : Ledger n) (p : Fin n) (level : Nat) :
    (r ++ [(p, level)]).pids pid =
      Function.update (r.pids pid) level (r.pids pid level ++ [pid p]) := by
  funext l
  rw [pids, under_append]
  by_cases hl : l = level
  · subst hl
    simp [pids]
  · rw [if_neg (Ne.symm hl), Function.update_of_ne hl]
    rfl

end Ledger

/-- The log so far accounts for these files and counters, and for so many starts. -/
structure Told (pid : Fin n → Nat) (a : Nat) (f : Files n) (c : Counters) (starts : Nat)
    (ms : List Notice) : Prop where
  ledger : ∃ r : Ledger n, r.Fits a f ∧ Notice.replay ms = some (r.pids pid)
  counters : c = Notice.tally ms
  starts : ms.count .started = starts

namespace Told

variable {pid : Fin n → Nat} {a : Nat} {f g : Files n} {c d : Counters} {k l : Nat}
  {ms ns : List Notice} {p : Fin n} {level : Nat}

theorem append (h : Told pid a f c k ms)
    (hreplay : ∀ r : Ledger n, r.Fits a f →
      ∃ r' : Ledger n, r'.Fits a g ∧ ns.foldlM Notice.post (r.pids pid) = some (r'.pids pid))
    (hd : d = c.plus (Notice.tally ns)) (hl : l = k + ns.count .started) :
    Told pid a g d l (ms ++ ns) := by
  obtain ⟨r, hfits, hr⟩ := h.ledger
  obtain ⟨r', hfits', hr'⟩ := hreplay r hfits
  refine ⟨⟨r', hfits', ?_⟩, ?_, ?_⟩
  · rw [Notice.replay, List.foldlM_append]
    rw [Notice.replay] at hr
    rw [hr]
    exact hr'
  · rw [hd, h.counters, Notice.tally_append]
  · rw [hl, List.count_append, h.starts]

theorem noted {x : Notice} (h : Told pid a f c k ms) (hx : x.Idle) (hne : x ≠ .started)
    (hn : ∀ m ∈ ns, m = x) (hd : d = c.plus (Notice.tally (List.replicate ns.length x))) :
    Told pid a f d k (ms ++ ns) := by
  have hns : ns = List.replicate ns.length x := List.eq_replicate_of_mem hn
  refine h.append (fun r hr => ⟨r, hr, ?_⟩) (hns ▸ hd) ?_
  · exact Notice.foldlM_idle (fun m hm => hn m hm ▸ hx) _
  · rw [hns, List.count_replicate, if_neg (by simpa using hne), Nat.add_zero]

theorem others (h : Told pid a f c k ms) (hn : ∀ m ∈ ns, m = .other) : Told pid a f c k (ms ++ ns) := by
  refine h.noted (fun _ => rfl) (by simp) hn ?_
  simp [Counters.plus, Notice.tally, List.countP_replicate, List.count_replicate]

theorem skipped (h : Told pid a f c k ms) (hn : ∀ m ∈ ns, m = .skipped) :
    Told pid a f { c with contended := c.contended + .ofNat ns.length } k (ms ++ ns) := by
  refine h.noted (fun _ => rfl) (by simp) hn ?_
  simp [Counters.plus, Notice.tally, List.countP_replicate, List.count_replicate]

theorem contended (h : Told pid a f c k ms) :
    Told pid a f { c with contended := c.contended + 1 } k (ms ++ [.contended]) := by
  refine h.noted (x := .contended) (fun _ => rfl) (by simp) (by simp) ?_
  simp [Counters.plus, Notice.tally]

theorem refreshed (h : Told pid a f c k ms) :
    Told pid a f { c with refreshes := c.refreshes + 1 } k (ms ++ [.refreshed]) := by
  refine h.noted (x := .refreshed) (fun _ => rfl) (by simp) (by simp) ?_
  simp [Counters.plus, Notice.tally]

theorem started {levels : Nat} (h : Told pid a f c k ms) (hs : f.Sound)
    (edit : Edit f (.shelve a levels) g) : Told pid a g c (k + 1) (ms ++ [.started]) := by
  refine h.append (fun r hr => ⟨r, hr.edit hs edit, rfl⟩) ?_ rfl
  exact (Counters.plus_zero c).symm

theorem filed (h : Told pid a f c k ms) (hpid : pid.Injective) (hs : f.Sound)
    (edits : Edits f (Shelf.leaving a (f.mark p) p ++ [.link (.own a level) p]) g) :
    Told pid a g { c with enqueued := c.enqueued + 1 } k (ms ++ [.filed (pid p) level]) := by
  refine h.append (fun r hr => ⟨r.strike p ++ [(p, level)], ?_, ?_⟩) ?_ rfl
  · rw [← Ledger.foldl_refile (hr.not_mem hs) level]
    exact hr.edits hs edits
  · rw [Ledger.pids_append, Ledger.pids_strike hpid]
    rfl
  · simp [Counters.plus, Notice.tally]

theorem removed (h : Told pid a f c k ms) (hpid : pid.Injective) (hs : f.Sound)
    (edit : Edit f (.unlink (.own a level) p) g) :
    Told pid a g c k (ms ++ [.removed (pid p)]) := by
  refine h.append (fun r hr => ⟨r.strike p, ?_, ?_⟩) ?_ rfl
  · have hfits := hr.edit hs edit
    rwa [Ledger.enter, if_pos rfl] at hfits
  · rw [Ledger.pids_strike hpid]
    rfl
  · exact (Counters.plus_zero c).symm

theorem dispatched {b : Bucket n} (h : Told pid a f c k ms) (hpid : pid.Injective) (hs : f.Sound)
    (hb : f.bucket? (.own a level) = some b) (hfirst : b.members.head? = some p)
    (edit : Edit f (.unlink (.own a level) p) g) :
    Told pid a g { c with dispatched := c.dispatched + 1 } k (ms ++ [.dispatched (pid p) level]) := by
  refine h.append (fun r hr => ⟨r.strike p, ?_, ?_⟩) ?_ rfl
  · have hfits := hr.edit hs edit
    rwa [Ledger.enter, if_pos rfl] at hfits
  · have hhead : (r.pids pid level).head? = some (pid p) := by
      rw [Ledger.pids, ← hr.members hb, List.head?_map, hfirst]
      rfl
    rw [Ledger.pids_strike hpid, List.foldlM_cons, Notice.post, if_pos hhead]
    rfl
  · simp [Counters.plus, Notice.tally]

end Told

theorem Line.notice_of_skips {bs : List (Bucket n)} {l : Line} (hl : l ∈ Bucket.skips bs) :
    l.notice = .skipped := by
  obtain ⟨b, -, rfl⟩ := List.mem_map.mp hl
  exact notice_eq_gist _ (by simp)

namespace Host

variable {pid : Fin n → Nat} {F : Files n} {a m : Nat} {h k : Host n} {f g : Files n} {c : Counters}
  {ms : List Notice} {call : HostCall n} {answer : Answer n}

theorem mark_of_opening (hedits : Edits f (opening a h k) g) : g.mark = f.mark := by
  unfold opening at hedits
  split at hedits
  · cases hedits
    rfl
  · split at hedits
    · cases hedits.of_single
      rfl
    · cases hedits
      rfl

theorem told_of_opening (ht : Told pid a f c m ms) (hs : f.Sound)
    (hedits : Edits f (opening a h k) g) :
    Told pid a g c (m + (greeting h k).length) (ms ++ (greeting h k).map Line.notice) := by
  have still (hg : greeting h k = []) (hf : g = f) :
      Told pid a g c (m + (greeting h k).length) (ms ++ (greeting h k).map Line.notice) := by
    rw [hg, hf, List.map_nil, List.append_nil]
    exact ht
  unfold opening at hedits
  split at hedits
  · next hstarted =>
    cases hedits
    exact still (by simp [greeting, hstarted]) rfl
  · next hidle =>
    split at hedits
    · next hstarted =>
      have hnotice : (greeting h k).map Line.notice = [.started] := by
        simp [greeting, hidle, hstarted, Line.notice_eq_gist, Line.gist]
      have hlength : (greeting h k).length = 1 := by
        simpa using congrArg List.length hnotice
      rw [hlength, hnotice]
      exact ht.started hs hedits.of_single
    · next hfailed =>
      cases hedits
      exact still (by simp [greeting, hidle, hfailed]) rfl

theorem Does.told (hd : h.Does F a call k answer) (hlines : h.lines = [])
    (hs : (F.withShelf a h.row).Sound) (hpid : pid.Injective)
    (hp : ∀ p : Fin n, h.procs[p].pid.toNat = pid p)
    (ht : Told pid a (F.withShelf a h.row) h.allocator.counters m ms) :
    Told pid a (F.withShelf a k.row) k.allocator.counters (m + (greeting h k).length)
      (ms ++ k.lines.map Line.notice) := by
  -- Nothing is logged of a start that does not happen.
  have still {k : Host n} (hk : k.allocator.isStarted = h.allocator.isStarted) :
      m + (greeting h k).length = m := by
    rw [greeting_congr hk.symm, List.length_nil, Nat.add_zero]
  have skipped : Told pid a (F.withShelf a h.row)
      { h.allocator.counters with
        contended := h.allocator.counters.contended + .ofNat (Bucket.met h.allocator.buckets) }
      m (ms ++ (Bucket.skips h.allocator.buckets).map Line.notice) := by
    rw [← Bucket.length_skips, ← List.length_map (f := Line.notice)]
    exact ht.skipped (List.forall_mem_map.mpr fun l hl => Line.notice_of_skips hl)
  cases hd with
  | quiet kind quiet mute =>
    obtain ⟨ls, hls, hplain⟩ := quiet.lines
    rw [hls, hlines, List.nil_append, quiet.counters, quiet.alike.files, still quiet.alike.started]
    exact ht.others (List.forall_mem_map.mpr fun l hl => (hplain l hl).notice)
  | faulted counters edits lines =>
    rw [lines, hlines, List.nil_append, counters]
    exact told_of_opening ht hs edits
  | started counters edits lines =>
    rw [lines, hlines, List.nil_append, counters]
    exact told_of_opening ht hs edits
  | ignored plain =>
    rw [hlines, still rfl]
    exact ht.others (List.forall_mem_nil _)
  | refused cognitive counters absent edits marked lines =>
    rw [lines, hlines, List.nil_append, counters, List.map_append, ← List.append_assoc]
    apply (told_of_opening ht hs edits).others
    simp [Line.notice_eq_gist, Line.gist]
  | @filed p k level cognitive counters scored there edits lines =>
    obtain ⟨f, hopening, hfiling⟩ := edits.of_append
    have hmark : f.mark p = h.procs[p].mark := congrFun (mark_of_opening hopening) p
    rw [← hmark] at hfiling
    rw [lines, hlines, List.nil_append, counters, List.map_append, ← List.append_assoc,
      List.map_singleton, Line.notice_eq_gist _ (by simp), Line.gist, hp p]
    exact (told_of_opening ht hs hopening).filed hpid (hs.edits hopening) hfiling
  | nobody none_yields alike counters lines =>
    rw [lines, hlines, List.nil_append, counters, alike.files, still alike.started]
    exact skipped
  | @taken k p level b there free first none_yields started counters edit lines =>
    have hat : (F.withShelf a h.row).bucket? (.own a level) = some b := by
      rw [withShelf_own]
      exact there
    rw [lines, hlines, List.nil_append, counters, still started, List.map_append,
      ← List.append_assoc, List.map_singleton, Line.notice_eq_gist _ (by simp), Line.gist, hp p,
      (hs.own_level hat).1]
    exact skipped.dispatched hpid hs hat first edit
  | @contended _ p k mark b kind marked there held alike procs counters lines =>
    rw [lines, hlines, List.nil_append, counters, alike.files, still alike.started,
      List.map_singleton, Line.notice_eq_gist _ (by simp), Line.gist]
    exact ht.contended
  | notFound kind absent alike counters lines =>
    rw [lines, hlines, counters, alike.files, still alike.started]
    exact ht.others (List.forall_mem_nil _)
  | @removed _ p k mark kind marked started counters edit lines =>
    rw [lines, hlines, List.nil_append, counters, still started, List.map_singleton,
      Line.notice_eq_gist _ (by simp), Line.gist, hp p]
    exact ht.removed hpid hs edit
  | idle =>
    rw [hlines, still rfl]
    exact ht.others (List.forall_mem_nil _)
  | @written p k alike changed counters lines =>
    obtain ⟨now, hnow⟩ := lines
    rw [hnow, hlines, List.nil_append, counters, alike.files, still alike.started,
      List.map_singleton, Line.notice_eq_gist _ (by simp), Line.gist]
    exact ht.refreshed

end Host

theorem Event.revise_pid (e : Event n) (p : Fin n) (r : Record) : (e.revise p r).pid = r.pid := by
  have kept {q : Fin n} {f : Record → Record} (hf : (f r).pid = r.pid) :
      (Roster.only q f p r).pid = r.pid := Roster.only_keeps (x := (·.pid)) hf
  obtain ⟨s, c, d⟩ := e
  cases c with
  | clock | bucket => rfl
  | record q call => exact kept (by cases call <;> rfl)
  | host a call =>
    cases call with
    | ready q | retire q | refresh q | setFeature q i x => exact kept (by split <;> rfl)
    | select | drain =>
      change (Roster.stamped _ _ p r).pid = r.pid
      unfold Roster.stamped
      split <;> rfl
    | start | remove | attention | levelFor | setEmergency | setBudget | lastUpdate | stats | config
      | dump | dumpToLog | buckets | tensor => rfl

/-- What is logged when the allocator is created. -/
def Opening.lines (o : Opening) (procs : Roster n) : List Line :=
  match o.make procs with
  | .ok (_, lines) => lines
  | .error _ => []

namespace Session

variable {s t u : Session n} {a m : Nat} {c : Call n} {d : Done n} {es past : List (Event n)}
  {o : Opening} {ps : Vector (UInt64 × Bool) n} {pid : Fin n → Nat} {ms : List Notice}

def countersOf (s : Session n) (a : Nat) : Counters :=
  ((s.allocator? a).map (·.counters)).getD {}

theorem call_aside (hc : s.call c = .ok d) (h : ∀ a call, c ≠ .host a call) (a : Nat) :
    d.lines = [] ∧ d.session.started a = s.started a := by
  cases c with
  | host a call => exact absurd rfl (h a call)
  | clock b call =>
    obtain ⟨seat, k, hd, hlines⟩ := putClock_of_call hc
    exact ⟨hlines, by rw [hd]; rfl⟩
  | record p call =>
    cases hc
    exact ⟨rfl, rfl⟩
  | bucket place call =>
    obtain ⟨hd | ⟨b, f, -, -, hd⟩, hlines⟩ := putFiled_of_call hc
    · exact ⟨hlines, by rw [hd]⟩
    · refine ⟨hlines, ?_⟩
      rw [hd]
      exact started_putBucket s f.bucket place a

theorem Does.told (hd : s.Does c d) (hc : s.call c = .ok d) (hs : s.files.Sound)
    (hpid : pid.Injective) (hp : ∀ p : Fin n, s.procs[p].pid.toNat = pid p)
    (hseats : ∀ b call, c = .host b call → b = a)
    (hdirect : ∀ place call, c = .bucket place call → call.moves = false)
    (ht : Told pid a s.files (s.countersOf a) m ms) :
    Told pid a d.session.files (d.session.countersOf a) (m + (Event.starts a ⟨s, c, d⟩).toNat)
      (ms ++ d.lines.map Line.notice) := by
  have aside (hne : ∀ b call, c ≠ .host b call) (hfiles : d.session.files = s.files)
      (hkeeps : s.Keeps d.session) :
      Told pid a d.session.files (d.session.countersOf a) (m + (Event.starts a ⟨s, c, d⟩).toNat)
        (ms ++ d.lines.map Line.notice) := by
    obtain ⟨hlines, hstarted⟩ := call_aside hc hne a
    rw [hlines, hfiles, countersOf, hkeeps a, starts_of_eq hstarted]
    exact ht.others (List.forall_mem_nil _)
  cases hd with
  | @host b seat call k answer seated does =>
    cases hseats b call rfl
    have hstarts : (Event.starts a ⟨s, .host a call, ⟨s.putHost a k, answer, k.lines⟩⟩).toNat =
        (Host.greeting (s.host seat) k).length := by
      have hbefore : s.started a = (s.host seat).allocator.isStarted := by
        rw [started, allocator?_of_seat seated]
        rfl
      rw [Event.starts, hbefore, started_putHost seated, Host.greeting]
      cases (s.host seat).allocator.isStarted <;> cases k.allocator.isStarted <;> rfl
    have hcounters : (s.putHost a k).countersOf a = k.allocator.counters := by
      rw [countersOf, allocator?_putHost seated, if_pos rfl]
      rfl
    rw [hstarts, hcounters, files_putHost seated]
    rw [countersOf, allocator?_of_seat seated] at ht
    rw [← files_host seated] at hs ht
    exact does.told rfl hs hpid hp ht
  | aside kind files keeps mute =>
    refine aside ?_ files keeps
    rintro b call rfl
    cases kind
  | absent nowhere => exact aside (by simp) rfl fun _ => rfl
  | marked there marked files keeps => exact absurd (hdirect _ _ rfl) (by simp [BucketCall.moves])
  | joined there unmarked edit keeps => exact absurd (hdirect _ _ rfl) (by simp [BucketCall.moves])
  | contended kind there held files keeps => exact aside (by simp) files keeps
  | empty there free empty files keeps => exact aside (by simp) files keeps
  | missing there free missing files keeps => exact aside (by simp) files keeps
  | popped there free first edit keeps => exact absurd (hdirect _ _ rfl) (by simp [BucketCall.moves])
  | removed there free member edit keeps =>
    exact absurd (hdirect _ _ rfl) (by simp [BucketCall.moves])

/-- All that is logged from the creation of the allocator on. -/
def log (o : Opening) (ps : Vector (UInt64 × Bool) n) (es : List (Event n)) : List Line :=
  o.lines (freshRoster ps) ++ es.flatMap (·.done.lines)

theorem Leads.pid_eq {os : List Opening} {queues : List (Nat × Single)}
    (h : (fresh os queues (freshRoster ps)).Leads es t) (p : Fin n) : t.procs[p].pid = ps[p].1 := by
  have hkept : ∀ e ∈ es, e.done.session.procs[p].pid = e.before.procs[p].pid := by
    intro e he
    rw [h.revises he p]
    exact e.revise_pid p _
  have hlast : t.procs[p].pid = (es.filterMap fun _ => none).getLast?.getD (freshRoster ps)[p].pid :=
    h.last_of (x := fun r => r[p].pid) hkept
  rw [hlast, List.filterMap_none]
  exact congrArg Record.pid (Vector.getElem_map _ p.isLt)

theorem notices_of_make {procs : Roster n} {x : Allocator n} {lines : List Line}
    (h : o.make procs = .ok (x, lines)) :
    lines.map Line.notice = List.replicate x.isStarted.toNat .started := by
  rcases make_cases h with ⟨c, -, rfl, rfl⟩ | ⟨k, hk, rfl, rfl⟩
  · rfl
  · rw [hk, Host.start]
    cases Core.build (n := n) ({} : Config) with
    | error fault => rfl
    | ok core => exact congrArg (fun m => [m]) (Line.notice_eq_gist _ (by simp))

theorem notices_fresh (o : Opening) (procs : Roster n) :
    (o.lines procs).map Line.notice =
      List.replicate ((fresh [o] [] procs).started 0).toNat .started := by
  rw [Opening.lines]
  cases hm : o.make procs with
  | error defect =>
    have hstarted : (fresh [o] [] procs).started 0 = false := by
      simp [started, allocator?, seat, fresh, Opening.clockPlaces, Except.toOption, hm]
    rw [hstarted]
    rfl
  | ok made =>
    have hstarted : (fresh [o] [] procs).started 0 = made.1.isStarted := by
      simp [started, allocator?, seat, fresh, Opening.clockPlaces, Except.toOption, hm]
    rw [hstarted]
    exact notices_of_make hm

theorem told_fresh : Told pid 0 (fresh [o] [] (freshRoster ps)).files
    ((fresh [o] [] (freshRoster ps)).countersOf 0) ((fresh [o] [] (freshRoster ps)).started 0).toNat
    ((o.lines (freshRoster ps)).map Line.notice) := by
  rw [notices_fresh]
  generalize ((fresh [o] [] (freshRoster ps)).started 0).toNat = k
  refine ⟨⟨[], Ledger.fits_fresh, ?_⟩, ?_, ?_⟩
  · refine Notice.foldlM_idle ?_ _
    intro m hm _
    rw [List.eq_of_mem_replicate hm]
    rfl
  · have hcounters : (fresh [o] [] (freshRoster ps)).countersOf 0 = {} := by
      rw [countersOf]
      cases hx : (fresh [o] [] (freshRoster ps)).allocator? 0 with
      | none => rfl
      | some x => exact (allocator?_fresh hx).1
    rw [hcounters]
    simp [Notice.tally, List.countP_replicate, List.count_replicate]
  · simp

theorem Leads.told (h : (fresh [o] [] (freshRoster ps)).Leads es t)
    (hpids : Function.Injective fun p : Fin n => ps[p].1)
    (hdirect : ∀ e ∈ es, ∀ place call, e.call = .bucket place call → call.moves = false) :
    Told (fun p => ps[p].1.toNat) 0 t.files (t.countersOf 0) (t.started 0).toNat
      ((log o ps es).map Line.notice) := by
  let pid (p : Fin n) : Nat := ps[p].1.toNat
  have hpid : pid.Injective := fun p q hpq => hpids (UInt64.toNat_inj.mp hpq)
  let s₀ : Session n := fresh [o] [] (freshRoster ps)
  let I (u : Session n) (past : List (Event n)) : Prop :=
    Told pid 0 u.files (u.countersOf 0) ((s₀.started 0).toNat + past.countP (Event.starts 0))
      ((log o ps past).map Line.notice)
  have hall : I t (es.flatMap Event.parts) := by
    apply h.induct (I := I) (fresh_sound [o] [] ps)
    · intro u past c d he hs hd ht
      obtain ⟨⟨before, hu⟩, hc⟩ := h.spelt.call_of_mem he
      have hseats (b : Nat) (call : HostCall n) (hb : c = .host b call) : b = 0 := by
        subst hb
        obtain ⟨seat, hseat⟩ := seat_of_call hc
        have hlt : b < [o].length :=
          (seats_fresh.evolves hu.evolves b _ (allocator?_of_seat hseat)).1
        exact Nat.lt_one_iff.mp hlt
      have hcalls (place : Place) (call : BucketCall n) (hb : c = .bucket place call) :
          call.moves = false := by
        obtain ⟨e, hmem, hpart⟩ := List.mem_flatMap.mp he
        rcases Event.call_of_mem_parts hpart with ⟨rfl, -⟩ | ⟨a, ha⟩
        · exact hdirect _ hmem place call hb
        · cases hb.symm.trans ha
      have hnext := hd.told hc hs hpid (fun p => congrArg UInt64.toNat (hu.pid_eq p)) hseats hcalls ht
      let e : Event n := ⟨u, c, d⟩
      have hstarts : (past ++ [e]).countP (Event.starts 0) =
          past.countP (Event.starts 0) + (Event.starts 0 e).toNat := by
        rw [List.countP_append, List.countP_singleton]
        cases Event.starts 0 e <;> rfl
      have hlog : log o ps (past ++ [e]) = log o ps past ++ d.lines := by
        rw [log, List.flatMap_append, List.flatMap_singleton, ← List.append_assoc]
        rfl
      change Told ..
      rwa [hstarts, hlog, List.map_append, ← Nat.add_assoc]
    · intro u v past hs hlocks ht
      obtain ⟨r, hfits, hr⟩ := ht.ledger
      refine ⟨⟨r, hfits.locks hs hlocks, hr⟩, ?_, ht.starts⟩
      rw [countersOf, hlocks.keeps 0]
      exact ht.counters
    · change Told ..
      rw [log, List.flatMap_nil, List.append_nil]
      exact told_fresh
  have hstarts := h.spelt.counts_starts 0
  rw [Nat.add_comm] at hstarts
  have hlog : log o ps (es.flatMap Event.parts) = log o ps es := by
    rw [log, h.lines_parts]
    rfl
  change Told .. at hall
  rwa [hstarts, hlog] at hall

/-- The process numbers in a bucket, in order. -/
def pidsAt (s : Session n) (a level : Nat) : List Nat :=
  match s.bucketAt (.own a level) with
  | some b => b.members.map fun p => s.procs[p].pid.toNat
  | none => []

theorem pids_eq_pidsAt {r : Ledger n} (hr : r.Fits a t.files)
    (hp : ∀ p : Fin n, t.procs[p].pid.toNat = pid p) : r.pids pid = t.pidsAt a := by
  funext level
  rw [pidsAt]
  split
  · next b hb =>
    rw [hr.members hb]
    exact List.map_congr_left fun p _ => (hp p).symm
  · next hnone =>
    have hempty : r.under level = [] := by
      apply List.eq_nil_iff_forall_not_mem.mpr
      intro p hp
      obtain ⟨b, hb⟩ := hr.there (Ledger.mem_under.mp hp)
      cases hnone.symm.trans hb
    rw [Ledger.pids, hempty, List.map_nil]

/-- With one allocator whose buckets are only moved through it, the log is a complete journal. Read off
its texts at any time, it gives the process numbers of every bucket in order, the counters, and whether
the allocator has started. -/
theorem Leads.journals (h : (fresh [o] [] (freshRoster ps)).Leads es t)
    (hpids : Function.Injective fun p : Fin n => ps[p].1)
    (hdirect : ∀ e ∈ es, ∀ place call, e.call = .bucket place call → call.moves = false) :
    let ms := (log o ps es).map fun l => Notice.read l.text
    Notice.replay ms = some (t.pidsAt 0) ∧
      (∀ x, t.allocator? 0 = some x → x.counters = Notice.tally ms) ∧
      ms.count .started = if t.started 0 then 1 else 0 := by
  have htold := h.told hpids hdirect
  obtain ⟨r, hfits, hreplay⟩ := htold.ledger
  refine ⟨?_, fun x hx => ?_, ?_⟩
  · rw [← pids_eq_pidsAt hfits fun p => congrArg UInt64.toNat (h.pid_eq p)]
    exact hreplay
  · have hcounters := htold.counters
    rw [countersOf, hx] at hcounters
    exact hcounters
  · refine htold.starts.trans ?_
    cases t.started 0 <;> rfl

theorem journals_of_a_second_ready : ∃ es, ∃ t : Session 2,
    let ps : Vector (UInt64 × Bool) 2 := .ofFn fun p => (.ofNat (p.val + 7), true)
    let ms := (log { hz := 1000 } ps es).map fun l => Notice.read l.text
    (fresh [{ hz := 1000 }] [] (freshRoster ps)).Leads es t ∧
    Notice.replay ms = some (t.pidsAt 0) ∧ t.pidsAt 0 3 = [8, 7] ∧
    Notice.tally ms = { enqueued := 4, dispatched := 1, contended := 2 } ∧ ms.count .started = 1 := by
  let ps : Vector (UInt64 × Bool) 2 := .ofFn fun p => (.ofNat (p.val + 7), true)
  let s : Session 2 := fresh [{ hz := 1000 }] [] (freshRoster ps)
  let steps : List (Step 2) :=
    [.call (.host 0 (.ready 0)), .call (.host 0 (.ready 1)), .call (.host 0 .select),
      .hold (.own 0 3) [.call (.host 0 .select), .call (.host 0 (.remove 1))],
      .call (.host 0 (.ready 0)), .call (.host 0 (.ready 0))]
  obtain ⟨t, h, ht⟩ := exists_leads s steps
    (fun t => (t.pidsAt 0 3, (t.allocator? 0).map (·.counters), t.started 0))
    (x := ([8, 7], some { enqueued := 4, dispatched := 1, contended := 2 }, true)) (by decide +kernel)
  obtain ⟨hpids, hrest⟩ := Prod.mk.inj ht
  obtain ⟨hcounters, hstarted⟩ := Prod.mk.inj hrest
  obtain ⟨x, hx, hxc⟩ := Option.map_eq_some_iff.mp hcounters
  have hdistinct : Function.Injective fun p : Fin 2 => ps[p].1 := by decide
  have hdirect : ∀ e ∈ s.events steps, ∀ place call, e.call = .bucket place call →
      call.moves = false := by
    intro e he place call hc
    have hmem : Call.bucket place call ∈ (s.events steps).map (·.call) :=
      hc ▸ List.mem_map_of_mem he
    have hcalls : (s.events steps).map (·.call) = [.host 0 (.ready 0), .host 0 (.ready 1),
        .host 0 .select, .host 0 .select, .host 0 (.remove 1), .host 0 (.ready 0),
        .host 0 (.ready 0)] := by decide +kernel
    rw [hcalls] at hmem
    simp at hmem
  obtain ⟨hreplay, htally, hcount⟩ := h.journals hdistinct hdirect
  refine ⟨_, t, h, hreplay, hpids, (htally x hx).symm.trans hxc, ?_⟩
  rw [hstarted] at hcount
  exact hcount

end Session

end AttentionScheduler
