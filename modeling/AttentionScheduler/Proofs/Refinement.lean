import AttentionScheduler.Proofs.Ledger

/-!
The allocator as a flat priority list. The list is kept from the calls alone, with the scores and the
locks that they find, and it foretells the buckets, the marks and what every call takes out.
-/

namespace AttentionScheduler

open Files

variable {n : Nat}

namespace Files

def free (f : Files n) (a level : Nat) : Bool := (f.bucket? (.own a level)).any (!·.held)

theorem free_of_bucket? {f : Files n} {a level : Nat} {b : Bucket n}
    (hb : f.bucket? (.own a level) = some b) : f.free a level = !b.held := by
  rw [free, hb]
  rfl

end Files

namespace Answer

def removal? : Answer n → Option (Removal n)
  | .host (.selected (some p)) => some (.removed p)
  | .host (.selected none) => some .notFound
  | .host (.removal m) | .bucket (.removal m) => some m
  | _ => none

theorem removal?_of_mute {answer : Answer n} (h : answer.mute = true) : answer.removal? = none := by
  cases answer with
  | host answer => cases answer <;> first | rfl | cases h
  | bucket answer => cases answer <;> first | rfl | cases h
  | clock | record | noBucket | fault => rfl

end Answer

namespace Event

def faulted (e : Event n) : Bool :=
  match e.done.answer with
  | .fault _ => true
  | _ => false

def scored? (e : Event n) (a : Nat) (p : Fin n) : Option Nat :=
  (e.before.allocator? a).bind fun x =>
    (Level.ofScore x.config.levels (Score.attention e.before.procs[p].vector.signals)).toOption

end Event

namespace Ledger

variable {r : Ledger n} {a level : Nat} {p : Fin n} {f : Files n} {b : Bucket n}

def draw (a : Nat) (r : Ledger n) (e : Event n) : Removal n :=
  let free := e.before.files.free a
  match e.call with
  | .host _ .select =>
    match r.next free with
    | some (p, _) => .removed p
    | none => .notFound
  | .host _ (.remove p) | .host _ (.retire p) =>
    match r.level? p with
    | some level => if free level then .removed p else .contended
    | none => .notFound
  | .bucket (.own _ level) .popFront =>
    if free level then
      match r.under level with
      | p :: _ => .removed p
      | [] => .notFound
    else .contended
  | .bucket (.own _ level) (.remove p) =>
    if free level then
      if r.level? p = some level then .removed p else .notFound
    else .contended
  | _ => .notFound

def without (r : Ledger n) : Removal n → Ledger n
  | .removed p => r.strike p
  | .notFound | .contended => r

def turn (a : Nat) (r : Ledger n) (e : Event n) : Ledger n :=
  match e.call with
  | .host _ (.ready p) =>
    match e.scored? a p with
    | some level => if e.before.procs[p].cognitive then r.strike p ++ [(p, level)] else r
    | none => r
  | .bucket (.own _ level) (.push p) =>
    if (e.before.bucketAt (.own a level)).isSome ∧ r.level? p = none then r ++ [(p, level)] else r
  | _ => r.without (r.draw a e)

def post (a : Nat) (r : Ledger n) (e : Event n) : Ledger n :=
  if e.call.allocator? = some a ∧ e.faulted = false then r.turn a e else r

def replay (a : Nat) (es : List (Event n)) : Ledger n := es.foldl (post a) []

theorem Fits.yields_of_free (hr : r.Fits a f) (hp : (p, level) ∈ r) (hfree : f.free a level = true) :
    ∃ b, f.bucket? (.own a level) = some b ∧ b.yields = true := by
  obtain ⟨b, hb, hpb⟩ := hr.mem_iff.mp hp
  rw [free_of_bucket? hb, Bool.not_eq_true'] at hfree
  refine ⟨b, hb, ?_⟩
  cases hm : b.members with
  | nil =>
    rw [hm] at hpb
    cases hpb
  | cons q rest => simp [Bucket.yields, hm, hfree]

theorem Fits.next_of_nobody (hr : r.Fits a f)
    (hno : ∀ level b, f.bucket? (.own a level) = some b → b.yields = false) :
    r.next (f.free a) = none := by
  have hnil : (r.filter fun entry => f.free a entry.2) = [] := by
    apply List.filter_eq_nil_iff.mpr
    intro x hx hfree
    obtain ⟨b, hb, hy⟩ := hr.yields_of_free hx hfree
    rw [hno x.2 b hb] at hy
    cases hy
  rw [next, hnil]
  rfl

theorem Fits.next_of_taken (hr : r.Fits a f) (hb : f.bucket? (.own a level) = some b)
    (hfree : b.held = false) (hfirst : b.members.head? = some p)
    (hno : ∀ l < level, ∀ c, f.bucket? (.own a l) = some c → c.yields = false) :
    r.next (f.free a) = some (p, level) := by
  have hlevel : f.free a level = true := by rw [free_of_bucket? hb, hfree]; rfl
  apply argmin_of_first
  · have hsame : (r.filter fun entry => f.free a entry.2).filter (·.2 = level) =
        r.filter (·.2 = level) := by
      rw [List.filter_filter]
      apply List.filter_congr
      intro x _
      by_cases hx : x.2 = level <;> simp [hx, hlevel]
    rw [hsame]
    rw [hr.members hb, under, List.head?_map] at hfirst
    obtain ⟨x, hx, rfl⟩ := Option.map_eq_some_iff.mp hfirst
    have hxl : x.2 = level := of_decide_eq_true (List.mem_filter.mp (List.mem_of_mem_head? hx)).2
    rw [hx, ← hxl]
  · intro x hx
    obtain ⟨hx, hxfree⟩ := List.mem_filter.mp hx
    apply Nat.le_of_not_lt
    intro hlt
    obtain ⟨c, hc, hy⟩ := hr.yields_of_free hx hxfree
    rw [hno x.2 hlt c hc] at hy
    cases hy

theorem post_of_turn {e : Event n} (ha : e.call.allocator? = some a) (hf : e.faulted = false) :
    r.post a e = r.turn a e :=
  if_pos ⟨ha, hf⟩

theorem foldl_opening (r : Ledger n) (a : Nat) (h k : Host n) :
    (Host.opening a h k).foldl (enter a) r = r := by
  unfold Host.opening
  split
  · rfl
  · split <;> rfl

theorem foldl_refile (hp : f.mark p = none → p ∉ r.map (·.1)) (level : Nat) :
    (Shelf.leaving a (f.mark p) p ++ [Change.link (.own a level) p]).foldl (enter a) r =
      r.strike p ++ [(p, level)] := by
  cases hm : f.mark p with
  | none =>
    rw [strike_of_not_mem (hp hm)]
    exact if_pos rfl
  | some mark =>
    simp [Shelf.leaving, enter]

end Ledger

namespace Session

open Ledger

variable {s t : Session n} {a : Nat} {seat : Seat n} {call : HostCall n} {k : Host n}
  {answer : Answer n} {lines : List Line} {r : Ledger n} {p : Fin n}

/-- The list goes on showing the buckets of its allocator, and has foretold what the event took out. -/
structure Follows (a : Nat) (r : Ledger n) (e : Event n) : Prop where
  fits : (r.post a e).Fits a e.done.session.files
  drawn : e.call.allocator? = some a → ∀ m, e.done.answer.removal? = some m → m = r.draw a e

theorem Follows.of_still {e : Event n} (hturn : r.turn a e = r)
    (hm : e.done.answer.removal? = none) (hfits : r.Fits a e.done.session.files) :
    Follows a r e := by
  constructor
  · rw [post]
    split
    · rwa [hturn]
    · exact hfits
  · intro _ m h
    rw [hm] at h
    cases h

theorem Follows.of_draw {e : Event n} {m : Removal n} (ha : e.call.allocator? = some a)
    (hturn : r.turn a e = r.without (r.draw a e)) (hm : e.done.answer.removal? = some m)
    (hdraw : r.draw a e = m) (hfits : (r.without m).Fits a e.done.session.files) :
    Follows a r e := by
  have hf : e.faulted = false := by
    unfold Event.faulted
    split
    · next fault h =>
      rw [h] at hm
      cases hm
    · rfl
  constructor
  · rwa [post_of_turn ha hf, hturn, hdraw]
  · intro _ m' h
    rw [hdraw]
    exact Option.some.inj (h.symm.trans hm)

theorem turn_of_quiet {d : Done n} (hq : call.quiet = true) :
    r.turn a ⟨s, .host a call, d⟩ = r := by
  cases call <;> first | rfl | cases hq

theorem draw_withdrawal {d : Done n} (kind : call = .remove p ∨ call = .retire p) :
    r.draw a ⟨s, .host a call, d⟩ =
      match r.level? p with
      | some level => if s.files.free a level then .removed p else .contended
      | none => .notFound := by
  rcases kind with rfl | rfl <;> rfl

theorem turn_withdrawal {d : Done n} (kind : call = .remove p ∨ call = .retire p) :
    r.turn a ⟨s, .host a call, d⟩ = r.without (r.draw a ⟨s, .host a call, d⟩) := by
  rcases kind with rfl | rfl <;> rfl

theorem scored_of_seat {d : Done n} {level : Nat} (hs : s.seat a = .ok seat)
    (h : Level.ofScore seat.allocator.config.levels (Score.attention s.procs[p].vector.signals) =
      .ok level) : Event.scored? ⟨s, .host a call, d⟩ a p = some level := by
  rw [Event.scored?, allocator?_of_seat hs, Option.bind_some, h]
  rfl

theorem fits_putHost {cs : List (Change n)} (hr : r.Fits a s.files) (hs : s.files.Sound)
    (hseat : s.seat a = .ok seat)
    (he : Edits (s.files.withShelf a (s.host seat).row) (Host.opening a (s.host seat) k ++ cs)
      (s.files.withShelf a k.row)) : (cs.foldl (enter a) r).Fits a (s.putHost a k).files := by
  have hfits := hr.edits hs (edits_putHost hseat he)
  rwa [List.foldl_append, foldl_opening] at hfits

theorem fits_putHost_opening (hr : r.Fits a s.files) (hs : s.files.Sound)
    (hseat : s.seat a = .ok seat)
    (he : Edits (s.files.withShelf a (s.host seat).row) (Host.opening a (s.host seat) k)
      (s.files.withShelf a k.row)) : r.Fits a (s.putHost a k).files := by
  rw [← List.append_nil (Host.opening a (s.host seat) k)] at he
  exact fits_putHost hr hs hseat he

theorem fits_strike {level : Nat} (hr : r.Fits a s.files)
    (hs : s.files.Sound) (he : Edit s.files (.unlink (.own a level) p) t.files) :
    (r.strike p).Fits a t.files := by
  have hfits := hr.edit hs he
  rwa [enter, if_pos rfl] at hfits

/-- The mark of a process within the own buckets names one of them, also after a start. -/
theorem bucket_of_mark {mark : Nat} (hs : s.files.Sound) (hw : Within a s.files p)
    (hseat : s.seat a = .ok seat)
    (he : Edits (s.files.withShelf a (s.host seat).row) (Host.opening a (s.host seat) k)
      (s.files.withShelf a k.row)) (marked : k.procs[p].mark = some mark) :
    ∃ b, k.allocator.buckets[mark]? = some b := by
  have hedits := edits_putHost hseat he
  have hwithin : Within a (s.putHost a k).files p :=
    hw.edits hedits fun _ hlink => absurd hlink not_link_opening
  obtain ⟨b, hb, _⟩ := (hs.edits hedits).own_of_mark hwithin marked
  exact ⟨b, (bucketAt_putHost hseat k mark).symm.trans hb⟩

theorem host_follows (hs : s.files.Sound) (hr : r.Fits a s.files)
    (hw : ∀ p, call.process? = some p → Within a s.files p) (hseat : s.seat a = .ok seat)
    (hd : (s.host seat).Does s.files a call k answer) :
    Follows a r ⟨s, .host a call, ⟨s.putHost a k, answer, lines⟩⟩ := by
  have hsame (ha : (s.host seat).Alike k) : r.Fits a (s.putHost a k).files := by
    rwa [files_putHost_alike hseat ha]
  have hat {level : Nat} {b : Bucket n} (h : seat.allocator.buckets[level]? = some b) :
      s.files.bucket? (.own a level) = some b := (bucketAt_of_seat hseat level).trans h
  have hback {level : Nat} {b : Bucket n} (h : s.files.bucket? (.own a level) = some b) :
      seat.allocator.buckets[level]? = some b := (bucketAt_of_seat hseat level).symm.trans h
  have hnamed {p : Fin n} (kind : call = .remove p ∨ call = .retire p) : Within a s.files p := by
    apply hw
    rcases kind with rfl | rfl <;> rfl
  cases hd with
  | quiet kind quiet mute =>
    exact .of_still (turn_of_quiet kind) (Answer.removal?_of_mute mute) (hsame quiet.1)
  | faulted counters edits =>
    refine ⟨?_, fun _ m hm => by cases hm⟩
    rw [post, if_neg (by simp [Event.faulted])]
    exact fits_putHost_opening hr hs hseat edits
  | started counters edits =>
    exact .of_still rfl rfl (fits_putHost_opening hr hs hseat edits)
  | @ignored p plain =>
    refine .of_still ?_ rfl (hsame (.refl _))
    have hplain : s.procs[p].cognitive = false := plain
    simp only [turn, hplain]
    split <;> rfl
  | @refused p k mark cognitive counters absent edits marked =>
    -- Only a process with a mark of another owner is refused.
    obtain ⟨b, hb⟩ := bucket_of_mark hs (hw p rfl) hseat edits marked
    cases absent.symm.trans hb
  | @filed p k level cognitive counters scored there edits =>
    have hnone : s.files.mark p = none → p ∉ r.map (·.1) := hr.not_mem hs
    have hfits := fits_putHost hr hs hseat edits
    rw [show (s.host seat).procs[p].mark = s.files.mark p from rfl, foldl_refile hnone] at hfits
    refine ⟨?_, fun _ m hm => by cases hm⟩
    have hcog : s.procs[p].cognitive = true := cognitive
    rw [post_of_turn rfl rfl]
    simp only [turn, scored_of_seat hseat scored, hcog, ↓reduceIte]
    exact hfits
  | nobody none_yields alike counters =>
    have hnext : r.next (s.files.free a) = none :=
      hr.next_of_nobody fun level b hb => none_yields b (List.mem_of_getElem? (hback hb))
    refine .of_draw rfl rfl rfl ?_ (hsame alike)
    simp only [draw, hnext]
  | @taken k p level b there free first none_yields started counters edit =>
    have hnext : r.next (s.files.free a) = some (p, level) :=
      hr.next_of_taken (hat there) free first fun l hl c hc => none_yields l hl c (hback hc)
    refine .of_draw rfl rfl rfl ?_ (fits_strike hr hs (edit_putHost hseat edit))
    simp only [draw, hnext]
  | @contended call p k mark b kind marked there held alike procs counters =>
    have hlevel : r.level? p = some mark := (hr.level?_eq_mark hs (hnamed kind)).trans marked
    refine .of_draw rfl (turn_withdrawal kind) rfl ?_ (hsame alike)
    simp [draw_withdrawal kind, hlevel, free_of_bucket? (hat there), held]
  | @notFound call p k kind absent alike counters =>
    have hmark : r.level? p = s.files.mark p := hr.level?_eq_mark hs (hnamed kind)
    have hlevel : r.level? p = none := by
      cases hl : r.level? p with
      | none => rfl
      | some level =>
        rw [hl] at hmark
        obtain ⟨b, hb, hpb⟩ := hs.own_of_mark (hnamed kind) hmark.symm
        exact absurd hpb (absent level b hmark.symm (hback hb)).2
    refine .of_draw rfl (turn_withdrawal kind) rfl ?_ (hsame alike)
    simp only [draw_withdrawal kind, hlevel]
  | @removed call p k mark kind marked started counters edit =>
    have hlevel : r.level? p = some mark := (hr.level?_eq_mark hs (hnamed kind)).trans marked
    have hfree : s.files.free a mark = true := by
      obtain ⟨b, hb, hfree, _⟩ := (edit_putHost hseat edit).of_unlink
      rw [free_of_bucket? hb, hfree]
      rfl
    have hfits := fits_strike hr hs (edit_putHost hseat edit)
    refine .of_draw rfl (turn_withdrawal kind) rfl ?_ hfits
    simp only [draw_withdrawal kind, hlevel, hfree, ↓reduceIte]
  | idle => exact .of_still rfl rfl (hsame (.refl _))
  | written alike changed counters => exact .of_still rfl rfl (hsame alike)

theorem turn_of_aside {c : Call n} {d : Done n} (hc : c.aside = true) :
    r.turn a ⟨s, c, d⟩ = r := by
  cases c with
  | host x call => cases hc
  | clock x call => rfl
  | record p call => rfl
  | bucket place call => cases place <;> cases call <;> first | rfl | cases hc

theorem bucket_follows {level : Nat} {call : BucketCall n} {d : Done n} (hs : s.files.Sound)
    (hr : r.Fits a s.files) (hw : ∀ p, call.process? = some p → Within a s.files p)
    (hd : s.Does (.bucket (.own a level) call) d) :
    Follows a r ⟨s, .bucket (.own a level) call, d⟩ := by
  have hopen {b : Bucket n} (hb : s.bucketAt (.own a level) = some b) (hh : b.held = false) :
      s.files.free a level = true := by
    rw [free_of_bucket? (f := s.files) hb, hh]
    rfl
  cases hd with
  | aside kind files keeps mute =>
    exact .of_still (turn_of_aside kind) (Answer.removal?_of_mute mute) (files ▸ hr)
  | absent nowhere =>
    refine .of_still ?_ rfl hr
    have hfree : s.files.free a level = false := by
      rw [free, show s.files.bucket? (.own a level) = none from nowhere]
      rfl
    cases call <;> simp [turn, draw, without, nowhere, hfree]
  | @marked _ p b t there marked files keeps =>
    refine .of_still ?_ rfl (files ▸ hr)
    have hlevel : r.level? p ≠ none := by
      rw [hr.level?_eq_mark hs (hw p rfl)]
      exact marked
    simp [turn, hlevel]
  | @joined _ p b t there unmarked edit keeps =>
    have hlevel : r.level? p = none := by
      rw [hr.level?_eq_mark hs (hw p rfl)]
      exact unmarked
    have hfits := hr.edit hs edit
    rw [enter, if_pos rfl] at hfits
    refine ⟨?_, fun _ m hm => by cases hm⟩
    rw [post_of_turn rfl rfl]
    simpa only [turn, there, hlevel, Option.isSome_some, and_self, ↓reduceIte] using hfits
  | contended kind there held files keeps =>
    have hfree : s.files.free a level = false := by
      rw [free_of_bucket? (f := s.files) there, held]
      rfl
    rcases kind with rfl | ⟨p, rfl⟩ <;> refine .of_draw rfl rfl rfl ?_ (files ▸ hr) <;>
      simp [draw, hfree]
  | empty there free empty files keeps =>
    have hunder : r.under level = [] := (hr.members there).symm.trans empty
    refine .of_draw rfl rfl rfl ?_ (files ▸ hr)
    simp [draw, hopen there free, hunder]
  | @missing _ p b t there free missing files keeps =>
    have hlevel : r.level? p ≠ some level := by
      intro h
      rw [hr.members there] at missing
      exact missing (mem_under.mpr ((level?_eq_some hr.nodup).mp h))
    refine .of_draw rfl rfl rfl ?_ (files ▸ hr)
    simp [draw, hopen there free, hlevel]
  | @popped _ p b t there free first edit keeps =>
    rw [hr.members there] at first
    obtain ⟨rest, hrest⟩ := List.head?_eq_some_iff.mp first
    refine .of_draw rfl rfl rfl ?_ (fits_strike hr hs edit)
    simp [draw, hopen there free, hrest]
  | @removed _ p b t there free member edit keeps =>
    have hlevel : r.level? p = some level :=
      (level?_eq_some hr.nodup).mpr (hr.mem_iff.mpr ⟨b, there, member⟩)
    refine .of_draw rfl rfl rfl ?_ (fits_strike hr hs edit)
    simp [draw, hopen there free, hlevel]

theorem Does.follows {c : Call n} {d : Done n} (hs : s.files.Sound) (hr : r.Fits a s.files)
    (hw : ∀ p, c.Uses p (some a) → Within a s.files p) (hd : s.Does c d) :
    Follows a r ⟨s, c, d⟩ := by
  by_cases hc : c.allocator? = some a
  · cases c with
    | host x call =>
      cases hc
      cases hd with
      | host seated does => exact host_follows hs hr (fun p hp => hw p ⟨hp, rfl⟩) seated does
      | aside kind files keeps mute => cases kind
    | clock x call =>
      cases hd with
      | aside kind files keeps mute =>
        exact .of_still (turn_of_aside kind) (Answer.removal?_of_mute mute) (files ▸ hr)
    | record p call => cases hc
    | bucket place call =>
      cases place with
      | own x level =>
        cases hc
        exact bucket_follows hs hr (fun p hp => hw p ⟨hp, rfl⟩) hd
      | loose q => cases hc
  · have hfits := hr.edits hs (hd.edits hs)
    have hout : ∀ c' ∈ Event.changes ⟨s, c, d⟩, c'.allocator? ≠ some a := by
      intro c' hc'
      rw [Event.changes_allocator? hc']
      exact hc
    rw [foldl_enter_self fun c' hc' _ => enter_of_ne (hout c' hc')] at hfits
    refine ⟨?_, fun ha => absurd ha hc⟩
    rwa [post, if_neg fun h => hc h.1]

def Foretold (a : Nat) (es : List (Event n)) : Prop :=
  ∀ front e back, es = front ++ e :: back → e.call.allocator? = some a →
    ∀ m, e.done.answer.removal? = some m → m = (replay a front).draw a e

theorem Foretold.concat {es : List (Event n)} {e : Event n} (h : Foretold a es)
    (he : Follows a (replay a es) e) : Foretold a (es ++ [e]) := by
  intro front e' back hsplit
  rcases List.eq_nil_or_concat back with rfl | ⟨back, last, rfl⟩
  · obtain ⟨rfl, hlast⟩ := List.append_inj' hsplit rfl
    cases hlast
    exact he.drawn
  · rw [List.concat_eq_append, ← List.cons_append, ← List.append_assoc] at hsplit
    exact h front e' back (List.append_inj' hsplit rfl).1

theorem Leads.follows {es : List (Event n)} {os : List Opening} {queues : List (Nat × Single)}
    {ps : Vector (UInt64 × Bool) n} (h : (fresh os queues (freshRoster ps)).Leads es t)
    (hx : Exclusive a es) :
    (replay a (es.flatMap Event.parts)).Fits a t.files ∧
      (∀ p, UsedWith a es p → Within a t.files p) ∧ Foretold a (es.flatMap Event.parts) := by
  refine h.induct (I := fun u past => (replay a past).Fits a u.files ∧
    (∀ p, UsedWith a es p → Within a u.files p) ∧ Foretold a past)
    (fresh_sound os queues ps) ?_ ?_ ?_
  · intro u past c d he hs hd hI
    obtain ⟨hfits, hwithin, hforetold⟩ := hI
    have hfollows : Follows a (replay a past) ⟨u, c, d⟩ := by
      apply hd.follows hs hfits
      intro p hp
      exact hwithin p (hx _ (mem_of_uses_parts he hp) p hp)
    refine ⟨?_, ?_, hforetold.concat hfollows⟩
    · rw [replay, List.foldl_append]
      exact hfollows.fits
    · intro p hp
      exact hd.within hs (hwithin p hp) fun o hu => hp _ (mem_of_uses_parts he hu) o hu
  · intro u v past hs hlocks hI
    obtain ⟨hfits, hwithin, hforetold⟩ := hI
    exact ⟨hfits.locks hs hlocks, fun p hp => (hwithin p hp).locks hlocks, hforetold⟩
  · refine ⟨fits_fresh, fun p _ => within_fresh, ?_⟩
    intro front e back hsplit
    cases front <;> cases hsplit

/-- The buckets of an allocator whose processes are used with nobody else are one flat priority list,
spread out by level. The marks are its levels, and it foretells what every call takes out. -/
theorem Leads.refines_ledger {es : List (Event n)} {os : List Opening}
    {queues : List (Nat × Single)} {ps : Vector (UInt64 × Bool) n}
    (h : (fresh os queues (freshRoster ps)).Leads es t) (hx : Exclusive a es) :
    (∀ level b, t.bucketAt (.own a level) = some b →
      b.members = (replay a (es.flatMap Event.parts)).under level) ∧
    (∀ p, UsedWith a es p → t.procs[p].mark = (replay a (es.flatMap Event.parts)).level? p) ∧
    Foretold a (es.flatMap Event.parts) ∧
    ∀ e ∈ es, e.parts.flatMap Event.yields = e.yields := by
  obtain ⟨hfits, hwithin, hforetold⟩ := h.follows hx
  have hs : t.files.Sound := h.sound (fresh_sound os queues ps)
  refine ⟨fun level b hb => hfits.members hb, ?_, hforetold, h.yields_parts⟩
  intro p hp
  exact (hfits.level?_eq_mark hs (hwithin p hp)).symm

theorem refines_ledger_of_second_ready : ∃ es, ∃ t : Session 2,
    (fresh [{ hz := 1000 }] [] (freshRoster (.ofFn fun p => (.ofNat p, true)))).Leads es t ∧
    Exclusive 0 es ∧ replay 0 (es.flatMap Event.parts) = [(0, 3)] ∧
    t.procs[(0 : Fin 2)].mark = some 3 ∧ t.procs[(1 : Fin 2)].mark = none := by
  let s : Session 2 := fresh [{ hz := 1000 }] [] (freshRoster (.ofFn fun p => (.ofNat p, true)))
  let steps : List (Step 2) :=
    [.call (.host 0 (.ready 0)), .call (.host 0 (.ready 1)), .call (.host 0 (.ready 0)),
      .hold (.own 0 3) [.call (.host 0 .drain)], .call (.host 0 .select)]
  obtain ⟨t, h, _⟩ := exists_leads s steps (fun _ => ()) (x := ()) (by decide +kernel)
  have hother : ∀ e ∈ s.events steps, e.call.allocator? = some 0 := by decide +kernel
  have hused (p : Fin 2) : UsedWith 0 (s.events steps) p := usedWith_of_allocator? hother p
  have hreplay : replay 0 ((s.events steps).flatMap Event.parts) = [(0, 3)] := by decide +kernel
  have hx : Exclusive 0 (s.events steps) := fun _ _ p _ => hused p
  have hmarks := (h.refines_ledger hx).2.1
  rw [hreplay] at hmarks
  exact ⟨_, t, h, hx, hreplay, hmarks 0 (hused 0), hmarks 1 (hused 1)⟩

end Session

end AttentionScheduler
