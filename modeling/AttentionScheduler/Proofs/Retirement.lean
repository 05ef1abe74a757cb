import AttentionScheduler.Proofs.Conservation
import AttentionScheduler.Proofs.Membership

/-!
A process that has been retired is in no bucket, and nobody hands it out until it is filed again. One
whose bucket was busy stays where it is, until it is retired with its bucket free.
-/

namespace AttentionScheduler

open Files

variable {n : Nat}

namespace Session

variable {s t : Session n} {a : Nat} {seat : Seat n} {p : Fin n} {c : Call n} {d : Done n}
  {es fs : List (Event n)}

theorem yields_of_mute {e : Event n} (h : e.done.answer.mute = true) : e.yields = [] := by
  unfold Event.yields
  split
  · next ps hd =>
    rw [hd] at h
    cases h
  · rw [Answer.taken?_of_mute h]
    rfl

theorem Does.not_absent (hd : s.Does c d) (hp : p ∈ Event.yields ⟨s, c, d⟩) : ¬ s.files.Absent p := by
  intro habsent
  have hnone : p ∉ ([] : List (Fin n)) := List.not_mem_nil
  cases hd with
  | @host a seat call k answer seated does =>
    cases does with
    | quiet kind quiet mute =>
      have hnil := yields_of_mute (e := ⟨s, .host a call, ⟨s.putHost a k, answer, k.lines⟩⟩) mute
      exact hnone (hnil ▸ hp)
    | @taken k q level b there free first none_yields started counters edit =>
      have hq : p = q := List.mem_singleton.mp hp
      subst hq
      exact habsent (.own a level) b ((bucketAt_of_seat seated level).trans there)
        (List.mem_of_mem_head? first)
    | @removed call q k mark kind marked started counters edit =>
      have hq : p = q := List.mem_singleton.mp hp
      subst hq
      obtain ⟨b, hb, _, hmem⟩ := (edit_putHost seated edit).of_unlink
      exact habsent _ b hb hmem
    | faulted | started | ignored | refused | filed | nobody | contended | notFound | idle
      | written => exact hnone hp
  | aside kind files keeps mute =>
    have hnil := yields_of_mute (e := ⟨s, c, d⟩) mute
    exact hnone (hnil ▸ hp)
  | @popped place q b t there free first edit keeps =>
    have hq : p = q := List.mem_singleton.mp hp
    subst hq
    exact habsent place b there (List.mem_of_mem_head? first)
  | @removed place q b t there free member edit keeps =>
    have hq : p = q := List.mem_singleton.mp hp
    subst hq
    exact habsent place b there member
  | absent | marked | joined | contended | empty | missing => exact hnone hp

theorem Leads.never_yields (h : s.Leads fs t) (hs : s.files.Sound) (hp : s.files.Absent p)
    (hf : ∀ e ∈ fs, e.call.files? ≠ some p) : ∀ e ∈ fs, p ∉ e.yields := by
  have hparts : t.files.Absent p ∧ ∀ e ∈ fs.flatMap Event.parts, p ∉ e.yields := by
    refine h.induct (I := fun u past => u.files.Absent p ∧ ∀ e ∈ past, p ∉ e.yields) hs ?_ ?_
      ⟨hp, by simp⟩
    · intro u past c d he hs hd hI
      obtain ⟨habsent, hpast⟩ := hI
      constructor
      · apply habsent.edits (hd.edits hs)
        intro place hlink
        have huses := Event.uses_of_link hlink
        exact hf _ (mem_of_uses_parts he huses) (Event.files?_of_link hlink).1
      · intro e he'
        rcases List.mem_append.mp he' with he' | he'
        · exact hpast e he'
        · rw [List.mem_singleton.mp he']
          exact fun hyields => hd.not_absent hyields habsent
    · exact fun _ hl hI => ⟨hI.1.locks hl, hI.2⟩
  intro e he hyields
  rw [← h.yields_parts e he] at hyields
  obtain ⟨part, hpart, hmem⟩ := List.mem_flatMap.mp hyields
  exact hparts.2 part (List.mem_flatMap.mpr ⟨e, he, hpart⟩) hmem

theorem retire_ok (hc : s.call (.host a (.retire p)) = .ok d) : ∃ seat, s.seat a = .ok seat ∧
    d = ⟨s.putHost a ((s.host seat).retire p).1, .host (.removal ((s.host seat).retire p).2),
      ((s.host seat).retire p).1.lines⟩ := by
  obtain ⟨seat, hs⟩ := seat_of_call hc
  simp only [call, callHost, hs] at hc
  cases hc
  exact ⟨seat, hs, rfl⟩

theorem mem_yields_of_taken {e : Event n} (h : e.done.answer.taken? = some p) : p ∈ e.yields := by
  unfold Event.yields
  split
  · next ps hd =>
    rw [hd] at h
    cases h
  · rw [h]
    exact List.mem_cons_self

theorem left_le_entered (a : Nat) (hes : ∀ e ∈ es, p ∉ e.yields) : left a p es ≤ entered a p es := by
  have hdispatched : es.countP (·.dispatched? a = some p) = 0 := by
    apply List.countP_eq_zero.mpr
    intro e he h
    exact hes e he (mem_yields_of_taken (Event.taken_of_dispatched (of_decide_eq_true h)))
  have hwithdrawn : es.countP (·.withdrawn? a = some p) = 0 := by
    apply List.countP_eq_zero.mpr
    intro e he h
    exact hes e he (mem_yields_of_taken (Event.taken_of_withdrawn (of_decide_eq_true h)))
  have hmoved : es.countP (·.moved? a = some p) ≤ es.countP (·.readied? a = some p) := by
    apply List.countP_mono_left
    intro e _ h
    exact decide_eq_true (Event.readied_of_moved (of_decide_eq_true h))
  simp only [left, entered]
  omega

theorem Leads.stays {os : List Opening} {queues : List (Nat × Single)}
    {ps : Vector (UInt64 × Bool) n} (h : (fresh os queues (freshRoster ps)).Leads es s)
    (h' : s.Leads fs t) (hp : p ∈ s.inside a) (hfs : ∀ e ∈ fs, p ∉ e.yields) : p ∈ t.inside a := by
  have hs : s.files.Sound := h.sound (fresh_sound os queues ps)
  have ht : t.files.Sound := h'.sound hs
  obtain ⟨r, hr, hcount⟩ := h.balance a
  obtain ⟨r', hr', hcount'⟩ := (h.trans h').balance a
  have hbefore := hcount p
  have hafter := hcount' p
  have hparts : ∀ e ∈ fs.flatMap Event.parts, p ∉ e.yields := by
    intro part hpart hmem
    obtain ⟨e, he, hpe⟩ := List.mem_flatMap.mp hpart
    apply hfs e he
    rw [← h'.yields_parts e he]
    exact List.mem_flatMap.mpr ⟨part, hpe, hmem⟩
  -- In between `p` left at most as often as it entered, so the balance is not less than before.
  have hleft := left_le_entered a hparts
  rw [List.flatMap_append, left_append, entered_append] at hafter
  have hone : 0 < (r.map (·.1)).count p := List.count_pos_iff.mpr ((inside_perm hs hr).mem_iff.mp hp)
  have hpos : 0 < (r'.map (·.1)).count p := by omega
  exact (inside_perm ht hr').mem_iff.mpr (List.count_pos_iff.mp hpos)

theorem removed_of_inside (hs : s.files.Sound) (hc : s.call (.host a (.retire p)) = .ok d)
    (hp : p ∈ s.inside a) (hfree : ∀ b ∈ s.bucketsOf a, p ∈ b.members → b.held = false) :
    d.answer = .host (.removal (.removed p)) := by
  obtain ⟨seat, hseat, rfl⟩ := retire_ok hc
  obtain ⟨level, b, hb, hmem⟩ := mem_inside.mp hp
  have hfile : s.files.bucket? (.own a level) = some b := hb
  have hown := hs.own_level hfile
  have hmark : s.procs[p].mark = some level := hown.1 ▸ hs.marked hfile hown.2 hmem
  have hat : seat.allocator.buckets[level]? = some b := (bucketAt_of_seat hseat level).symm.trans hb
  have hheld : b.held = false := hfree b (List.mem_of_getElem? hb) hmem
  have hends := Host.retire_ends s.files a (s.host seat) p
  generalize (s.host seat).retire p = ends at hends
  cases hends with
  | contended marked there held alike procs counters =>
    cases hmark.symm.trans marked
    cases hat.symm.trans there
    rw [hheld] at held
    cases held
  | notFound absent alike counters => exact absurd hmem (absent level b hmark hat).2
  | removed marked started config counters edit => rfl

theorem gone_of_unmarked (ht : t.files.Sound) (hw : Within a t.files p)
    (hm : t.procs[p].mark = none) :
    (∀ b ∈ t.everyBucket, p ∉ b.members) ∧ ∀ fs u, t.Leads fs u →
      (∀ e ∈ fs, e.call.files? ≠ some p) → ∀ e ∈ fs, p ∉ e.yields := by
  have habsent : t.files.Absent p := ht.absent hw hm
  constructor
  · intro b hb hmem
    obtain ⟨place, hat⟩ := mem_everyBucket.mp hb
    exact habsent place b hat hmem
  · intro fs u hleads hfiles
    exact hleads.never_yields ht habsent hfiles

/-- A retirement that is not contended leaves `p` in no bucket, and nobody hands it out before some call
files it. A contended one changes nothing for `p`, and once its bucket is free another one removes it. -/
theorem Leads.retires {os : List Opening} {queues : List (Nat × Single)}
    {ps : Vector (UInt64 × Bool) n} (h : (fresh os queues (freshRoster ps)).Leads es s)
    (hp : UsedWith a es p) (hc : s.call (.host a (.retire p)) = .ok d) :
    ((d.answer = .host (.removal (.removed p)) ∨ d.answer = .host (.removal .notFound)) ∧
      (∀ b ∈ d.session.everyBucket, p ∉ b.members) ∧ d.session.procs[p].mark = none ∧
      d.session.procs[p].tracked = false ∧
      ∀ fs t, d.session.Leads fs t → (∀ e ∈ fs, e.call.files? ≠ some p) →
        ∀ e ∈ fs, p ∉ e.yields) ∨
    (d.answer = .host (.removal .contended) ∧ d.session.files = s.files ∧
      d.session.procs = s.procs ∧
      ∀ fs t d', d.session.Leads fs t → (∀ e ∈ fs, p ∉ e.yields) →
        (∀ b ∈ t.bucketsOf a, p ∈ b.members → b.held = false) →
        t.call (.host a (.retire p)) = .ok d' → d'.answer = .host (.removal (.removed p))) := by
  have hs : s.files.Sound := h.sound (fresh_sound os queues ps)
  have hw : Within a s.files p := h.within hp
  have hleads : s.Leads [⟨s, .host a (.retire p), d⟩] d.session := .call hc (.refl _)
  have hd : d.session.files.Sound := hleads.sound hs
  obtain ⟨seat, hseat, rfl⟩ := retire_ok hc
  have hends := Host.retire_ends s.files a (s.host seat) p
  have htracked := Host.retire_tracked (s.host seat) p
  generalize (s.host seat).retire p = ends at hc hends htracked hleads hd ⊢
  cases hends with
  | @contended k mark b marked there held alike procs counters =>
    have hfiles : (s.putHost a k).files = s.files := files_putHost_alike hseat alike
    obtain ⟨b, hb, hmem⟩ := hs.own_of_mark hw marked
    have hin : p ∈ (s.putHost a k).inside a := by
      refine mem_inside.mpr ⟨mark, b, ?_, hmem⟩
      change (s.putHost a k).files.bucket? (.own a mark) = some b
      rw [hfiles, hb]
    refine .inr ⟨rfl, hfiles, procs, ?_⟩
    intro fs t d' hfs hno hfree hc'
    have hstays := (h.trans hleads).stays hfs hin hno
    exact removed_of_inside (hfs.sound hd) hc' hstays hfree
  | @notFound k absent alike counters =>
    have hfiles : (s.putHost a k).files = s.files := files_putHost_alike hseat alike
    have hm : s.procs[p].mark = none := by
      cases hm : s.procs[p].mark with
      | none => rfl
      | some level =>
        obtain ⟨b, hb, hmem⟩ := hs.own_of_mark hw hm
        exact absurd hmem (absent level b hm ((bucketAt_of_seat hseat level).symm.trans hb)).2
    have hmark : (s.putHost a k).procs[p].mark = none := (alike.mark p).trans hm
    have hgone := gone_of_unmarked hd (hfiles ▸ hw) hmark
    exact .inl ⟨.inr rfl, hgone.1, hmark, htracked (by simp), hgone.2⟩
  | @removed k mark marked started config counters edit =>
    have hedit := edit_putHost hseat edit
    have hmark : (s.putHost a k).procs[p].mark = none := hs.mark_of_unlink hedit
    have hwithin : Within a (s.putHost a k).files p := Confined.edit hw hedit fun _ h => nomatch h
    have hgone := gone_of_unmarked hd hwithin hmark
    exact .inl ⟨.inl rfl, hgone.1, hmark, htracked (by simp), hgone.2⟩

theorem retires_in_two_attempts : ∃ es, ∃ s : Session 1, ∃ d, ∃ t, ∃ d',
    (fresh [{ hz := 1000 }] [] (freshRoster (.ofFn fun p => (.ofNat p, true)))).Leads es s ∧
    s.call (.host 0 (.retire 0)) = .ok d ∧ d.answer = .host (.removal .contended) ∧
    d.session.Leads [] t ∧ t.call (.host 0 (.retire 0)) = .ok d' ∧
    d'.answer = .host (.removal (.removed 0)) := by
  let s : Session 1 := fresh [{ hz := 1000 }] [] (freshRoster (.ofFn fun p => (.ofNat p, true)))
  let steps : List (Step 1) :=
    [.call (.host 0 (.ready 0)), .hold (.own 0 3) [.call (.host 0 (.retire 0))],
      .call (.host 0 (.retire 0))]
  obtain ⟨u, h, _⟩ := exists_leads s steps (fun _ => ()) (x := ()) (by decide +kernel)
  have hcalls : (s.events steps).map (·.call) =
      [.host 0 (.ready 0), .host 0 (.retire 0), .host 0 (.retire 0)] := by decide +kernel
  have hanswers : (s.events steps).map (·.done.answer) =
      [.host (.mark (some 3)), .host (.removal .contended), .host (.removal (.removed 0))] := by
    decide +kernel
  have hfree : (s.events steps).map (fun e => (e.before.bucketsOf 0).all fun b =>
      decide (0 ∈ b.members → b.held = false)) = [true, false, true] := by decide +kernel
  obtain ⟨e₁, e₂, e₃, hes⟩ := List.length_eq_three.mp
    (show (s.events steps).length = 3 by decide +kernel)
  rw [hes] at h hcalls hanswers hfree
  simp only [List.map_cons, List.map_nil, List.cons.injEq, and_true] at hcalls hanswers hfree
  have hsplit : s.Leads ([e₁] ++ e₂ :: [e₃]) u := h
  obtain ⟨hbefore, hcall₂, hafter⟩ := hsplit.split
  have hsplit' : e₂.done.session.Leads ([] ++ e₃ :: []) u := hafter
  obtain ⟨hbetween, hcall₃, _⟩ := hsplit'.split
  rw [hcalls.2.1] at hcall₂
  rw [hcalls.2.2] at hcall₃
  have hused : UsedWith 0 [e₁] (0 : Fin 1) := by
    apply usedWith_of_allocator?
    intro e he
    rw [List.mem_singleton.mp he, hcalls.1]
    rfl
  rcases hbefore.retires hused hcall₂ with ⟨hans, _⟩ | ⟨hans, _, _, hlater⟩
  · simp [hanswers.2.1] at hans
  · refine ⟨[e₁], e₂.before, e₂.done, e₃.before, e₃.done, hbefore, hcall₂, hans, hbetween,
      hcall₃, ?_⟩
    apply hlater [] _ _ hbetween (by simp) _ hcall₃
    intro b hb
    exact of_decide_eq_true (List.all_eq_true.mp hfree.2.2 b hb)

end Session

end AttentionScheduler
