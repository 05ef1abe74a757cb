import AttentionScheduler.Proofs.Filing

/-!
Filing on a shelf takes at most two rounds on sound files, or it never ends. A walk along a shelf takes
the head of the first bucket that yields. A withdrawal concerns the bucket that the mark names.
-/

namespace AttentionScheduler

open Files

variable {n : Nat} {F : Files n} {s t : Shelf n} {a level : Nat} {p : Fin n}

namespace Shelf

theorem filed?_eq_some {f : Filed n} (h : s.filed? level = some f) :
    s.buckets[level]? = some f.bucket ∧ f.procs = s.procs := by
  obtain ⟨b, hb, rfl⟩ := Option.map_eq_some_iff.mp h
  exact ⟨hb, rfl⟩

theorem filed?_eq_none : s.filed? level = none ↔ s.buckets[level]? = none := by
  simp [filed?]

theorem put_self {f : Filed n} (h : s.filed? level = some f) : s.put level f = s := by
  obtain ⟨hb, hp⟩ := filed?_eq_some h
  obtain ⟨hl, hb⟩ := List.getElem?_eq_some_iff.mp hb
  cases s
  simp only [put, hp, ← hb, List.set_getElem_self]

theorem shows_of_filed? {f : Filed n} (h : s.filed? level = some f) :
    (F.withShelf a s).Shows (.own a level) f := by
  obtain ⟨hb, hp⟩ := filed?_eq_some h
  cases f
  subst hp
  exact withShelf_shows hb

theorem withShelf_put_of_filed? {f : Filed n} (h : s.filed? level = some f) (g : Filed n) :
    F.withShelf a (s.put level g) = (F.withShelf a s).withFiled (.own a level) g :=
  withShelf_put g (List.getElem?_eq_some_iff.mp (filed?_eq_some h).1).1

theorem link_of_filed? {f : Filed n} (h : s.filed? level = some f) (hh : f.bucket.held = false)
    (hm : s.procs[p].mark = none) :
    Edit (F.withShelf a s) (.link (.own a level) p) (F.withShelf a (s.put level (f.joined p))) := by
  have hp : f.procs[p].mark = none := by rw [(filed?_eq_some h).2, hm]
  rw [withShelf_put_of_filed? h]
  exact Filed.joined_edit (shows_of_filed? h) hh hp

theorem unlink_of_filed? {f : Filed n} (h : s.filed? level = some f) (hh : f.bucket.held = false)
    (hp : p ∈ f.bucket.members) :
    Edit (F.withShelf a s) (.unlink (.own a level) p)
      (F.withShelf a (s.put level (f.letGo p (f.bucket.members.erase p)))) := by
  rw [withShelf_put_of_filed? h]
  exact Filed.letGo_edit (shows_of_filed? h) hh hp

theorem rounds_spin (h : s.round level p = .returned s none) (k : Nat) :
    s.rounds k level p = .stuck .spinning := by
  induction k with
  | zero => rfl
  | succ k ih => rw [rounds, h, Ending.bind_returned, ih]

def leaving (a : Nat) (mark : Option Nat) (p : Fin n) : List (Change n) :=
  match mark with
  | none => []
  | some level => [.unlink (.own a level) p]

/-- How filing ends. A fault or a refusal leaves the shelf as it was. -/
inductive FileEnds (F : Files n) (a : Nat) (s : Shelf n) (level : Nat) (p : Fin n) :
    Ending (Shelf n) Filing → Prop where
  | faulted (fault : Fault) : FileEnds F a s level p (.faulted s fault)
  | stuck (stop : Stop) : FileEnds F a s level p (.stuck stop)
  | refused {mark : Nat} (marked : s.procs[p].mark = some mark)
      (absent : s.buckets[mark]? = none) : FileEnds F a s level p (.returned s (.refused mark))
  | linked {t : Shelf n}
      (edits : Edits (F.withShelf a s) (leaving a s.procs[p].mark p ++ [.link (.own a level) p])
        (F.withShelf a t)) : FileEnds F a s level p (.returned t .linked)

theorem round_unmarked {f : Filed n} (h : s.filed? level = some f) (hm : s.procs[p].mark = none) :
    s.round level p =
      if f.bucket.held then .stuck .waiting
      else .returned (s.put level (f.joined p)) (some .linked) := by
  have hp : f.procs[p].mark = none := by rw [(filed?_eq_some h).2, hm]
  rw [round, h]
  cases hh : f.bucket.held with
  | true => simp only [hm, Filed.push_held hh, Ending.map, ↓reduceIte]
  | false => simp only [hm, Filed.push_free hh hp, Ending.map, ↓reduceIte, Bool.false_eq_true]

theorem rounds_unmarked (hm : s.procs[p].mark = none) {f : Filed n} (h : s.filed? level = some f)
    (k : Nat) :
    (∃ stop, s.rounds (k + 1) level p = .stuck stop) ∨
      ∃ t, s.rounds (k + 1) level p = .returned t .linked ∧
        Edit (F.withShelf a s) (.link (.own a level) p) (F.withShelf a t) := by
  rw [rounds, round_unmarked h hm]
  cases hh : f.bucket.held with
  | true => exact .inl ⟨_, rfl⟩
  | false => exact .inr ⟨_, rfl, link_of_filed? h hh hm⟩

theorem filed?_put_isSome {f : Filed n} (h : s.filed? level = some f) (other : Nat) (g : Filed n) :
    ∃ f', (s.put other g).filed? level = some f' := by
  obtain ⟨hl, _⟩ := List.getElem?_eq_some_iff.mp (filed?_eq_some h).1
  have hl' : level < (s.put other g).buckets.length := by simpa [put] using hl
  exact ⟨_, by rw [filed?, List.getElem?_eq_getElem hl']; rfl⟩

theorem rounds_marked (hs : (F.withShelf a s).Sound) {mark : Nat} (hm : s.procs[p].mark = some mark)
    {f : Filed n} (h : s.filed? level = some f) (k : Nat) :
    FileEnds F a s level p (s.rounds (k + 2) level p) := by
  cases hc : s.filed? mark with
  | none =>
    have hround : s.round level p = .returned s (some (.refused mark)) := by
      simp only [round, h, hm, hc]
    rw [rounds, hround]
    exact .refused hm (filed?_eq_none.mp hc)
  | some current =>
    cases hh : current.bucket.held with
    | true =>
      have hround : s.round level p = .stuck .waiting := by
        simp only [round, h, hm, hc, hh, ↓reduceIte]
      rw [rounds, hround]
      exact .stuck _
    | false =>
      have hround : s.round level p = .returned (s.put mark (current.unlink p).1) none := by
        simp only [round, h, hm, hc, hh, Bool.false_eq_true, ↓reduceIte]
      by_cases hp : p ∈ current.bucket.members
      · have hgone : current.unlink p =
            (current.letGo p (current.bucket.members.erase p), .removed p) := if_pos hp
        rw [rounds, hround, hgone]
        let t := s.put mark (current.letGo p (current.bucket.members.erase p))
        change FileEnds F a s level p (t.rounds (k + 1) level p)
        have hedit : Edit (F.withShelf a s) (.unlink (.own a mark) p) (F.withShelf a t) :=
          unlink_of_filed? hc hh hp
        obtain ⟨_, hf⟩ := filed?_put_isSome h mark
          (current.letGo p (current.bucket.members.erase p))
        rcases rounds_unmarked (F := F) (a := a) (hs.mark_of_unlink hedit) hf k with
          ⟨stop, hr⟩ | ⟨u, hr, hlink⟩
        · rw [hr]
          exact .stuck stop
        · rw [hr]
          apply FileEnds.linked
          rw [hm]
          exact .cons hedit (.single hlink)
      · -- A bucket that lacks `p` under its own mark makes every round the same.
        have hsame : (current.unlink p).1 = current := by rw [Filed.unlink, if_neg hp]
        rw [hsame, put_self hc] at hround
        rw [rounds_spin hround]
        exact .stuck _

theorem file_ends (hs : (F.withShelf a s).Sound) (level : Nat) (p : Fin n) :
    FileEnds F a s level p (s.file level p) := by
  cases h : s.filed? level with
  | none =>
    have hround : s.round level p = .faulted s (.outOfBounds s.buckets.length level) := by
      simp only [round, h]
    rw [file, rounds, hround]
    exact .faulted _
  | some f =>
    cases hm : s.procs[p].mark with
    | none =>
      rcases rounds_unmarked (F := F) (a := a) hm h (Bucket.population s.buckets + 1) with
        ⟨stop, hr⟩ | ⟨t, hr, hlink⟩
      · rw [file, hr]
        exact .stuck stop
      · rw [file, hr]
        apply FileEnds.linked
        rw [hm]
        exact .single hlink
    | some mark => exact rounds_marked hs hm h (Bucket.population s.buckets)

inductive WithdrawEnds (F : Files n) (a : Nat) (s : Shelf n) (p : Fin n) :
    Shelf n × Removal n → Prop where
  | contended {mark : Nat} {b : Bucket n} (marked : s.procs[p].mark = some mark)
      (there : s.buckets[mark]? = some b) (held : b.held = true) :
      WithdrawEnds F a s p (s, .contended)
  | notFound (absent : ∀ mark b, s.procs[p].mark = some mark → s.buckets[mark]? = some b →
      b.held = false ∧ p ∉ b.members) : WithdrawEnds F a s p (s, .notFound)
  | removed {mark : Nat} {t : Shelf n} (marked : s.procs[p].mark = some mark)
      (edit : Edit (F.withShelf a s) (.unlink (.own a mark) p) (F.withShelf a t)) :
      WithdrawEnds F a s p (t, .removed p)

theorem withdraw_ends (F : Files n) (a : Nat) (s : Shelf n) (p : Fin n) :
    WithdrawEnds F a s p (s.withdraw p) := by
  unfold withdraw
  cases hm : s.procs[p].mark with
  | none =>
    apply WithdrawEnds.notFound
    intro mark b h
    cases hm.symm.trans h
  | some mark =>
    cases hf : s.filed? mark with
    | none =>
      simp only [hf]
      apply WithdrawEnds.notFound
      intro mark' b h hb
      cases hm.symm.trans h
      rw [filed?_eq_none.mp hf] at hb
      cases hb
    | some f =>
      have hb := (filed?_eq_some hf).1
      rcases f.remove_cases p with ⟨hh, hr⟩ | ⟨hh, hp, hr⟩ | ⟨hh, hp, hr⟩
      · simp only [hf, hr, put_self hf]
        exact .contended hm hb hh
      · simp only [hf, hr, put_self hf]
        apply WithdrawEnds.notFound
        intro mark' b h hb'
        cases hm.symm.trans h
        cases hb.symm.trans hb'
        exact ⟨hh, hp⟩
      · simp only [hf, hr]
        exact .removed hm (unlink_of_filed? hf hh hp)

end Shelf

def Bucket.yields (b : Bucket n) : Bool := !b.members.isEmpty && !b.held

def Bucket.busy (b : Bucket n) : Bool := !b.members.isEmpty && b.held

namespace Sweep

inductive AlongEnds (procs : Roster n) (bs : List (Bucket n)) : Sweep n → Prop where
  | empty (none_yields : ∀ b ∈ bs, b.yields = false) :
      AlongEnds procs bs
        { shelf := ⟨bs, procs⟩, busy := (bs.filter Bucket.busy).map (·.level) }
  | taken {front rest : List (Bucket n)} {b : Bucket n} {p : Fin n} {ps : List (Fin n)}
      (split : bs = front ++ b :: rest) (none_yields : ∀ b ∈ front, b.yields = false)
      (free : b.held = false) (first : b.members = p :: ps) :
      AlongEnds procs bs
        { shelf := ⟨front ++ ((Filed.mk b procs).letGo p ps).bucket :: rest,
            ((Filed.mk b procs).letGo p ps).procs⟩
          busy := (front.filter Bucket.busy).map (·.level)
          taken := some (b.level, p) }

theorem AlongEnds.past {procs : Roster n} {bs : List (Bucket n)} {w : Sweep n} {b : Bucket n}
    (h : AlongEnds procs bs w) (hb : b.yields = false) :
    AlongEnds procs (b :: bs) (w.past b (if b.busy then [b.level] else [])) := by
  have cons {ls : List (Bucket n)} (h : ∀ c ∈ ls, c.yields = false) :
      ∀ c ∈ b :: ls, c.yields = false := by
    intro c hc
    rcases List.mem_cons.mp hc with rfl | hc
    · exact hb
    · exact h c hc
  have busy (ls : List (Bucket n)) : (if b.busy then [b.level] else []) ++
      (ls.filter Bucket.busy).map (·.level) = ((b :: ls).filter Bucket.busy).map (·.level) := by
    by_cases hbusy : b.busy <;> simp [hbusy]
  cases h with
  | empty none_yields =>
    rw [Sweep.past, busy]
    exact .empty (cons none_yields)
  | taken split none_yields free first =>
    rw [Sweep.past, busy, split]
    exact .taken rfl (cons none_yields) free first

theorem along_ends (procs : Roster n) (bs : List (Bucket n))
    (hp : ∀ b ∈ bs, b.count = b.members.length) : AlongEnds procs bs (along bs procs) := by
  induction bs with
  | nil => exact .empty (by simp)
  | cons b rest ih =>
    have hrest := ih fun c hc => hp c (List.mem_cons_of_mem b hc)
    have hcount := hp b List.mem_cons_self
    cases hm : b.members with
    | nil =>
      have hzero : b.count = 0 := by rw [hcount, hm, List.length_nil]
      have hpast := hrest.past (b := b) (by simp [Bucket.yields, hm])
      simpa [along, hzero, Bucket.busy, hm] using hpast
    | cons p ps =>
      have hcount' : b.count ≠ 0 := by rw [hcount, hm]; simp
      cases hh : b.held with
      | true =>
        have hpast := hrest.past (b := b) (by simp [Bucket.yields, hh])
        simpa [along, hcount', Filed.popFront, Bucket.busy, hm, hh] using hpast
      | false =>
        have htaken : along (b :: rest) procs =
            { shelf := ⟨((Filed.mk b procs).letGo p ps).bucket :: rest,
                ((Filed.mk b procs).letGo p ps).procs⟩
              taken := some (b.level, p) } := by
          simp [along, hcount', Filed.popFront, hm, hh]
        rw [htaken]
        exact .taken (List.nil_append (b :: rest)).symm (by simp) hh hm

end Sweep

end AttentionScheduler
