import AttentionScheduler.Proofs.Ownership
import Mathlib.Data.List.MinMax

/-!
The buckets of an allocator show one flat list: its processes with their levels, in filing order. Every
change of the files has its counterpart on that list.
-/

namespace AttentionScheduler

open Files

variable {n : Nat}

/-- The processes that an allocator has filed and their levels, in filing order. -/
abbrev Ledger (n : Nat) := List (Fin n × Nat)

namespace Ledger

variable {r : Ledger n} {p q : Fin n} {a level l : Nat} {f g : Files n} {b : Bucket n} {c : Change n}
  {cs : List (Change n)}

def strike (r : Ledger n) (p : Fin n) : Ledger n := r.filter (·.1 ≠ p)

def level? (r : Ledger n) (p : Fin n) : Option Nat := (r.find? (·.1 = p)).map (·.2)

def under (r : Ledger n) (level : Nat) : List (Fin n) := (r.filter (·.2 = level)).map (·.1)

def next (r : Ledger n) (free : Nat → Bool) : Option (Fin n × Nat) :=
  (r.filter fun entry => free entry.2).argmin (·.2)

theorem mem_under : p ∈ r.under level ↔ (p, level) ∈ r := by
  simp [under]

theorem level?_eq_none : r.level? p = none ↔ p ∉ r.map (·.1) := by
  rw [level?, Option.map_eq_none_iff, List.find?_eq_none]
  constructor
  · intro h hp
    obtain ⟨x, hx, hxp⟩ := List.mem_map.mp hp
    exact h x hx (decide_eq_true hxp)
  · intro h x hx hxp
    exact h (of_decide_eq_true hxp ▸ List.mem_map_of_mem hx)

theorem mem_of_find? {x : Fin n × Nat} (h : r.find? (·.1 = p) = some x) : (p, x.2) ∈ r := by
  have hp : x.1 = p := by simpa using List.find?_some h
  rw [← hp]
  exact List.mem_of_find?_eq_some h

theorem level?_eq_some (hr : (r.map (·.1)).Nodup) : r.level? p = some level ↔ (p, level) ∈ r := by
  constructor
  · intro h
    obtain ⟨x, hx, rfl⟩ := Option.map_eq_some_iff.mp h
    exact mem_of_find? hx
  · intro h
    have hsome : r.level? p ≠ none := fun hnone => level?_eq_none.mp hnone (List.mem_map_of_mem h)
    obtain ⟨l, hl⟩ := Option.ne_none_iff_exists'.mp hsome
    obtain ⟨x, hx, rfl⟩ := Option.map_eq_some_iff.mp hl
    have hsame := List.inj_on_of_nodup_map hr (mem_of_find? hx) h rfl
    rw [hl, (Prod.ext_iff.mp hsame).2]

theorem under_append (r : Ledger n) (p : Fin n) (l level : Nat) :
    under (r ++ [(p, l)]) level = if l = level then r.under level ++ [p] else r.under level := by
  by_cases h : l = level <;> simp [under, h]

theorem under_strike (hr : (r.map (·.1)).Nodup) (p : Fin n) (level : Nat) :
    (r.strike p).under level = (r.under level).erase p := by
  have hu : (r.under level).Nodup := hr.sublist (List.filter_sublist.map _)
  rw [hu.erase_eq_filter]
  simp only [under, strike, List.filter_map, List.filter_filter]
  congr 1
  apply List.filter_congr
  intro x _
  by_cases hx : x.1 = p <;> simp [hx]

theorem nodup_strike (hr : (r.map (·.1)).Nodup) (p : Fin n) : ((r.strike p).map (·.1)).Nodup :=
  hr.sublist (List.filter_sublist.map _)

theorem not_mem_strike : p ∉ (r.strike p).map (·.1) := by
  simp [strike]

theorem strike_of_not_mem (h : p ∉ r.map (·.1)) : r.strike p = r := by
  apply List.filter_eq_self.mpr
  intro x hx
  apply decide_eq_true
  rintro rfl
  exact h (List.mem_map_of_mem hx)

theorem argmin_of_first {entries : Ledger n} {x : Fin n × Nat}
    (hfirst : (entries.filter (·.2 = x.2)).head? = some x) (hmin : ∀ y ∈ entries, x.2 ≤ y.2) :
    entries.argmin (·.2) = some x := by
  induction entries with
  | nil => cases hfirst
  | cons y rest ih =>
    have hrest : ∀ z ∈ rest, x.2 ≤ z.2 := fun z hz => hmin z (List.mem_cons_of_mem _ hz)
    rw [List.argmin_cons]
    by_cases hy : y.2 = x.2
    · have hyx : y = x := by simpa [hy] using hfirst
      subst hyx
      cases hz : rest.argmin (·.2) with
      | none => rfl
      | some z => simp [Nat.not_lt.mpr (hrest z (List.argmin_mem hz))]
    · have hlt : x.2 < y.2 := Nat.lt_of_le_of_ne (hmin y List.mem_cons_self) (Ne.symm hy)
      rw [ih (by simpa [hy] using hfirst) hrest]
      simp [hlt]

/-- The ledger is what the own buckets of `a` show. -/
structure Fits (r : Ledger n) (a : Nat) (f : Files n) : Prop where
  nodup : (r.map (·.1)).Nodup
  members : ∀ {level b}, f.bucket? (.own a level) = some b → b.members = r.under level
  there : ∀ {p level}, (p, level) ∈ r → ∃ b, f.bucket? (.own a level) = some b

def enter (a : Nat) (r : Ledger n) : Change n → Ledger n
  | .link (.own x level) p => if x = a then r ++ [(p, level)] else r
  | .unlink (.own x _) p => if x = a then r.strike p else r
  | _ => r

theorem enter_of_ne (h : c.allocator? ≠ some a) : r.enter a c = r := by
  have other {x : Nat} (hx : some x ≠ some a) : x ≠ a := fun e => hx (congrArg some e)
  cases c with
  | shelve x levels => rfl
  | link place p =>
    cases place with
    | own x level => exact if_neg (other h)
    | loose i => rfl
  | unlink place p =>
    cases place with
    | own x level => exact if_neg (other h)
    | loose i => rfl
  | latch place held => rfl

theorem foldl_enter_self (h : ∀ c ∈ cs, ∀ r : Ledger n, r.enter a c = r) :
    cs.foldl (enter a) r = r := by
  induction cs with
  | nil => rfl
  | cons c cs ih =>
    rw [List.foldl_cons, h c List.mem_cons_self]
    exact ih fun c hc => h c (List.mem_cons_of_mem _ hc)

theorem Fits.mem_iff (hr : r.Fits a f) :
    (p, level) ∈ r ↔ ∃ b, f.bucket? (.own a level) = some b ∧ p ∈ b.members := by
  constructor
  · intro h
    obtain ⟨b, hb⟩ := hr.there h
    refine ⟨b, hb, ?_⟩
    rw [hr.members hb]
    exact mem_under.mpr h
  · rintro ⟨b, hb, hp⟩
    rw [hr.members hb] at hp
    exact mem_under.mp hp

theorem Fits.not_mem (hr : r.Fits a f) (hs : f.Sound) (hp : f.mark p = none) :
    p ∉ r.map (·.1) := by
  intro h
  obtain ⟨⟨_, level⟩, hx, rfl⟩ := List.mem_map.mp h
  obtain ⟨b, hb, hpb⟩ := hr.mem_iff.mp hx
  exact hs.not_mem hp hb (hs.own_level hb).2 hpb

theorem Fits.level?_eq_mark (hr : r.Fits a f) (hs : f.Sound) (hw : Within a f p) :
    r.level? p = f.mark p := by
  cases hp : f.mark p with
  | none => exact level?_eq_none.mpr (hr.not_mem hs hp)
  | some level =>
    obtain ⟨b, hb, hpb⟩ := hs.own_of_mark hw hp
    exact (level?_eq_some hr.nodup).mpr (hr.mem_iff.mpr ⟨b, hb, hpb⟩)

theorem Fits.congr (hr : r.Fits a f) (h : ∀ level, g.bucket? (.own a level) = f.bucket? (.own a level)) :
    r.Fits a g := by
  refine ⟨hr.nodup, ?_, ?_⟩
  · intro level b hb
    exact hr.members (h level ▸ hb)
  · intro p level hp
    rw [h]
    exact hr.there hp

theorem Fits.put (hr : r.Fits a f) {r' : Ledger n} {k : Bucket n} (hnodup : (r'.map (·.1)).Nodup)
    (hb : f.bucket? (.own a level) = some b) (hk : k.members = r'.under level)
    (hr' : ∀ l, l ≠ level → r'.under l = r.under l)
    (hg : g.bucket? = (f.put (.own a level) k).bucket?) : r'.Fits a g := by
  refine ⟨hnodup, ?_, ?_⟩
  · intro l c hc
    rw [hg] at hc
    rcases put_eq_some hc with ⟨hl, rfl⟩ | ⟨hl, hc⟩
    · cases hl
      exact hk
    · rw [hr' l fun e => hl (e ▸ rfl)]
      exact hr.members hc
  · intro p l hp
    rw [hg]
    by_cases hl : l = level
    · subst hl
      exact ⟨k, put_bucket?_self⟩
    · have hne : Place.own a l ≠ .own a level := fun e => hl (Place.own.inj e).2
      rw [put_bucket?_of_ne hne]
      apply hr.there
      rw [← mem_under, ← hr' l hl]
      exact mem_under.mpr hp

theorem Fits.link (hr : r.Fits a f) (hs : f.Sound) (hb : f.bucket? (.own a level) = some b)
    (hp : f.mark p = none) : Fits (r ++ [(p, level)]) a (f.linked (.own a level) b p) := by
  have hnodup : ((r ++ [(p, level)]).map (·.1)).Nodup := by
    rw [List.map_append, List.map_singleton, ← List.concat_eq_append]
    exact .concat (hr.not_mem hs hp) hr.nodup
  refine hr.put (k := b.withMembers (b.members ++ [p])) hnodup hb ?_ ?_ rfl
  · rw [under_append, if_pos rfl]
    change b.members ++ [p] = _
    rw [hr.members hb]
  · intro l hl
    rw [under_append, if_neg (Ne.symm hl)]

theorem Fits.unlink (hr : r.Fits a f) (hs : f.Sound) (hb : f.bucket? (.own a level) = some b)
    (hp : p ∈ b.members) : Fits (r.strike p) a (f.unlinked (.own a level) b p) := by
  refine hr.put (k := b.withMembers (b.members.erase p)) (nodup_strike hr.nodup p) hb ?_ ?_ rfl
  · rw [under_strike hr.nodup]
    change b.members.erase p = _
    rw [hr.members hb]
  · intro l hl
    rw [under_strike hr.nodup]
    -- No other own bucket has an entry of `p`.
    apply List.erase_of_not_mem
    intro hpl
    obtain ⟨c, hc, hpc⟩ := hr.mem_iff.mp (mem_under.mp hpl)
    have hplace := hs.apart hc hb (hs.own_level hc).2 (hs.own_level hb).2 hpc hp
    exact hl (Place.own.inj hplace).2

theorem Fits.edit (hr : r.Fits a f) (hs : f.Sound) (h : Edit f c g) : (r.enter a c).Fits a g := by
  by_cases hc : c.allocator? = some a
  · cases h with
    | shelve absent small =>
      cases hc
      have hr₀ : r = [] := by
        apply List.eq_nil_iff_forall_not_mem.mpr
        intro x hx
        obtain ⟨b, hb⟩ := hr.there hx
        rw [absent] at hb
        cases hb
      subst hr₀
      refine ⟨List.nodup_nil, ?_, fun hp => absurd hp List.not_mem_nil⟩
      intro level b hb
      rcases withRow_eq_some hb with ⟨l, _, hl⟩ | hb
      · obtain ⟨_, rfl⟩ := emptyBuckets_getElem? hl
        rfl
      · rw [absent] at hb
        cases hb
    | @link place b p there free unmarked =>
      cases place with
      | own x level =>
        cases hc
        rw [enter, if_pos rfl]
        exact hr.link hs there unmarked
      | loose i => cases hc
    | @unlink place b p there free member =>
      cases place with
      | own x level =>
        cases hc
        rw [enter, if_pos rfl]
        exact hr.unlink hs there member
      | loose i => cases hc
    | @latch place b held there =>
      cases place with
      | own x level =>
        cases hc
        have hmembers := hr.members there
        exact hr.put (k := { b with held }) hr.nodup there hmembers (fun _ _ => rfl) rfl
      | loose i => cases hc
  · rw [enter_of_ne hc]
    apply hr.congr
    intro level
    apply h.bucket?_of_ne
    exact Ne.symm hc

theorem Fits.edits (hr : r.Fits a f) (hs : f.Sound) (h : Edits f cs g) :
    (cs.foldl (enter a) r).Fits a g := by
  induction h generalizing r with
  | nil => exact hr
  | cons edit _ ih => exact ih (hr.edit hs edit) (hs.edit edit)

theorem Fits.locks {s t : Session n} (hr : r.Fits a s.files) (hs : s.files.Sound) (h : s.Locks t) :
    r.Fits a t.files := by
  obtain ⟨cs, hedits, hlatch⟩ := h.edits
  have hfits := hr.edits hs hedits
  rwa [foldl_enter_self] at hfits
  intro c hc r
  obtain ⟨place, held, rfl⟩ := hlatch c hc
  rfl

theorem fits_fresh {os : List Opening} {queues : List (Nat × Single)} {procs : Roster n} :
    Fits [] a (Session.fresh os queues procs).files := by
  refine ⟨List.nodup_nil, ?_, fun hp => absurd hp List.not_mem_nil⟩
  intro level b hb
  have hat : (Session.fresh os queues procs).bucketAt (.own a level) = some b := hb
  exact (Session.bucketAt_fresh hat).1

end Ledger

end AttentionScheduler
