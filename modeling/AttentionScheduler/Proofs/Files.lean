import AttentionScheduler.Session.Basic
import Mathlib.Data.List.Nodup
import Mathlib.Logic.Function.Basic

/-!
The files of a session are its buckets, each at its place, and the marks of the records. All that a
session does to them is a series of changes of four kinds, and every change keeps them sound: no
process is in two marking buckets, and its mark names the one that it is in.
-/

namespace AttentionScheduler

variable {n : Nat}

structure Files (n : Nat) where
  bucket? : Place → Option (Bucket n)
  mark : Fin n → Option Nat

inductive Change (n : Nat) where
  | shelve (a levels : Nat)
  | link (place : Place) (p : Fin n)
  | unlink (place : Place) (p : Fin n)
  | latch (place : Place) (held : Bool)
deriving DecidableEq

/-- Membership of a bucket at the one level without a mark leaves no trace in the record. -/
def Bucket.Marking (b : Bucket n) : Prop := b.level ≠ unmarkedLevel

instance (b : Bucket n) : Decidable b.Marking := inferInstanceAs (Decidable (_ ≠ _))

namespace Files

variable {f g k : Files n} {place other : Place} {b c : Bucket n} {p q : Fin n}

theorem ext (hb : ∀ place, f.bucket? place = g.bucket? place)
    (hm : ∀ p, f.mark p = g.mark p) : f = g := by
  cases f
  cases g
  congr 1
  · exact funext hb
  · exact funext hm

def put (f : Files n) (place : Place) (b : Bucket n) : Files n :=
  { f with bucket? := Function.update f.bucket? place (some b) }

def remark (f : Files n) (p : Fin n) (mark : Option Nat) : Files n :=
  { f with mark := Function.update f.mark p mark }

def withRow (f : Files n) (a : Nat) (bs : List (Bucket n)) : Files n where
  bucket?
    | .own b level => if b = a then bs[level]? else f.bucket? (.own b level)
    | .loose q => f.bucket? (.loose q)
  mark := f.mark

theorem put_eq_some (h : (f.put place b).bucket? other = some c) :
    other = place ∧ c = b ∨ other ≠ place ∧ f.bucket? other = some c := by
  by_cases ho : other = place
  · subst ho
    simp only [put, Function.update_self, Option.some.injEq] at h
    exact .inl ⟨rfl, h.symm⟩
  · simp only [put, Function.update_of_ne ho] at h
    exact .inr ⟨ho, h⟩

@[simp] theorem put_bucket?_self : (f.put place b).bucket? place = some b := by simp [put]

theorem put_bucket?_of_ne (h : other ≠ place) : (f.put place b).bucket? other = f.bucket? other := by
  simp [put, h]

@[simp] theorem put_mark : (f.put place b).mark = f.mark := rfl

@[simp] theorem remark_bucket? {m : Option Nat} : (f.remark p m).bucket? = f.bucket? := rfl

@[simp] theorem remark_mark_self {m : Option Nat} : (f.remark p m).mark p = m := by simp [remark]

theorem remark_mark_of_ne {m : Option Nat} (h : q ≠ p) : (f.remark p m).mark q = f.mark q := by
  simp [remark, h]

def linked (f : Files n) (place : Place) (b : Bucket n) (p : Fin n) : Files n :=
  (f.put place (b.withMembers (b.members ++ [p]))).remark p (markOf b.level)

/-- The files after the first entry of `p` has left `b`. A mark of another level stays. -/
def unlinked (f : Files n) (place : Place) (b : Bucket n) (p : Fin n) : Files n :=
  (f.put place (b.withMembers (b.members.erase p))).remark p
    (if f.mark p = markOf b.level then none else f.mark p)

/-- One change. Entries come and go only while the bucket is free. -/
inductive Edit : Files n → Change n → Files n → Prop where
  | shelve {f : Files n} {a levels : Nat} (absent : ∀ level, f.bucket? (.own a level) = none)
      (small : levels ≤ unmarkedLevel) :
      Edit f (.shelve a levels) (f.withRow a (Core.emptyBuckets levels))
  | link {f : Files n} {place : Place} {b : Bucket n} {p : Fin n}
      (there : f.bucket? place = some b) (free : b.held = false) (unmarked : f.mark p = none) :
      Edit f (.link place p) (f.linked place b p)
  | unlink {f : Files n} {place : Place} {b : Bucket n} {p : Fin n}
      (there : f.bucket? place = some b) (free : b.held = false) (member : p ∈ b.members) :
      Edit f (.unlink place p) (f.unlinked place b p)
  | latch {f : Files n} {place : Place} {b : Bucket n} {held : Bool}
      (there : f.bucket? place = some b) :
      Edit f (.latch place held) (f.put place { b with held })

theorem Edit.of_unlink (h : Edit f (.unlink place p) g) :
    ∃ b, f.bucket? place = some b ∧ b.held = false ∧ p ∈ b.members := by
  cases h with
  | unlink there free member => exact ⟨_, there, free, member⟩

theorem Edit.eq_unlinked (h : Edit f (.unlink place p) g) (hb : f.bucket? place = some b) :
    g = f.unlinked place b p := by
  cases h with
  | unlink there free member =>
    cases hb.symm.trans there
    rfl

inductive Edits : Files n → List (Change n) → Files n → Prop where
  | nil (f : Files n) : Edits f [] f
  | cons {f g k : Files n} {c : Change n} {cs : List (Change n)} :
      Edit f c g → Edits g cs k → Edits f (c :: cs) k

theorem Edits.single {c : Change n} (h : Edit f c g) : Edits f [c] g := .cons h (.nil g)

theorem Edits.trans {cs ds : List (Change n)} (h : Edits f cs g) (h' : Edits g ds k) :
    Edits f (cs ++ ds) k := by
  induction h with
  | nil => exact h'
  | cons step _ ih => exact .cons step (ih h')

theorem Edits.of_append {cs ds : List (Change n)} (h : Edits f (cs ++ ds) k) :
    ∃ g, Edits f cs g ∧ Edits g ds k := by
  induction cs generalizing f with
  | nil => exact ⟨f, .nil f, h⟩
  | cons c cs ih =>
    cases h with
    | cons edit rest =>
      obtain ⟨g, hg, hk⟩ := ih rest
      exact ⟨g, .cons edit hg, hk⟩

theorem Edits.of_single {c : Change n} (h : Edits f [c] g) : Edit f c g := by
  cases h with
  | cons edit rest =>
    cases rest
    exact edit

structure Sound (f : Files n) : Prop where
  marked : ∀ {place b p}, f.bucket? place = some b → b.Marking → p ∈ b.members →
    f.mark p = some b.level
  placed : ∀ {p level}, f.mark p = some level →
    ∃ place b, f.bucket? place = some b ∧ b.Marking ∧ b.level = level ∧ p ∈ b.members
  apart : ∀ {place other b c p}, f.bucket? place = some b → f.bucket? other = some c →
    b.Marking → c.Marking → p ∈ b.members → p ∈ c.members → place = other
  nodup : ∀ {place b}, f.bucket? place = some b → b.Marking → b.members.Nodup
  published : ∀ {place b}, f.bucket? place = some b → b.count = b.members.length
  own_level : ∀ {a level b}, f.bucket? (.own a level) = some b → b.level = level ∧ b.Marking

theorem Sound.not_mem (hs : f.Sound) (hp : f.mark p = none) (hb : f.bucket? place = some b)
    (hm : b.Marking) : p ∉ b.members := by
  intro h
  rw [hs.marked hb hm h] at hp
  cases hp

theorem emptyBuckets_getElem? {levels level : Nat}
    (h : (Core.emptyBuckets levels : List (Bucket n))[level]? = some b) :
    level < levels ∧ b = { level, threshold := threshold level levels } := by
  simp only [Core.emptyBuckets, List.getElem?_map, Option.map_eq_some_iff] at h
  obtain ⟨i, hi, rfl⟩ := h
  obtain ⟨hl, rfl⟩ := List.getElem?_eq_some_iff.mp hi
  simp only [List.length_range] at hl
  exact ⟨hl, by simp⟩

theorem withRow_eq_some {a : Nat} {bs : List (Bucket n)}
    (h : (f.withRow a bs).bucket? place = some b) :
    (∃ level, place = .own a level ∧ bs[level]? = some b) ∨ f.bucket? place = some b := by
  cases place with
  | own x level =>
    by_cases hx : x = a
    · subst hx
      exact .inl ⟨level, rfl, by simpa [withRow] using h⟩
    · exact .inr (by simpa [withRow, hx] using h)
  | loose i => exact .inr (by simpa [withRow] using h)

theorem Sound.shelve (hs : f.Sound) {a levels : Nat}
    (absent : ∀ level, f.bucket? (.own a level) = none) (small : levels ≤ unmarkedLevel) :
    (f.withRow a (Core.emptyBuckets levels)).Sound := by
  have old : ∀ {place b}, f.bucket? place = some b →
      (f.withRow a (Core.emptyBuckets levels)).bucket? place = some b := by
    intro place b hb
    cases place with
    | own x level =>
      have hx : x ≠ a := by
        rintro rfl
        simp [absent] at hb
      simpa [withRow, hx] using hb
    | loose i => exact hb
  have new : ∀ {place b p}, (f.withRow a (Core.emptyBuckets levels)).bucket? place = some b →
      p ∈ b.members → f.bucket? place = some b := by
    intro place b p hb hp
    rcases withRow_eq_some hb with ⟨level, _, hl⟩ | hb
    · obtain ⟨_, rfl⟩ := emptyBuckets_getElem? hl
      cases hp
    · exact hb
  constructor
  · intro place b p hb hm hp
    exact hs.marked (new hb hp) hm hp
  · intro p level hp
    obtain ⟨place, b, hb, h⟩ := hs.placed hp
    exact ⟨place, b, old hb, h⟩
  · intro place other b c p hb hc hmb hmc hpb hpc
    exact hs.apart (new hb hpb) (new hc hpc) hmb hmc hpb hpc
  · intro place b hb hm
    rcases withRow_eq_some hb with ⟨level, _, hl⟩ | hb
    · obtain ⟨_, rfl⟩ := emptyBuckets_getElem? hl
      exact List.nodup_nil
    · exact hs.nodup hb hm
  · intro place b hb
    rcases withRow_eq_some hb with ⟨level, _, hl⟩ | hb
    · obtain ⟨_, rfl⟩ := emptyBuckets_getElem? hl
      rfl
    · exact hs.published hb
  · intro x level b hb
    rcases withRow_eq_some hb with ⟨level', he, hl⟩ | hb
    · obtain ⟨hlt, rfl⟩ := emptyBuckets_getElem? hl
      cases he
      exact ⟨rfl, by simp only [Bucket.Marking]; omega⟩
    · exact hs.own_level hb

theorem Sound.put_published (hs : f.Sound) {members : List (Fin n)}
    (hc : (f.put place (b.withMembers members)).bucket? other = some c) :
    c.count = c.members.length := by
  rcases put_eq_some hc with ⟨_, rfl⟩ | ⟨_, hc⟩
  · rfl
  · exact hs.published hc

theorem Sound.put_own_level (hs : f.Sound) {members : List (Fin n)} {a level : Nat}
    (hb : f.bucket? place = some b)
    (hc : (f.put place (b.withMembers members)).bucket? (.own a level) = some c) :
    c.level = level ∧ c.Marking := by
  rcases put_eq_some hc with ⟨hplace, rfl⟩ | ⟨_, hc⟩
  · change b.level = level ∧ b.Marking
    exact hs.own_level (hplace ▸ hb)
  · exact hs.own_level hc

theorem Sound.link (hs : f.Sound) (hb : f.bucket? place = some b) (hp : f.mark p = none) :
    (f.linked place b p).Sound := by
  have mark_self : (f.linked place b p).mark p = markOf b.level := remark_mark_self
  have mark_ne : ∀ {q}, q ≠ p → (f.linked place b p).mark q = f.mark q := by
    intro q h
    exact remark_mark_of_ne h
  have outside : ∀ {other c}, f.bucket? other = some c → c.Marking → p ∉ c.members :=
    fun hc hm => hs.not_mem hp hc hm
  constructor
  · intro other c q hc hm hq
    rcases put_eq_some hc with ⟨_, rfl⟩ | ⟨_, hc⟩
    · rcases List.mem_append.mp hq with hq | hq
      · rw [mark_ne (fun h => outside hb hm (h ▸ hq))]
        change f.mark q = some b.level
        exact hs.marked hb hm hq
      · rw [List.mem_singleton.mp hq, mark_self]
        exact markOf_eq_some hm
    · rw [mark_ne (fun h => outside hc hm (h ▸ hq))]
      exact hs.marked hc hm hq
  · intro q level hq
    by_cases h : q = p
    · subst h
      rw [mark_self, markOf, ite_eq_iff] at hq
      obtain ⟨_, hq⟩ | ⟨hm, hq⟩ := hq
      · cases hq
      · exact ⟨place, _, put_bucket?_self, hm, Option.some.inj hq,
          List.mem_append_right _ List.mem_cons_self⟩
    · rw [mark_ne h] at hq
      obtain ⟨other, c, hc, hm, hl, hqc⟩ := hs.placed hq
      by_cases ho : other = place
      · subst ho
        cases hb.symm.trans hc
        exact ⟨other, _, put_bucket?_self, hm, hl, List.mem_append_left _ hqc⟩
      · exact ⟨other, c, (put_bucket?_of_ne ho).trans hc, hm, hl, hqc⟩
  · intro one two c d q hc hd hmc hmd hqc hqd
    rcases put_eq_some hc with ⟨hone, rfl⟩ | ⟨_, hc'⟩ <;>
      rcases put_eq_some hd with ⟨htwo, rfl⟩ | ⟨_, hd'⟩
    · rw [hone, htwo]
    · rcases List.mem_append.mp hqc with hq | hq
      · exact hone.trans (hs.apart hb hd' hmc hmd hq hqd)
      · exact absurd (List.mem_singleton.mp hq ▸ hqd) (outside hd' hmd)
    · rcases List.mem_append.mp hqd with hq | hq
      · exact (hs.apart hc' hb hmc hmd hqc hq).trans htwo.symm
      · exact absurd (List.mem_singleton.mp hq ▸ hqc) (outside hc' hmc)
    · exact hs.apart hc' hd' hmc hmd hqc hqd
  · intro other c hc hm
    rcases put_eq_some hc with ⟨_, rfl⟩ | ⟨_, hc⟩
    · change (b.members ++ [p]).Nodup
      rw [← List.concat_eq_append]
      exact .concat (outside hb hm) (hs.nodup hb hm)
    · exact hs.nodup hc hm
  · exact fun hc => hs.put_published hc
  · exact fun hc => hs.put_own_level hb hc

theorem unlinked_mark_of_ne (h : q ≠ p) : (f.unlinked place b p).mark q = f.mark q :=
  remark_mark_of_ne h

theorem Sound.unlinked_mark_self (hs : f.Sound) (hb : f.bucket? place = some b) (hm : b.Marking)
    (hp : p ∈ b.members) : (f.unlinked place b p).mark p = none := by
  have h : f.mark p = markOf b.level := (hs.marked hb hm hp).trans (markOf_eq_some hm).symm
  rw [unlinked, remark_mark_self, if_pos h]

theorem unlinked_mark_of_not_marking (hm : ¬ b.Marking) : (f.unlinked place b p).mark = f.mark := by
  have hl : markOf b.level = none := if_pos (not_not.mp hm)
  funext q
  by_cases h : q = p
  · subst h
    rw [unlinked, remark_mark_self, hl]
    split
    · symm
      assumption
    · rfl
  · exact unlinked_mark_of_ne h

theorem Sound.unlink (hs : f.Sound) (hb : f.bucket? place = some b) (hp : p ∈ b.members) :
    (f.unlinked place b p).Sound := by
  -- A process that still has an entry in a marking bucket has kept its mark.
  have kept : ∀ {other c q}, (f.unlinked place b p).bucket? other = some c → c.Marking →
      q ∈ c.members → (f.unlinked place b p).mark q = f.mark q := by
    intro other c q hc hm hq
    by_cases hbm : b.Marking
    · apply unlinked_mark_of_ne
      rintro rfl
      rcases put_eq_some hc with ⟨_, rfl⟩ | ⟨ho, hc⟩
      · exact ((hs.nodup hb hm).mem_erase_iff.mp hq).1 rfl
      · exact ho (hs.apart hc hb hm hbm hq hp)
    · rw [unlinked_mark_of_not_marking hbm]
  constructor
  · intro other c q hc hm hq
    rw [kept hc hm hq]
    rcases put_eq_some hc with ⟨_, rfl⟩ | ⟨_, hc⟩
    · change f.mark q = some b.level
      exact hs.marked hb hm (List.mem_of_mem_erase hq)
    · exact hs.marked hc hm hq
  · intro q level hq
    have hold : f.mark q = some level := by
      by_cases hbm : b.Marking
      · by_cases h : q = p
        · subst h
          rw [hs.unlinked_mark_self hb hbm hp] at hq
          cases hq
        · rwa [unlinked_mark_of_ne h] at hq
      · rwa [unlinked_mark_of_not_marking hbm] at hq
    obtain ⟨other, c, hc, hm, hl, hqc⟩ := hs.placed hold
    by_cases ho : other = place
    · subst ho
      cases hb.symm.trans hc
      have hne : q ≠ p := by
        rintro rfl
        rw [hs.unlinked_mark_self hb hm hp] at hq
        cases hq
      exact ⟨other, _, put_bucket?_self, hm, hl, (List.mem_erase_of_ne hne).mpr hqc⟩
    · exact ⟨other, c, (put_bucket?_of_ne ho).trans hc, hm, hl, hqc⟩
  · intro one two c d q hc hd hmc hmd hqc hqd
    rcases put_eq_some hc with ⟨hone, rfl⟩ | ⟨_, hc'⟩ <;>
      rcases put_eq_some hd with ⟨htwo, rfl⟩ | ⟨_, hd'⟩
    · rw [hone, htwo]
    · exact hone.trans (hs.apart hb hd' hmc hmd (List.mem_of_mem_erase hqc) hqd)
    · exact (hs.apart hc' hb hmc hmd hqc (List.mem_of_mem_erase hqd)).trans htwo.symm
    · exact hs.apart hc' hd' hmc hmd hqc hqd
  · intro other c hc hm
    rcases put_eq_some hc with ⟨_, rfl⟩ | ⟨_, hc⟩
    · exact (hs.nodup hb hm).erase p
    · exact hs.nodup hc hm
  · exact fun hc => hs.put_published hc
  · exact fun hc => hs.put_own_level hb hc

theorem Sound.latch (hs : f.Sound) (hb : f.bucket? place = some b) (held : Bool) :
    (f.put place { b with held }).Sound := by
  have old : ∀ {other c}, (f.put place { b with held }).bucket? other = some c →
      ∃ d, f.bucket? other = some d ∧ d.level = c.level ∧ d.members = c.members ∧
        d.count = c.count := by
    intro other c hc
    rcases put_eq_some hc with ⟨rfl, rfl⟩ | ⟨_, hc⟩
    · exact ⟨b, hb, rfl, rfl, rfl⟩
    · exact ⟨c, hc, rfl, rfl, rfl⟩
  constructor
  · intro other c p hc hm hp
    obtain ⟨d, hd, hl, hms, _⟩ := old hc
    exact hl ▸ hs.marked hd (by rwa [Bucket.Marking, hl]) (hms ▸ hp)
  · intro p level hp
    obtain ⟨other, c, hc, hm, hl, hpc⟩ := hs.placed hp
    by_cases ho : other = place
    · subst ho
      cases hb.symm.trans hc
      exact ⟨other, _, put_bucket?_self, hm, hl, hpc⟩
    · exact ⟨other, c, (put_bucket?_of_ne ho).trans hc, hm, hl, hpc⟩
  · intro one two c d p hc hd hmc hmd hpc hpd
    obtain ⟨c', hc', hlc, hmc', _⟩ := old hc
    obtain ⟨d', hd', hld, hmd', _⟩ := old hd
    exact hs.apart hc' hd' (by rwa [Bucket.Marking, hlc]) (by rwa [Bucket.Marking, hld])
      (hmc' ▸ hpc) (hmd' ▸ hpd)
  · intro other c hc hm
    obtain ⟨d, hd, hl, hms, _⟩ := old hc
    exact hms ▸ hs.nodup hd (by rwa [Bucket.Marking, hl])
  · intro other c hc
    obtain ⟨d, hd, _, hms, hn⟩ := old hc
    rw [← hn, ← hms]
    exact hs.published hd
  · intro a level c hc
    obtain ⟨d, hd, hl, _, _⟩ := old hc
    simpa only [Bucket.Marking, hl] using hs.own_level hd

theorem Sound.edit {c : Change n} (hs : f.Sound) (h : Edit f c g) : g.Sound := by
  cases h with
  | shelve absent small => exact hs.shelve absent small
  | link there _ unmarked => exact hs.link there unmarked
  | unlink there _ member => exact hs.unlink there member
  | latch there => exact hs.latch there _

theorem Sound.mark_of_unlink {a level : Nat} (hs : f.Sound)
    (h : Edit f (.unlink (.own a level) p) g) : g.mark p = none := by
  cases h with
  | unlink there _ member => exact hs.unlinked_mark_self there (hs.own_level there).2 member

theorem Sound.edits {cs : List (Change n)} (hs : f.Sound) (h : Edits f cs g) : g.Sound := by
  induction h with
  | nil => exact hs
  | cons step _ ih => exact ih (hs.edit step)

theorem Sound.mark_of_link {a level : Nat} {cs : List (Change n)} (hs : f.Sound)
    (h : Edits f (cs ++ [.link (.own a level) p]) g) :
    g.mark p = some level ∧ (g.bucket? (.own a level)).isSome := by
  obtain ⟨k, hk, hlink⟩ := h.of_append
  have hsk : k.Sound := hs.edits hk
  cases hlink.of_single with
  | link there _ _ =>
    obtain ⟨hl, hm⟩ := hsk.own_level there
    refine ⟨?_, by simp [linked]⟩
    rw [linked, remark_mark_self, markOf_eq_some hm, hl]

end Files

end AttentionScheduler
