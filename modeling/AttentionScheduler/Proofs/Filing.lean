import AttentionScheduler.Proofs.Files

/-!
What joining and leaving a bucket, filing, walking along a row and withdrawing do to the files.
-/

namespace AttentionScheduler

variable {n : Nat} {F : Files n} {place : Place} {a level : Nat} {p : Fin n}

namespace Files

structure Shows (F : Files n) (place : Place) (f : Filed n) : Prop where
  bucket : F.bucket? place = some f.bucket
  mark : ∀ p, F.mark p = f.procs[p].mark

def withFiled (F : Files n) (place : Place) (f : Filed n) : Files n :=
  { F.put place f.bucket with mark := fun p => f.procs[p].mark }

def withShelf (F : Files n) (a : Nat) (s : Shelf n) : Files n :=
  { F.withRow a s.buckets with mark := fun p => s.procs[p].mark }

theorem Shows.withFiled {f : Filed n} (h : F.Shows place f) : F.withFiled place f = F := by
  apply Files.ext
  · intro q
    by_cases hq : q = place
    · subst hq
      simp [Files.withFiled, h.bucket]
    · simp [Files.withFiled, put_bucket?_of_ne hq]
  · intro p
    simp [Files.withFiled, h.mark]

@[simp] theorem withShelf_own (s : Shelf n) :
    (F.withShelf a s).bucket? (.own a level) = s.buckets[level]? := by
  simp [withShelf, withRow]

theorem withRow_of_ne {bs : List (Bucket n)} (h : place.allocator? ≠ some a) :
    (F.withRow a bs).bucket? place = F.bucket? place := by
  cases place with
  | own x l =>
    have hx : x ≠ a := fun e => h (by rw [e]; rfl)
    simp [withRow, hx]
  | loose i => rfl

theorem withShelf_of_ne {s : Shelf n} (h : place.allocator? ≠ some a) :
    (F.withShelf a s).bucket? place = F.bucket? place :=
  withRow_of_ne h

@[simp] theorem withShelf_mark (s : Shelf n) : (F.withShelf a s).mark p = s.procs[p].mark := rfl

theorem Sound.shelf_published {s : Shelf n} (hs : (F.withShelf a s).Sound) :
    ∀ b ∈ s.buckets, b.count = b.members.length := by
  intro b hb
  obtain ⟨level, hl⟩ := List.mem_iff_getElem?.mp hb
  rw [← withShelf_own (F := F) (a := a)] at hl
  exact hs.published hl

theorem withShelf_shows {s : Shelf n} {b : Bucket n} (h : s.buckets[level]? = some b) :
    (F.withShelf a s).Shows (.own a level) ⟨b, s.procs⟩ :=
  ⟨by rw [withShelf_own, h], fun _ => rfl⟩

theorem withShelf_put {s : Shelf n} (f : Filed n) (h : level < s.buckets.length) :
    F.withShelf a (s.put level f) = (F.withShelf a s).withFiled (.own a level) f := by
  apply Files.ext
  · intro place
    cases place with
    | own x l =>
      by_cases hx : x = a
      · subst hx
        by_cases hl : l = level
        · subst hl
          simp [withFiled, Shelf.put, h]
        · have hne : Place.own x l ≠ .own x level := by simp [hl]
          simp [withFiled, put_bucket?_of_ne hne, Shelf.put, Ne.symm hl]
      · have hne : Place.own x l ≠ .own a level := by simp [hx]
        simp [withFiled, put_bucket?_of_ne hne, withShelf, withRow, hx]
    | loose i =>
      have hne : Place.loose i ≠ .own a level := by simp
      simp [withFiled, put_bucket?_of_ne hne, withShelf, withRow]
  · exact fun _ => rfl

theorem withShelf_congr {s t : Shelf n} (hb : s.buckets = t.buckets)
    (hm : ∀ p : Fin n, s.procs[p].mark = t.procs[p].mark) : F.withShelf a s = F.withShelf a t := by
  simp only [withShelf, hb, hm]

end Files

namespace Filed

open Files

variable {f : Filed n}

theorem mark_update (procs : Roster n) (r : Record → Record) (q : Fin n) :
    (procs.update p r)[q].mark =
      Function.update (fun q => procs[q].mark) p (r procs[p]).mark q := by
  by_cases h : q = p
  · subst h
    rw [Roster.getElem_update_self, Function.update_self]
  · rw [Roster.getElem_update_ne _ h, Function.update_of_ne h]

theorem mark_release (r : Record) (level : Nat) :
    (r.release level).mark = if r.mark = markOf level then none else r.mark := by
  unfold Record.release
  split <;> rfl

def joined (f : Filed n) (p : Fin n) : Filed n :=
  ⟨f.bucket.withMembers (f.bucket.members ++ [p]),
    f.procs.update p fun record => { record with mark := markOf f.bucket.level }⟩

theorem push_free (hh : f.bucket.held = false) (hm : f.procs[p].mark = none) :
    f.push p = .returned (f.joined p) true := by
  have hc : f.procs[p].claim f.bucket.level =
      some { f.procs[p] with mark := markOf f.bucket.level } := if_pos hm
  simp only [push, hh, Bool.false_eq_true, ↓reduceIte, hc]
  rfl

theorem push_marked (hh : f.bucket.held = false) (hm : f.procs[p].mark ≠ none) :
    f.push p = .returned f false := by
  have hc : f.procs[p].claim f.bucket.level = none := if_neg hm
  simp only [push, hh, Bool.false_eq_true, ↓reduceIte, hc]

theorem push_held (hh : f.bucket.held = true) : f.push p = .stuck .waiting := by
  simp [push, hh]

theorem joined_edit (hF : F.Shows place f) (hh : f.bucket.held = false)
    (hm : f.procs[p].mark = none) : Edit F (.link place p) (F.withFiled place (f.joined p)) := by
  have he : F.withFiled place (f.joined p) = F.linked place f.bucket p := by
    apply Files.ext
    · exact fun _ => rfl
    · intro q
      simp only [withFiled, joined, mark_update, linked, remark, put_mark]
      rw [show (fun q : Fin n => f.procs[q].mark) = F.mark from funext fun q => (hF.mark q).symm]
  rw [he]
  exact .link hF.bucket hh ((hF.mark p).trans hm)

theorem letGo_edit (hF : F.Shows place f) (hh : f.bucket.held = false)
    (hp : p ∈ f.bucket.members) :
    Edit F (.unlink place p) (F.withFiled place (f.letGo p (f.bucket.members.erase p))) := by
  have he : F.withFiled place (f.letGo p (f.bucket.members.erase p)) =
      F.unlinked place f.bucket p := by
    apply Files.ext
    · exact fun _ => rfl
    · intro q
      simp only [withFiled, letGo, mark_update, mark_release, unlinked, remark, put_mark, hF.mark]
      rw [show (fun q : Fin n => f.procs[q].mark) = F.mark from funext fun q => (hF.mark q).symm]
  rw [he]
  exact .unlink hF.bucket hh hp

theorem remove_cases (f : Filed n) (p : Fin n) :
    f.bucket.held = true ∧ f.remove p = (f, .contended) ∨
    f.bucket.held = false ∧ p ∉ f.bucket.members ∧ f.remove p = (f, .notFound) ∨
    f.bucket.held = false ∧ p ∈ f.bucket.members ∧
      f.remove p = (f.letGo p (f.bucket.members.erase p), .removed p) := by
  cases hh : f.bucket.held with
  | true => exact .inl ⟨rfl, by simp [remove, hh]⟩
  | false =>
    by_cases hp : p ∈ f.bucket.members
    · exact .inr (.inr ⟨rfl, hp, by simp [remove, unlink, hh, hp]⟩)
    · exact .inr (.inl ⟨rfl, hp, by simp [remove, unlink, hh, hp]⟩)

theorem popFront_cases (f : Filed n) :
    f.bucket.held = true ∧ f.popFront = (f, .contended) ∨
    f.bucket.held = false ∧ f.bucket.members = [] ∧ f.popFront = (f, .notFound) ∨
    ∃ p rest, f.bucket.held = false ∧ f.bucket.members = p :: rest ∧
      f.popFront = (f.letGo p (f.bucket.members.erase p), .removed p) := by
  cases hh : f.bucket.held with
  | true => exact .inl ⟨rfl, by simp [popFront, hh]⟩
  | false =>
    cases hm : f.bucket.members with
    | nil => exact .inr (.inl ⟨rfl, rfl, by simp [popFront, hh, hm]⟩)
    | cons p rest => exact .inr (.inr ⟨p, rest, rfl, rfl, by simp [popFront, hh, hm]⟩)

end Filed

end AttentionScheduler
