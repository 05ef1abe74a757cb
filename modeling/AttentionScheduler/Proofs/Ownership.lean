import AttentionScheduler.Proofs.Soundness

/-!
Whose buckets a process can be in. One that is used with a single allocator is in no bucket but its own
ones.
-/

namespace AttentionScheduler

variable {n : Nat}

/-- Whether the call uses `p` with the allocator `o`, or with a loose bucket if `o` is none. -/
def Call.Uses : Call n → Fin n → Option Nat → Prop
  | .host a call, p, o => call.process? = some p ∧ o = some a
  | .bucket place call, p, o => call.process? = some p ∧ o = place.allocator?
  | .clock _ _, _, _ | .record _ _, _, _ => False

theorem Call.Uses.allocator? {c : Call n} {p : Fin n} {o : Option Nat} (h : c.Uses p o) :
    o = c.allocator? := by
  cases c with
  | host a call => exact h.2
  | bucket place call => exact h.2
  | clock a call => exact h.elim
  | record q call => exact h.elim

def Call.files? : Call n → Option (Fin n)
  | .host _ (.ready p) | .bucket _ (.push p) => some p
  | _ => none

theorem Call.uses_of_files? {c : Call n} {p : Fin n} (h : c.files? = some p) :
    c.Uses p c.allocator? := by
  unfold files? at h
  split at h <;> cases h <;> exact ⟨rfl, rfl⟩

namespace Session

def UsedWith (a : Nat) (es : List (Event n)) (p : Fin n) : Prop :=
  ∀ e ∈ es, ∀ o, e.call.Uses p o → o = some a

/-- The processes that the history uses with `a` are used with `a` alone. -/
def Exclusive (a : Nat) (es : List (Event n)) : Prop :=
  ∀ e ∈ es, ∀ p, e.call.Uses p (some a) → UsedWith a es p

end Session

namespace Session

variable {a : Nat} {es : List (Event n)} {p : Fin n} {o : Option Nat} {e : Event n}

theorem usedWith_of_allocator? (h : ∀ e ∈ es, e.call.allocator? = some a) (p : Fin n) :
    UsedWith a es p := by
  intro e he o hu
  rw [hu.allocator?, h e he]

theorem mem_of_uses_parts (he : e ∈ es.flatMap Event.parts) (hu : e.call.Uses p o) : e ∈ es := by
  obtain ⟨whole, hwhole, hpart⟩ := List.mem_flatMap.mp he
  rcases Event.call_of_mem_parts hpart with ⟨rfl, _⟩ | ⟨x, hx⟩
  · exact hwhole
  · rw [hx] at hu
    cases hu.1

end Session

namespace Change

def allocator? : Change n → Option Nat
  | shelve a _ => some a
  | link place _ | unlink place _ | latch place _ => place.allocator?

end Change

namespace Files

variable {f g : Files n} {a level : Nat} {p : Fin n} {place : Place} {c : Change n}
  {cs : List (Change n)}

theorem Edit.bucket?_of_ne (h : Edit f c g) (hc : place.allocator? ≠ c.allocator?) :
    g.bucket? place = f.bucket? place := by
  have other {q : Place} (hq : place.allocator? ≠ q.allocator?) : place ≠ q :=
    fun e => hq (congrArg Place.allocator? e)
  cases h with
  | shelve absent small => exact withRow_of_ne hc
  | link there free unmarked => exact put_bucket?_of_ne (other hc)
  | unlink there free member => exact put_bucket?_of_ne (other hc)
  | latch there => exact put_bucket?_of_ne (other hc)

def Confined (P : Place → Prop) (f : Files n) (p : Fin n) : Prop :=
  ∀ place b, f.bucket? place = some b → p ∈ b.members → P place

theorem Confined.edit {P : Place → Prop} (hp : Confined P f p) (h : Edit f c g)
    (hc : ∀ place, c = .link place p → P place) : Confined P g p := by
  intro other k hk hmem
  cases h with
  | shelve absent small =>
    rcases withRow_eq_some hk with ⟨level, _, hl⟩ | hk
    · obtain ⟨_, rfl⟩ := emptyBuckets_getElem? hl
      cases hmem
    · exact hp other k hk hmem
  | @link place b q there free unmarked =>
    rcases put_eq_some hk with ⟨rfl, rfl⟩ | ⟨_, hk⟩
    · rcases List.mem_append.mp hmem with hmem | hmem
      · exact hp other b there hmem
      · rw [List.mem_singleton.mp hmem] at hc
        exact hc other rfl
    · exact hp other k hk hmem
  | @unlink place b q there free member =>
    rcases put_eq_some hk with ⟨rfl, rfl⟩ | ⟨_, hk⟩
    · exact hp other b there (List.mem_of_mem_erase hmem)
    · exact hp other k hk hmem
  | @latch place b held there =>
    rcases put_eq_some hk with ⟨rfl, rfl⟩ | ⟨_, hk⟩
    · exact hp other b there hmem
    · exact hp other k hk hmem

theorem Confined.edits {P : Place → Prop} (hp : Confined P f p) (h : Edits f cs g)
    (hcs : ∀ place, .link place p ∈ cs → P place) : Confined P g p := by
  induction h with
  | nil => exact hp
  | cons edit _ ih =>
    apply ih (hp.edit edit fun place hc => hcs place (hc ▸ List.mem_cons_self))
    exact fun place hc => hcs place (List.mem_cons_of_mem _ hc)

theorem Confined.locks {P : Place → Prop} {s t : Session n} (hp : Confined P s.files p)
    (h : s.Locks t) : Confined P t.files p := by
  obtain ⟨cs, hedits, hlatch⟩ := h.edits
  apply hp.edits hedits
  intro place hlink
  obtain ⟨_, _, h⟩ := hlatch _ hlink
  cases h

def Within (a : Nat) (f : Files n) (p : Fin n) : Prop := Confined (·.allocator? = some a) f p

def Absent (f : Files n) (p : Fin n) : Prop := Confined (fun _ => False) f p

theorem within_fresh {os : List Opening} {queues : List (Nat × Single)} {procs : Roster n} :
    Within a (Session.fresh os queues procs).files p := by
  intro place b hb hp
  rw [(Session.bucketAt_fresh hb).1] at hp
  cases hp

theorem Sound.own_of_mark (hs : f.Sound) (hw : Within a f p) (hp : f.mark p = some level) :
    ∃ b, f.bucket? (.own a level) = some b ∧ p ∈ b.members := by
  obtain ⟨place, b, hb, _, hl, hpb⟩ := hs.placed hp
  have hplace := hw place b hb hpb
  cases place with
  | own x l =>
    cases hplace
    have hown : b.level = l := (hs.own_level hb).1
    rw [← hl, hown]
    exact ⟨b, hb, hpb⟩
  | loose q => cases hplace

theorem Sound.absent (hs : f.Sound) (hw : Within a f p) (hp : f.mark p = none) : Absent f p := by
  intro place b hb hmem
  have hplace := hw place b hb hmem
  cases place with
  | own x level => exact hs.not_mem hp hb (hs.own_level hb).2 hmem
  | loose q => cases hplace

end Files

namespace Event

variable {e : Event n} {c : Change n} {a : Nat} {p : Fin n} {place : Place}

theorem mem_opening (hc : c ∈ e.opening) :
    ∃ a levels, e.call.allocator? = some a ∧ c = .shelve a levels := by
  unfold opening at hc
  split at hc
  · next a call hcall =>
    split at hc
    · next x y _ _ =>
      cases hx : x.isStarted <;> cases hy : y.isStarted <;> simp only [hx, hy, Bool.false_eq_true,
        ↓reduceIte, List.not_mem_nil, List.mem_singleton] at hc
      exact ⟨a, _, congrArg Call.allocator? hcall, hc⟩
    · cases hc
  · cases hc

theorem mem_leaving (hc : c ∈ e.leaving a p) : ∃ level, c = .unlink (.own a level) p := by
  unfold leaving Shelf.leaving at hc
  split at hc
  · cases hc
  · exact ⟨_, List.mem_singleton.mp hc⟩

theorem mem_filing (hc : c ∈ e.filing) :
    (∃ place p, c = .unlink place p ∧ place.allocator? = e.call.allocator?) ∨
      ∃ place p, c = .link place p ∧ e.call.files? = some p ∧
        place.allocator? = e.call.allocator? := by
  have yielded {a : Nat} (ha : e.call.allocator? = some a)
      (hc : c ∈ e.done.answer.taken?.toList.flatMap (e.leaving a)) :
      ∃ place p, c = .unlink place p ∧ place.allocator? = e.call.allocator? := by
    obtain ⟨p, _, hc⟩ := List.mem_flatMap.mp hc
    obtain ⟨level, rfl⟩ := mem_leaving hc
    exact ⟨_, p, rfl, ha.symm⟩
  have dropped {place : Place} (hplace : e.call.allocator? = place.allocator?)
      (hc : c ∈ e.done.answer.taken?.toList.map (.unlink place)) :
      ∃ place p, c = .unlink place p ∧ place.allocator? = e.call.allocator? := by
    obtain ⟨p, _, rfl⟩ := List.mem_map.mp hc
    exact ⟨place, p, rfl, hplace.symm⟩
  unfold filing at hc
  split at hc
  · next a p hcall =>
    have ha : e.call.allocator? = some a := congrArg Call.allocator? hcall
    split at hc
    · next level _ =>
      rcases List.mem_append.mp hc with hc | hc
      · obtain ⟨l, rfl⟩ := mem_leaving hc
        exact .inl ⟨_, p, rfl, ha.symm⟩
      · rw [List.mem_singleton.mp hc, hcall]
        exact .inr ⟨_, p, rfl, rfl, rfl⟩
    · cases hc
  · next a hcall => exact .inl (yielded (congrArg Call.allocator? hcall) hc)
  · next a p hcall => exact .inl (yielded (congrArg Call.allocator? hcall) hc)
  · next a p hcall => exact .inl (yielded (congrArg Call.allocator? hcall) hc)
  · next place p hcall =>
    split at hc
    · rw [List.mem_singleton.mp hc, hcall]
      exact .inr ⟨place, p, rfl, rfl, rfl⟩
    · cases hc
  · next place hcall => exact .inl (dropped (congrArg Call.allocator? hcall) hc)
  · next place p hcall => exact .inl (dropped (congrArg Call.allocator? hcall) hc)
  · cases hc

theorem changes_allocator? (hc : c ∈ e.changes) : c.allocator? = e.call.allocator? := by
  rcases List.mem_append.mp hc with hc | hc
  · obtain ⟨a, levels, ha, rfl⟩ := mem_opening hc
    exact ha.symm
  · rcases mem_filing hc with ⟨place, p, rfl, hplace⟩ | ⟨place, p, rfl, _, hplace⟩
    · exact hplace
    · exact hplace

theorem files?_of_link (hc : .link place p ∈ e.changes) :
    e.call.files? = some p ∧ place.allocator? = e.call.allocator? := by
  rcases List.mem_append.mp hc with hc | hc
  · obtain ⟨a, levels, _, h⟩ := mem_opening hc
    cases h
  · rcases mem_filing hc with ⟨_, _, h, _⟩ | ⟨_, _, h, hp, hplace⟩
    · cases h
    · cases h
      exact ⟨hp, hplace⟩

theorem uses_of_link (hc : .link place p ∈ e.changes) : e.call.Uses p place.allocator? := by
  obtain ⟨hp, hplace⟩ := files?_of_link hc
  rw [hplace]
  exact Call.uses_of_files? hp

end Event

namespace Session

variable {s t : Session n} {a : Nat} {p : Fin n} {c : Call n} {d : Done n} {es : List (Event n)}

theorem not_link_opening {h k : Host n} {place : Place} : .link place p ∉ Host.opening a h k := by
  unfold Host.opening
  split
  · exact List.not_mem_nil
  · split <;> simp

theorem Does.within (hs : s.files.Sound) (hd : s.Does c d) (hp : Files.Within a s.files p)
    (hu : ∀ o, c.Uses p o → o = some a) : Files.Within a d.session.files p :=
  Files.Confined.edits hp (hd.edits hs) fun _ hlink => hu _ (Event.uses_of_link hlink)

theorem Leads.within {os : List Opening} {queues : List (Nat × Single)}
    {ps : Vector (UInt64 × Bool) n} (h : (fresh os queues (freshRoster ps)).Leads es t)
    (hp : UsedWith a es p) : Files.Within a t.files p := by
  refine h.induct (I := fun u _ => Files.Within a u.files p) (fresh_sound os queues ps) ?_ ?_
    Files.within_fresh
  · intro u past c d he hs hd hI
    exact hd.within hs hI fun o hu => hp _ (mem_of_uses_parts he hu) o hu
  · exact fun _ hl hI => hI.locks hl

end Session

end AttentionScheduler
