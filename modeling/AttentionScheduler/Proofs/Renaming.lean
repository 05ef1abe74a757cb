import AttentionScheduler.Proofs.Alignment
import AttentionScheduler.Proofs.Journal

/-!
A process is its place in the roster, and its pid is only shown. Whatever pids the records carry, the same
steps go alike, and a process that is taken out takes nobody with it.
-/

namespace AttentionScheduler

variable {n : Nat} {p q : Fin n}

/-- The pids of the records are free. -/
def Leeway.renaming : Leeway := { Leeway.strict with pids := true }

namespace Files

variable {f g : Files n} {place : Place}

theorem filter_erase (p : Fin n) (ps : List (Fin n)) :
    (ps.erase p).filter (· ≠ p) = ps.filter (· ≠ p) := by
  induction ps with
  | nil => rfl
  | cons q ps ih =>
    by_cases hq : q = p
    · simp [hq]
    · simpa [hq] using ih

/-- To unlink `p` keeps the others, in their order, and their marks. -/
theorem Edit.spares (h : Edit f (.unlink place p) g) :
    (∀ other, (g.bucket? other).map (·.members.filter (· ≠ p)) =
      (f.bucket? other).map (·.members.filter (· ≠ p))) ∧ ∀ q, q ≠ p → g.mark q = f.mark q := by
  cases h with
  | @unlink _ b _ there free member =>
    refine ⟨fun other => ?_, fun q hq => remark_mark_of_ne hq⟩
    rw [unlinked, remark_bucket?]
    by_cases ho : other = place
    · rw [ho, put_bucket?_self, there]
      exact congrArg some (filter_erase p b.members)
    · rw [put_bucket?_of_ne ho]

end Files

/-- The process that the call takes out of the bucket it is in. -/
def Call.withdraws? : Call n → Option (Fin n)
  | host _ (.remove p) | host _ (.retire p) | bucket _ (.remove p) => some p
  | _ => none

/-- Nobody but `p` is taken out. -/
structure Event.Spares (p : Fin n) (e : Event n) : Prop where
  taken : ∀ q, e.done.answer.taken? = some q → q = p
  members : ∀ place, (e.done.session.bucketAt place).map (·.members.filter (· ≠ p)) =
    (e.before.bucketAt place).map (·.members.filter (· ≠ p))
  marks : ∀ q, q ≠ p → e.done.session.procs[q].mark = e.before.procs[q].mark

/-- Two events that read the same but for the digits of the pids. -/
structure Event.ReadsAlike (e f : Event n) : Prop where
  answer : e.done.answer.Akin .renaming f.done.answer
  lines : List.Forall₂ (fun x y => y.severity = x.severity ∧ Leeway.renaming.Texts x.text y.text)
    e.done.lines f.done.lines
  dump : ∀ d? e?, e.done.answer = .host (.dump d?) → f.done.answer = .host (.dump e?) →
    List.Forall₂ Leeway.renaming.Texts (Dump.report d?) (Dump.report e?)

theorem Event.Akin.readsAlike {e f : Event n} (h : e.Akin .renaming f) : e.ReadsAlike f := by
  have hanswer : e.done.answer.Akin .renaming f.done.answer := h.answer fun hahead => absurd rfl hahead
  refine ⟨hanswer, h.lines.imp fun x y hline => hline.reads rfl rfl, fun d? e? hd he => ?_⟩
  rw [hd, he] at hanswer
  cases hanswer with
  | host h =>
    cases h with
    | same => exact List.forall₂_same.mpr fun x _ => .same x
    | dump h => exact Dump.akin_report h

namespace Session

variable {s t : Session n} {a : Nat} {seat : Seat n} {c : Call n} {d : Done n}

mutual

theorem call_of_mem_stepEvents (s : Session n) {e : Event n} :
    (x : Step n) → e ∈ s.stepEvents x → e.before.call e.call = .ok e.done
  | .call c, h => by
    rw [stepEvents] at h
    split at h
    · next d hd =>
      cases List.mem_singleton.mp h
      exact hd
    · cases h
  | .hold place body, h => by
    rw [stepEvents] at h
    split at h
    · split at h
      · exact call_of_mem_events _ body h
      · cases h
    · cases h

theorem call_of_mem_events (s : Session n) {e : Event n} :
    (xs : List (Step n)) → e ∈ s.events xs → e.before.call e.call = .ok e.done
  | [], h => by cases h
  | first :: rest, h => by
    rw [events] at h
    split at h
    · rcases List.mem_append.mp h with h | h
      · exact call_of_mem_stepEvents s first h
      · exact call_of_mem_events _ rest h
    · exact call_of_mem_stepEvents s first h

end

theorem spares_of_same {e : Event n} (htaken : e.done.answer.taken? = none)
    (hfiles : e.done.session.files = e.before.files) : e.Spares p := by
  have hbucket : e.done.session.bucketAt = e.before.bucketAt := congrArg Files.bucket? hfiles
  refine ⟨fun q hq => ?_, fun place => ?_, fun q _ => congrFun (congrArg Files.mark hfiles) q⟩
  · cases htaken.symm.trans hq
  · rw [hbucket]

theorem spares_of_unlink {e : Event n} {place : Place} (htaken : e.done.answer.taken? = some p)
    (hedit : Files.Edit e.before.files (.unlink place p) e.done.session.files) : e.Spares p := by
  obtain ⟨hmembers, hmarks⟩ := hedit.spares
  exact ⟨fun q hq => Option.some.inj (hq.symm.trans htaken), hmembers, hmarks⟩

theorem host_spares {r : Host n × Removal n} {call : HostCall n} (hs : s.seat a = .ok seat)
    (hends : Host.RemoveEnds s.files a (s.host seat) p r) :
    Event.Spares p
      ⟨s, .host a call, ⟨s.putHost a r.1, .host (.removal r.2), r.1.lines⟩⟩ := by
  cases hends with
  | contended marked there held alike procs counters =>
    exact spares_of_same rfl (files_putHost_alike hs alike)
  | notFound absent alike counters =>
    exact spares_of_same rfl (files_putHost_alike hs alike)
  | removed marked started config counters edit =>
    exact spares_of_unlink rfl (edit_putHost hs edit)

theorem call_spares (hp : c.withdraws? = some p) (hc : s.call c = .ok d) :
    Event.Spares p ⟨s, c, d⟩ := by
  cases c with
  | host a call =>
    cases call with
    | remove q =>
      cases hp
      obtain ⟨seat, hs⟩ := seat_of_call hc
      simp only [call, callHost, hs] at hc
      cases hc
      exact host_spares hs (Host.remove_ends s.files a (s.host seat) p)
    | retire q =>
      cases hp
      obtain ⟨seat, hs, rfl⟩ := retire_ok hc
      exact host_spares hs (Host.retire_ends s.files a (s.host seat) p)
    | _ => cases hp
  | bucket place call =>
    cases call with
    | remove q =>
      cases hp
      have hdoes : s.Does (.bucket place (.remove p)) d := bucket_does hc
      cases hdoes with
      | aside kind => cases kind
      | absent => exact spares_of_same rfl rfl
      | contended kind there held files => exact spares_of_same rfl files
      | missing there free missing files => exact spares_of_same rfl files
      | removed there free member edit =>
        exact spares_of_unlink rfl edit
    | _ => cases hp
  | clock a call => cases hp
  | record q call => cases hp

theorem make_fst (o : Opening) (procs procs' : Roster n) :
    (o.make procs').map (·.1) = (o.make procs).map (·.1) := by
  unfold Opening.make
  cases o.config? with
  | some c => rfl
  | none =>
    simp only [Host.start]
    cases Core.build (n := n) {} <;> rfl

theorem fresh_seats (os : List Opening) (queues : List (Nat × Single)) (procs : Roster n) :
    (fresh os queues procs).seats = (os.zip (Opening.clockPlaces os)).map fun x =>
      ((x.1.make procs).map (·.1)).toOption.map (Seat.mk x.2) := by
  refine List.map_congr_left fun x _ => ?_
  obtain ⟨o, clock⟩ := x
  dsimp only
  cases o.make procs <;> rfl

theorem seats_of_procs (os : List Opening) (queues : List (Nat × Single)) (procs procs' : Roster n) :
    (fresh os queues procs').seats = (fresh os queues procs).seats := by
  rw [fresh_seats, fresh_seats]
  exact List.map_congr_left fun x _ => by rw [make_fst x.1 procs procs']

/-- The records of new processes with these pids. -/
def named (pids : Fin n → UInt64) (cognitive : Fin n → Bool) : Roster n :=
  freshRoster (.ofFn fun p => (pids p, cognitive p))

theorem named_akin (pids pids' : Fin n → UInt64) (cognitive : Fin n → Bool) :
    (named pids cognitive).Akin .renaming (named pids' cognitive) := by
  have hrecord (pids : Fin n → UInt64) (q : Fin n) :
      (named pids cognitive)[q] = { pid := pids q, cognitive := cognitive q } := by
    have hmap : (named pids cognitive)[q] =
        (fun x : UInt64 × Bool => ({ pid := x.1, cognitive := x.2 } : Record))
          (Vector.ofFn fun p => (pids p, cognitive p))[q.val] := Vector.getElem_map ..
    rw [hmap, Vector.getElem_ofFn]
  intro q
  rw [hrecord, hrecord]
  exact ⟨nofun, rfl, rfl, rfl, rfl, (FeatureVector.later_zero _).symm, rfl⟩

/-- The pids decide nothing. Runs of the same steps with other pids go alike, down to the lines of the log,
and to take out a process spares all others, also those with its pid. -/
theorem run_alike_of_pids (os : List Opening) (queues : List (Nat × Single))
    (cognitive : Fin n → Bool) (pids pids' : Fin n → UInt64) (steps : List (Step n)) :
    Outcomes (fun r r' => r.1.Akin .renaming r'.1)
      ((fresh os queues (named pids cognitive)).run steps)
      ((fresh os queues (named pids' cognitive)).run steps) ∧
    List.Forall₂ (fun e f => e.Akin .renaming f ∧ f.call = e.call ∧ e.ReadsAlike f)
      ((fresh os queues (named pids cognitive)).events steps)
      ((fresh os queues (named pids' cognitive)).events steps) ∧
    ∀ e ∈ (fresh os queues (named pids cognitive)).events steps, ∀ p,
      e.call.withdraws? = some p → e.Spares p := by
  have hfresh : (fresh os queues (named pids cognitive)).Akin .renaming
      (fresh os queues (named pids' cognitive)) :=
    akin_of_seats (named_akin pids pids' cognitive) (clocks_later rfl _).symm
      (seats_of_procs os queues _ _) rfl nofun nofun
  have hlater (c : Call n) : c.later Leeway.renaming.ahead = c := congrFun Call.later_zero c
  have hsame : Step.mapAll (Call.later Leeway.renaming.ahead) steps = steps :=
    (congrArg (Step.mapAll · steps) Call.later_zero).trans (Step.mapAll_id steps)
  obtain ⟨hends, hevents⟩ := hfresh.run_later steps
  rw [hsame] at hends hevents
  exact ⟨hends, hevents.imp fun e f h => ⟨h, h.call.trans (hlater _), h.readsAlike⟩,
    fun e he p hp => call_spares hp (call_of_mem_events _ steps he)⟩

/-- Two processes have one pid, and one of them is removed. -/
theorem run_alike_of_one_pid : ∃ (s t : Session 2) (steps : List (Step 2)),
    s.procs[(0 : Fin 2)].pid = s.procs[(1 : Fin 2)].pid ∧
    t.procs[(0 : Fin 2)].pid ≠ t.procs[(1 : Fin 2)].pid ∧
    Outcomes (fun r r' => r.1.Akin .renaming r'.1) (s.run steps) (t.run steps) ∧
    List.Forall₂ (fun e f => e.Akin .renaming f ∧ f.call = e.call ∧ e.ReadsAlike f)
      (s.events steps) (t.events steps) ∧
    (∃ e ∈ s.events steps, e.call.withdraws? = some 1 ∧ e.Spares 1) ∧
    (t.events steps).map (·.done.answer) = [.host (.mark (some 2)), .host (.mark (some 2)),
      .host (.removal (.removed 1)), .host (.selected (some 0))] := by
  let os : List Opening := [{ hz := 1000, config? := some { attentionLevels := 3 } }]
  let s : Session 2 := fresh os [] (named (fun _ => 7) fun _ => true)
  let t : Session 2 := fresh os [] (named (fun p => .ofNat p) fun _ => true)
  let steps : List (Step 2) := [.call (.host 0 (.ready 0)), .call (.host 0 (.ready 1)),
    .call (.host 0 (.remove 1)), .call (.host 0 .select)]
  obtain ⟨hends, hevents, hspares⟩ := run_alike_of_pids os [] (fun _ => true) (fun _ => 7)
    (fun p : Fin 2 => .ofNat p) steps
  obtain ⟨e, he, hp⟩ : ∃ e ∈ s.events steps, e.call.withdraws? = some 1 := by decide +kernel
  exact ⟨s, t, steps, by decide +kernel, by decide +kernel, hends, hevents, ⟨e, he, hp, hspares e he 1 hp⟩,
    by decide +kernel⟩

end Session

end AttentionScheduler
