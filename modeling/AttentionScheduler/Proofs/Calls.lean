import AttentionScheduler.Proofs.HostCalls
import AttentionScheduler.Proofs.SessionFiles

/-!
What a call of a session does: to an allocator, to a bucket past its allocator, or to neither.
-/

namespace AttentionScheduler

open Files

variable {n : Nat}

namespace BucketCall

def moves : BucketCall n → Bool
  | push _ | popFront | remove _ => true
  | size | view => false

end BucketCall

namespace Call

def aside : Call n → Bool
  | clock _ _ | record _ _ => true
  | bucket _ call => !call.moves
  | host _ _ => false

end Call

namespace Session

variable {s t : Session n} {a : Nat} {place : Place} {b : Bucket n} {p : Fin n}

def Keeps (s t : Session n) : Prop :=
  ∀ a, (t.allocator? a).map (·.counters) = (s.allocator? a).map (·.counters)

inductive Does (s : Session n) : Call n → Done n → Prop where
  | host {a : Nat} {seat : Seat n} {call : HostCall n} {k : Host n} {answer : Answer n}
      (seated : s.seat a = .ok seat) (does : (s.host seat).Does s.files a call k answer) :
      Does s (.host a call) ⟨s.putHost a k, answer, k.lines⟩
  | aside {call : Call n} {d : Done n} (kind : call.aside = true)
      (files : d.session.files = s.files) (keeps : s.Keeps d.session)
      (mute : d.answer.mute = true) : Does s call d
  | absent {place : Place} {call : BucketCall n} (nowhere : s.bucketAt place = none) :
      Does s (.bucket place call) ⟨s, .noBucket, []⟩
  | marked {place : Place} {p : Fin n} {b : Bucket n} {t : Session n}
      (there : s.bucketAt place = some b) (marked : s.procs[p].mark ≠ none)
      (files : t.files = s.files) (keeps : s.Keeps t) :
      Does s (.bucket place (.push p)) ⟨t, .bucket (.joined false), []⟩
  | joined {place : Place} {p : Fin n} {b : Bucket n} {t : Session n}
      (there : s.bucketAt place = some b) (unmarked : s.procs[p].mark = none)
      (edit : Edit s.files (.link place p) t.files) (keeps : s.Keeps t) :
      Does s (.bucket place (.push p)) ⟨t, .bucket (.joined true), []⟩
  | contended {place : Place} {call : BucketCall n} {b : Bucket n} {t : Session n}
      (kind : call = .popFront ∨ ∃ p, call = .remove p) (there : s.bucketAt place = some b)
      (held : b.held = true) (files : t.files = s.files) (keeps : s.Keeps t) :
      Does s (.bucket place call) ⟨t, .bucket (.removal .contended), []⟩
  | empty {place : Place} {b : Bucket n} {t : Session n} (there : s.bucketAt place = some b)
      (free : b.held = false) (empty : b.members = []) (files : t.files = s.files)
      (keeps : s.Keeps t) :
      Does s (.bucket place .popFront) ⟨t, .bucket (.removal .notFound), []⟩
  | missing {place : Place} {p : Fin n} {b : Bucket n} {t : Session n}
      (there : s.bucketAt place = some b) (free : b.held = false) (missing : p ∉ b.members)
      (files : t.files = s.files) (keeps : s.Keeps t) :
      Does s (.bucket place (.remove p)) ⟨t, .bucket (.removal .notFound), []⟩
  | popped {place : Place} {p : Fin n} {b : Bucket n} {t : Session n}
      (there : s.bucketAt place = some b) (free : b.held = false)
      (first : b.members.head? = some p) (edit : Edit s.files (.unlink place p) t.files)
      (keeps : s.Keeps t) :
      Does s (.bucket place .popFront) ⟨t, .bucket (.removal (.removed p)), []⟩
  | removed {place : Place} {p : Fin n} {b : Bucket n} {t : Session n}
      (there : s.bucketAt place = some b) (free : b.held = false) (member : p ∈ b.members)
      (edit : Edit s.files (.unlink place p) t.files) (keeps : s.Keeps t) :
      Does s (.bucket place (.remove p)) ⟨t, .bucket (.removal (.removed p)), []⟩

theorem host_does (hs : s.files.Sound) {call : HostCall n} (hd : call ≠ .drain) {d : Done n}
    (h : s.call (.host a call) = .ok d) : s.Does (.host a call) d := by
  obtain ⟨seat, hseat⟩ := seat_of_call h
  have hrow : (s.files.withShelf a (s.host seat).row).Sound := by rwa [files_host hseat]
  have hgives := Host.call_does hrow (s.clock seat) hd
  simp only [Session.call, callHost, hseat] at h
  generalize (s.host seat).call (s.clock seat) call = e at h hgives
  cases e with
  | returned k answer =>
    cases h
    exact .host hseat hgives
  | faulted k fault =>
    cases h
    exact .host hseat hgives
  | stuck stop => cases h

theorem keeps_putBucket (s : Session n) (b : Bucket n) (place : Place) :
    s.Keeps (s.putBucket b place) := by
  intro x
  rw [allocator?_putBucket]
  cases place with
  | loose q => rfl
  | own a level =>
    dsimp only
    split
    · next hx =>
      subst hx
      cases s.allocator? x with
      | none => rfl
      | some y =>
        simp only [Option.map_some, Allocator.putBucket]
        split <;> rfl
    · rfl

theorem keeps_putFiled (s : Session n) (place : Place) (f : Filed n) :
    s.Keeps (s.putFiled place f) :=
  keeps_putBucket s f.bucket place

theorem files_putFiled_self (hb : s.bucketAt place = some b) :
    (s.putFiled place ⟨b, s.procs⟩).files = s.files := by
  rw [files_putFiled hb, (files_shows hb).withFiled]

theorem bucket_does {call : BucketCall n} {d : Done n} (h : s.callBucket place call = .ok d) :
    s.Does (.bucket place call) d := by
  unfold callBucket at h
  cases hb : s.bucket? place with
  | error stop =>
    rw [hb] at h
    cases h
  | ok b? =>
    have hat := bucketAt_of_bucket? hb
    cases b? with
    | none =>
      rw [hb] at h
      cases h
      exact .absent hat
    | some b =>
      let f : Filed n := ⟨b, s.procs⟩
      have hsame := files_putFiled_self hat
      have hkeeps := keeps_putFiled s place
      have hleft {p : Fin n} (hh : b.held = false) (hp : p ∈ b.members) : Edit s.files
          (.unlink place p) (s.putFiled place (f.letGo p (b.members.erase p))).files := by
        rw [files_putFiled hat]
        exact Filed.letGo_edit (files_shows hat) hh hp
      simp only [hb] at h
      cases call with
      | push p =>
        cases hh : b.held with
        | true =>
          simp only [Filed.call, Filed.push_held (f := ⟨b, s.procs⟩) hh] at h
          cases h
        | false =>
          by_cases hm : s.procs[p].mark = none
          · simp only [Filed.call, Filed.push_free (f := ⟨b, s.procs⟩) hh hm] at h
            cases h
            refine .joined hat hm ?_ (hkeeps _)
            rw [files_putFiled hat]
            exact Filed.joined_edit (files_shows hat) hh hm
          · simp only [Filed.call, Filed.push_marked (f := ⟨b, s.procs⟩) hh hm] at h
            cases h
            exact .marked hat hm hsame (hkeeps _)
      | popFront =>
        rcases f.popFront_cases with ⟨hh, hr⟩ | ⟨hh, he, hr⟩ | ⟨p, rest, hh, hm, hr⟩ <;>
          simp only [Filed.call, f, hr] at h <;> cases h
        · exact .contended (.inl rfl) hat hh hsame (hkeeps _)
        · exact .empty hat hh he hsame (hkeeps _)
        · have hp : p ∈ b.members := by
            rw [show b.members = p :: rest from hm]
            exact List.mem_cons_self
          exact .popped hat hh (congrArg List.head? hm) (hleft hh hp) (hkeeps _)
      | remove p =>
        rcases f.remove_cases p with ⟨hh, hr⟩ | ⟨hh, hp, hr⟩ | ⟨hh, hp, hr⟩ <;>
          simp only [Filed.call, f, hr] at h <;> cases h
        · exact .contended (.inr ⟨p, rfl⟩) hat hh hsame (hkeeps _)
        · exact .missing hat hh hp hsame (hkeeps _)
        · exact .removed hat hh hp (hleft hh hp) (hkeeps _)
      | size =>
        cases h
        exact .aside rfl hsame (hkeeps _) rfl
      | view =>
        cases hh : b.held with
        | true =>
          simp only [Filed.call, hh] at h
          cases h
        | false =>
          simp only [Filed.call, hh] at h
          cases h
          exact .aside rfl hsame (hkeeps _) rfl

theorem clock_does {call : ClockCall} {d : Done n} (h : s.callClock a call = .ok d) :
    s.Does (.clock a call) d := by
  unfold callClock at h
  cases hs : s.seat a with
  | error stop =>
    rw [hs] at h
    cases h
  | ok seat =>
    simp only [hs] at h
    cases hc : (s.clock seat).call call with
    | returned c answer =>
      rw [hc] at h
      cases h
      exact .aside rfl rfl (fun _ => rfl) rfl
    | faulted c fault =>
      rw [hc] at h
      cases h
      exact .aside rfl rfl (fun _ => rfl) rfl
    | stuck stop =>
      rw [hc] at h
      cases h

theorem record_does (s : Session n) (p : Fin n) (call : RecordCall) :
    s.Does (.record p call) (s.callRecord p call) := by
  refine .aside rfl ?_ (fun _ => rfl) rfl
  have hmark (r : Record) : (r.call call).1.mark = r.mark := by cases call <;> rfl
  apply Files.ext
  · exact fun _ => rfl
  · intro q
    simp only [files, callRecord, Filed.mark_update, hmark]
    exact congrFun (Function.update_eq_self p fun q : Fin n => s.procs[q].mark) q

theorem call_does (hs : s.files.Sound) {call : Call n} (hd : ∀ a, call ≠ .host a .drain)
    {d : Done n} (h : s.call call = .ok d) : s.Does call d := by
  cases call with
  | host a call => exact host_does hs (fun e => hd a (congrArg (Call.host a) e)) h
  | clock a call => exact clock_does h
  | bucket place call => exact bucket_does h
  | record p call =>
    cases h
    exact record_does s p call

end Session

end AttentionScheduler
