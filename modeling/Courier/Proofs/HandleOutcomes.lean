import Courier.Proofs.ReferenceMessages

/-!
# Handles

A call with a confirmed publish returns a handle, and its publish goes on in a task of its own. The
handle tells how the publish ended, once, and does nothing else: the entry points are
`Session.act_restored`, by which no other action can see whether a caller still has its handle, and
`Session.confirming_actAll`, which follows a confirmed publish and its handle through a run.
-/

namespace Courier

variable {α : Type}

/-- What the handle of a publish settles with, by how the publish ended. -/
def Attempt.outcome (exchange routingKey : String) : Attempt → Except Failure Unit
  | .done => .ok ()
  | .failed cause => .error (.publish exchange routingKey cause)
  | .crashed => .error (.interrupted exchange routingKey)

/-- How a confirmed publish ended, once it has. -/
def Progress.attempt? : Progress → Option Attempt
  | .ended attempt => some attempt
  | _ => none

theorem Confirmation.outcome?_eq (c : Confirmation) : c.outcome? =
    c.progress.attempt?.map (Attempt.outcome c.message.exchange c.message.routingKey) := by
  obtain ⟨m, k, progress⟩ := c
  cases progress with
  | ended attempt => cases attempt <;> rfl
  | _ => rfl

/-- The handle as it is if the caller has not let go of it. -/
def Handle.restored : Handle → Handle
  | .due => .due
  | .returned _ => .returned true

/-- A handle stays as it is, or the call returns it. -/
def Handle.Goes (handle handle' : Handle) : Prop :=
  handle' = handle ∨ handle = .due ∧ handle' = .returned true

theorem Handle.Goes.trans {h₁ h₂ h₃ : Handle} (h : h₁.Goes h₂) (h' : h₂.Goes h₃) : h₁.Goes h₃ := by
  obtain rfl | ⟨rfl, rfl⟩ := h
  · exact h'
  · obtain rfl | ⟨due, -⟩ := h'
    · exact .inr ⟨rfl, rfl⟩
    · cases due

namespace Call

/-- The call as it is if its caller has not let go of its handle. -/
def restored : Call α → Call α
  | .confirming confirmation handle => .confirming confirmation handle.restored
  | c => c

/-- A transition that takes a call with a confirmed publish on, whether or not its caller has let go
of the handle. -/
def Blind (f : Call α → Call α × List (Event α)) : Prop :=
  ∀ m k progress handle, ∃ progress' handle' events, handle.Goes handle' ∧
    f (.confirming ⟨m, k, progress⟩ handle) = (.confirming ⟨m, k, progress'⟩ handle', events) ∧
    f (.confirming ⟨m, k, progress⟩ handle.restored) =
      (.confirming ⟨m, k, progress'⟩ handle'.restored, events)

theorem blind_proceed (answer : α) : Blind (α := α) (·.proceed answer) :=
  fun _ _ progress handle => ⟨progress, handle, [], .inl rfl, rfl, rfl⟩

theorem blind_hold : Blind (α := α) fun c => (c, c.pending?.toList.map .held) := by
  intro m k progress handle
  cases progress <;> exact ⟨_, handle, _, .inl rfl, rfl, rfl⟩

theorem blind_acquire (answer : Except Cause ChannelKey) : Blind (α := α) (·.acquire answer) :=
  fun _ _ progress handle => ⟨progress, handle, [], .inl rfl, rfl, rfl⟩

theorem blind_publish (attempt : Attempt) : Blind (α := α) (·.publish attempt) :=
  fun _ _ progress handle => ⟨progress, handle, [], .inl rfl, rfl, rfl⟩

theorem blind_handOver : Blind (α := α) handOver := by
  intro m k progress handle
  cases handle with
  | due => exact ⟨progress, .returned true, _, .inr ⟨rfl, rfl⟩, rfl, rfl⟩
  | returned kept => exact ⟨progress, .returned kept, _, .inl rfl, rfl, rfl⟩

theorem blind_begin : Blind (α := α) begin := by
  intro m k progress handle
  cases progress <;> exact ⟨_, handle, _, .inl rfl, rfl, rfl⟩

theorem blind_confirm (attempt : Attempt) : Blind (α := α) (·.confirm attempt) := by
  intro m k progress handle
  cases progress <;> exact ⟨_, handle, _, .inl rfl, rfl, rfl⟩

theorem blind_confirmReturning (attempt : Attempt) :
    Blind (α := α) (·.confirmReturning attempt) := by
  intro m k progress handle
  cases handle with
  | due =>
    cases progress with
    | begun => exact ⟨.ended attempt, .returned true, _, .inr ⟨rfl, rfl⟩, rfl, rfl⟩
    | _ => exact ⟨_, .due, _, .inl rfl, rfl, rfl⟩
  | returned kept => cases progress <;> exact ⟨_, .returned kept, _, .inl rfl, rfl, rfl⟩

theorem blind_cancel : Blind (α := α) cancel :=
  fun _ _ progress handle => ⟨progress, handle, [], .inl rfl, rfl, rfl⟩

end Call

namespace Session

variable {s : Session α} {n : Nat} {m : Message} {k : ChannelKey} {progress : Progress}
  {handle : Handle}

/-- What polling the handle of a call gives. -/
def polled (s : Session α) (n : Nat) : Poll :=
  match s.calls[n]? with
  | some c => c.poll.2
  | none => .noHandle

/-- The actions that concern the handle of a call once it has returned: polling it, letting go of
it, and giving up the call. -/
def Action.isOnHandle (n : Nat) : Action α → Bool
  | .poll m | .detach m | .cancel m => m == n
  | _ => false

/-- After a run, the caller of a call has its handle: the call has returned it, and since then the
caller has not let go of it, and no poll has found that the publish has ended. -/
def HasHandle (s : Session α) (n : Nat) : List (Action α) → Prop
  | [] => .returned .confirming ∈ s.eventsOf (.call n)
  | a :: rest =>
    (.returned .confirming ∈ s.eventsOf (.call n) →
      a ≠ .detach n ∧ (a = .poll n → ended (s.eventsOf (.call n)) = [])) ∧
    (s.act a).HasHandle n rest

/-- The session as it is if the caller of a call has not let go of its handle. -/
def restored (s : Session α) (n : Nat) : Session α :=
  match s.calls[n]? with
  | some c => { s with calls := s.calls.set n c.restored }
  | none => s

theorem restored_of_get (hc : s.calls[n]? = some (.confirming ⟨m, k, progress⟩ handle)) :
    s.restored n =
      { s with calls := s.calls.set n (.confirming ⟨m, k, progress⟩ handle.restored) } := by
  unfold restored
  rw [hc]
  rfl

theorem restored_self (hc : s.calls[n]? = some (.confirming ⟨m, k, progress⟩ handle))
    (kept : handle ≠ .returned false) : s.restored n = s := by
  have same : handle.restored = handle := by
    obtain _ | _ | _ := handle
    · rfl
    · exact absurd rfl kept
    · rfl
  obtain ⟨hn, hget⟩ := List.getElem?_eq_some_iff.1 hc
  rw [restored_of_get hc, same, ← hget, List.set_getElem_self]

/-- A transition of sessions overlooks the handle of the call `n`, a call with a confirmed publish:
it is the same whether or not the caller has let go of the handle, and does not make the caller let
go of it. -/
structure Overlooks (f : Session α → Session α) (s : Session α) (n : Nat) (m : Message)
    (k : ChannelKey) (handle : Handle) : Prop where
  call : ∃ progress handle', handle.Goes handle' ∧
    (f s).calls[n]? = some (.confirming ⟨m, k, progress⟩ handle')
  same : f (s.restored n) = (f s).restored n

/-- What has nothing to do with calls overlooks handles. -/
theorem overlooks_frame (hc : s.calls[n]? = some (.confirming ⟨m, k, progress⟩ handle))
    {f : Session α → Session α} (frame : ∀ calls, f { s with calls } = { f s with calls }) :
    Overlooks f s n m k handle := by
  have framed : f s = { f s with calls := s.calls } := frame s.calls
  have calls : (f s).calls = s.calls := (congrArg Session.calls framed :)
  have hc' : (f s).calls[n]? = some (.confirming ⟨m, k, progress⟩ handle) := by rw [calls, hc]
  refine ⟨⟨progress, handle, .inl rfl, hc'⟩, ?_⟩
  rw [restored_of_get hc, restored_of_get hc', frame, calls]

/-- A step of a call overlooks the handle of `n`, if it is a step of another call or blind. -/
theorem overlooks_step (hc : s.calls[n]? = some (.confirming ⟨m, k, progress⟩ handle)) {i : Nat}
    {f : Call α → Call α × List (Event α)} (hf : i = n → Call.Blind f) :
    Overlooks (·.step i f) s n m k handle := by
  have hn : n < s.calls.length := (List.getElem?_eq_some_iff.1 hc).1
  by_cases hi : i = n
  · subst hi
    obtain ⟨progress', handle', events, goes, seen, blind⟩ := hf rfl m k progress handle
    have hc' : (s.step i f).calls[i]? = some (.confirming ⟨m, k, progress'⟩ handle') := by
      rw [step_of_get hc, seen]
      exact List.getElem?_set_self hn
    refine ⟨⟨progress', handle', goes, hc'⟩, ?_⟩
    rw [restored_of_get hc, restored_of_get hc', step_of_get (List.getElem?_set_self hn),
      step_of_get hc, seen, blind]
    simp only [record, List.set_set]
  · cases hd : s.calls[i]? with
    | none =>
      have hd' : (s.restored n).calls[i]? = none := by
        rw [restored_of_get hc]
        exact (List.getElem?_set_ne (Ne.symm hi)).trans hd
      refine ⟨⟨progress, handle, .inl rfl, ?_⟩, ?_⟩
      · rw [step_of_none hd, hc]
      · rw [step_of_none hd', step_of_none hd]
    | some d =>
      have hc' : (s.step i f).calls[n]? = some (.confirming ⟨m, k, progress⟩ handle) := by
        rw [step_of_get hd]
        exact (List.getElem?_set_ne hi).trans hc
      refine ⟨⟨progress, handle, .inl rfl, hc'⟩, ?_⟩
      rw [restored_of_get hc, restored_of_get hc', step_of_get hd,
        step_of_get ((List.getElem?_set_ne (Ne.symm hi)).trans hd)]
      simp only [record, List.set_comm _ _ hi]

/-- An arriving call overlooks the handles of those before it. -/
theorem overlooks_add (hc : s.calls[n]? = some (.confirming ⟨m, k, progress⟩ handle))
    (start : Declarations → Call α × List (Event α)) :
    Overlooks (fun s => s.add (start s.declarations)) s n m k handle := by
  have hn : n < s.calls.length := (List.getElem?_eq_some_iff.1 hc).1
  have hc' : (s.add (start s.declarations)).calls[n]? =
      some (.confirming ⟨m, k, progress⟩ handle) := (List.getElem?_append_left hn).trans hc
  refine ⟨⟨progress, handle, .inl rfl, hc'⟩, ?_⟩
  rw [restored_of_get hc, restored_of_get hc']
  simp only [add, record, List.length_set, List.set_append_left _ _ hn]

/-- The pool gives a call with a confirmed publish no further channel. -/
theorem overlooks_answer (hc : s.calls[n]? = some (.confirming ⟨m, k, progress⟩ handle)) (i : Nat)
    (answer : Except Cause Unit) : Overlooks (·.answer i answer) s n m k handle := by
  cases answer with
  | error cause => exact overlooks_step hc fun _ => Call.blind_acquire _
  | ok =>
    have pending : (s.restored n).pending? i = s.pending? i := by
      by_cases hi : n = i
      · subst hi
        cases progress <;> simp [pending?, restored, hc, List.getElem?_set_self
          (List.getElem?_eq_some_iff.1 hc).1, Call.restored, Call.pending?]
      · simp [pending?, restored, hc, List.getElem?_set_ne hi]
    by_cases hp : s.pending? i = some .acquire
    · have granted := overlooks_step (s := { s with acquired := s.acquired + 1 }) hc (i := i)
        (f := (·.acquire (.ok s.acquired))) fun _ => Call.blind_acquire _
      refine ⟨?_, ?_⟩
      · simp only [Session.answer, if_pos hp]
        exact granted.call
      · have same := granted.same
        rw [restored_of_get (s := { s with acquired := s.acquired + 1 }) hc] at same
        rw [restored_of_get hc] at pending ⊢
        simp only [Session.answer, pending, if_pos hp]
        exact same
    · refine ⟨⟨progress, handle, .inl rfl, ?_⟩, ?_⟩
      · simp only [Session.answer, if_neg hp, hc]
      · simp only [Session.answer, pending, if_neg hp]

/-- No action but polling the handle and letting go of it has to do with it. -/
theorem act_restored (hc : s.calls[n]? = some (.confirming ⟨m, k, progress⟩ handle)) {a : Action α}
    (hp : a ≠ .poll n) (hd : a ≠ .detach n) : Overlooks (·.act a) s n m k handle := by
  cases a with
  | declare d => exact overlooks_frame hc fun _ => rfl
  | call converter i => exact overlooks_add hc fun ds => Call.start ds converter i
  | dispatch job =>
    cases job with
    | ok job => exact overlooks_add hc fun _ => (.acquiring job, [])
    | error failure => exact overlooks_add hc fun _ => (.returned (.failed failure), [])
  | proceed i answer => exact overlooks_step hc fun _ => Call.blind_proceed answer
  | hold i => exact overlooks_step hc fun _ => Call.blind_hold
  | acquire i answer => exact overlooks_answer hc i answer
  | publish i attempt => exact overlooks_step hc fun _ => Call.blind_publish attempt
  | handOver i => exact overlooks_step hc fun _ => Call.blind_handOver
  | begin i => exact overlooks_step hc fun _ => Call.blind_begin
  | confirm i attempt => exact overlooks_step hc fun _ => Call.blind_confirm attempt
  | confirmReturning i attempt =>
    exact overlooks_step hc fun _ => Call.blind_confirmReturning attempt
  | cancel i => exact overlooks_step hc fun _ => Call.blind_cancel
  | poll i =>
    exact overlooks_step (f := fun c => (c.poll.1, [])) hc fun h => absurd (congrArg _ h) hp
  | detach i =>
    exact overlooks_step (f := fun c => (c.detach, [])) hc fun h => absurd (congrArg _ h) hd
  | lease answer => cases answer <;> exact overlooks_frame hc fun _ => rfl
  | leasePublish l message attempt =>
    refine overlooks_frame hc fun calls => ?_
    simp only [act, lease?]
    cases (s.leases[l]?).join <;> rfl
  | leaseRelease l =>
    refine overlooks_frame hc fun calls => ?_
    simp only [act, lease?]
    cases (s.leases[l]?).join <;> rfl

/-- What is done with the handle of a call has no part in anything else. -/
theorem act_onHandle (hc : s.calls[n]? = some (.confirming ⟨m, k, progress⟩ handle)) {a : Action α}
    (ha : a.isOnHandle n = true) : (s.act a).restored n = s.restored n := by
  have hn : n < s.calls.length := (List.getElem?_eq_some_iff.1 hc).1
  have step {f : Call α → Call α × List (Event α)} (after : Handle)
      (hr : after.restored = handle.restored)
      (hf : f (.confirming ⟨m, k, progress⟩ handle) = (.confirming ⟨m, k, progress⟩ after, [])) :
      (s.step n f).restored n = s.restored n := by
    rw [step_of_get hc, hf, restored_of_get (List.getElem?_set_self hn), restored_of_get hc, hr]
    simp [record]
  cases a with
  | poll i =>
    obtain rfl : i = n := by simpa [Action.isOnHandle] using ha
    cases handle with
    | due => exact step .due rfl rfl
    | returned kept =>
      cases kept with
      | false => exact step (.returned false) rfl rfl
      | true =>
        cases progress with
        | ended attempt => cases attempt <;> exact step (.returned false) rfl rfl
        | _ => exact step (.returned true) rfl rfl
  | detach i =>
    obtain rfl : i = n := by simpa [Action.isOnHandle] using ha
    cases handle with
    | due => exact step .due rfl rfl
    | returned kept => exact step (.returned false) rfl rfl
  | cancel i =>
    obtain rfl : i = n := by simpa [Action.isOnHandle] using ha
    exact step handle rfl rfl
  | _ => cases ha

/-- A call with a confirmed publish after one action: its caller loses the handle by letting go of
it, and by polling it when the publish has ended. -/
theorem confirming_act (hc : s.calls[n]? = some (.confirming ⟨m, k, progress⟩ handle))
    (a : Action α) : ∃ progress' handle',
      (s.act a).calls[n]? = some (.confirming ⟨m, k, progress'⟩ handle') ∧
      (handle' ≠ .returned false ↔ handle ≠ .returned false ∧
        (handle ≠ .due → a ≠ .detach n ∧ (a = .poll n → progress.attempt? = none))) := by
  have hn : n < s.calls.length := (List.getElem?_eq_some_iff.1 hc).1
  have step {f : Call α → Call α × List (Event α)} {handle' : Handle}
      (hf : (f (.confirming ⟨m, k, progress⟩ handle)).1 = .confirming ⟨m, k, progress⟩ handle') :
      (s.step n f).calls[n]? = some (.confirming ⟨m, k, progress⟩ handle') := by
    rw [step_of_get hc, ← hf]
    exact List.getElem?_set_self hn
  by_cases hd : a = .detach n
  · subst hd
    cases handle with
    | due => exact ⟨progress, .due, step rfl, by simp⟩
    | returned kept => exact ⟨progress, .returned false, step rfl, by simp⟩
  by_cases hp : a = .poll n
  · subst hp
    cases handle with
    | due => exact ⟨progress, .due, step rfl, by simp⟩
    | returned kept =>
      cases kept with
      | false => exact ⟨progress, .returned false, step rfl, by simp⟩
      | true =>
        cases progress with
        | ended attempt =>
          refine ⟨_, .returned false, step ?_, by simp [Progress.attempt?]⟩
          cases attempt <;> rfl
        | _ => exact ⟨_, .returned true, step rfl, by simp [Progress.attempt?]⟩
  · obtain ⟨progress', handle', goes, hc'⟩ := (act_restored hc hp hd).call
    refine ⟨progress', handle', hc', ?_⟩
    obtain rfl | ⟨rfl, rfl⟩ := goes
    · simp [hp, hd]
    · simp

variable {j : Job}

theorem shows_of_course {trace : List (Event α)}
    (h : j.Course (.confirming ⟨m, k, progress⟩ handle) trace) :
    ∃ events, trace = j.opening k ++ events ∧
      Confirmation.Shows ⟨m, k, progress⟩ handle events := by
  cases h with
  | confirming hm hr k shows => exact ⟨_, rfl, shows⟩

theorem ended_of_course {events : List (Event α)}
    (h : j.Course (.confirming ⟨m, k, progress⟩ handle) (shown events)) :
    ended events = progress.attempt?.toList.map fun attempt => (.confirm, k, m, attempt) := by
  obtain ⟨rest, trace, shows⟩ := shows_of_course h
  rw [← ended_shown, trace]
  refine (shows.filterMap_eq rfl).trans ?_
  cases progress <;> rfl

theorem given_of_course {events : List (Event α)}
    (h : j.Course (.confirming ⟨m, k, progress⟩ handle) (shown events)) :
    given events = progress.attempt?.toList.map fun _ => k := by
  obtain ⟨rest, trace, shows⟩ := shows_of_course h
  have hg : given (shown events) = given events := filterMap_shown (fun _ => rfl) events
  rw [← hg, trace]
  refine (shows.filterMap_eq rfl).trans ?_
  cases progress <;> rfl

/-- A call has returned its handle if its events say so. -/
theorem returned_of_course {events : List (Event α)}
    (h : j.Course (.confirming ⟨m, k, progress⟩ handle) (shown events)) :
    .returned .confirming ∈ events ↔ handle ≠ .due := by
  obtain ⟨rest, trace, shows⟩ := shows_of_course h
  rw [← returned_mem_shown, trace]
  simp [Job.opening, shows.returned_mem_iff]

/-- A confirmed call after a run: its publish is on its course, and its caller has the handle if the
run has left it with it. -/
theorem confirming_actAll (hc : s.calls[n]? = some (.confirming ⟨m, k, progress⟩ handle))
    (course : j.Course (.confirming ⟨m, k, progress⟩ handle) (s.traceOf n))
    (after : List (Action α)) :
    ∃ progress' handle',
      (s.actAll after).calls[n]? = some (.confirming ⟨m, k, progress'⟩ handle') ∧
      j.Course (.confirming ⟨m, k, progress'⟩ handle') ((s.actAll after).traceOf n) ∧
      (handle' = .returned true ↔ handle ≠ .returned false ∧ s.HasHandle n after) := by
  induction after generalizing s progress handle with
  | nil =>
    refine ⟨progress, handle, hc, course, ?_⟩
    rw [HasHandle, returned_of_course course]
    obtain _ | _ | _ := handle <;> simp
  | cons a rest ih =>
    obtain ⟨progress', handle', hc', first⟩ := confirming_act hc a
    obtain ⟨c', events, hc'', he, hs⟩ := act_step hc a
    obtain rfl := Option.some.inj (hc'.symm.trans hc'')
    have course' : j.Course (.confirming ⟨m, k, progress'⟩ handle') ((s.act a).traceOf n) := by
      rw [traceOf, he, shown, List.filter_append]
      exact course.step hs
    obtain ⟨last, kept, hl, courseₗ, others⟩ := ih hc' course'
    refine ⟨last, kept, hl, courseₗ, ?_⟩
    have none_iff : progress.attempt? = none ↔ ended (s.eventsOf (.call n)) = [] := by
      rw [ended_of_course course]
      cases progress.attempt? <;> simp
    rw [others, first, HasHandle, returned_of_course course, none_iff, and_assoc]

theorem not_onHandle_of_mem_filter (n : Nat) (actions : List (Action α)) :
    ∀ a ∈ actions.filter fun a => !a.isOnHandle n, a.isOnHandle n = false := by
  intro a ha
  simpa using (List.mem_filter.1 ha).2

/-- What follows is the same whether or not the caller of a confirmed call has let go of its handle,
if nothing more is done with it. -/
theorem actAll_restored (hc : s.calls[n]? = some (.confirming ⟨m, k, progress⟩ handle))
    {rest : List (Action α)} (hr : ∀ a ∈ rest, a.isOnHandle n = false) :
    Overlooks (·.actAll rest) s n m k handle := by
  induction rest generalizing s progress handle with
  | nil => exact ⟨⟨progress, handle, .inl rfl, hc⟩, rfl⟩
  | cons a rest ih =>
    have ha := hr a List.mem_cons_self
    have first := act_restored hc (a := a) (by rintro rfl; simp [Action.isOnHandle] at ha)
      (by rintro rfl; simp [Action.isOnHandle] at ha)
    obtain ⟨progress', handle', goes, hc'⟩ := first.call
    have others := ih hc' fun b hb => hr b (List.mem_cons_of_mem a hb)
    obtain ⟨last, handleₗ, goesₗ, hl⟩ := others.call
    refine ⟨⟨last, handleₗ, goes.trans goesₗ, hl⟩, ?_⟩
    show ((s.restored n).act a).actAll rest = _
    rw [first.same]
    exact others.same

/-- Without all that is done with the handle of a confirmed call, a run goes the same way. -/
theorem actAll_filter (hc : s.calls[n]? = some (.confirming ⟨m, k, progress⟩ handle))
    (after : List (Action α)) :
    (s.actAll (after.filter fun a => !a.isOnHandle n)).restored n =
      (s.actAll after).restored n := by
  induction after generalizing s progress handle with
  | nil => rfl
  | cons a rest ih =>
    obtain ⟨progress', handle', hc', -⟩ := confirming_act hc a
    cases ha : a.isOnHandle n with
    | false =>
      rw [List.filter_cons_of_pos (by simp [ha])]
      exact ih hc'
    | true =>
      have quiet := not_onHandle_of_mem_filter n rest
      rw [List.filter_cons_of_neg (by simp [ha])]
      calc (s.actAll _).restored n
        _ = (s.restored n).actAll _ := (actAll_restored hc quiet).same.symm
        _ = ((s.act a).restored n).actAll _ := by rw [act_onHandle hc ha]
        _ = ((s.act a).actAll _).restored n := (actAll_restored hc' quiet).same
        _ = ((s.act a).actAll rest).restored n := ih hc'

theorem poll_eq_pending {c : Confirmation} :
    (Call.confirming c handle : Call α).poll.2 = .pending ↔
      handle = .returned true ∧ c.progress.attempt? = none := by
  obtain _ | _ | _ := handle <;>
    simp only [Call.poll, Confirmation.outcome?_eq] <;> cases c.progress.attempt? <;> simp

theorem poll_eq_settled {c : Confirmation} {outcome : Except Failure Unit} :
    (Call.confirming c handle : Call α).poll.2 = .settled outcome ↔
      handle = .returned true ∧ ∃ attempt, c.progress.attempt? = some attempt ∧
        outcome = attempt.outcome c.message.exchange c.message.routingKey := by
  obtain _ | _ | _ := handle <;>
    simp only [Call.poll, Confirmation.outcome?_eq] <;> cases c.progress.attempt? <;>
      simp [eq_comm]

/-- What a poll of the handle of a confirmed call gives. -/
theorem polled_of_get (hc : s.calls[n]? = some (.confirming ⟨m, k, progress⟩ handle)) :
    s.polled n = (Call.confirming ⟨m, k, progress⟩ handle : Call α).poll.2 := by
  unfold polled
  rw [hc]

/-- A call that waits for its channel has shown nothing. -/
theorem traceOf_acquiring (h : s.Reachable) (hj : s.calls[n]? = some (.acquiring j)) :
    s.traceOf n = [] := by
  obtain ⟨actions, rfl⟩ := reachable_iff.1 h
  obtain ⟨before, a, origin⟩ := exists_origin (List.getElem?_eq_some_iff.1 hj).1
  obtain ⟨c, hc, course⟩ := origin.course
  obtain rfl := Option.some.inj (hj.symm.trans hc)
  generalize (actAll {} actions).traceOf n = events at course
  cases course with
  | call course =>
    cases course with
    | job _ _ course =>
      cases course
      rfl
  | dispatch course =>
    cases course
    rfl

/-- A confirmed call that gets its channel sets off its publish, and has still to return. -/
theorem confirming_of_acquire (h : s.Reachable) (hj : s.calls[n]? = some (.acquiring j))
    (hm : j.message = .ok m) (hr : j.returns = .confirmation) :
    At (s.act (.acquire n (.ok ()))) n (.confirming ⟨m, s.acquired, .spawned⟩ .due)
      (j.opening s.acquired) := by
  have got := At.acquire ⟨hj, traceOf_acquiring h hj⟩
  rw [withChannel_of_confirmation hm hr] at got
  exact got

/-- A call that has set off its publish can return, however far the publish has come. -/
theorem returned_of_handOver (hc : s.calls[n]? = some (.confirming ⟨m, k, progress⟩ handle))
    (course : j.Course (.confirming ⟨m, k, progress⟩ handle) (s.traceOf n)) :
    .returned .confirming ∈ (s.act (.handOver n)).eventsOf (.call n) := by
  have handed : (s.act (.handOver n)).traceOf n = _ := (At.step ⟨hc, rfl⟩ Call.handOver).trace
  rw [← returned_mem_shown, ← traceOf, handed, List.mem_append]
  cases handle with
  | due => exact .inr List.mem_cons_self
  | returned kept =>
    rw [traceOf, returned_mem_shown]
    exact .inl ((returned_of_course course).2 (by simp))

/-- Once a poll has found the publish ended, its caller has the handle no more. -/
theorem polled_of_settled (hc : s.calls[n]? = some (.confirming ⟨m, k, progress⟩ handle))
    (course : j.Course (.confirming ⟨m, k, progress⟩ handle) (s.traceOf n))
    (due : handle ≠ .due) (ended : progress.attempt? ≠ none) (rest : List (Action α)) :
    ((s.act (.poll n)).actAll rest).polled n = .noHandle := by
  obtain ⟨progress', handle', hc', -, kept⟩ := confirming_actAll hc course (.poll n :: rest)
  have lost : handle' ≠ .returned true := by
    intro has
    obtain ⟨-, unended, -⟩ := kept.1 has
    have none := (unended ((returned_of_course course).2 due)).2 rfl
    rw [ended_of_course course] at none
    exact ended (by simpa using none)
  refine (polled_of_get hc').trans ?_
  obtain _ | _ | _ := handle'
  · rfl
  · rfl
  · exact absurd rfl lost

/-- The handle of a confirmed call tells how the call's publish ended, and nothing else. The call
can return at any point of its publish. From then on, polling the handle gives nothing as long as
the publish has not ended; then it gives the outcome, once: that the publish succeeded, or failed
for the reason that the channel gave, or was interrupted, each of the call's own exchange and
routing key. The channel goes back with the end of the publish. Whatever else is done with the
handle or to the call that has its channel, all goes as without it. -/
theorem handle_tells_end_of_publish (h : s.Reachable) {j : Job}
    (hj : s.calls[n]? = some (.acquiring j)) (hm : j.message = .ok m)
    (hr : j.returns = .confirmation) (after : List (Action α)) :
    let r := s.act (.acquire n (.ok ()))
    let t := r.actAll after
    let publish := ended (t.eventsOf (.call n))
    .returned .confirming ∈ (t.act (.handOver n)).eventsOf (.call n) ∧
    (publish = [] ∨ ∃ attempt, publish = [(.confirm, s.acquired, m, attempt)]) ∧
    (t.polled n = .pending ↔ r.HasHandle n after ∧ publish = []) ∧
    (∀ outcome, t.polled n = .settled outcome ↔ r.HasHandle n after ∧ ∃ attempt,
      publish = [(.confirm, s.acquired, m, attempt)] ∧
      outcome = attempt.outcome j.envelope.exchange j.envelope.routingKey) ∧
    (∀ outcome, t.polled n = .settled outcome →
      ∀ rest, ((t.act (.poll n)).actAll rest).polled n = .noHandle) ∧
    given (t.eventsOf (.call n)) = publish.map (fun _ => s.acquired) ∧
    r.actAll (after.filter fun a => !a.isOnHandle n) = t.restored n := by
  intro r t publish
  have got := confirming_of_acquire h hj hm hr
  have start : j.Course (.confirming ⟨m, s.acquired, .spawned⟩ .due) (r.traceOf n) := by
    rw [got.trace]
    exact .confirming hm hr s.acquired .due
  obtain ⟨progress, handle, hc, course, kept⟩ := confirming_actAll got.call start after
  have kept : handle = .returned true ↔ r.HasHandle n after := kept.trans (and_iff_right nofun)
  have polled : t.polled n = _ := polled_of_get hc
  have attempts : publish = _ := ended_of_course course
  obtain ⟨exchange, routingKey⟩ : m.exchange = j.envelope.exchange ∧
      m.routingKey = j.envelope.routingKey := by
    obtain ⟨body, -, rfl⟩ := Job.message_eq_ok.1 hm
    exact ⟨rfl, rfl⟩
  refine ⟨returned_of_handOver hc course, ?_, ?_, ?_, ?_, ?_, ?_⟩
  · rw [attempts]
    cases progress.attempt? <;> simp
  · rw [← kept, polled, attempts, poll_eq_pending]
    simp
  · intro outcome
    rw [← kept, polled, attempts, poll_eq_settled, exchange, routingKey]
    cases progress.attempt? <;> simp
  · intro outcome settled
    obtain ⟨has, attempt, ended, -⟩ := poll_eq_settled.1 (polled ▸ settled)
    exact polled_of_settled hc course (has ▸ nofun) (ended ▸ nofun)
  · rw [attempts]
    refine (given_of_course course).trans ?_
    cases progress.attempt? <;> rfl
  · obtain ⟨progress', handle', goes, hc'⟩ :=
      (actAll_restored got.call (not_onHandle_of_mem_filter n after)).call
    have kept' : handle' ≠ .returned false := by
      obtain rfl | ⟨-, rfl⟩ := goes <;> nofun
    rw [← restored_self hc' kept']
    exact actAll_filter got.call after

/-- A confirmed publish fails while its handle is polled, and after its caller has tried to give up
the call. The publish begins before the call returns. -/
def refusedPublish : List (Action Unit) :=
  [.poll 0, .begin 0, .hold 0, .handOver 0, .cancel 0, .poll 0,
    .confirm 0 (.failed .messageRefused)]

theorem handle_tells_end_of_publish_refusedPublish :
    ((actAll {} (.dispatch (.ok (textJob "a" "x" .confirmation)) ::
      .acquire 0 (.ok ()) :: refusedPublish)).polled 0) =
      .settled (.error (.publish "" "a" .messageRefused)) := by
  have told := handle_tells_end_of_publish (n := 0)
    (reachable_actAll .start [.dispatch (.ok (textJob "a" "x" .confirmation))]) rfl rfl rfl
    refusedPublish
  obtain ⟨-, -, -, settled, -⟩ := told
  refine (settled _).2 ⟨?_, .failed .messageRefused, ?_, ?_⟩
  · exact ⟨fun _ => ⟨nofun, fun _ => rfl⟩, fun _ => ⟨nofun, nofun⟩, fun _ => ⟨nofun, nofun⟩,
      fun _ => ⟨nofun, nofun⟩, fun _ => ⟨nofun, nofun⟩, fun _ => ⟨nofun, fun _ => rfl⟩,
      fun _ => ⟨nofun, nofun⟩, List.mem_of_getElem? (i := 4) rfl⟩
  · rfl
  · rfl

end Session

end Courier
