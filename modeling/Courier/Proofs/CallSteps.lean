import Courier.Session

/-!
# What one action can do

`Call.Step` lists the ways in which a call can go on, each with the events that it causes; every
transition of `Call` is one of them. `Session.Change` lists what an action makes of a session, and
`Session.act_change` is the one place that goes through the actions. The entry points for one call
are `Session.act_step`, by which each call takes a step and its events grow by those of the step,
and `Session.act_absent`, by which a call arrives as the next one.
-/

namespace Courier

variable {α : Type}

open Session (acquiredBy? releasedBy?)

/-- The channels that events hand out. -/
def taken (events : List (Event α)) : List ChannelKey := events.filterMap acquiredBy?

/-- The channels that events give back. -/
def given (events : List (Event α)) : List ChannelKey := events.filterMap releasedBy?

namespace Call

/-- One step of a call, with the events that it causes. -/
inductive Step : Call α → Call α → List (Event α) → Prop where
  | stay (c : Call α) : Step c c []
  | held (c : Call α) (operation : Operation) : Step c c [.held operation]
  | proceeded (i : Invocation) (answer : α) :
      Step (.forwarding i) (.returned (.forwarded answer)) [.returned (.forwarded answer)]
  | unavailable (job : Job) (cause : Cause) :
      Step (.acquiring job) (.returned (.failed (job.unavailable cause)))
        [.unavailable cause, .returned (.failed (job.unavailable cause))]
  | unconverted {job : Job} {failure : Failure} (hm : job.message = .error failure)
      (k : ChannelKey) :
      Step (.acquiring job) (.returned (.failed failure))
        [.acquired k, .converted job.content job.converter.reported, .released k,
          .returned (.failed failure)]
  | publishing {job : Job} {m : Message} (hm : job.message = .ok m) (hr : job.returns = .nothing)
      (k : ChannelKey) :
      Step (.acquiring job) (.publishing m k)
        [.acquired k, .converted job.content job.converter.reported, .began .publish k m]
  | confirming {job : Job} {m : Message} (hm : job.message = .ok m)
      (hr : job.returns = .confirmation) (k : ChannelKey) :
      Step (.acquiring job) (.confirming ⟨m, k, .spawned⟩ .due)
        [.acquired k, .converted job.content job.converter.reported]
  | handed (confirmation : Confirmation) :
      Step (.confirming confirmation .due) (.confirming confirmation (.returned true))
        [.returned .confirming]
  | sent (m : Message) (k : ChannelKey) :
      Step (.publishing m k) (.returned .sent)
        [.attempted .publish k m .done, .released k, .returned .sent]
  | unsent (m : Message) (k : ChannelKey) (cause : Cause) :
      Step (.publishing m k) (.returned (.failed (m.unpublished cause)))
        [.attempted .publish k m (.failed cause), .released k,
          .returned (.failed (m.unpublished cause))]
  | crashed (m : Message) (k : ChannelKey) :
      Step (.publishing m k) .crashed [.attempted .publish k m .crashed, .released k]
  | begun (m : Message) (k : ChannelKey) (handle : Handle) :
      Step (.confirming ⟨m, k, .spawned⟩ handle) (.confirming ⟨m, k, .begun⟩ handle)
        [.began .confirm k m]
  | ended (m : Message) (k : ChannelKey) (attempt : Attempt) (handle : Handle) :
      Step (.confirming ⟨m, k, .begun⟩ handle) (.confirming ⟨m, k, .ended attempt⟩ handle)
        [.attempted .confirm k m attempt, .released k]
  | endedReturning (m : Message) (k : ChannelKey) (attempt : Attempt) :
      Step (.confirming ⟨m, k, .begun⟩ .due) (.confirming ⟨m, k, .ended attempt⟩ (.returned true))
        [.attempted .confirm k m attempt, .returned .confirming, .released k]
  | forgotten (i : Invocation) : Step (.forwarding i) .cancelled []
  | withdrawn (job : Job) : Step (.acquiring job) .cancelled []
  | abandoned (m : Message) (k : ChannelKey) : Step (.publishing m k) .cancelled [.released k]
  | detached (confirmation : Confirmation) (kept : Bool) :
      Step (.confirming confirmation (.returned kept)) (.confirming confirmation (.returned false))
        []

theorem step_proceed (answer : α) (c : Call α) :
    Step c (c.proceed answer).1 (c.proceed answer).2 := by
  cases c with
  | forwarding i => exact .proceeded i answer
  | _ => exact .stay _

theorem step_withChannel (job : Job) (k : ChannelKey) :
    Step (α := α) (.acquiring job) (withChannel job k).1 (withChannel job k).2 := by
  unfold withChannel
  cases hm : job.message with
  | error failure => exact .unconverted hm k
  | ok m =>
    cases hr : job.returns with
    | nothing => exact .publishing hm hr k
    | confirmation => exact .confirming hm hr k

theorem step_acquire (answer : Except Cause ChannelKey) (c : Call α) :
    Step c (c.acquire answer).1 (c.acquire answer).2 := by
  cases c with
  | acquiring job =>
    cases answer with
    | error cause => exact .unavailable job cause
    | ok k => exact step_withChannel job k
  | _ => exact .stay _

theorem step_publish (attempt : Attempt) (c : Call α) :
    Step c (c.publish attempt).1 (c.publish attempt).2 := by
  cases c with
  | publishing m k =>
    cases attempt with
    | done => exact .sent m k
    | failed cause => exact .unsent m k cause
    | crashed => exact .crashed m k
  | _ => exact .stay _

theorem step_handOver (c : Call α) : Step c c.handOver.1 c.handOver.2 := by
  cases c with
  | confirming confirmation handle =>
    cases handle with
    | due => exact .handed confirmation
    | returned kept => exact .stay _
  | _ => exact .stay _

theorem step_begin (c : Call α) : Step c c.begin.1 c.begin.2 := by
  cases c with
  | confirming confirmation handle =>
    obtain ⟨m, k, progress⟩ := confirmation
    cases progress with
    | spawned => exact .begun m k handle
    | _ => exact .stay _
  | _ => exact .stay _

theorem step_confirm (attempt : Attempt) (c : Call α) :
    Step c (c.confirm attempt).1 (c.confirm attempt).2 := by
  cases c with
  | confirming confirmation handle =>
    obtain ⟨m, k, progress⟩ := confirmation
    cases progress with
    | begun => exact .ended m k attempt handle
    | _ => exact .stay _
  | _ => exact .stay _

theorem step_confirmReturning (attempt : Attempt) (c : Call α) :
    Step c (c.confirmReturning attempt).1 (c.confirmReturning attempt).2 := by
  cases c with
  | confirming confirmation handle =>
    obtain ⟨m, k, progress⟩ := confirmation
    cases handle with
    | due =>
      cases progress with
      | begun => exact .endedReturning m k attempt
      | _ => exact .stay _
    | returned kept => cases progress <;> exact .stay _
  | _ => exact .stay _

theorem step_cancel (c : Call α) : Step c c.cancel.1 c.cancel.2 := by
  cases c with
  | forwarding i => exact .forgotten i
  | acquiring job => exact .withdrawn job
  | publishing m k => exact .abandoned m k
  | _ => exact .stay _

theorem step_poll (c : Call α) : Step c c.poll.1 [] := by
  cases c with
  | confirming confirmation handle =>
    cases handle with
    | due => exact .stay _
    | returned kept =>
      cases kept with
      | false => exact .stay _
      | true =>
        simp only [poll]
        cases confirmation.outcome? with
        | none => exact .stay _
        | some outcome => exact .detached confirmation true
  | _ => exact .stay _

theorem step_detach (c : Call α) : Step c c.detach [] := by
  cases c with
  | confirming confirmation handle =>
    cases handle with
    | due => exact .stay _
    | returned kept => exact .detached confirmation kept
  | _ => exact .stay _

theorem step_hold (c : Call α) : Step c c (c.pending?.toList.map .held) := by
  cases c.pending? with
  | none => exact .stay c
  | some operation => exact .held c operation

/-- Only a call that waits for a channel takes one. -/
theorem Step.taken_eq_nil {c c' : Call α} {events : List (Event α)} (h : c.Step c' events)
    (hc : ∀ job, c ≠ .acquiring job) : taken events = [] := by
  cases h with
  | unavailable job cause => exact absurd rfl (hc job)
  | unconverted hm k => exact absurd rfl (hc _)
  | publishing hm hr k => exact absurd rfl (hc _)
  | confirming hm hr k => exact absurd rfl (hc _)
  | _ => rfl

theorem taken_withChannel (job : Job) (k : ChannelKey) :
    taken (withChannel (α := α) job k).2 = [k] := by
  unfold withChannel
  split
  · rfl
  · split <;> rfl

theorem acquiring_of_pending {c : Call α} (h : c.pending? = some .acquire) :
    ∃ job, c = .acquiring job := by
  cases c with
  | acquiring job => exact ⟨job, rfl⟩
  | confirming confirmation handle =>
    obtain ⟨m, k, progress⟩ := confirmation
    cases progress <;> cases h
  | _ => cases h

end Call

namespace Session

theorem step_of_get {s : Session α} {n : Nat} {c : Call α} (h : s.calls[n]? = some c)
    (f : Call α → Call α × List (Event α)) :
    s.step n f = { s with calls := s.calls.set n (f c).1 }.record (.call n) (f c).2 := by
  unfold step
  rw [h]

theorem step_of_none {s : Session α} {n : Nat} (h : s.calls[n]? = none)
    (f : Call α → Call α × List (Event α)) : s.step n f = s := by
  unfold step
  rw [h]

theorem eventsOf_record_self (s : Session α) (owner : Owner) (events : List (Event α)) :
    (s.record owner events).eventsOf owner = s.eventsOf owner ++ events := by
  have own : ((fun e : Owner × Event α => if e.1 = owner then some e.2 else none) ∘
      fun e => (owner, e)) = some := funext fun e => if_pos rfl
  rw [eventsOf, record, List.filterMap_append, List.filterMap_map, own, List.filterMap_some]
  rfl

theorem eventsOf_record_of_ne (s : Session α) {owner other : Owner} (h : other ≠ owner)
    (events : List (Event α)) : (s.record other events).eventsOf owner = s.eventsOf owner := by
  have others : ∀ e ∈ events, ((fun e : Owner × Event α => if e.1 = owner then some e.2 else none) ∘
      fun e => (other, e)) e = none := fun e _ => if_neg h
  rw [eventsOf, record, List.filterMap_append, List.filterMap_map,
    List.filterMap_eq_nil_iff.2 others, List.append_nil]
  rfl

/-- The calls that actions make, with their first events. -/
inductive Arrives (s : Session α) : Action α → Call α → List (Event α) → Prop where
  | call (converter : Converter) (i : Invocation) : Arrives s (.call converter i)
      (Call.start s.declarations converter i).1 (Call.start s.declarations converter i).2
  | dispatch (job : Job) : Arrives s (.dispatch (.ok job)) (.acquiring job) []
  | refused (failure : Failure) :
      Arrives s (.dispatch (.error failure)) (.returned (.failed failure)) []

/-- What an action makes of a session: a call takes a step, and its new channel, if it takes one, is
the next; or a call arrives, or a lease is taken, given back or told of something. -/
inductive Change (s : Session α) : Action α → Session α → Prop where
  | nothing (a : Action α) : Change s a s
  | declared (d : Declaration) :
      Change s (.declare d) { s with declarations := s.declarations.declare d }
  | arrived {a : Action α} {c : Call α} {events : List (Event α)} (h : s.Arrives a c events) :
      Change s a (s.add (c, events))
  | moved (a : Action α) {m acquired : Nat} {c c' : Call α} {events : List (Event α)}
      (h : s.calls[m]? = some c) (hs : c.Step c' events)
      (hf : List.range acquired = List.range s.acquired ++ taken events) :
      Change s a ({ s with calls := s.calls.set m c', acquired }.record (.call m) events)
  | told (a : Action α) {events : List (Event α)} (ht : taken events = [])
      (hg : given events = []) : Change s a (s.record .lessee events)
  | leased : Change s (.lease (.ok ()))
      ({ s with acquired := s.acquired + 1, leases := s.leases ++ [some s.acquired] }.record .lessee
        [.acquired s.acquired])
  | unleased {l : Nat} {k : ChannelKey} (h : s.lease? l = some k) : Change s (.leaseRelease l)
      ({ s with leases := s.leases.set l none }.record .lessee [.released k])

/-- A transition of a call that does not give it a channel. -/
theorem change_step {a : Action α} (f : Call α → Call α × List (Event α))
    (hf : ∀ c, Call.Step c (f c).1 (f c).2) (ha : ∀ job, taken (f (.acquiring job)).2 = [])
    (s : Session α) (n : Nat) : s.Change a (s.step n f) := by
  cases h : s.calls[n]? with
  | none =>
    rw [step_of_none h]
    exact .nothing a
  | some c =>
    have ht : taken (f c).2 = [] := by
      by_cases hc : ∃ job, c = .acquiring job
      · obtain ⟨job, rfl⟩ := hc
        exact ha job
      · exact (hf c).taken_eq_nil fun job e => hc ⟨job, e⟩
    rw [step_of_get h]
    exact .moved a h (hf c) (by rw [ht, List.append_nil])

theorem change_answer {a : Action α} (s : Session α) (n : Nat) (answer : Except Cause Unit) :
    s.Change a (s.answer n answer) := by
  cases answer with
  | error cause =>
    exact change_step (·.acquire (.error cause)) (Call.step_acquire _) (fun _ => rfl) s n
  | ok =>
    simp only [Session.answer]
    split
    next hp =>
      obtain ⟨c, hc, hp⟩ := Option.bind_eq_some_iff.1 hp
      obtain ⟨job, rfl⟩ := Call.acquiring_of_pending hp
      have hf : List.range (s.acquired + 1)
          = List.range s.acquired ++ taken (Call.withChannel (α := α) job s.acquired).2 := by
        rw [Call.taken_withChannel, List.range_succ]
      rw [step_of_get (s := { s with acquired := s.acquired + 1 }) hc]
      exact .moved a hc (Call.step_withChannel job s.acquired) hf
    next => exact .nothing a

/-- Every action makes such a change. -/
theorem act_change (s : Session α) (a : Action α) : s.Change a (s.act a) := by
  cases a with
  | declare d => exact .declared d
  | call converter i => exact .arrived (.call converter i)
  | dispatch job =>
    cases job with
    | ok job => exact .arrived (.dispatch job)
    | error failure => exact .arrived (.refused failure)
  | proceed n answer =>
    exact change_step (·.proceed answer) (Call.step_proceed answer) (fun _ => rfl) s n
  | hold n =>
    exact change_step (fun c => (c, c.pending?.toList.map .held)) Call.step_hold (fun _ => rfl) s n
  | acquire n answer => exact change_answer s n answer
  | publish n attempt =>
    exact change_step (·.publish attempt) (Call.step_publish attempt) (fun _ => rfl) s n
  | handOver n => exact change_step Call.handOver Call.step_handOver (fun _ => rfl) s n
  | begin n => exact change_step Call.begin Call.step_begin (fun _ => rfl) s n
  | confirm n attempt =>
    exact change_step (·.confirm attempt) (Call.step_confirm attempt) (fun _ => rfl) s n
  | confirmReturning n attempt =>
    exact change_step (·.confirmReturning attempt) (Call.step_confirmReturning attempt)
      (fun _ => rfl) s n
  | cancel n => exact change_step Call.cancel Call.step_cancel (fun _ => rfl) s n
  | poll n => exact change_step (fun c => (c.poll.1, [])) Call.step_poll (fun _ => rfl) s n
  | detach n => exact change_step (fun c => (c.detach, [])) Call.step_detach (fun _ => rfl) s n
  | lease answer =>
    cases answer with
    | ok => exact .leased
    | error cause => exact .told _ rfl rfl
  | leasePublish l m attempt =>
    simp only [act]
    cases s.lease? l with
    | none => exact .nothing _
    | some k => exact .told _ rfl rfl
  | leaseRelease l =>
    simp only [act]
    cases h : s.lease? l with
    | none => exact .nothing _
    | some k => exact .unleased h

/-- What a call and its events become: a step of the call. -/
def CallSteps (s t : Session α) (n : Nat) (c : Call α) : Prop :=
  ∃ c' events, t.calls[n]? = some c' ∧ t.eventsOf (.call n) = s.eventsOf (.call n) ++ events ∧
    c.Step c' events

/-- A call that nothing happens to stays. -/
theorem callSteps_stay {s t : Session α} {n : Nat} {c : Call α} (hc : t.calls[n]? = some c)
    (he : t.eventsOf (.call n) = s.eventsOf (.call n)) : CallSteps s t n c :=
  ⟨c, [], hc, by rw [he, List.append_nil], .stay c⟩

theorem lessee_ne_call (n : Nat) : Owner.lessee ≠ .call n := nofun

/-- Whatever happens in a session, each of its calls takes a step, and causes the events of it. -/
theorem act_step {s : Session α} {n : Nat} {c : Call α} (h : s.calls[n]? = some c) (a : Action α) :
    CallSteps s (s.act a) n c := by
  have change := s.act_change a
  generalize s.act a = t at change
  cases change with
  | nothing => exact callSteps_stay h rfl
  | declared d => exact callSteps_stay h rfl
  | arrived ha =>
    have hn : n < s.calls.length := (List.getElem?_eq_some_iff.1 h).1
    refine callSteps_stay ?_ (eventsOf_record_of_ne _ ?_ _)
    · exact (List.getElem?_append_left hn).trans h
    · simpa using Nat.ne_of_gt hn
  | @moved _ m _ d d' events hm hs hf =>
    by_cases hn : m = n
    · subst hn
      obtain rfl : d = c := Option.some.inj (hm.symm.trans h)
      refine ⟨d', events, ?_, eventsOf_record_self _ _ _, hs⟩
      exact List.getElem?_set_self (List.getElem?_eq_some_iff.1 h).1
    · refine callSteps_stay ?_ (eventsOf_record_of_ne _ (by simpa using hn) _)
      exact (List.getElem?_set_ne hn).trans h
  | told => exact callSteps_stay h (eventsOf_record_of_ne _ (lessee_ne_call n) _)
  | leased => exact callSteps_stay h (eventsOf_record_of_ne _ (lessee_ne_call n) _)
  | unleased => exact callSteps_stay h (eventsOf_record_of_ne _ (lessee_ne_call n) _)

/-- A call that is not there is still not there after the action, and has no new events. -/
def StaysAbsent (s t : Session α) (n : Nat) : Prop :=
  t.calls[n]? = none ∧ t.eventsOf (.call n) = s.eventsOf (.call n)

/-- A call that is not there arrives as the next one. -/
def Appears (s t : Session α) (a : Action α) (n : Nat) : Prop :=
  n = s.calls.length ∧ ∃ c events, s.Arrives a c events ∧ t.calls[n]? = some c ∧
    t.eventsOf (.call n) = s.eventsOf (.call n) ++ events

/-- Whatever happens in a session, a call that is not there stays so or arrives as the next one. -/
theorem act_absent {s : Session α} {n : Nat} (h : s.calls[n]? = none) (a : Action α) :
    StaysAbsent s (s.act a) n ∨ Appears s (s.act a) a n := by
  have change := s.act_change a
  generalize s.act a = t at change
  cases change with
  | nothing => exact .inl ⟨h, rfl⟩
  | declared d => exact .inl ⟨h, rfl⟩
  | @arrived _ c events ha =>
    have hn : s.calls.length ≤ n := List.getElem?_eq_none_iff.1 h
    rcases Nat.eq_or_lt_of_le hn with rfl | hn
    · refine .inr ⟨rfl, c, events, ha, ?_, eventsOf_record_self _ _ _⟩
      exact List.getElem?_concat_length
    · refine .inl ⟨?_, eventsOf_record_of_ne _ (by simpa using Nat.ne_of_lt hn) _⟩
      exact List.getElem?_eq_none (by simp [add, record]; omega)
  | @moved _ m _ c c' events hm hs hf =>
    have hn : m ≠ n := by
      rintro rfl
      cases h.symm.trans hm
    refine .inl ⟨?_, eventsOf_record_of_ne _ (by simpa using hn) _⟩
    exact (List.getElem?_set_ne hn).trans h
  | told => exact .inl ⟨h, eventsOf_record_of_ne _ (lessee_ne_call n) _⟩
  | leased => exact .inl ⟨h, eventsOf_record_of_ne _ (lessee_ne_call n) _⟩
  | unleased => exact .inl ⟨h, eventsOf_record_of_ne _ (lessee_ne_call n) _⟩

/-- A call that is not there has no events. -/
theorem eventsOf_absent {s : Session α} (h : s.Reachable) {n : Nat} (hn : s.calls[n]? = none) :
    s.eventsOf (.call n) = [] := by
  induction h with
  | start => rfl
  | @act s a _ ih =>
    cases hs : s.calls[n]? with
    | some c =>
      obtain ⟨c', events, hc, -⟩ := act_step hs a
      cases hn.symm.trans hc
    | none =>
      obtain ⟨-, he⟩ | ⟨-, c, events, -, hc, -⟩ := act_absent hs a
      · exact he.trans (ih hs)
      · cases hn.symm.trans hc

/-- A new call is the next one, and its first events are all that it has caused. -/
theorem arrives_of_absent {s : Session α} (h : s.Reachable) {n : Nat} (hn : s.calls[n]? = none)
    {a : Action α} {c : Call α} (hc : (s.act a).calls[n]? = some c) :
    n = s.calls.length ∧ s.Arrives a c ((s.act a).eventsOf (.call n)) := by
  obtain ⟨ha, -⟩ | ⟨hl, c', events, ha, hc', he⟩ := act_absent hn a
  · cases ha.symm.trans hc
  · obtain rfl := Option.some.inj (hc'.symm.trans hc)
    rw [he, eventsOf_absent h hn]
    exact ⟨hl, ha⟩

/-- What holds of a call and its events, and is kept by every step, holds after every run. -/
theorem actAll_call {P : Call α → List (Event α) → Prop}
    (keep : ∀ {c c' events new}, P c events → c.Step c' new → P c' (events ++ new))
    {s : Session α} {n : Nat} {c : Call α} (h : s.calls[n]? = some c)
    (hp : P c (s.eventsOf (.call n))) (actions : List (Action α)) :
    ∃ c', (s.actAll actions).calls[n]? = some c' ∧
      P c' ((s.actAll actions).eventsOf (.call n)) := by
  induction actions generalizing s c with
  | nil => exact ⟨c, h, hp⟩
  | cons a rest ih =>
    obtain ⟨c', new, hc, he, hs⟩ := act_step h a
    exact ih hc (he ▸ keep hp hs)

end Session

end Courier
