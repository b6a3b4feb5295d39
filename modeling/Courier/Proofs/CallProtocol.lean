import Courier.Proofs.ChannelAccounts
import Mathlib.Logic.ExistsUnique

/-!
# The protocol of a call

What a call shows from its arrival to its end is one of six traces. `Job.Trace` has those of a call
that asks for a channel and `Invocation.Trace` all six, each with the reply that goes with it. The
task of a confirmed publish runs beside its call, so the return of the call may fall anywhere among
the events of the task. A call may stop short: it is still running, its caller gave it up, or it
died in its publish. It then shows a proper part of a trace, after which it only gives back its
channel.

The invariant is `Invocation.Course`, the traces as far as each state of a call has come. Waiting is
not part of a trace, and neither is anything that other calls do.
-/

namespace Courier

variable {α : Type}

/-- The envelope and the properties that the arguments of a call give. -/
structure Declaration.Resolves (d : Declaration) (args : Arguments) (e : Envelope)
    (properties : Properties) : Prop where
  envelope : d.envelope args = .ok e
  properties : e.assemble = .ok properties

/-- The failure with which a call ends before it asks for a channel. -/
inductive Declaration.Fails (d : Declaration) (args : Arguments) (failure : Failure) : Prop where
  | envelope (h : d.envelope args = .error failure)
  | properties {e : Envelope} (h : d.envelope args = .ok e) (hp : e.assemble = .error failure)

theorem Declaration.job_eq_ok {d : Declaration} {args : Arguments} {converter : Converter}
    {job : Job} : d.job args converter = .ok job ↔
      ∃ e properties, d.Resolves args e properties ∧
        job = e.job properties args d.returns converter := by
  unfold Declaration.job
  constructor
  · intro h
    cases he : d.envelope args with
    | error failure => simp [he, Bind.bind, Except.bind] at h
    | ok e =>
      cases hp : e.assemble with
      | error failure => simp [he, hp, Bind.bind, Except.bind] at h
      | ok properties =>
        simp only [he, hp, Bind.bind, Except.bind, pure, Except.pure, Except.ok.injEq] at h
        exact ⟨e, properties, ⟨he, hp⟩, h.symm⟩
  · rintro ⟨e, properties, ⟨he, hp⟩, rfl⟩
    simp only [he, hp, Bind.bind, Except.bind, pure, Except.pure]

theorem Declaration.job_eq_error {d : Declaration} {args : Arguments} {converter : Converter}
    {failure : Failure} : d.job args converter = .error failure ↔ d.Fails args failure := by
  unfold Declaration.job
  constructor
  · intro h
    cases he : d.envelope args with
    | error failure' =>
      simp only [he, Bind.bind, Except.bind, Except.error.injEq] at h
      exact .envelope (h ▸ he)
    | ok e =>
      cases hp : e.assemble with
      | error failure' =>
        simp only [he, hp, Bind.bind, Except.bind, Except.error.injEq] at h
        exact .properties he (h ▸ hp)
      | ok properties => simp [he, hp, Bind.bind, Except.bind, pure, Except.pure] at h
  · intro h
    cases h with
    | envelope he => simp only [he, Bind.bind, Except.bind]
    | properties he hp => simp only [he, hp, Bind.bind, Except.bind]

/-- The failure of a job whose body is refused. -/
def Job.refused (j : Job) (cause : Cause) : Failure :=
  .bodyConversion j.envelope.bodyArgument j.envelope.exchange j.envelope.routingKey cause

theorem Job.refused_of_message {j : Job} {failure : Failure} (h : j.message = .error failure) :
    ∃ cause, j.converter.convert j.content = .error cause ∧ failure = j.refused cause := by
  unfold Job.message at h
  cases hb : j.converter.convert j.content with
  | ok body => simp [hb] at h
  | error cause =>
    simp only [hb, Except.error.injEq] at h
    exact ⟨cause, rfl, h.symm⟩

/-- The ways through a call. -/
inductive Route where
  | forwarded
  /-- The envelope or the properties fail. -/
  | unresolved
  /-- There is no channel. -/
  | unavailable
  /-- The body is refused. -/
  | refused
  | published
  /-- The publish goes on in a task of its own. -/
  | confirmed
deriving DecidableEq

/-- What a job shows first when it gets its channel. -/
def Job.opening (j : Job) (k : ChannelKey) : List (Event α) :=
  [.acquired k, .converted j.content j.converter.reported]

/-- The complete traces of a job, each with the reply of its call. A call whose publish goes on in a
task of its own returns at any point of it: before the publish begins, while it goes on, or when it
has ended. -/
inductive Job.Trace (j : Job) : Route → Reply α → List (Event α) → Prop where
  | unavailable (cause : Cause) : j.Trace .unavailable (.failed (j.unavailable cause))
      [.unavailable cause, .returned (.failed (j.unavailable cause))]
  | refused {cause : Cause} (h : j.converter.convert j.content = .error cause) (k : ChannelKey) :
      j.Trace .refused (.failed (j.refused cause))
        (j.opening k ++ [.released k, .returned (.failed (j.refused cause))])
  | sent {m : Message} (hm : j.message = .ok m) (hr : j.returns = .nothing) (k : ChannelKey) :
      j.Trace .published .sent
        (j.opening k ++ [.began .publish k m, .attempted .publish k m .done, .released k,
          .returned .sent])
  | unsent {m : Message} (hm : j.message = .ok m) (hr : j.returns = .nothing) (k : ChannelKey)
      (cause : Cause) : j.Trace .published (.failed (m.unpublished cause))
        (j.opening k ++ [.began .publish k m, .attempted .publish k m (.failed cause), .released k,
          .returned (.failed (m.unpublished cause))])
  | confirmed {m : Message} (hm : j.message = .ok m) (hr : j.returns = .confirmation)
      (k : ChannelKey) (attempt : Attempt) {before after : List (Event α)}
      (task : before ++ after =
        [.began .confirm k m, .attempted .confirm k m attempt, .released k]) :
      j.Trace .confirmed .confirming (j.opening k ++ (before ++ .returned .confirming :: after))

/-- The complete traces of an invocation, under the declarations of its arrival. -/
inductive Invocation.Trace (i : Invocation) (declarations : Declarations) (converter : Converter) :
    Route → Reply α → List (Event α) → Prop where
  | forwarded (h : declarations.get? i.method = none) (answer : α) :
      i.Trace declarations converter .forwarded (.forwarded answer)
        [.forwarded i, .returned (.forwarded answer)]
  | unresolved {d : Declaration} {failure : Failure} (h : declarations.get? i.method = some d)
      (hf : d.Fails i.arguments failure) : i.Trace declarations converter .unresolved
        (.failed failure) [.returned (.failed failure)]
  | job {d : Declaration} {e : Envelope} {properties : Properties} {route : Route} {reply : Reply α}
      {events : List (Event α)} (h : declarations.get? i.method = some d)
      (hd : d.Resolves i.arguments e properties)
      (ht : (e.job properties i.arguments d.returns converter).Trace route reply events) :
      i.Trace declarations converter route reply events

/-- The route that a complete trace takes, by its first events. -/
def Route.of? : List (Event α) → Option Route
  | .forwarded _ :: _ => some .forwarded
  | [.returned _] => some .unresolved
  | .unavailable _ :: _ => some .unavailable
  | _ :: _ :: .released _ :: _ => some .refused
  | _ :: _ :: .began .publish _ _ :: _ => some .published
  | _ :: _ :: .began .confirm _ _ :: _ | _ :: _ :: .returned _ :: _ => some .confirmed
  | _ => none

theorem Job.Trace.route {j : Job} {route : Route} {reply : Reply α} {events : List (Event α)}
    (h : j.Trace route reply events) : Route.of? events = some route := by
  cases h with
  | @confirmed m hm hr k attempt before after task =>
    cases before with
    | nil => rfl
    | cons e before =>
      obtain ⟨rfl, -⟩ := List.cons.inj task
      rfl
  | _ => rfl

theorem Invocation.Trace.route {i : Invocation} {declarations : Declarations}
    {converter : Converter} {route : Route} {reply : Reply α} {events : List (Event α)}
    (h : i.Trace declarations converter route reply events) : Route.of? events = some route := by
  cases h with
  | job _ _ ht => exact ht.route
  | _ => rfl

/-- Whether an event is part of a trace: anything but a wait. -/
def Event.isShown : Event α → Bool
  | .held _ => false
  | _ => true

/-- What events show. -/
def shown (events : List (Event α)) : List (Event α) := events.filter Event.isShown

/-- What a call has shown so far. -/
def Session.traceOf (s : Session α) (n : Nat) : List (Event α) := shown (s.eventsOf (.call n))

/-- How a call stands: it goes on, it is over, it was given up, or it died. A call with a confirmed
publish goes on until it has returned and the publish has ended. -/
inductive Standing (α : Type) where
  | running
  | finished (reply : Reply α)
  | cancelled
  | crashed

/-- How a call stands. -/
def Call.standing : Call α → Standing α
  | .confirming ⟨_, _, .ended _⟩ (.returned _) => .finished .confirming
  | .forwarding _ | .acquiring _ | .publishing _ _ | .confirming _ _ => .running
  | .returned reply => .finished reply
  | .cancelled => .cancelled
  | .crashed => .crashed

/-- A proper part of a complete trace, from its start. -/
def Started (trace : Route → Reply α → List (Event α) → Prop) (part : List (Event α)) : Prop :=
  ∃ route reply rest, rest ≠ [] ∧ trace route reply (part ++ rest)

/-- What a call has shown agrees with its complete traces and with how it stands. A call that is
over shows exactly one of them. One that is given up gives back the channel that it has; one that
dies does so in its publish, and gives back the channel of it. -/
def Call.Follows (c : Call α) (trace : Route → Reply α → List (Event α) → Prop)
    (events : List (Event α)) : Prop :=
  match c.standing with
  | .finished reply => ∃! route, trace route reply events
  | .running => Started trace events
  | .cancelled => ∃ part, Started trace part ∧ given part = [] ∧
      events = part ++ (taken part).map .released
  | .crashed => ∃ part k m, Started trace (part ++ [.began .publish k m]) ∧
      events = part ++ [.began .publish k m, .attempted .publish k m .crashed, .released k]

/-- What the task of a confirmed publish has shown. -/
def Confirmation.events (c : Confirmation) : List (Event α) :=
  match c.progress with
  | .spawned => []
  | .begun => [.began .confirm c.channel c.message]
  | .ended attempt => [.began .confirm c.channel c.message,
      .attempted .confirm c.channel c.message attempt, .released c.channel]

/-- What the task of a confirmed publish has still to show, if the publish succeeds. -/
def Confirmation.remaining (c : Confirmation) : List (Event α) :=
  match c.progress with
  | .spawned => [.began .confirm c.channel c.message,
      .attempted .confirm c.channel c.message .done, .released c.channel]
  | .begun => [.attempted .confirm c.channel c.message .done, .released c.channel]
  | .ended _ => []

/-- What a call has shown since it set off a confirmed publish: the events of the task, and among
them that it returned, once it has. -/
inductive Confirmation.Shows (c : Confirmation) : Handle → List (Event α) → Prop where
  | due : c.Shows .due c.events
  | returned {before after : List (Event α)} (task : before ++ after = c.events) (kept : Bool) :
      c.Shows (.returned kept) (before ++ .returned .confirming :: after)

/-- What the task shows next comes last. -/
theorem Confirmation.Shows.grow {c c' : Confirmation} {handle : Handle}
    {events new : List (Event α)} (h : c.Shows handle events) (hn : c'.events = c.events ++ new) :
    c'.Shows handle (events ++ new) := by
  cases h with
  | due =>
    rw [← hn]
    exact .due
  | returned task kept =>
    rw [List.append_assoc, List.cons_append]
    refine .returned ?_ kept
    rw [← List.append_assoc, task, hn]

/-- The call returns. -/
theorem Confirmation.Shows.hand {c : Confirmation} {events : List (Event α)}
    (h : c.Shows .due events) : c.Shows (.returned true) (events ++ [.returned .confirming]) := by
  cases h
  exact .returned (List.append_nil _) true

/-- The caller lets go of its handle. -/
theorem Confirmation.Shows.detach {c : Confirmation} {kept : Bool} {events : List (Event α)}
    (h : c.Shows (.returned kept) events) : c.Shows (.returned false) events := by
  cases h with
  | returned task => exact .returned task false

/-- What is read off other events than the return is read off the events of the task. -/
theorem Confirmation.Shows.filterMap_eq {c : Confirmation} {handle : Handle}
    {events : List (Event α)} (h : c.Shows handle events) {β : Type} {f : Event α → Option β}
    (hf : f (.returned .confirming) = none) : events.filterMap f = c.events.filterMap f := by
  cases h with
  | due => rfl
  | returned task kept =>
    rw [List.filterMap_append, List.filterMap_cons_none hf, ← List.filterMap_append, task]

/-- The call returns its handle, and nothing else. -/
theorem Confirmation.Shows.returned_mem_iff {c : Confirmation} {handle : Handle}
    {events : List (Event α)} (h : c.Shows handle events) {reply : Reply α} :
    .returned reply ∈ events ↔ reply = .confirming ∧ handle ≠ .due := by
  have own : .returned reply ∉ (c.events : List (Event α)) := by
    obtain ⟨m, k, progress⟩ := c
    cases progress <;> simp [Confirmation.events]
  cases h with
  | due => simp [own]
  | returned task kept =>
    rw [← task, List.mem_append, not_or] at own
    simp [own]

/-- What a job has shown in each state of its call. -/
inductive Job.Course (j : Job) : Call α → List (Event α) → Prop where
  | acquiring : j.Course (.acquiring j) []
  | withdrawn : j.Course .cancelled []
  | publishing {m : Message} (hm : j.message = .ok m) (hr : j.returns = .nothing) (k : ChannelKey) :
      j.Course (.publishing m k) (j.opening k ++ [.began .publish k m])
  | abandoned {m : Message} (hm : j.message = .ok m) (hr : j.returns = .nothing) (k : ChannelKey) :
      j.Course .cancelled (j.opening k ++ [.began .publish k m, .released k])
  | crashed {m : Message} (hm : j.message = .ok m) (hr : j.returns = .nothing) (k : ChannelKey) :
      j.Course .crashed (j.opening k ++
        [.began .publish k m, .attempted .publish k m .crashed, .released k])
  | confirming {m : Message} (hm : j.message = .ok m) (hr : j.returns = .confirmation)
      (k : ChannelKey) {progress : Progress} {handle : Handle} {events : List (Event α)}
      (hs : Confirmation.Shows ⟨m, k, progress⟩ handle events) :
      j.Course (.confirming ⟨m, k, progress⟩ handle) (j.opening k ++ events)
  | returned {route : Route} {reply : Reply α} {events : List (Event α)}
      (h : j.Trace route reply events) : j.Course (.returned reply) events

/-- What an invocation has shown in each state of its call. -/
inductive Invocation.Course (i : Invocation) (declarations : Declarations) (converter : Converter) :
    Call α → List (Event α) → Prop where
  | forwarding (h : declarations.get? i.method = none) :
      i.Course declarations converter (.forwarding i) [.forwarded i]
  | forgotten (h : declarations.get? i.method = none) :
      i.Course declarations converter .cancelled [.forwarded i]
  | returned {route : Route} {reply : Reply α} {events : List (Event α)}
      (h : i.Trace declarations converter route reply events) :
      i.Course declarations converter (.returned reply) events
  | job {d : Declaration} {e : Envelope} {properties : Properties} {c : Call α}
      {events : List (Event α)} (h : declarations.get? i.method = some d)
      (hd : d.Resolves i.arguments e properties)
      (hc : (e.job properties i.arguments d.returns converter).Course c events) :
      i.Course declarations converter c events

/-- Each step of a call takes its job on along a trace. -/
theorem Job.Course.step {j : Job} {c c' : Call α} {events new : List (Event α)}
    (h : j.Course c events) (hs : c.Step c' new) : j.Course c' (events ++ shown new) := by
  cases h with
  | acquiring =>
    cases hs with
    | stay | held => exact .acquiring
    | unavailable job cause => exact .returned (.unavailable cause)
    | unconverted hm k =>
      obtain ⟨cause, hc, rfl⟩ := Job.refused_of_message hm
      exact .returned (.refused hc k)
    | publishing hm hr k => exact .publishing hm hr k
    | confirming hm hr k => exact .confirming hm hr k .due
    | withdrawn => exact .withdrawn
  | withdrawn => cases hs <;> exact .withdrawn
  | publishing hm hr k =>
    cases hs with
    | stay | held => exact .publishing hm hr k
    | sent => exact .returned (.sent hm hr k)
    | unsent m k cause => exact .returned (.unsent hm hr k cause)
    | crashed => exact .crashed hm hr k
    | abandoned => exact .abandoned hm hr k
  | abandoned hm hr k => cases hs <;> exact .abandoned hm hr k
  | crashed hm hr k => cases hs <;> exact .crashed hm hr k
  | @confirming m hm hr k _ _ _ shows =>
    rw [List.append_assoc]
    cases hs with
    | stay | held =>
      rw [show shown _ = [] from rfl, List.append_nil]
      exact .confirming hm hr k shows
    | handed => exact .confirming hm hr k shows.hand
    | begun => exact .confirming hm hr k (shows.grow rfl)
    | ended => exact .confirming hm hr k (shows.grow rfl)
    | endedReturning _ _ attempt =>
      cases shows
      have task : [.began .confirm k m, .attempted .confirm k m attempt] ++ [.released k] =
          Confirmation.events (α := α) ⟨m, k, .ended attempt⟩ := rfl
      exact .confirming hm hr k (.returned task true)
    | detached =>
      rw [show shown _ = [] from rfl, List.append_nil]
      exact .confirming hm hr k shows.detach
  | returned ht => cases hs <;> exact (List.append_nil _).symm ▸ .returned ht

/-- Each step of a call takes its invocation on along a trace. -/
theorem Invocation.Course.step {i : Invocation} {declarations : Declarations}
    {converter : Converter} {c c' : Call α} {events new : List (Event α)}
    (h : i.Course declarations converter c events) (hs : c.Step c' new) :
    i.Course declarations converter c' (events ++ shown new) := by
  cases h with
  | forwarding h =>
    cases hs with
    | stay | held => exact .forwarding h
    | proceeded i answer => exact .returned (.forwarded h answer)
    | forgotten => exact .forgotten h
  | forgotten h => cases hs <;> exact .forgotten h
  | returned ht => cases hs <;> exact (List.append_nil _).symm ▸ .returned ht
  | job h hd hc => exact .job h hd (hc.step hs)

/-- A call starts on one of its traces. -/
theorem Invocation.course_start (i : Invocation) (declarations : Declarations)
    (converter : Converter) : i.Course declarations converter
      (Call.start (α := α) declarations converter i).1
      (shown (Call.start declarations converter i).2) := by
  unfold Call.start
  cases h : declarations.get? i.method with
  | none => exact .forwarding h
  | some d =>
    simp only
    cases hj : d.job i.arguments converter with
    | error failure => exact .returned (.unresolved h (Declaration.job_eq_error.1 hj))
    | ok job =>
      obtain ⟨e, properties, hd, rfl⟩ := Declaration.job_eq_ok.1 hj
      exact .job h hd .acquiring

theorem Started.mono {trace trace' : Route → Reply α → List (Event α) → Prop}
    {part : List (Event α)} (h : Started trace part)
    (lift : ∀ {r reply events}, trace r reply events → trace' r reply events) :
    Started trace' part := by
  obtain ⟨route, reply, rest, hn, ht⟩ := h
  exact ⟨route, reply, rest, hn, lift ht⟩

theorem Job.started_nil (j : Job) : Started (α := α) j.Trace [] :=
  ⟨_, _, _, List.cons_ne_nil _ _, .unavailable .connectionClosed⟩

theorem Job.started_publish {j : Job} {m : Message} (hm : j.message = .ok m)
    (hr : j.returns = .nothing) (k : ChannelKey) :
    Started (α := α) j.Trace (j.opening k ++ [.began .publish k m]) :=
  ⟨.published, .sent, [.attempted .publish k m .done, .released k, .returned .sent],
    List.cons_ne_nil _ _, .sent hm hr k⟩

theorem Confirmation.events_append_remaining (c : Confirmation) : ∃ attempt,
    c.events ++ c.remaining = ([.began .confirm c.channel c.message,
      .attempted .confirm c.channel c.message attempt, .released c.channel] : List (Event α)) := by
  obtain ⟨m, k, progress⟩ := c
  cases progress with
  | spawned | begun => exact ⟨.done, rfl⟩
  | ended attempt => exact ⟨attempt, rfl⟩

/-- A call that has set off a confirmed publish is on its way as long as it has not returned or the
task has something to show. -/
theorem Job.started_confirming {j : Job} {c : Confirmation} {handle : Handle}
    {events : List (Event α)} (hm : j.message = .ok c.message) (hr : j.returns = .confirmation)
    (hs : c.Shows handle events)
    (unfinished : handle = .due ∨ c.remaining ≠ ([] : List (Event α))) :
    Started j.Trace (j.opening c.channel ++ events) := by
  obtain ⟨attempt, complete⟩ := c.events_append_remaining (α := α)
  cases hs with
  | due =>
    refine ⟨.confirmed, .confirming, .returned .confirming :: c.remaining, List.cons_ne_nil _ _, ?_⟩
    rw [List.append_assoc]
    exact .confirmed hm hr c.channel attempt complete
  | @returned before after task kept =>
    refine ⟨.confirmed, .confirming, c.remaining, unfinished.resolve_left nofun, ?_⟩
    rw [List.append_assoc, List.append_assoc, List.cons_append]
    refine .confirmed hm hr c.channel attempt ?_
    rw [← List.append_assoc, task, complete]

section Follows

variable (trace : Route → Reply α → List (Event α) → Prop)
  (route : ∀ {r reply events}, trace r reply events → Route.of? events = some r)

include route

theorem existsUnique_route {r : Route} {reply : Reply α} {events : List (Event α)}
    (h : trace r reply events) : ∃! r, trace r reply events :=
  ⟨r, h, fun _ h' => Option.some.inj ((route h').symm.trans (route h))⟩

/-- On the course of its job, a call shows what the traces of the job allow. -/
theorem Job.Course.follows {j : Job} {c : Call α} {events : List (Event α)} (h : j.Course c events)
    (lift : ∀ {r reply events}, j.Trace r reply events → trace r reply events) :
    c.Follows trace events := by
  cases h with
  | acquiring => exact j.started_nil.mono lift
  | withdrawn => exact ⟨[], j.started_nil.mono lift, rfl, rfl⟩
  | @publishing m hm hr k => exact (Job.started_publish hm hr k).mono lift
  | @abandoned m hm hr k =>
    exact ⟨j.opening k ++ [.began .publish k m], (Job.started_publish hm hr k).mono lift, rfl, rfl⟩
  | @crashed m hm hr k =>
    exact ⟨j.opening k, k, m, (Job.started_publish hm hr k).mono lift, rfl⟩
  | @confirming m hm hr k progress handle _ shows =>
    have started := Job.started_confirming (c := ⟨m, k, progress⟩) hm hr shows
    cases shows with
    | due => cases progress <;> exact (started (.inl rfl)).mono lift
    | returned task kept =>
      cases progress with
      | spawned | begun => exact (started (.inr (List.cons_ne_nil _ _))).mono lift
      | ended attempt =>
        exact existsUnique_route trace route (lift (.confirmed hm hr k attempt task))
  | returned ht => exact existsUnique_route trace route (lift ht)

end Follows

/-- On its course, a call shows what its traces allow. -/
theorem Invocation.Course.follows [Inhabited α] {i : Invocation} {declarations : Declarations}
    {converter : Converter} {c : Call α} {events : List (Event α)}
    (h : i.Course declarations converter c events) :
    c.Follows (i.Trace declarations converter) events := by
  have started (h : declarations.get? i.method = none) :
      Started (α := α) (i.Trace declarations converter) [.forwarded i] :=
    ⟨.forwarded, .forwarded default, [.returned (.forwarded default)], List.cons_ne_nil _ _,
      .forwarded h default⟩
  cases h with
  | forwarding h => exact started h
  | forgotten h => exact ⟨[.forwarded i], started h, rfl, rfl⟩
  | returned ht => exact existsUnique_route (i.Trace declarations converter) Trace.route ht
  | job h hd hc => exact hc.follows _ Trace.route (.job h hd)

namespace Session

/-- What a call has shown in each of its states, by the action that made it in a session. -/
inductive Course (s : Session α) : Action α → Call α → List (Event α) → Prop where
  | call {converter : Converter} {i : Invocation} {c : Call α} {events : List (Event α)}
      (h : i.Course s.declarations converter c events) : Course s (.call converter i) c events
  | dispatch {job : Job} {c : Call α} {events : List (Event α)} (h : job.Course c events) :
      Course s (.dispatch (.ok job)) c events
  | refused (failure : Failure) :
      Course s (.dispatch (.error failure)) (.returned (.failed failure)) []

theorem Arrives.course {s : Session α} {a : Action α} {c : Call α} {events : List (Event α)}
    (h : s.Arrives a c events) : s.Course a c (shown events) := by
  cases h with
  | call converter i => exact .call (i.course_start s.declarations converter)
  | dispatch job => exact .dispatch .acquiring
  | refused failure => exact .refused failure

theorem Course.step {s : Session α} {a : Action α} {c c' : Call α} {events new : List (Event α)}
    (h : s.Course a c events) (hs : c.Step c' new) : s.Course a c' (events ++ shown new) := by
  cases h with
  | call h => exact .call (h.step hs)
  | dispatch h => exact .dispatch (h.step hs)
  | refused failure => cases hs <;> exact .refused failure

/-- Whatever happens after its arrival, a call is on its course. -/
theorem course_actAll {s : Session α} (h : s.Reachable) {n : Nat} (hn : s.calls.length ≤ n)
    {a : Action α} {c : Call α} (hc : (s.act a).calls[n]? = some c) (after : List (Action α)) :
    ∃ c', ((s.act a).actAll after).calls[n]? = some c' ∧
      s.Course a c' (((s.act a).actAll after).traceOf n) := by
  have ha := (arrives_of_absent h (List.getElem?_eq_none hn) hc).2
  refine actAll_call (P := fun c events => s.Course a c (shown events)) (fun hp hs => ?_) hc
    ha.course after
  rw [shown, List.filter_append]
  exact hp.step hs

/-- Where a call is, and what it has shown. -/
structure At (s : Session α) (n : Nat) (c : Call α) (events : List (Event α)) : Prop where
  call : s.calls[n]? = some c
  trace : s.traceOf n = events

theorem At.step {s : Session α} {n : Nat} {c : Call α} {events : List (Event α)}
    (h : At s n c events) (f : Call α → Call α × List (Event α)) :
    At (s.step n f) n (f c).1 (events ++ shown (f c).2) := by
  have hn : n < s.calls.length := (List.getElem?_eq_some_iff.1 h.call).1
  rw [step_of_get h.call]
  refine ⟨List.getElem?_set_self hn, ?_⟩
  rw [traceOf, eventsOf_record_self, shown, List.filter_append]
  exact congrArg (· ++ shown (f c).2) h.trace

/-- A job that gets its channel gets the next one. -/
theorem At.acquire {s : Session α} {n : Nat} {j : Job} {events : List (Event α)}
    (h : At s n (.acquiring j) events) : At (s.act (.acquire n (.ok ()))) n
      (Call.withChannel j s.acquired).1 (events ++ shown (Call.withChannel j s.acquired).2) := by
  have hp : s.pending? n = some .acquire := by simp [pending?, h.call, Call.pending?]
  simp only [act, Session.answer, if_pos hp]
  exact At.step (s := { s with acquired := s.acquired + 1 }) ⟨h.call, h.trace⟩ _

theorem withChannel_of_refused {j : Job} {cause : Cause}
    (h : j.converter.convert j.content = .error cause) (k : ChannelKey) :
    Call.withChannel (α := α) j k = (.returned (.failed (j.refused cause)),
      j.opening k ++ [.released k, .returned (.failed (j.refused cause))]) := by
  simp only [Call.withChannel, Job.message, h]
  rfl

theorem withChannel_of_nothing {j : Job} {m : Message} (hm : j.message = .ok m)
    (hr : j.returns = .nothing) (k : ChannelKey) :
    Call.withChannel (α := α) j k = (.publishing m k, j.opening k ++ [.began .publish k m]) := by
  simp only [Call.withChannel, hm, hr]
  rfl

theorem withChannel_of_confirmation {j : Job} {m : Message} (hm : j.message = .ok m)
    (hr : j.returns = .confirmation) (k : ChannelKey) :
    Call.withChannel (α := α) j k = (.confirming ⟨m, k, .spawned⟩ .due, j.opening k) := by
  simp only [Call.withChannel, hm, hr]
  rfl

/-- The channel that a trace takes, where it is the next one. -/
theorem eq_of_taken {j : Job} {k next : ChannelKey} {rest : List (Event α)}
    (h : taken (j.opening k ++ rest) <+: [next]) : k = next := by
  have ht : taken (j.opening k ++ rest) = k :: taken rest := rfl
  rw [ht] at h
  exact (List.cons_prefix_cons.1 h).1

/-- Three events come before and after a point in four ways. -/
theorem split_three {before after : List (Event α)} {e₁ e₂ e₃ : Event α}
    (h : before ++ after = [e₁, e₂, e₃]) :
    before = [] ∧ after = [e₁, e₂, e₃] ∨ before = [e₁] ∧ after = [e₂, e₃] ∨
      before = [e₁, e₂] ∧ after = [e₃] ∨ before = [e₁, e₂, e₃] ∧ after = [] := by
  obtain _ | ⟨e, _ | ⟨e', _ | ⟨e'', before⟩⟩⟩ := before
  all_goals simp only [List.cons_append, List.nil_append, List.cons.injEq,
    List.append_eq_nil_iff] at h
  · exact .inl ⟨rfl, h⟩
  · obtain ⟨rfl, rfl⟩ := h
    exact .inr (.inl ⟨rfl, rfl⟩)
  · obtain ⟨rfl, rfl, rfl⟩ := h
    exact .inr (.inr (.inl ⟨rfl, rfl⟩))
  · obtain ⟨rfl, rfl, rfl, rfl, rfl⟩ := h
    exact .inr (.inr (.inr ⟨rfl, rfl⟩))

/-- Every complete trace of a job is one that it can show, if its channel is the next one. -/
theorem At.complete {s : Session α} {n : Nat} {j : Job} {route : Route} {reply : Reply α}
    {events : List (Event α)} (h : At s n (.acquiring j) []) (ht : j.Trace route reply events)
    (hk : taken events <+: [s.acquired]) :
    ∃ after c, At (s.actAll after) n c events ∧ c.standing = .finished reply := by
  cases ht with
  | unavailable cause =>
    exact ⟨[.acquire n (.error cause)], _, h.step (·.acquire (.error cause)), rfl⟩
  | refused hc k =>
    obtain rfl : k = s.acquired := eq_of_taken hk
    have got := h.acquire
    rw [withChannel_of_refused hc] at got
    exact ⟨[.acquire n (.ok ())], _, got, rfl⟩
  | sent hm hr k =>
    obtain rfl : k = s.acquired := eq_of_taken hk
    have got := h.acquire
    rw [withChannel_of_nothing hm hr] at got
    exact ⟨[.acquire n (.ok ()), .publish n .done], _, got.step (·.publish .done), rfl⟩
  | unsent hm hr k cause =>
    obtain rfl : k = s.acquired := eq_of_taken hk
    have got := h.acquire
    rw [withChannel_of_nothing hm hr] at got
    exact ⟨[.acquire n (.ok ()), .publish n (.failed cause)], _,
      got.step (·.publish (.failed cause)), rfl⟩
  | @confirmed m hm hr k attempt before after task =>
    obtain rfl : k = s.acquired := eq_of_taken hk
    have got := h.acquire
    rw [withChannel_of_confirmation hm hr] at got
    obtain ⟨rfl, rfl⟩ | ⟨rfl, rfl⟩ | ⟨rfl, rfl⟩ | ⟨rfl, rfl⟩ := split_three task
    · exact ⟨[.acquire n (.ok ()), .handOver n, .begin n, .confirm n attempt], _,
        ((got.step Call.handOver).step Call.begin).step (·.confirm attempt), rfl⟩
    · exact ⟨[.acquire n (.ok ()), .begin n, .handOver n, .confirm n attempt], _,
        ((got.step Call.begin).step Call.handOver).step (·.confirm attempt), rfl⟩
    · exact ⟨[.acquire n (.ok ()), .begin n, .confirmReturning n attempt], _,
        (got.step Call.begin).step (·.confirmReturning attempt), rfl⟩
    · exact ⟨[.acquire n (.ok ()), .begin n, .confirm n attempt, .handOver n], _,
        ((got.step Call.begin).step (·.confirm attempt)).step Call.handOver, rfl⟩

theorem at_arrival {s : Session α} (h : s.Reachable) {a : Action α} {c : Call α}
    {events : List (Event α)} (ha : s.act a = s.add (c, events)) :
    At (s.act a) s.calls.length c (shown events) := by
  rw [ha]
  refine ⟨List.getElem?_concat_length, ?_⟩
  have hn : s.calls[s.calls.length]? = none := List.getElem?_eq_none (Nat.le_refl _)
  rw [traceOf, add, eventsOf_record_self]
  exact congrArg (fun old => shown (old ++ events)) (eventsOf_absent h hn)

/-- Every complete trace of an invocation is one that its call can show, if its channel is the next
one. -/
theorem complete_call {s : Session α} (h : s.Reachable) {i : Invocation} {converter : Converter}
    {route : Route} {reply : Reply α} {events : List (Event α)}
    (ht : i.Trace s.declarations converter route reply events)
    (hk : taken events <+: [s.acquired]) : ∃ after c,
      At ((s.act (.call converter i)).actAll after) s.calls.length c events ∧
        c.standing = .finished reply := by
  have arrived : At (s.act (.call converter i)) s.calls.length
      (Call.start s.declarations converter i).1 (shown (Call.start s.declarations converter i).2) :=
    at_arrival h rfl
  cases ht with
  | forwarded hd answer =>
    simp only [Call.start, hd] at arrived
    exact ⟨[.proceed s.calls.length answer], _, arrived.step (·.proceed answer), rfl⟩
  | unresolved hd hf =>
    simp only [Call.start, hd, Declaration.job_eq_error.2 hf] at arrived
    exact ⟨[], _, arrived, rfl⟩
  | @job d e properties _ _ _ hd hr ht =>
    have hj : d.job i.arguments converter
        = .ok (e.job properties i.arguments d.returns converter) :=
      Declaration.job_eq_ok.2 ⟨e, properties, hr, rfl⟩
    simp only [Call.start, hd, hj] at arrived
    have next : taken events <+: [(s.act (.call converter i)).acquired] := hk
    exact arrived.complete ht next

theorem actAll_append_cons (s : Session α) (before : List (Action α)) (a : Action α)
    (after : List (Action α)) :
    s.actAll (before ++ a :: after) = ((s.actAll before).act a).actAll after := by
  simp [actAll]

/-- A call that arrives follows its protocol, whatever happens before and after: it shows the traces
of its invocation, or of its job, as far as it has come. Each of these traces can come about. -/
theorem calls_follow_protocol [Inhabited α] (before : List (Action α)) :
    let s := actAll {} before
    let n := s.calls.length
    (∀ converter i after, let t := actAll {} (before ++ .call converter i :: after)
      ∃ c, t.calls[n]? = some c ∧ c.Follows (i.Trace s.declarations converter) (t.traceOf n)) ∧
    (∀ job after, let t := actAll {} (before ++ .dispatch (.ok job) :: after)
      ∃ c, t.calls[n]? = some c ∧ c.Follows job.Trace (t.traceOf n)) ∧
    (∀ converter i route reply events, i.Trace s.declarations converter route reply events →
      taken events <+: [s.acquired] →
      ∃ after, let t := actAll {} (before ++ .call converter i :: after)
        ∃ c, t.calls[n]? = some c ∧ c.standing = .finished reply ∧ t.traceOf n = events) ∧
    ∀ (job : Job) route reply events, job.Trace route reply events →
      taken events <+: [s.acquired] →
      ∃ after, let t := actAll {} (before ++ .dispatch (.ok job) :: after)
        ∃ c, t.calls[n]? = some c ∧ c.standing = .finished reply ∧ t.traceOf n = events := by
  intro s n
  have hs : s.Reachable := reachable_actAll .start before
  refine ⟨?_, ?_, ?_, ?_⟩
  · intro converter i after
    have hc : (s.act (.call converter i)).calls[n]? = some _ := List.getElem?_concat_length
    obtain ⟨c, hc, course⟩ := course_actAll hs (Nat.le_refl n) hc after
    rw [actAll_append_cons]
    cases course with
    | call course => exact ⟨c, hc, course.follows⟩
  · intro job after
    have hc : (s.act (.dispatch (.ok job))).calls[n]? = some _ := List.getElem?_concat_length
    obtain ⟨c, hc, course⟩ := course_actAll hs (Nat.le_refl n) hc after
    rw [actAll_append_cons]
    cases course with
    | dispatch course => exact ⟨c, hc, course.follows _ Job.Trace.route id⟩
  · intro converter i route reply events ht hk
    obtain ⟨after, c, ⟨hc, ht⟩, ended⟩ := complete_call hs ht hk
    refine ⟨after, c, ?_, ended, ?_⟩
    · rw [actAll_append_cons]
      exact hc
    · rw [actAll_append_cons]
      exact ht
  · intro job route reply events ht hk
    have arrived : At (s.act (.dispatch (.ok job))) n (.acquiring job) (shown []) :=
      at_arrival hs rfl
    obtain ⟨after, c, ⟨hc, ht⟩, ended⟩ := arrived.complete ht hk
    refine ⟨after, c, ?_, ended, ?_⟩
    · rw [actAll_append_cons]
      exact hc
    · rw [actAll_append_cons]
      exact ht

/-- A call that is given up in its publish. -/
example : (actAll (α := Unit) {} [.dispatch (.ok (textJob "orders" "x" .nothing)), .hold 0,
    .acquire 0 (.ok ()), .cancel 0]).traceOf 0 = [.acquired 0, .converted (.string "x") false,
      .began .publish 0 ⟨"", "orders", ∅, "x".toUTF8⟩, .released 0] := rfl

end Session

end Courier
