import Courier.Proofs.CallProtocol
import Mathlib.Data.List.Induction

/-!
# What goes on the wire

`Declaration.Sends` is the message of one call, composed from its declaration and its own arguments
without any other call in sight. However calls are interleaved, a call hands a channel no other
message than this one, and hands it over once at most. The declaration is the one that stands when
the call arrives: the last one of its method among the actions before.
-/

namespace Courier

variable {α : Type}

/-- The message of one call of a declared method: the envelope and the properties of its arguments,
and its converted body argument, which is null where it was not given. -/
def Declaration.Sends (d : Declaration) (args : Arguments) (converter : Converter) (m : Message) :
    Prop :=
  ∃ e properties body, d.Resolves args e properties ∧
    converter.convert ((args.get? e.bodyArgument).getD .null) = .ok body ∧
    m = ⟨e.exchange, e.routingKey, properties, body⟩

theorem Job.message_eq_ok {j : Job} {m : Message} : j.message = .ok m ↔
    ∃ body, j.converter.convert j.content = .ok body ∧
      m = ⟨j.envelope.exchange, j.envelope.routingKey, j.properties, body⟩ := by
  unfold Job.message
  cases j.converter.convert j.content with
  | error cause => simp
  | ok body => simp [eq_comm]

theorem Declaration.Resolves.sends_iff {d : Declaration} {args : Arguments} {e : Envelope}
    {properties : Properties} (h : d.Resolves args e properties) {converter : Converter}
    {m : Message} : d.Sends args converter m ↔
      (e.job properties args d.returns converter).message = .ok m := by
  rw [Job.message_eq_ok]
  constructor
  · rintro ⟨e', properties', body, h', hb, rfl⟩
    obtain rfl := Except.ok.inj (h'.envelope.symm.trans h.envelope)
    obtain rfl := Except.ok.inj (h'.properties.symm.trans h.properties)
    exact ⟨body, hb, rfl⟩
  · rintro ⟨body, hb, rfl⟩
    exact ⟨e, properties, body, h, hb, rfl⟩

/-- A call has one message. -/
theorem Declaration.Sends.unique {d : Declaration} {args : Arguments} {converter : Converter}
    {m m' : Message} (h : d.Sends args converter m) (h' : d.Sends args converter m') : m' = m := by
  obtain ⟨e, properties, body, hd, -⟩ := id h
  exact Except.ok.inj ((hd.sends_iff.1 h').symm.trans (hd.sends_iff.1 h))

/-- What a call gives back to its caller has no part in its message. -/
theorem Declaration.sends_returns (d : Declaration) (returns : Returns) (args : Arguments)
    (converter : Converter) (m : Message) :
    { d with returns }.Sends args converter m ↔ d.Sends args converter m := by
  constructor
  · rintro ⟨e, properties, body, ⟨he, hp⟩, hb⟩
    exact ⟨e, properties, body, ⟨he, hp⟩, hb⟩
  · rintro ⟨e, properties, body, ⟨he, hp⟩, hb⟩
    exact ⟨e, properties, body, ⟨he, hp⟩, hb⟩

/-- The publish that an event begins. -/
def Event.begun? : Event α → Option (Operation × ChannelKey × Message)
  | .began operation k m => some (operation, k, m)
  | _ => none

/-- The publish that an event ends, and how. -/
def Event.ended? : Event α → Option (Operation × ChannelKey × Message × Attempt)
  | .attempted operation k m attempt => some (operation, k, m, attempt)
  | _ => none

/-- The publishes that events begin, in order. -/
def begun (events : List (Event α)) : List (Operation × ChannelKey × Message) :=
  events.filterMap Event.begun?

/-- The publishes that events end, in order. -/
def ended (events : List (Event α)) : List (Operation × ChannelKey × Message × Attempt) :=
  events.filterMap Event.ended?

theorem begun_append (events new : List (Event α)) :
    begun (events ++ new) = begun events ++ begun new :=
  List.filterMap_append

/-- What is read off events other than waits can be read off what they show. -/
theorem filterMap_shown {β : Type} {f : Event α → Option β}
    (hf : ∀ operation, f (.held operation) = none) (events : List (Event α)) :
    (shown events).filterMap f = events.filterMap f := by
  unfold shown
  rw [List.filterMap_filter]
  refine congrArg (List.filterMap · events) (funext fun e => ?_)
  cases e with
  | held operation => exact (hf operation).symm
  | _ => rfl

theorem begun_shown (events : List (Event α)) : begun (shown events) = begun events :=
  filterMap_shown (fun _ => rfl) events

theorem ended_shown (events : List (Event α)) : ended (shown events) = ended events :=
  filterMap_shown (fun _ => rfl) events

theorem returned_mem_shown {reply : Reply α} {events : List (Event α)} :
    .returned reply ∈ shown events ↔ .returned reply ∈ events := by
  simp [shown, Event.isShown]

/-- The publish of a job as far as it has come: there is one at most, of the job's own message. -/
inductive Job.Publishes (j : Job) (events : List (Event α)) : Prop where
  | nothing (hb : begun events = []) (he : ended events = [])
  | going {m : Message} (hm : j.message = .ok m) (k : ChannelKey)
      (hb : begun events = [(j.returns.operation, k, m)]) (he : ended events = [])
  | finished {m : Message} (hm : j.message = .ok m) (k : ChannelKey) (attempt : Attempt)
      (hb : begun events = [(j.returns.operation, k, m)])
      (he : ended events = [(j.returns.operation, k, m, attempt)])

theorem Job.Trace.publishes {j : Job} {route : Route} {reply : Reply α} {events : List (Event α)}
    (h : j.Trace route reply events) : j.Publishes events := by
  cases h with
  | unavailable | refused => exact .nothing rfl rfl
  | sent hm hr k => exact .finished hm k .done (by rw [hr]; rfl) (by rw [hr]; rfl)
  | unsent hm hr k cause => exact .finished hm k (.failed cause) (by rw [hr]; rfl) (by rw [hr]; rfl)
  | confirmed hm hr k attempt task =>
    have shows : Confirmation.Shows ⟨_, k, .ended attempt⟩ _ _ := .returned task true
    exact .finished hm k attempt (by rw [hr]; exact shows.filterMap_eq rfl)
      (by rw [hr]; exact shows.filterMap_eq rfl)

theorem Job.Course.publishes {j : Job} {c : Call α} {events : List (Event α)}
    (h : j.Course c events) : j.Publishes events := by
  cases h with
  | acquiring | withdrawn => exact .nothing rfl rfl
  | publishing hm hr k => exact .going hm k (by rw [hr]; rfl) rfl
  | abandoned hm hr k => exact .going hm k (by rw [hr]; rfl) rfl
  | crashed hm hr k => exact .finished hm k .crashed (by rw [hr]; rfl) (by rw [hr]; rfl)
  | @confirming m hm hr k progress handle events shows =>
    have hb : begun (j.opening k ++ events) = _ := shows.filterMap_eq rfl
    have he : ended (j.opening k ++ events) = _ := shows.filterMap_eq rfl
    cases progress with
    | spawned => exact .nothing hb he
    | begun => exact .going hm k (by rw [hr]; exact hb) he
    | ended attempt => exact .finished hm k attempt (by rw [hr]; exact hb) (by rw [hr]; exact he)
  | returned ht => exact ht.publishes

theorem Job.Publishes.length_begun {j : Job} {events : List (Event α)} (h : j.Publishes events) :
    (begun events).length ≤ 1 := by
  cases h with
  | nothing hb => simp [hb]
  | going hm k hb => simp [hb]
  | finished hm k attempt hb => simp [hb]

theorem Job.Publishes.eq_of_mem {j : Job} {events : List (Event α)} (h : j.Publishes events)
    {operation : Operation} {k : ChannelKey} {m : Message} (hk : (operation, k, m) ∈ begun events) :
    operation = j.returns.operation ∧ j.message = .ok m := by
  cases h with
  | nothing hb =>
    rw [hb] at hk
    cases hk
  | going hm k' hb =>
    rw [hb, List.mem_singleton] at hk
    cases hk
    exact ⟨rfl, hm⟩
  | finished hm k' attempt hb =>
    rw [hb, List.mem_singleton] at hk
    cases hk
    exact ⟨rfl, hm⟩

theorem Job.Publishes.mem_of_ended {j : Job} {events : List (Event α)} (h : j.Publishes events)
    {operation : Operation} {k : ChannelKey} {m : Message} {attempt : Attempt}
    (hk : (operation, k, m, attempt) ∈ ended events) : (operation, k, m) ∈ begun events := by
  cases h with
  | nothing _ he =>
    rw [he] at hk
    cases hk
  | going _ _ _ he =>
    rw [he] at hk
    cases hk
  | finished hm k' attempt' hb he =>
    rw [he, List.mem_singleton] at hk
    cases hk
    rw [hb]
    exact List.mem_cons_self

/-- A call that returns that it has sent has published once, and succeeded. -/
theorem Job.Course.begun_of_sent {j : Job} {c : Call α} {events : List (Event α)}
    (h : j.Course c events) (hs : .returned .sent ∈ events) :
    ∃ k m, begun events = [(.publish, k, m)] ∧ ended events = [(.publish, k, m, .done)] := by
  cases h with
  | confirming hm hr k shows => simp [Job.opening, shows.returned_mem_iff] at hs
  | returned ht =>
    cases ht with
    | @sent m hm hr k => exact ⟨k, m, rfl, rfl⟩
    | confirmed hm hr k attempt task =>
      have shows : Confirmation.Shows ⟨_, k, .ended attempt⟩ _ _ := .returned task true
      have returned := (List.mem_append.1 hs).resolve_left (by simp [Job.opening])
      cases (shows.returned_mem_iff.1 returned).1
    | _ => simp [Job.opening] at hs
  | _ => simp [Job.opening] at hs

/-- A call that returns a handle has begun its confirmed publish once its task has run, and no other
one. -/
theorem Job.Course.begun_of_confirming {j : Job} {c : Call α} {events : List (Event α)}
    (h : j.Course c events) (hs : .returned .confirming ∈ events) :
    ∃ k m, begun events <+: [(.confirm, k, m)] ∧
      begun (events ++ c.begin.2) = [(.confirm, k, m)] := by
  obtain ⟨k, m, hb⟩ : ∃ k m, begun (events ++ c.begin.2) = [(.confirm, k, m)] := by
    cases h with
    | @confirming m hm hr k progress handle events shows =>
      have hb : begun (j.opening k ++ events) = _ := shows.filterMap_eq rfl
      rw [begun_append, hb]
      cases progress <;> exact ⟨k, m, rfl⟩
    | returned ht =>
      cases ht with
      | @confirmed m hm hr k attempt before after task =>
        have shows : Confirmation.Shows ⟨m, k, .ended attempt⟩ _ _ := .returned task true
        have hb : begun (j.opening k ++ (before ++ .returned .confirming :: after)) = _ :=
          shows.filterMap_eq rfl
        rw [begun_append, hb]
        exact ⟨k, m, rfl⟩
      | _ => simp [Job.opening] at hs
    | _ => simp [Job.opening] at hs
  refine ⟨k, m, ?_, hb⟩
  rw [← hb, begun_append]
  exact List.prefix_append _ _

namespace Session

/-- The declaration of a method that stands after actions: the last one that they made. -/
def lastDeclared (actions : List (Action α)) (method : String) : Option Declaration :=
  actions.reverse.findSome? fun
    | .declare d => if d.method = method then some d else none
    | _ => none

/-- The action with which a call arrives, and the actions before it. -/
structure Origin (actions : List (Action α)) (n : Nat) (before : List (Action α))
    (a : Action α) : Prop where
  part : before ++ [a] <+: actions
  absent : (actAll {} before).calls.length ≤ n
  present : n < (actAll {} (before ++ [a])).calls.length

/-- The publish that an action asks for, computed from the action and the declarations before it. -/
inductive Reference (before : List (Action α)) : Action α → Operation → Message → Prop where
  | call {converter : Converter} {i : Invocation} {d : Declaration} {m : Message}
      (h : lastDeclared before i.method = some d) (hs : d.Sends i.arguments converter m) :
      Reference before (.call converter i) d.returns.operation m
  | dispatch {job : Job} {body : Body} (h : job.converter.convert job.content = .ok body) :
      Reference before (.dispatch (.ok job)) job.returns.operation
        ⟨job.envelope.exchange, job.envelope.routingKey, job.properties, body⟩

theorem actAll_concat (s : Session α) (actions : List (Action α)) (a : Action α) :
    s.actAll (actions ++ [a]) = (s.actAll actions).act a :=
  actAll_append_cons s actions a []

/-- Only a declaration changes what is declared. -/
theorem declarations_of_change {s t : Session α} {a : Action α} (h : s.Change a t)
    (ha : ∀ d, a ≠ .declare d) : t.declarations = s.declarations := by
  cases h with
  | declared d => exact absurd rfl (ha d)
  | _ => rfl

/-- What is declared of a method is what was declared last. -/
theorem get?_declarations (actions : List (Action α)) (method : String) :
    (actAll {} actions).declarations.get? method = lastDeclared actions method := by
  induction actions using List.reverseRecOn with
  | nil => rfl
  | append_singleton rest a ih =>
    rw [actAll_concat, lastDeclared, List.reverse_append, List.reverse_singleton,
      List.singleton_append, List.findSome?_cons]
    cases a with
    | declare d =>
      simp only [act, Declarations.declare, Table.get?_insert, ih, lastDeclared]
      split <;> rfl
    | _ =>
      rw [declarations_of_change (act_change _ _) fun d h => by cases h]
      exact ih

/-- A call that is there stays there. -/
theorem length_act (s : Session α) (a : Action α) : s.calls.length ≤ (s.act a).calls.length := by
  refine Nat.not_lt.1 fun h => ?_
  obtain ⟨c, hc⟩ : ∃ c, s.calls[(s.act a).calls.length]? = some c :=
    ⟨_, List.getElem?_eq_getElem h⟩
  obtain ⟨c', _, hc', -⟩ := act_step hc a
  rw [List.getElem?_eq_none (Nat.le_refl _)] at hc'
  cases hc'

theorem length_actAll (s : Session α) (actions : List (Action α)) :
    s.calls.length ≤ (s.actAll actions).calls.length := by
  induction actions generalizing s with
  | nil => exact Nat.le_refl _
  | cons a rest ih => exact Nat.le_trans (length_act s a) (ih (s.act a))

/-- A call arrives once. -/
theorem Origin.unique {actions before before' : List (Action α)} {n : Nat} {a a' : Action α}
    (h : Origin actions n before a) (h' : Origin actions n before' a') :
    before' = before ∧ a' = a := by
  have shorter {b b' : List (Action α)} {x x' : Action α} (h : Origin actions n b x)
      (h' : Origin actions n b' x') : ¬ b.length < b'.length := by
    intro hl
    have hp : b ++ [x] <+: b' := by
      refine List.prefix_of_prefix_length_le h.part ((List.prefix_append _ _).trans h'.part) ?_
      simpa using Nat.succ_le_of_lt hl
    obtain ⟨rest, rfl⟩ := hp
    have hn := h'.absent
    rw [actAll, List.foldl_append] at hn
    exact Nat.lt_irrefl n
      (Nat.lt_of_lt_of_le h.present (Nat.le_trans (length_actAll _ rest) hn))
  have hl : before'.length = before.length :=
    Nat.le_antisymm (Nat.not_lt.1 (shorter h h')) (Nat.not_lt.1 (shorter h' h))
  have he : before' ++ [a'] = before ++ [a] := by
    refine (List.prefix_of_prefix_length_le h'.part h.part ?_).eq_of_length ?_ <;> simp [hl]
  obtain ⟨hb, ha⟩ := List.append_inj he hl
  exact ⟨hb, by simpa using ha⟩

/-- Every call of a run arrived with one of its actions. -/
theorem exists_origin {actions : List (Action α)} {n : Nat}
    (h : n < (actAll {} actions).calls.length) : ∃ before a, Origin actions n before a := by
  induction actions using List.reverseRecOn with
  | nil => exact absurd h (Nat.not_lt_zero n)
  | append_singleton rest a ih =>
    by_cases hn : n < (actAll {} rest).calls.length
    · obtain ⟨before, a', ho⟩ := ih hn
      exact ⟨before, a', ho.part.trans (List.prefix_append _ _), ho.absent, ho.present⟩
    · exact ⟨rest, a, List.prefix_refl _, Nat.not_lt.1 hn, h⟩

/-- The job that an action makes in a session. -/
inductive Makes (s : Session α) : Action α → Job → Prop where
  | call {converter : Converter} {i : Invocation} {d : Declaration} {e : Envelope}
      {properties : Properties} (h : s.declarations.get? i.method = some d)
      (hd : d.Resolves i.arguments e properties) :
      Makes s (.call converter i) (e.job properties i.arguments d.returns converter)
  | dispatch (job : Job) : Makes s (.dispatch (.ok job)) job

/-- What an action asks for is the message of the job that it makes. -/
theorem reference_iff {before : List (Action α)} {a : Action α} {operation : Operation}
    {m : Message} : Reference before a operation m ↔
      ∃ j, (actAll {} before).Makes a j ∧ j.message = .ok m ∧ operation = j.returns.operation := by
  constructor
  · intro h
    cases h with
    | call h hs =>
      rw [← get?_declarations] at h
      obtain ⟨e, properties, body, hd, -⟩ := id hs
      exact ⟨_, .call h hd, hd.sends_iff.1 hs, rfl⟩
    | dispatch hb => exact ⟨_, .dispatch _, Job.message_eq_ok.2 ⟨_, hb, rfl⟩, rfl⟩
  · rintro ⟨j, made, hm, rfl⟩
    cases made with
    | call h hd =>
      rw [get?_declarations] at h
      exact .call h (hd.sends_iff.2 hm)
    | dispatch job =>
      obtain ⟨body, hb, rfl⟩ := Job.message_eq_ok.1 hm
      exact .dispatch hb

/-- A call without a job: it publishes nothing, and returns nothing that says so. -/
structure Quiet (events : List (Event α)) : Prop where
  begun : begun events = []
  ended : ended events = []
  sent : .returned .sent ∉ events
  confirming : .returned .confirming ∉ events

theorem Course.quiet_or_job {s : Session α} {a : Action α} {c : Call α} {events : List (Event α)}
    (h : s.Course a c events) : Quiet events ∨ ∃ j, s.Makes a j ∧ j.Course c events := by
  cases h with
  | dispatch h => exact .inr ⟨_, .dispatch _, h⟩
  | refused failure => exact .inl ⟨rfl, rfl, by simp, by simp⟩
  | call h =>
    cases h with
    | forwarding | forgotten => exact .inl ⟨rfl, rfl, by simp, by simp⟩
    | job h hd hc => exact .inr ⟨_, .call h hd, hc⟩
    | returned ht =>
      cases ht with
      | forwarded | unresolved => exact .inl ⟨rfl, rfl, by simp, by simp⟩
      | job h hd ht => exact .inr ⟨_, .call h hd, .returned ht⟩

theorem Origin.course {actions before : List (Action α)} {n : Nat} {a : Action α}
    (h : Origin actions n before a) : ∃ c, (actAll {} actions).calls[n]? = some c ∧
      (actAll {} before).Course a c ((actAll {} actions).traceOf n) := by
  obtain ⟨after, rfl⟩ := h.part
  obtain ⟨c, hc⟩ : ∃ c, (actAll {} (before ++ [a])).calls[n]? = some c :=
    ⟨_, List.getElem?_eq_getElem h.present⟩
  rw [actAll_concat] at hc
  rw [actAll, List.foldl_append, ← actAll, ← actAll, actAll_concat]
  exact course_actAll (reachable_actAll .start before) h.absent hc after

/-- What the task of a call does when it first runs is added to the events of the call. -/
theorem eventsOf_begin {s : Session α} {n : Nat} {c : Call α} (h : s.calls[n]? = some c) :
    (s.act (.begin n)).eventsOf (.call n) = s.eventsOf (.call n) ++ c.begin.2 := by
  show (s.step n Call.begin).eventsOf (.call n) = _
  rw [step_of_get h]
  exact eventsOf_record_self _ _ _

theorem Quiet.of_shown {events : List (Event α)} (h : Quiet (shown events)) : Quiet events where
  begun := by rw [← begun_shown, h.begun]
  ended := by rw [← ended_shown, h.ended]
  sent hs := h.sent (returned_mem_shown.2 hs)
  confirming hc := h.confirming (returned_mem_shown.2 hc)

/-- A number in a run is that of a call with a job, on its course, or nothing is published under it.
-/
theorem quiet_or_course (actions : List (Action α)) (n : Nat) :
    Quiet ((actAll {} actions).eventsOf (.call n)) ∨
      ∃ before a j c, Origin actions n before a ∧ (actAll {} before).Makes a j ∧
        (actAll {} actions).calls[n]? = some c ∧ j.Course c ((actAll {} actions).traceOf n) := by
  by_cases hn : n < (actAll {} actions).calls.length
  · obtain ⟨before, a, ho⟩ := exists_origin hn
    obtain ⟨c, hc, course⟩ := ho.course
    obtain hq | ⟨j, hj, course⟩ := course.quiet_or_job
    · exact .inl hq.of_shown
    · exact .inr ⟨before, a, j, c, ho, hj, hc, course⟩
  · rw [eventsOf_absent (reachable_actAll .start actions)
      (List.getElem?_eq_none (Nat.not_lt.1 hn))]
    exact .inl ⟨rfl, rfl, List.not_mem_nil, List.not_mem_nil⟩

theorem mem_begun_of_log {s : Session α} {owner : Owner} {operation : Operation} {k : ChannelKey}
    {m : Message} (h : (owner, .began operation k m) ∈ s.log) :
    (operation, k, m) ∈ begun (s.eventsOf owner) := by
  refine List.mem_filterMap.2 ⟨.began operation k m, ?_, rfl⟩
  exact List.mem_filterMap.2 ⟨_, h, if_pos rfl⟩

theorem mem_log_of_traceOf {s : Session α} {n : Nat} {e : Event α} (h : e ∈ s.traceOf n) :
    (.call n, e) ∈ s.log := by
  obtain ⟨he, -⟩ := List.mem_filter.1 h
  obtain ⟨⟨owner, e'⟩, hl, he⟩ := List.mem_filterMap.1 he
  split at he
  next ho =>
    cases he
    obtain rfl : owner = .call n := ho
    exact hl
  next => cases he

/-- Whatever a call hands to a channel is the message that its own action asks for. -/
theorem reference_of_began {actions : List (Action α)} {n : Nat} {operation : Operation}
    {k : ChannelKey} {m : Message} (h : (.call n, .began operation k m) ∈ (actAll {} actions).log) :
    ∃ before a, Origin actions n before a ∧ Reference before a operation m := by
  have hb := mem_begun_of_log h
  obtain quiet | ⟨before, a, j, c, origin, made, -, course⟩ := quiet_or_course actions n
  · rw [quiet.begun] at hb
    cases hb
  · rw [← begun_shown] at hb
    obtain ⟨rfl, hm⟩ := course.publishes.eq_of_mem hb
    exact ⟨before, a, origin, reference_iff.2 ⟨j, made, hm, rfl⟩⟩

/-- A job that an action makes waits for its channel. -/
theorem Makes.arrived {s : Session α} (h : s.Reachable) {a : Action α} {j : Job}
    (hj : s.Makes a j) : At (s.act a) s.calls.length (.acquiring j) (shown []) := by
  cases hj with
  | @call converter i d e properties hd hr =>
    have job : d.job i.arguments converter
        = .ok (e.job properties i.arguments d.returns converter) :=
      Declaration.job_eq_ok.2 ⟨e, properties, hr, rfl⟩
    refine at_arrival h ?_
    simp only [act, Call.start, hd, job]
  | dispatch job => exact at_arrival h rfl

/-- A job with a message begins its publish once it has its channel and its task has run. -/
theorem At.began {s : Session α} {n : Nat} {j : Job} {events : List (Event α)} {m : Message}
    (h : At s n (.acquiring j) events) (hm : j.message = .ok m) :
    .began j.returns.operation s.acquired m ∈
      ((s.act (.acquire n (.ok ()))).act (.begin n)).traceOf n := by
  have got := h.acquire
  cases hr : j.returns with
  | nothing =>
    rw [withChannel_of_nothing hm hr] at got
    have ran : At ((s.act (.acquire n (.ok ()))).act (.begin n)) n _ _ := got.step Call.begin
    rw [ran.trace]
    simp [shown, Event.isShown, Returns.operation]
  | confirmation =>
    rw [withChannel_of_confirmation hm hr] at got
    have ran : At ((s.act (.acquire n (.ok ()))).act (.begin n)) n _ _ := got.step Call.begin
    rw [ran.trace]
    simp [shown, Event.isShown, Returns.operation, Call.begin]

/-- The message that an action asks for goes out. -/
theorem began_of_reference {before : List (Action α)} {a : Action α} {operation : Operation}
    {m : Message} (h : Reference before a operation m) :
    ∃ after k, (.call (actAll {} before).calls.length, .began operation k m) ∈
      (actAll {} (before ++ a :: after)).log := by
  obtain ⟨j, made, hm, rfl⟩ := reference_iff.1 h
  generalize hn : (actAll {} before).calls.length = n
  have arrived : At ((actAll {} before).act a) n (.acquiring j) (shown []) :=
    hn ▸ made.arrived (reachable_actAll .start before)
  refine ⟨[.acquire n (.ok ()), .begin n], ((actAll {} before).act a).acquired, ?_⟩
  rw [actAll_append_cons]
  exact mem_log_of_traceOf (arrived.began hm)

/-- The messages of a run are the reference messages of its calls, and each of those can go out. A
call begins one publish at most. If it returns that it has sent, it has published once and
succeeded; if it returns a handle, it begins one confirmed publish, once its task has run, and no
other. What a method returns has no part in what it sends. -/
theorem messages_are_reference (actions : List (Action α)) :
    let s := actAll {} actions
    (∀ n operation k m, (.call n, .began operation k m) ∈ s.log →
      ∃ before a, Origin actions n before a ∧ Reference before a operation m ∧
        ∀ before' a', Origin actions n before' a' → before' = before ∧ a' = a) ∧
    (∀ a operation m, Reference actions a operation m → ∃ after k,
      (.call s.calls.length, .began operation k m) ∈ (actAll {} (actions ++ a :: after)).log) ∧
    (∀ n, let events := s.eventsOf (.call n)
      (begun events).length ≤ 1 ∧
      (∀ operation k m attempt, (operation, k, m, attempt) ∈ ended events →
        (operation, k, m) ∈ begun events) ∧
      (.returned .sent ∈ events → ∃ k m, begun events = [(.publish, k, m)] ∧
        ended events = [(.publish, k, m, .done)]) ∧
      (.returned .confirming ∈ events → ∃ k m, begun events <+: [(.confirm, k, m)] ∧
        begun ((s.act (.begin n)).eventsOf (.call n)) = [(.confirm, k, m)])) ∧
    ∀ (d : Declaration) returns args converter m, d.Sends args converter m →
      ∀ m', { d with returns }.Sends args converter m' ↔ m' = m := by
  intro s
  refine ⟨?_, ?_, ?_, ?_⟩
  · intro n operation k m h
    obtain ⟨before, a, origin, reference⟩ := reference_of_began h
    exact ⟨before, a, origin, reference, fun _ _ origin' => origin.unique origin'⟩
  · intro a operation m reference
    exact began_of_reference reference
  · intro n events
    obtain quiet | ⟨before, a, j, c, -, -, hc, course⟩ := quiet_or_course actions n
    · refine ⟨?_, ?_, fun hs => absurd hs quiet.sent, fun hs => absurd hs quiet.confirming⟩
      · rw [quiet.begun]
        exact Nat.zero_le 1
      · intro operation k m attempt he
        rw [quiet.ended] at he
        cases he
    · have hb : begun (s.traceOf n) = begun events := begun_shown events
      have he : ended (s.traceOf n) = ended events := ended_shown events
      rw [← hb, ← he, eventsOf_begin hc, begun_append, ← hb, ← begun_append]
      refine ⟨course.publishes.length_begun, ?_, ?_, ?_⟩
      · intro operation k m attempt he
        exact course.publishes.mem_of_ended he
      · intro hs
        exact course.begun_of_sent (returned_mem_shown.2 hs)
      · intro hs
        exact course.begun_of_confirming (returned_mem_shown.2 hs)
  · intro d returns args converter m hm m'
    rw [d.sends_returns]
    constructor
    · intro hm'
      exact hm.unique hm'
    · rintro rfl
      exact hm

end Session

end Courier
