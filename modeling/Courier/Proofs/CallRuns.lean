import Courier.Proofs.BrokerVerdicts

/-!
# A call that runs by itself

What `Traffic.call` makes of a call while no other request is under way: it gets a channel whenever
the reserve can give one, and then its message goes out (`call_publish`, `call_confirm`). A
confirmed call then `Awaits` its verdict, whatever the broker does, and its handle learns it
(`Awaits.learns`).
-/

namespace Courier

/-! ## What the broker receives -/

namespace Link

/-- The messages that the broker has received, in order. -/
def posts (l : Link) : List Message :=
  l.wire.filterMap fun
    | .onChannel _ _ e => e.message?
    | _ => none

/-- Who has sent what the broker has received, in order. -/
def senders (l : Link) : List Owner := l.deliveries.map (·.sender)

/-- Nothing is published: at most, deliveries get the verdicts that they lack. -/
structure Quiet (l l' : Link) : Prop where
  posts : l'.posts = l.posts
  stored : l'.stored = l.stored
  boundKeys : l'.boundKeys = l.boundKeys
  senders : l'.senders = l.senders
  verdict : ∀ owner verdict, l.verdictFor? owner = some (some verdict) →
    l'.verdictFor? owner = some (some verdict)

/-- One message is published. -/
structure Posts (l l' : Link) (sender : Owner) (m : Message) : Prop where
  posts : l'.posts = l.posts ++ [m]
  stored : l'.stored = l.stored ++ if m.routingKey ∈ l.boundKeys then [m] else []
  boundKeys : l'.boundKeys = l.boundKeys
  senders : l'.senders = l.senders ++ [sender]

/-- Messages are published, and those of bound routing keys are stored. -/
structure Gains (l l' : Link) (ms : List Message) : Prop where
  posts : l'.posts = l.posts ++ ms
  stored : l'.stored = l.stored ++ ms.filter fun m => m.routingKey ∈ l.boundKeys
  boundKeys : l'.boundKeys = l.boundKeys

variable {l l' l'' : Link} {k : ChannelKey} {sender owner : Owner} {m : Message}
  {ms ms' : List Message}

theorem Quiet.refl (l : Link) : l.Quiet l := ⟨rfl, rfl, rfl, rfl, fun _ _ h => h⟩

theorem Quiet.trans (h : l.Quiet l') (h' : l'.Quiet l'') : l.Quiet l'' where
  posts := h'.posts.trans h.posts
  stored := h'.stored.trans h.stored
  boundKeys := h'.boundKeys.trans h.boundKeys
  senders := h'.senders.trans h.senders
  verdict := fun owner verdict hv => h'.verdict owner verdict (h.verdict owner verdict hv)

theorem Quiet.posts_after (h : l.Quiet l') (h' : l'.Posts l'' sender m) :
    l.Posts l'' sender m where
  posts := h.posts ▸ h'.posts
  stored := by rw [h'.stored, h.stored, h.boundKeys]
  boundKeys := h'.boundKeys.trans h.boundKeys
  senders := h.senders ▸ h'.senders

theorem Posts.quiet_after (h : l.Posts l' sender m) (h' : l'.Quiet l'') :
    l.Posts l'' sender m where
  posts := h'.posts.trans h.posts
  stored := h'.stored.trans h.stored
  boundKeys := h'.boundKeys.trans h.boundKeys
  senders := h'.senders.trans h.senders

theorem Quiet.gains (h : l.Quiet l') : l.Gains l' [] where
  posts := h.posts.trans (List.append_nil _).symm
  stored := h.stored.trans (List.append_nil _).symm
  boundKeys := h.boundKeys

theorem Posts.gains (h : l.Posts l' sender m) : l.Gains l' [m] where
  posts := h.posts
  stored := by
    rw [h.stored, List.filter_singleton]
    congr 1
    by_cases hm : m.routingKey ∈ l.boundKeys <;> simp [hm]
  boundKeys := h.boundKeys

theorem Gains.trans (h : l.Gains l' ms) (h' : l'.Gains l'' ms') : l.Gains l'' (ms ++ ms') where
  posts := by rw [h'.posts, h.posts, List.append_assoc]
  stored := by rw [h'.stored, h.stored, h.boundKeys, List.filter_append, List.append_assoc]
  boundKeys := h'.boundKeys.trans h.boundKeys

/-- Everything is stored whose routing key is bound. -/
theorem Gains.stored_of_bound (h : l.Gains l' ms) (bound : ∀ m ∈ ms, m.routingKey ∈ l.boundKeys) :
    l'.stored = l.stored ++ ms := by
  rw [h.stored, List.filter_eq_self.2 fun m hm => decide_eq_true (bound m hm)]

theorem senders_send (l : Link) (k : ChannelKey) (e : ChannelEvent) :
    (l.send k e).senders = l.senders := rfl

theorem posts_send (l : Link) (k : ChannelKey) (e : ChannelEvent) :
    (l.send k e).posts = l.posts ++ e.message?.toList := by
  unfold posts send
  rw [List.filterMap_append]
  cases h : e.message? <;> simp [h]

theorem posts_closeChannel (l : Link) (k : ChannelKey) (text : String) :
    (l.closeChannel k text).posts = l.posts := by
  unfold closeChannel
  split
  · exact (posts_send l k _).trans (List.append_nil _)
  · rfl

theorem posts_disconnect (l : Link) : l.disconnect.posts = l.posts := by
  unfold disconnect
  split
  · show List.filterMap _ (l.wire ++ [_]) = _
    rw [List.filterMap_append]
    exact List.append_nil _
  · rfl

theorem posts_openChannel (h : l.openChannel = .ok (l', k)) : l'.posts = l.posts ∧
    l'.stored = l.stored ∧ l'.boundKeys = l.boundKeys := by
  unfold openChannel at h
  split at h
  · split at h
    · cases h
      exact ⟨(posts_send _ _ _).trans (List.append_nil _), rfl, rfl⟩
    · cases h
  · cases h

theorem posts_selectConfirms (h : l.selectConfirms k = .ok l') : l'.posts = l.posts ∧
    l'.stored = l.stored ∧ l'.boundKeys = l.boundKeys := by
  unfold selectConfirms at h
  split at h <;> cases h
  exact ⟨(posts_send _ _ _).trans (List.append_nil _), rfl, rfl⟩

/-- What goes on at a link without a publish is quiet. -/
theorem Passes.quiet {a : Traffic.Action Invocation} (h : l.Passes a l') : l.Quiet l' := by
  obtain ⟨f, deliveries, told⟩ := h.told
  have kept : l'.posts = l.posts ∧ l'.stored = l.stored ∧ l'.boundKeys = l.boundKeys := by
    cases h with
    | same => exact ⟨rfl, rfl, rfl⟩
    | opened h => exact posts_openChannel h
    | selected h => exact posts_selectConfirms h
    | closed k text =>
      refine ⟨posts_closeChannel l k text, ?_⟩
      unfold closeChannel
      split <;> exact ⟨rfl, rfl⟩
    | lost k =>
      unfold loseChannel
      split <;> exact ⟨rfl, rfl, rfl⟩
    | disconnected =>
      refine ⟨posts_disconnect l, ?_⟩
      unfold disconnect
      split <;> exact ⟨rfl, rfl⟩
    | mode => exact ⟨rfl, rfl, rfl⟩
    | answered => exact ⟨rfl, rfl, rfl⟩
  refine ⟨kept.1, kept.2.1, kept.2.2, ?_, fun owner verdict hv => ?_⟩
  · unfold senders
    rw [deliveries, List.map_map]
    exact List.map_congr_left fun d _ => (told d).sender
  · rw [verdictFor?_eq, sentBy_told deliveries told, List.head?_map, Option.map_map]
    rw [verdictFor?_eq, Option.map_eq_some_iff] at hv
    obtain ⟨d, hd, hv⟩ := hv
    rw [hd]
    exact congrArg some ((told d).verdict hv)

theorem posts_of_publish (h : l.publish k sender m = .ok l') : l.Posts l' sender m := by
  obtain ⟨c, published⟩ := exists_published h
  have senders : l'.senders = l.senders ++ [sender] := by
    unfold Link.senders
    rw [published.deliveries, List.map_append, List.map_singleton, posted_sender]
  have kept : l'.posts = l.posts ++ [m] ∧ l'.boundKeys = l.boundKeys ∧
      l'.stored = if m.routingKey ∈ l.boundKeys then l.stored ++ [m] else l.stored := by
    obtain ⟨found, connected, -⟩ := published
    unfold publish at h
    rw [found] at h
    simp only [connected, if_true] at h
    cases h
    rw [posts_send]
    cases c.confirming <;> exact ⟨rfl, rfl, rfl⟩
  refine ⟨kept.1, ?_, kept.2.1, senders⟩
  rw [kept.2.2]
  split
  · rfl
  · exact (List.append_nil _).symm

/-- An owner has a delivery if and only if it has sent something. -/
theorem verdictFor?_eq_none_iff : l.verdictFor? owner = none ↔ owner ∉ l.senders := by
  simp [verdictFor?, senders]

end Link

/-- A channel can be given at once, or be opened. -/
def ChannelReserve.Available (r : ChannelReserve) : Prop :=
  (∃ k ∈ r.idle, r.link.isConnected k = true) ∨ ∃ opened, r.link.openChannel = .ok opened

namespace ChannelReserve

variable {r s : ChannelReserve} {k : ChannelKey} {fault : LinkFault}

theorem link_of_openFor_error (h : r.openFor = (s, .error fault)) :
    s.link = r.link ∧ r.link.openChannel = .error fault := by
  cases ho : r.link.openChannel with
  | ok opened => simp [openFor, ho] at h
  | error fault' =>
    simp only [openFor, ho, Prod.mk.injEq, Except.error.injEq] at h
    obtain ⟨rfl, rfl⟩ := h
    exact ⟨rfl, rfl⟩

/-- A channel that has just been opened can be made ready. -/
theorem exists_prepare (h : r.link.isConnected k = true) : ∃ s, r.prepare k = (s, .ok ()) := by
  obtain ⟨l, hl⟩ := Link.exists_selectConfirms h
  simp only [prepare, hl]
  exact ⟨_, rfl⟩

theorem not_available (hr : r.request = (s, none)) (ho : r.link.openChannel = .error fault) :
    ¬ r.Available := by
  rintro (⟨k, hk, connected⟩ | ⟨opened, ho'⟩)
  · have waits := request_eq_none_iff.1 (congrArg Prod.snd hr) k hk
    rw [connected] at waits
    cases waits
  · cases ho.symm.trans ho'

end ChannelReserve

namespace Traffic

variable {t t' : Traffic Invocation} {n : Nat} {job : Job} {m : Message} {c : Call Invocation}

/-- A call has gone on to `c`, with no request under way. -/
structure GoesTo (t t' : Traffic Invocation) (n : Nat) (c : Call Invocation) : Prop where
  calls : t'.calls = t.calls.set n c
  requests : t'.requests = []
  declarations : t'.declarations = t.declarations
  converter : t'.converter = t.converter

theorem GoesTo.put (h : t.GoesTo t' n c) (l : Link) (c' : Call Invocation)
    (events : List (Event Invocation)) : t.GoesTo ((t'.withLink l).put n c' events) n c' where
  calls := by
    show t'.calls.set n c' = _
    rw [h.calls, List.set_set]
  requests := h.requests
  declarations := h.declarations
  converter := h.converter

theorem GoesTo.get (h : t.GoesTo t' n c) (hn : n < t.calls.length) : t'.calls[n]? = some c := by
  rw [h.calls, List.getElem?_set_self hn]

/-! ## How a request is served -/

/-- The traffic with another reserve and with other requests under way. -/
def withRequests (t : Traffic Invocation) (r : ChannelReserve)
    (requests : List (Owner × Option ChannelKey)) : Traffic Invocation :=
  { t with reserve := r, requests }

theorem goesTo_put (t : Traffic Invocation) (n : Nat) (r : ChannelReserve) (c : Call Invocation)
    (events : List (Event Invocation)) : t.GoesTo ((t.withRequests r []).put n c events) n c :=
  ⟨rfl, rfl, rfl, rfl⟩

section Requests

variable {r s : ChannelReserve} {k : ChannelKey} {owner : Owner} {fault : LinkFault}

theorem onRequest_of_idle (h : t.requests = []) (owner : Owner) (action : Nat → Action Invocation) :
    t.onRequest owner action = t := by
  simp [onRequest, requestIndex?, h]

theorem onRequest_head (answer : Option ChannelKey) (action : Nat → Action Invocation) :
    (t.withRequests r [(owner, answer)]).onRequest owner action =
      (t.withRequests r [(owner, answer)]).act (action 0) := by
  simp [onRequest, requestIndex?, withRequests]

theorem openFor_unopened (ho : r.openFor = (s, .error fault)) :
    (t.withRequests r [(owner, none)]).act (.openFor 0) =
      (t.withRequests s []).refuse owner fault := by
  simp [act, openFor, withRequests, ho]

theorem openFor_opened (ho : r.openFor = (s, .ok k)) :
    (t.withRequests r [(owner, none)]).act (.openFor 0) =
      if s.settings.confirms then t.withRequests s [(owner, some k)]
      else (t.withRequests s []).grant owner k := by
  simp [act, openFor, withRequests, ho]

theorem prepare_ready (hr : r.prepare k = (s, .ok ())) :
    (t.withRequests r [(owner, some k)]).act (.prepare 0) =
      (t.withRequests s []).grant owner k := by
  simp [act, prepare, withRequests, hr]

end Requests

/-- How the request of a call is answered when no other is under way. -/
inductive Supply (t : Traffic Invocation) (n : Nat) (job : Job)
    (t' : Traffic Invocation) : Prop where
  | granted {k : ChannelKey} (goes : t.GoesTo t' n (Call.withChannel job k).1)
      (hl : t.link.Quiet t'.link) (connected : t'.link.isConnected k = true)
  | refused (fault : LinkFault)
      (goes : t.GoesTo t' n (.returned (.failed (job.unavailable (.link fault)))))
      (hl : t.link.Quiet t'.link) (unavailable : ¬ t.reserve.Available)

theorem Supply.requests (h : Supply t n job t') : t'.requests = [] := by
  cases h with
  | granted goes => exact goes.requests
  | refused fault goes => exact goes.requests

/-- A channel of the reserve is handed to the call that asks for it. -/
theorem supply_grant {r : ChannelReserve} {k : ChannelKey}
    (hc : t.calls[n]? = some (.acquiring job)) (hl : t.link.Quiet r.link)
    (connected : r.link.isConnected k = true) :
    Supply t n job ((t.withRequests r []).grant (.call n) k) := by
  rw [grant, step_of_get (t := t.withRequests r []) hc]
  refine .granted (goesTo_put t n r _ _) ?_ ?_
  · rw [put, link_record]
    exact hl
  · rw [put, link_record]
    exact connected

/-- The call that asks for a channel is told that there is none. -/
theorem supply_refuse {r : ChannelReserve} (fault : LinkFault)
    (hc : t.calls[n]? = some (.acquiring job)) (hl : r.link = t.link)
    (unavailable : ¬ t.reserve.Available) :
    Supply t n job ((t.withRequests r []).refuse (.call n) fault) := by
  rw [refuse, step_of_get (t := t.withRequests r []) hc]
  refine .refused fault (goesTo_put t n r _ _) ?_ unavailable
  rw [put, link_record]
  exact hl ▸ .refl _

/-- A channel is opened for the only request and made ready, or cannot be opened. -/
theorem supply_opened {r : ChannelReserve} (hc : t.calls[n]? = some (.acquiring job))
    (hr : t.reserve.request = (r, none)) :
    Supply t n job ((t.withRequests r [(.call n, none)]).serve (.call n)) := by
  have same : r.link = t.link := ChannelReserve.link_of_request hr
  rw [serve, onRequest_head]
  cases ho : r.openFor with
  | mk s answer =>
    cases answer with
    | error fault =>
      obtain ⟨hl, failed⟩ := ChannelReserve.link_of_openFor_error ho
      have refused := supply_refuse fault hc (hl.trans same)
        (ChannelReserve.not_available hr (same ▸ failed))
      rw [openFor_unopened ho, onRequest_of_idle refused.requests]
      exact refused
    | ok k =>
      have opened := ChannelReserve.openChannel_of_openFor ho
      have quiet : t.link.Quiet s.link :=
        same ▸ (Link.Passes.opened (a := .openFor 0) opened).quiet
      have connected : s.link.isConnected k = true := by
        simp [(Link.opened_of_openChannel opened k).1]
      rw [openFor_opened ho]
      split
      · obtain ⟨u, hu⟩ := ChannelReserve.exists_prepare connected
        have selected := ChannelReserve.selectConfirms_of_prepare hu
        rw [onRequest_head, prepare_ready hu]
        refine supply_grant hc ?_ ?_
        · exact quiet.trans (Link.Passes.selected (a := .prepare 0) selected).quiet
        · rw [(Link.selectConfirms_eq_ok selected k).2.1, connected]
      · have granted := supply_grant hc quiet connected
        rw [onRequest_of_idle granted.requests]
        exact granted

/-- A call that asks for a channel gets one, if the reserve can give one. -/
theorem supply (hc : t.calls[n]? = some (.acquiring job)) (idle : t.requests = []) :
    Supply t n job ((t.act (.request n)).serve (.call n)) := by
  have asks : t.act (.request n) = t.ask (.call n) := by
    have pending : t.pending? n = some .acquire := by
      rw [pending?, hc]
      rfl
    exact if_pos ⟨pending, by simp [isAsking, idle]⟩
  rw [asks, ask]
  cases hr : t.reserve.request with
  | mk r answer =>
    cases answer with
    | none =>
      simp only [idle, List.nil_append]
      exact supply_opened hc hr
    | some k =>
      obtain ⟨connected, -⟩ := ChannelReserve.isConnected_of_request (congrArg Prod.snd hr)
      have link : r.link = t.link := ChannelReserve.link_of_request hr
      have granted : Supply t n job ((t.withRequests r []).grant (.call n) k) :=
        supply_grant hc (link ▸ .refl _) ((congrArg (·.isConnected k) link).trans connected)
      simp only [idle]
      show Supply t n job (((t.withRequests r []).grant (.call n) k).serve (.call n))
      rw [serve, onRequest_of_idle granted.requests, onRequest_of_idle granted.requests]
      exact granted

/-! ## How a call's publish ends -/

/-- The traffic has one call more, which has come as far as `c`; no request is under way. -/
structure Adds (t t' : Traffic Invocation) (c : Call Invocation) : Prop where
  calls : t'.calls = t.calls ++ [c]
  requests : t'.requests = []
  declarations : t'.declarations = t.declarations
  converter : t'.converter = t.converter

/-- A call of which the reserve could not serve the request. -/
def Refuses (t t' : Traffic Invocation) (job : Job) : Prop :=
  ¬ t.reserve.Available ∧ t.link.Quiet t'.link ∧
    ∃ fault, t.Adds t' (.returned (.failed (job.unavailable (.link fault))))

/-- A confirmed publish under way, or ended by the verdict on what the call has sent. -/
inductive Awaits (t : Traffic Invocation) (n : Nat) (m : Message) : Prop where
  | begun {k : ChannelKey} (hc : t.calls[n]? = some (.confirming ⟨m, k, .begun⟩ (.returned true)))
      (sent : .call n ∈ t.link.senders)
  | ended {k : ChannelKey} {verdict : Verdict} (number : Nat)
      (hc : t.calls[n]? =
        some (.confirming ⟨m, k, .ended (verdict.attempt number)⟩ (.returned true)))
      (known : t.link.verdictFor? (.call n) = some (some verdict))

theorem GoesTo.adds {c' : Call Invocation}
    (h : GoesTo { t with calls := t.calls ++ [c] } t' t.calls.length c') : t.Adds t' c' where
  calls := by simp [h.calls]
  requests := h.requests
  declarations := h.declarations
  converter := h.converter

theorem Adds.get (h : t.Adds t' c) : t'.calls[t.calls.length]? = some c := by
  rw [h.calls, List.getElem?_concat_length]

theorem advance_eq (t : Traffic Invocation) (n : Nat) : t.advance n =
    ((((((t.forward n).act (.request n)).serve (.call n)).publish n).step n Call.handOver).send
      n).settle n := rfl

/-- A call of a declared method asks for its channel, and then publishes. -/
theorem call_eq {i : Invocation} {d : Declaration} (hd : t.declarations.get? i.method = some d)
    (hj : d.job i.arguments t.converter = .ok job) (idle : t.requests = []) :
    ∃ s, Supply { t with calls := t.calls ++ [.acquiring job] } t.calls.length job s ∧
      t.call i = (((s.publish t.calls.length).step t.calls.length Call.handOver).send
        t.calls.length).settle t.calls.length := by
  have arrived : t.act (.call i) = { t with calls := t.calls ++ [.acquiring job] } := by
    have started : Call.start (α := Invocation) t.declarations t.converter i =
        (.acquiring job, []) := by
      simp only [Call.start, hd, hj]
    simp [act, started, record]
  have hc : (t.calls ++ [.acquiring job])[t.calls.length]? = some (.acquiring job) :=
    List.getElem?_concat_length
  refine ⟨_, supply (t := { t with calls := t.calls ++ [.acquiring job] }) hc idle, ?_⟩
  have unforwarded : ({ t with calls := t.calls ++ [.acquiring job] } : Traffic Invocation).forward
      t.calls.length = { t with calls := t.calls ++ [.acquiring job] } := by
    simp only [forward, hc]
  rw [call, advance_eq, arrived, unforwarded]

/-- A call that has returned goes no further. -/
theorem settle_of_returned {reply : Reply Invocation} (hc : t.calls[n]? = some (.returned reply)) :
    ((t.step n Call.handOver).send n).settle n = t := by
  have handed : t.step n Call.handOver = t := (step_of_get hc _).trans (put_self hc)
  have sent : t.send n = t := by simp only [send, hc]
  rw [handed, sent]
  exact settle_idle hc (by simp)

/-- What a verdict makes of a confirmed publish. -/
theorem settle_begun {k : ChannelKey} {handle : Handle}
    (hc : t.calls[n]? = some (.confirming ⟨m, k, .begun⟩ handle)) {verdict : Verdict}
    (hv : t.link.verdictFor? (.call n) = some (some verdict)) :
    t.settle n = t.put n (.confirming ⟨m, k, .ended (verdict.attempt (t.link.number k))⟩ handle)
      [.attempted .confirm k m (verdict.attempt (t.link.number k)), .released k] := by
  simp only [settle, hc, hv]
  exact step_of_get hc _

/-- Without a verdict nothing is settled. -/
theorem settle_unknown (hv : ∀ verdict, t.link.verdictFor? (.call n) ≠ some (some verdict)) :
    t.settle n = t := by
  unfold settle
  split
  next hv' => exact absurd hv' (hv _)
  next => rfl

/-- Settling a call does nothing, or ends its confirmed publish. -/
theorem put_settle (t : Traffic Invocation) (n : Nat) : t.settle n = t ∨
    ∃ m k attempt handle events, n < t.calls.length ∧
      t.settle n = t.put n (.confirming ⟨m, k, .ended attempt⟩ handle) events := by
  unfold settle
  split
  next hc _ =>
    exact .inr ⟨_, _, _, _, _, (List.getElem?_eq_some_iff.1 hc).1, step_of_get hc _⟩
  next => exact .inl rfl

theorem settle_settle (t : Traffic Invocation) (n : Nat) : (t.settle n).settle n = t.settle n := by
  obtain same | ⟨m, k, attempt, handle, events, hn, put⟩ := put_settle t n
  · rw [same, same]
  · have ended : (t.settle n).calls[n]? = some (.confirming ⟨m, k, .ended attempt⟩ handle) := by
      rw [put]
      exact List.getElem?_set_self hn
    exact settle_idle ended (by simp)

theorem call_settle (t : Traffic Invocation) (i : Invocation) :
    (t.call i).settle t.calls.length = t.call i := by
  rw [call, advance_eq, settle_settle]

@[simp] theorem link_settle (t : Traffic Invocation) (n : Nat) : (t.settle n).link = t.link := by
  obtain same | ⟨m, k, attempt, handle, events, -, put⟩ := put_settle t n
  · rw [same]
  · rw [put]
    exact link_record _ _ _

/-- Settling one call does nothing to another. -/
theorem calls_settle (t : Traffic Invocation) {j : Nat} (hj : j ≠ n) :
    (t.settle j).calls[n]? = t.calls[n]? := by
  obtain same | ⟨m, k, attempt, handle, events, -, put⟩ := put_settle t j
  · rw [same]
  · rw [put]
    exact List.getElem?_set_ne hj

theorem GoesTo.settle (h : t.GoesTo t' n c) : ∃ c', t.GoesTo (t'.settle n) n c' := by
  obtain same | ⟨m, k, attempt, handle, events, -, put⟩ := put_settle t' n
  · rw [same]
    exact ⟨c, h⟩
  · rw [put]
    exact ⟨_, h.put t'.link _ events⟩

/-- A call that waits for its verdict learns of it, or goes on waiting. -/
theorem Awaits.settle (h : t.Awaits n m) : (t.settle n).Awaits n m := by
  cases h with
  | ended number hc known =>
    have same : t.settle n = t := settle_idle hc (by simp)
    rw [same]
    exact .ended number hc known
  | @begun k hc sent =>
    by_cases hv : ∃ verdict, t.link.verdictFor? (.call n) = some (some verdict)
    · obtain ⟨verdict, hv⟩ := hv
      have ended : (t.settle n).calls[n]? = some (.confirming ⟨m, k, .ended
          (verdict.attempt (t.link.number k))⟩ (.returned true)) := by
        rw [settle_begun hc hv]
        exact List.getElem?_set_self (List.getElem?_eq_some_iff.1 hc).1
      exact .ended _ ended ((link_settle t n).symm ▸ hv)
    · rw [settle_unknown fun verdict hv' => hv ⟨verdict, hv'⟩]
      exact .begun hc sent

/-- A call that could not be served goes no further. -/
theorem GoesTo.refuses {s : Traffic Invocation} {fault : LinkFault}
    (h : GoesTo { t with calls := t.calls ++ [c] } s t.calls.length
      (.returned (.failed (job.unavailable (.link fault)))))
    (hl : t.link.Quiet s.link) (unavailable : ¬ t.reserve.Available) :
    t.Refuses ((((s.publish t.calls.length).step t.calls.length Call.handOver).send
      t.calls.length).settle t.calls.length) job := by
  have published : s.publish t.calls.length = s := by simp only [publish, h.adds.get]
  rw [published, settle_of_returned h.adds.get]
  exact ⟨unavailable, hl, fault, h.adds⟩

variable {i : Invocation} {d : Declaration}

/-- A call that does not wait returns once its message is out. -/
theorem call_publish (hd : t.declarations.get? i.method = some d)
    (hj : d.job i.arguments t.converter = .ok job) (idle : t.requests = [])
    (hm : job.message = .ok m) (hr : job.returns = .nothing) : t.Refuses (t.call i) job ∨
      t.link.Posts (t.call i).link (.call t.calls.length) m ∧
        t.Adds (t.call i) (.returned .sent) := by
  obtain ⟨s, supply, eq⟩ := call_eq hd hj idle
  have last : t.calls.length < (t.calls ++ [Call.acquiring job]).length := by simp
  rw [eq]
  cases supply with
  | refused fault goes hl unavailable =>
    exact .inl (goes.refuses hl unavailable)
  | @granted k goes hl connected =>
    have publishing : s.calls[t.calls.length]? = some (.publishing m k) := by
      rw [goes.get last]
      simp only [Call.withChannel, hm, hr]
    obtain ⟨l, hp⟩ := Link.exists_publish connected (.call t.calls.length) m
    have published : s.publish t.calls.length = (s.withLink l).put t.calls.length (.returned .sent)
        [.attempted .publish k m .done, .released k, .returned .sent] := by
      simp only [publish, publishing, hp]
      exact step_of_get (t := s.withLink l) publishing _
    have returned := goes.put l (.returned .sent)
      [.attempted .publish k m .done, .released k, .returned .sent]
    rw [published, settle_of_returned (returned.get last)]
    refine .inr ⟨?_, returned.adds⟩
    rw [put, link_record]
    exact hl.posts_after (Link.posts_of_publish hp)

/-- A call that waits returns a handle once its message is out. -/
theorem call_confirm (hd : t.declarations.get? i.method = some d)
    (hj : d.job i.arguments t.converter = .ok job) (idle : t.requests = [])
    (hm : job.message = .ok m) (hr : job.returns = .confirmation) : t.Refuses (t.call i) job ∨
      t.link.Posts (t.call i).link (.call t.calls.length) m ∧
        ∃ c, t.Adds (t.call i) c ∧ (t.call i).Awaits t.calls.length m := by
  obtain ⟨s, supply, eq⟩ := call_eq hd hj idle
  have last : t.calls.length < (t.calls ++ [Call.acquiring job]).length := by simp
  rw [eq]
  cases supply with
  | refused fault goes hl unavailable =>
    exact .inl (goes.refuses hl unavailable)
  | @granted k goes hl connected =>
    have due : s.calls[t.calls.length]? = some (.confirming ⟨m, k, .spawned⟩ .due) := by
      rw [goes.get last]
      simp only [Call.withChannel, hm, hr]
    have unpublished : s.publish t.calls.length = s := by simp only [publish, due]
    have returned : GoesTo { t with calls := t.calls ++ [.acquiring job] } (s.put t.calls.length
        (.confirming ⟨m, k, .spawned⟩ (.returned true)) [.returned .confirming]) t.calls.length _ :=
      goes.put s.link _ _
    have handed : s.step t.calls.length Call.handOver = s.put t.calls.length
        (.confirming ⟨m, k, .spawned⟩ (.returned true)) [.returned .confirming] :=
      step_of_get due _
    have same : (s.put t.calls.length (.confirming ⟨m, k, .spawned⟩ (.returned true))
        [.returned .confirming]).link = s.link := link_record _ _ _
    rw [unpublished, handed]
    generalize s.put t.calls.length _ [.returned .confirming] = u at same returned
    have spawned := returned.get last
    obtain ⟨l, hp⟩ := Link.exists_publish (same ▸ connected) (.call t.calls.length) m
    have sent : u.send t.calls.length = (u.withLink l).put t.calls.length
        (.confirming ⟨m, k, .begun⟩ (.returned true)) [.began .confirm k m] := by
      simp only [send, spawned, hp]
      exact step_of_get (t := u.withLink l) spawned _
    have begun := returned.put l (.confirming ⟨m, k, .begun⟩ (.returned true)) [.began .confirm k m]
    have posts := (same ▸ hl).posts_after (Link.posts_of_publish hp)
    have link : ((u.withLink l).put t.calls.length
        (.confirming ⟨m, k, .begun⟩ (.returned true)) [.began .confirm k m]).link = l :=
      link_record _ _ _
    obtain ⟨c, settled⟩ := begun.settle
    rw [sent, link_settle, link]
    refine .inr ⟨posts, c, settled.adds, .settle (.begun (begun.get last) ?_)⟩
    rw [link, posts.senders]
    exact List.mem_append_right _ (List.mem_singleton_self _)

/-! ## What happens of itself -/

/-- What happens of itself while a call waits: what the broker and the background do. -/
def Action.isOutside : Action Invocation → Bool
  | .settle _ | .closeSurplus _ => true
  | .loseChannel _ | .disconnect | .setMode _ | .answer _ _ _ _ => true
  | _ => false

/-- What such actions leave as it is: no call arrives, and nothing is published. -/
structure Undisturbed (t t' : Traffic Invocation) : Prop where
  link : t.link.Quiet t'.link
  length : t'.calls.length = t.calls.length
  requests : t'.requests = t.requests
  declarations : t'.declarations = t.declarations
  converter : t'.converter = t.converter

theorem undisturbed_act (t : Traffic Invocation) {a : Action Invocation} (ha : a.isOutside = true) :
    t.Undisturbed (t.act a) := by
  have relinked {l : Link} (hl : t.link.Passes a l) : t.Undisturbed (t.withLink l) :=
    ⟨hl.quiet, rfl, rfl, rfl, rfl⟩
  cases a with
  | settle n =>
    show t.Undisturbed (t.settle n)
    obtain same | ⟨m, k, attempt, handle, events, -, put⟩ := put_settle t n
    · rw [same]
      exact ⟨.refl _, rfl, rfl, rfl, rfl⟩
    · refine ⟨(link_settle t n).symm ▸ .refl _, ?_, ?_, ?_, ?_⟩ <;> rw [put]
      · exact List.length_set
      all_goals rfl
  | closeSurplus k =>
    simp only [act]
    split
    · exact ⟨(passes_closeSurplus t.reserve k (.closeSurplus k)).quiet, rfl, rfl, rfl, rfl⟩
    · exact ⟨.refl _, rfl, rfl, rfl, rfl⟩
  | loseChannel k => exact relinked (.lost k)
  | disconnect => exact relinked .disconnected
  | setMode mode => exact relinked (.mode mode)
  | answer number tag ack multiple => exact relinked (.answered number tag ack multiple)
  | _ => cases ha

theorem Undisturbed.trans {t'' : Traffic Invocation} (h : t.Undisturbed t')
    (h' : t'.Undisturbed t'') : t.Undisturbed t'' where
  link := h.link.trans h'.link
  length := h'.length.trans h.length
  requests := h'.requests.trans h.requests
  declarations := h'.declarations.trans h.declarations
  converter := h'.converter.trans h.converter

theorem undisturbed_actAll (t : Traffic Invocation) {actions : List (Action Invocation)}
    (outside : ∀ a ∈ actions, a.isOutside = true) : t.Undisturbed (t.actAll actions) := by
  induction actions generalizing t with
  | nil => exact ⟨.refl _, rfl, rfl, rfl, rfl⟩
  | cons a rest ih =>
    have first := undisturbed_act t (outside a List.mem_cons_self)
    exact first.trans (ih (t.act a) fun b hb => outside b (List.mem_cons_of_mem a hb))

theorem Awaits.quiet (h : t.Awaits n m) (hc : t'.calls[n]? = t.calls[n]?)
    (hl : t.link.Quiet t'.link) : t'.Awaits n m := by
  cases h with
  | begun hc' sent => exact .begun (hc.trans hc') (hl.senders.symm ▸ sent)
  | ended number hc' known => exact .ended number (hc.trans hc') (hl.verdict _ _ known)

/-- Whatever happens of itself, the call learns no other verdict than that on its message. -/
theorem Awaits.act (h : t.Awaits n m) {a : Action Invocation} (ha : a.isOutside = true) :
    (t.act a).Awaits n m := by
  have quiet := (undisturbed_act t ha).link
  cases a with
  | settle j =>
    by_cases hj : j = n
    · subst hj
      exact h.settle
    · exact h.quiet (calls_settle t hj) quiet
  | closeSurplus k =>
    refine h.quiet ?_ quiet
    simp only [Traffic.act]
    split <;> rfl
  | loseChannel | disconnect | setMode | answer => exact h.quiet rfl quiet
  | _ => cases ha

theorem Awaits.actAll (h : t.Awaits n m) {actions : List (Action Invocation)}
    (outside : ∀ a ∈ actions, a.isOutside = true) : (t.actAll actions).Awaits n m := by
  induction actions generalizing t with
  | nil => exact h
  | cons a rest ih =>
    exact ih (h.act (outside a List.mem_cons_self)) fun b hb =>
      outside b (List.mem_cons_of_mem a hb)

/-- A call that has returned stays as it is, whatever happens of itself. -/
theorem returned_actAll {reply : Reply Invocation} (hc : t.calls[n]? = some (.returned reply))
    {actions : List (Action Invocation)} (outside : ∀ a ∈ actions, a.isOutside = true) :
    (t.actAll actions).calls[n]? = some (.returned reply) := by
  induction actions generalizing t with
  | nil => exact hc
  | cons a rest ih =>
    refine ih ?_ fun b hb => outside b (List.mem_cons_of_mem a hb)
    have ha := outside a List.mem_cons_self
    cases a with
    | settle j =>
      show (t.settle j).calls[n]? = _
      by_cases hj : j = n
      · subst hj
        have same : t.settle j = t := settle_idle hc (by simp)
        rw [same, hc]
      · rw [calls_settle t hj, hc]
    | closeSurplus k =>
      simp only [Traffic.act]
      split <;> exact hc
    | loseChannel | disconnect | setMode | answer => exact hc
    | _ => cases ha

/-- A handle that is polled is no concern of anyone else. -/
theorem undisturbed_poll (t : Traffic Invocation) (n : Nat) :
    t.Undisturbed (t.act (.poll n)) ∧ (t.act (.poll n)).reserve = t.reserve := by
  show t.Undisturbed (t.step n fun c => (c.poll.1, [])) ∧ (t.step n _).reserve = _
  cases hc : t.calls[n]? with
  | none =>
    rw [step_of_none hc]
    exact ⟨⟨.refl _, rfl, rfl, rfl, rfl⟩, rfl⟩
  | some c =>
    rw [step_of_get hc]
    exact ⟨⟨.refl _, List.length_set, rfl, rfl, rfl⟩, rfl⟩

/-- What the handle has learned is the verdict on the message, if there is one. -/
theorem Awaits.learns (h : t.Awaits n m) : ∃ k progress number,
    (t.settle n).calls[n]? = some (.confirming ⟨m, k, progress⟩ (.returned true)) ∧
      Confirmation.outcome? ⟨m, k, progress⟩ =
        (t.link.verdictFor? (.call n)).join.map (Verdict.outcome m number) := by
  have ended (k : ChannelKey) (verdict : Verdict) (number : Nat) :
      Confirmation.outcome? ⟨m, k, .ended (verdict.attempt number)⟩ =
        some (verdict.outcome m number) := by
    cases verdict <;> rfl
  cases h with
  | @ended k verdict number hc known =>
    have same : t.settle n = t := settle_idle hc (by simp)
    rw [same, known]
    exact ⟨k, _, number, hc, ended k verdict number⟩
  | @begun k hc sent =>
    by_cases hv : ∃ verdict, t.link.verdictFor? (.call n) = some (some verdict)
    · obtain ⟨verdict, hv⟩ := hv
      rw [settle_begun hc hv, hv]
      exact ⟨k, _, t.link.number k,
        List.getElem?_set_self (List.getElem?_eq_some_iff.1 hc).1, ended k verdict _⟩
    · have unknown : (t.link.verdictFor? (.call n)).join = none := by
        cases hj : (t.link.verdictFor? (.call n)).join with
        | none => rfl
        | some verdict => exact absurd ⟨verdict, Option.join_eq_some_iff.1 hj⟩ hv
      rw [settle_unknown fun verdict hv' => hv ⟨verdict, hv'⟩, unknown]
      exact ⟨k, .begun, 0, hc, rfl⟩

end Traffic

end Courier
