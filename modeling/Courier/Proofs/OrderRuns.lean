import Courier.Orders.Service
import Courier.Proofs.CallRuns
import Courier.Proofs.OrderMessages

/-!
# Orders placed in turn

`placeEach` places orders one after another, with anything that the broker does of itself before
each and while its creation waits for the confirmation. What an order publishes and how it ends is
its `Order.Fate`; what all of them publish, a consumer of the queue reads (`orders_reach_consumer`).
-/

namespace Courier

namespace Orders

open Traffic (Action)

/-! ## Orders and their fates -/

/-- The traffic can serve orders: their calls are declared, and no request is under way. -/
structure Ready (t : Traffic Invocation) : Prop where
  created : t.declarations.get? orderCreated.method = some orderCreated
  event : t.declarations.get? orderEvent.method = some orderEvent
  converter : t.converter.convert = Body.encode
  requests : t.requests = []
  /-- Only calls that have arrived have sent anything. -/
  senders : ∀ n, .call n ∈ t.link.senders → n < t.calls.length

/-- An order to be placed, with what happens of itself before, and while its creation waits for the
confirmation. -/
structure Order where
  index : Nat
  ids : Ids
  before : List (Action Invocation) := []
  during : List (Action Invocation) := []

namespace Order

/-- The event of the order's creation. -/
def created (o : Order) : OrderEvent := createdEvent o.index o.ids.created o.ids.order

/-- The event of the order's dispatch. -/
def dispatched (o : Order) : OrderEvent := dispatchedEvent o.ids.dispatched o.ids.order

/-- All that happens besides is outside the program. -/
def IsOutside (o : Order) : Prop := ∀ a ∈ o.before ++ o.during, a.isOutside = true

/-- The traffic in which the order is placed. -/
def start (o : Order) (t : Traffic Invocation) : Traffic Invocation := t.actAll o.before

/-- The traffic in which the confirmation of the order's creation is awaited. -/
def awaited (o : Order) (t : Traffic Invocation) : Traffic Invocation :=
  (((o.start t).call (creation o.created)).actAll o.during).settle (o.start t).calls.length

/-- Places the order. -/
def place (o : Order) (t : Traffic Invocation) : Traffic Invocation × Placement :=
  resume (o.awaited t) (o.start t).calls.length o.index o.ids

/-- The broker's verdict on the order's creation, if there is one when it is awaited. -/
def verdict? (o : Order) (t : Traffic Invocation) : Option Verdict :=
  ((o.awaited t).link.verdictFor? (.call (o.start t).calls.length)).join

/-- The messages of an order that is placed. -/
def messages (o : Order) : List Message :=
  [createdMessage o.created, eventMessage o.index o.dispatched]

/-- How the placing of an order ends, and the messages that it publishes. -/
inductive Fate (o : Order) (t : Traffic Invocation) : Placement → List Message → Prop where
  /-- The reserve has no channel for the creation and cannot open one. -/
  | unserved (fault : LinkFault) (h : o.verdict? t = none)
      (hr : ¬ (o.start t).reserve.Available) :
      Fate o t (.failed (.channelAcquisition exchange o.created.routingKey (.link fault))) []
  | unconfirmed (h : o.verdict? t = none) : Fate o t .unconfirmed [createdMessage o.created]
  /-- The broker has not acknowledged the creation. -/
  | refused {verdict : Verdict} {number : Nat} {failure : Failure}
      (h : o.verdict? t = some verdict)
      (hf : verdict.outcome (createdMessage o.created) number = .error failure) :
      Fate o t (.failed failure) [createdMessage o.created]
  /-- The reserve has no channel for the dispatch and cannot open one. -/
  | undispatched (fault : LinkFault) (h : o.verdict? t = some .ack)
      (hr : ¬ (o.awaited t).reserve.Available) :
      Fate o t (.failed (.channelAcquisition exchange o.dispatched.routingKey (.link fault)))
        [createdMessage o.created]
  | placed (h : o.verdict? t = some .ack) :
      Fate o t .placed o.messages

/-- An order beside which nothing happens is placed as the service does it. -/
theorem place_eq {o : Order} (before : o.before = []) (during : o.during = [])
    (t : Traffic Invocation) : o.place t = Orders.place t o.index o.ids := by
  have start : o.start t = t := by
    rw [start, before, Traffic.actAll, List.foldl_nil]
  have awaited : o.awaited t = t.call (creation o.created) := by
    rw [awaited, start, during, Traffic.actAll, List.foldl_nil, Traffic.call_settle]
  rw [place, awaited, start, created, Orders.place]

end Order

variable {t t' : Traffic Invocation} {o : Order} {c : Call Invocation} {ms : List Message}

/-! ## How an order ends -/

theorem Ready.undisturbed (h : Ready t) (same : t.Undisturbed t') : Ready t' where
  created := same.declarations ▸ h.created
  event := same.declarations ▸ h.event
  converter := same.converter ▸ h.converter
  requests := same.requests.trans h.requests
  senders := by
    intro n hn
    rw [same.link.senders] at hn
    rw [same.length]
    exact h.senders n hn

theorem Ready.withLink (h : Ready t) {l : Link} (senders : l.senders = t.link.senders) :
    Ready (t.withLink l) where
  created := h.created
  event := h.event
  converter := h.converter
  requests := h.requests
  senders := fun n hn => h.senders n (senders ▸ hn)

theorem Ready.adds (h : Ready t) (adds : t.Adds t' c)
    (senders : ∀ n, .call n ∈ t'.link.senders → .call n ∈ t.link.senders ∨ n = t.calls.length) :
    Ready t' where
  created := adds.declarations ▸ h.created
  event := adds.declarations ▸ h.event
  converter := adds.converter ▸ h.converter
  requests := adds.requests
  senders := by
    intro n hn
    rw [adds.calls, List.length_append, List.length_singleton]
    obtain earlier | rfl := senders n hn
    · exact Nat.lt_succ_of_lt (h.senders n earlier)
    · exact Nat.lt_succ_self _

theorem Ready.adds_quiet (h : Ready t) (adds : t.Adds t' c) (quiet : t.link.Quiet t'.link) :
    Ready t' :=
  h.adds adds fun _ hn => .inl (quiet.senders ▸ hn)

theorem Ready.adds_posts (h : Ready t) (adds : t.Adds t' c) {m : Message}
    (posts : t.link.Posts t'.link (.call t.calls.length) m) : Ready t' := by
  refine h.adds adds fun n hn => ?_
  rw [posts.senders, List.mem_append, List.mem_singleton] at hn
  exact hn.imp_right Owner.call.inj

/-- A call that has failed is not awaited any further. -/
theorem awaitHandle_failed {n : Nat} {failure : Failure}
    (hc : t.calls[n]? = some (.returned (.failed failure))) :
    awaitHandle t n = (t, .failed failure) := by
  simp only [awaitHandle, hc]

/-- What awaiting a handle gives is the outcome of the confirmed publish, if there is one. -/
theorem awaitHandle_confirming {n : Nat} {confirmation : Confirmation}
    (hc : t.calls[n]? = some (.confirming confirmation (.returned true))) :
    awaitHandle t n = match confirmation.outcome? with
      | none => (t, .unconfirmed)
      | some (.ok ()) => (t.act (.poll n), .placed)
      | some (.error failure) => (t.act (.poll n), .failed failure) := by
  simp only [awaitHandle, hc, Call.poll]
  cases confirmation.outcome? with
  | none => rfl
  | some outcome => cases outcome <;> rfl

/-- What becomes of a dispatch. -/
theorem resume_dispatched {n : Nat} (index : Nat) (ids : Ids) (h : Ready t')
    (confirmed : awaitHandle t n = (t', .placed)) :
    Ready (resume t n index ids).1 ∧
      ((∃ fault, ¬ t'.reserve.Available ∧ t'.link.Quiet (resume t n index ids).1.link ∧
        (resume t n index ids).2 = .failed (.channelAcquisition exchange
          (dispatchedEvent ids.dispatched ids.order).routingKey (.link fault))) ∨
      (t'.link.Posts (resume t n index ids).1.link (.call t'.calls.length)
          (eventMessage index (dispatchedEvent ids.dispatched ids.order)) ∧
        (resume t n index ids).2 = .placed)) := by
  obtain ⟨job, hj, hm, hr, unavailable⟩ :=
    (dispatch_sends index (dispatchedEvent ids.dispatched ids.order) h.converter).exists_job
  unfold resume
  rw [confirmed]
  simp only
  obtain ⟨unserved, quiet, fault, adds⟩ | ⟨posts, adds⟩ :=
    t'.call_publish (i := dispatch index (dispatchedEvent ids.dispatched ids.order)) h.event hj
      h.requests hm hr
  · rw [adds.get, unavailable]
    exact ⟨h.adds_quiet adds quiet, .inl ⟨fault, unserved, quiet, rfl⟩⟩
  · rw [adds.get]
    exact ⟨h.adds_posts adds posts, .inr ⟨posts, rfl⟩⟩

namespace Order

/-- The creation of an order finds no channel, or its message goes out and waits for a verdict. -/
theorem creation_spec (h : Ready t) (outside : o.IsOutside) :
    (∃ fault, Ready (o.awaited t) ∧ o.verdict? t = none ∧ ¬ (o.start t).reserve.Available ∧
      t.link.Quiet (o.awaited t).link ∧
      awaitHandle (o.awaited t) (o.start t).calls.length = (o.awaited t,
        .failed (.channelAcquisition exchange o.created.routingKey (.link fault)))) ∨
    ∃ number confirmation, Ready (o.awaited t) ∧
      (∃ n, t.link.Posts (o.awaited t).link (.call n) (createdMessage o.created)) ∧
      (o.awaited t).calls[(o.start t).calls.length]? =
        some (.confirming confirmation (.returned true)) ∧
      confirmation.outcome? =
        (o.verdict? t).map (Verdict.outcome (createdMessage o.created) number) := by
  have before : ∀ a ∈ o.before, a.isOutside = true := fun a ha =>
    outside a (List.mem_append_left _ ha)
  have during : ∀ a ∈ o.during, a.isOutside = true := fun a ha =>
    outside a (List.mem_append_right _ ha)
  have started := t.undisturbed_actAll before
  have ready : Ready (o.start t) := h.undisturbed started
  have later (u : Traffic Invocation) :
      u.Undisturbed ((u.actAll o.during).settle (o.start t).calls.length) :=
    (u.undisturbed_actAll during).trans
      (Traffic.undisturbed_act (a := .settle (o.start t).calls.length) _ rfl)
  obtain ⟨job, hj, hm, hr, unavailable⟩ := (creation_sends o.created ready.converter).exists_job
  obtain ⟨unserved, quiet, fault, adds⟩ | ⟨posts, c, adds, awaits⟩ :=
    (o.start t).call_confirm (i := creation o.created) ready.created hj ready.requests hm hr
  · have failed := Traffic.returned_actAll adds.get during
    have idle : o.awaited t = ((o.start t).call (creation o.created)).actAll o.during :=
      Traffic.settle_idle failed (by simp)
    rw [unavailable, ← idle] at failed
    have kept := quiet.trans (later ((o.start t).call (creation o.created))).link
    have silent : (o.awaited t).link.verdictFor? (.call (o.start t).calls.length) = none := by
      refine Link.verdictFor?_eq_none_iff.2 fun sent => ?_
      exact Nat.lt_irrefl _ (ready.senders _ (kept.senders ▸ sent))
    exact .inl ⟨fault, (ready.adds_quiet adds quiet).undisturbed (later _),
      congrArg Option.join silent, unserved, started.link.trans kept, awaitHandle_failed failed⟩
  · obtain ⟨k, progress, number, hc, learnt⟩ := (awaits.actAll during).learns
    refine .inr ⟨number, _, (ready.adds_posts adds posts).undisturbed (later _),
      ⟨_, started.link.posts_after (posts.quiet_after (later _).link)⟩, hc, ?_⟩
    rw [learnt, verdict?, awaited, Traffic.link_settle]

/-- A confirmed publish succeeds only if its message is acknowledged. -/
theorem ack_of_outcome {verdict : Verdict} {m : Message} {number : Nat}
    (h : verdict.outcome m number = .ok ()) : verdict = .ack := by
  cases verdict <;> simp_all [Verdict.outcome]

/-- However an order ends: what it has published is what its fate says, and the traffic can serve
the next one. -/
theorem place_fate (h : Ready t) (outside : o.IsOutside) : ∃ ms, o.Fate t (o.place t).2 ms ∧
    t.link.Gains (o.place t).1.link ms ∧ Ready (o.place t).1 := by
  obtain ⟨fault, ready, silent, unserved, quiet, failed⟩ |
    ⟨number, confirmation, ready, ⟨n, posts⟩, hc, learnt⟩ := creation_spec h outside
  · have placed : o.place t = (o.awaited t,
        .failed (.channelAcquisition exchange o.created.routingKey (.link fault))) := by
      rw [place, resume, failed]
    rw [placed]
    exact ⟨[], .unserved fault silent unserved, quiet.gains, ready⟩
  · have awaited := awaitHandle_confirming hc
    obtain ⟨polled, reserve⟩ :=
      Traffic.undisturbed_poll (o.awaited t) (o.start t).calls.length
    have next := ready.undisturbed polled
    rw [learnt] at awaited
    cases hv : o.verdict? t with
    | none =>
      rw [hv] at awaited
      have placed : o.place t = (o.awaited t, .unconfirmed) := by
        rw [place, resume, awaited]
        rfl
      rw [placed]
      exact ⟨_, .unconfirmed hv, posts.gains, ready⟩
    | some verdict =>
      rw [hv, Option.map_some] at awaited
      cases ho : verdict.outcome (createdMessage o.created) number with
      | error failure =>
        rw [ho] at awaited
        have placed : o.place t =
            ((o.awaited t).act (.poll (o.start t).calls.length), .failed failure) := by
          rw [place, resume, awaited]
        rw [placed]
        exact ⟨_, .refused hv ho, posts.gains.trans polled.link.gains, next⟩
      | ok =>
        obtain rfl := ack_of_outcome ho
        rw [ho] at awaited
        have confirmed := posts.gains.trans polled.link.gains
        obtain ⟨last, ⟨fault, unserved, quiet, failed⟩ | ⟨sent, placed⟩⟩ :=
          resume_dispatched o.index o.ids next awaited
        · rw [place, failed]
          exact ⟨_, .undispatched fault hv (reserve ▸ unserved), confirmed.trans quiet.gains, last⟩
        · rw [place, placed]
          exact ⟨_, .placed hv, confirmed.trans sent.gains, last⟩

end Order

/-! ## Orders one after another -/

/-- Places orders one after another, with how each ended. -/
def placeEach (t : Traffic Invocation) : List Order → Traffic Invocation × List Placement
  | [] => (t, [])
  | o :: rest =>
    let (t, placement) := o.place t
    let (t, placements) := placeEach t rest
    (t, placement :: placements)

/-- Whether an order has been placed. -/
def Placement.isPlaced : Placement → Bool
  | .placed => true
  | _ => false

theorem Placement.eq_placed {p : Placement} (h : p.isPlaced = true) : p = .placed := by
  cases p with
  | placed => rfl
  | _ => cases h

variable {orders : List Order}

theorem Order.announced (o : Order) : ∀ m ∈ o.messages, ∃ e, Announces m e := by
  intro m hm
  rw [messages, List.mem_pair] at hm
  obtain rfl | rfl := hm
  · exact ⟨_, announces_created rfl⟩
  · exact ⟨_, announces_event _ _⟩

theorem Order.Fate.subset {p : Placement} (h : o.Fate t p ms) : ms ⊆ o.messages := by
  cases h <;> simp [messages]

/-- However the orders end, the traffic can serve the next one. -/
theorem ready_placeEach (h : Ready t) (outside : ∀ o ∈ orders, o.IsOutside) :
    Ready (placeEach t orders).1 ∧ ∃ ms, t.link.Gains (placeEach t orders).1.link ms := by
  induction orders generalizing t with
  | nil => exact ⟨h, [], (Link.Quiet.refl _).gains⟩
  | cons o rest ih =>
    obtain ⟨ms, -, gains, ready⟩ := Order.place_fate h (outside o List.mem_cons_self)
    obtain ⟨last, ms', others⟩ := ih ready fun o' ho => outside o' (List.mem_cons_of_mem o ho)
    exact ⟨last, ms ++ ms', gains.trans others⟩

/-- Orders that are all placed have published two messages each, order after order. -/
theorem gains_placeEach (h : Ready t) (outside : ∀ o ∈ orders, o.IsOutside)
    (placed : ∀ p ∈ (placeEach t orders).2, p = .placed) :
    t.link.Gains (placeEach t orders).1.link (orders.flatMap Order.messages) := by
  induction orders generalizing t with
  | nil => exact (Link.Quiet.refl _).gains
  | cons o rest ih =>
    obtain ⟨ms, fate, gains, ready⟩ := Order.place_fate h (outside o List.mem_cons_self)
    have first : (o.place t).2 = .placed := placed _ List.mem_cons_self
    rw [first] at fate
    cases fate with
    | placed =>
      have others := ih ready (fun o' ho => outside o' (List.mem_cons_of_mem o ho))
        fun p hp => placed p (List.mem_cons_of_mem _ hp)
      rw [List.flatMap_cons]
      exact gains.trans others

/-- Binding keys one after another sends nothing else. -/
theorem bind_spec (l : Link) (k : ChannelKey) (keys : List String) :
    let l' := keys.foldl (fun l key => l.send k (.queueBound queue exchange key)) l
    l'.senders = l.senders ∧
      l'.received k = l.received k ++ keys.map (.queueBound queue exchange) := by
  induction keys generalizing l with
  | nil => exact ⟨rfl, (List.append_nil _).symm⟩
  | cons key rest ih =>
    obtain ⟨senders, received⟩ := ih (l.send k (.queueBound queue exchange key))
    rw [Link.senders_send] at senders
    rw [Link.received_send, if_pos rfl, List.append_assoc, List.singleton_append] at received
    exact ⟨senders, received⟩

theorem setUp_eq_ok {k : ChannelKey} (hs : setUp t k = .ok t') :
    ∃ (l : Link) (es : List ChannelEvent),
      t' = t.withLink { l with boundKeys := l.boundKeys ++ routingKeys } ∧
      l.senders = t.link.senders ∧
      l.received k = es ++ routingKeys.map (.queueBound queue exchange) := by
  unfold setUp at hs
  split at hs
  · obtain ⟨senders, received⟩ := bind_spec ((t.link.send k
      (.exchangeDeclared exchange "topic" {})).send k (.queueDeclared queue {})) k routingKeys
    exact ⟨_, _, (Except.ok.inj hs).symm, senders, received⟩
  · cases hs

/-- Setting up binds the queue to every routing key and leaves the traffic ready. -/
theorem setUp_spec {k : ChannelKey} (h : Ready t) (hs : setUp t k = .ok t') :
    Ready t' ∧ ∀ key ∈ routingKeys, key ∈ t'.link.boundKeys ∧
      .queueBound queue exchange key ∈ t'.link.received k := by
  obtain ⟨l, es, rfl, senders, received⟩ := setUp_eq_ok hs
  refine ⟨h.withLink senders, fun key hk => ⟨List.mem_append_right _ hk, ?_⟩⟩
  show _ ∈ l.received k
  rw [received]
  exact List.mem_append_right _ (List.mem_map_of_mem hk)

/-- Producer and consumer of order events agree, once the queue is set up, however many orders are
placed and whatever the broker says of them. Each order ends by its fate: its creation goes out
first, and its dispatch once that has been acknowledged. Every message is stored in the queue, under
a routing key to which the queue has been bound, announces an event of its order, and is what the
declaration of its call makes of the arguments. And where all orders have been placed, a consumer
that takes two deliveries for each reads them all and acknowledges each once, in order. -/
theorem orders_reach_consumer {t₀ : Traffic Invocation} {k : ChannelKey} (h : Ready t₀)
    (hs : setUp t₀ k = .ok t) (orders : List Order) (outside : ∀ o ∈ orders, o.IsOutside) :
    (∀ earlier o later, orders = earlier ++ o :: later →
      let s := (placeEach t earlier).1
      ∃ ms, o.Fate s (o.place s).2 ms ∧
        (o.place s).1.link.posts = s.link.posts ++ ms ∧
        (o.place s).1.link.stored = s.link.stored ++ ms) ∧
    (∀ o : Order, Announces (createdMessage o.created) o.created ∧
      Announces (eventMessage o.index o.dispatched) o.dispatched ∧
      o.dispatched.orderId = o.created.orderId ∧
      orderCreated.Sends (creation o.created).arguments t.converter (createdMessage o.created) ∧
      orderEvent.Sends (dispatch o.index o.dispatched).arguments t.converter
        (eventMessage o.index o.dispatched) ∧
      ∀ m ∈ o.messages, .queueBound queue exchange m.routingKey ∈ t.link.received k) ∧
    ((∀ p ∈ (placeEach t orders).2, p = .placed) →
      let ms := orders.flatMap Order.messages
      (placeEach t orders).1.link.stored = t.link.stored ++ ms ∧
      ∀ tags, tags.length = 2 * orders.length →
        consume (2 * orders.length) (deliver tags ms) = ⟨tags, .ok ()⟩) := by
  obtain ⟨ready, bound⟩ := setUp_spec h hs
  have bindings : ∀ o : Order, ∀ m ∈ o.messages, m.routingKey ∈ routingKeys := by
    intro o m hm
    obtain ⟨e, announces⟩ := o.announced m hm
    rw [announces.routingKey]
    exact routingKey_mem e
  refine ⟨?_, fun o => ⟨announces_created rfl, announces_event _ _, rfl,
    creation_sends _ ready.converter, dispatch_sends _ _ ready.converter, fun m hm => ?_⟩, ?_⟩
  · rintro earlier o later rfl
    have earlierOutside : ∀ o ∈ earlier, o.IsOutside := fun o ho =>
      outside o (List.mem_append_left _ ho)
    obtain ⟨readied, _, before⟩ := ready_placeEach ready earlierOutside
    obtain ⟨ms, fate, gains, -⟩ := Order.place_fate readied (outside o (by simp))
    refine ⟨ms, fate, gains.posts, gains.stored_of_bound fun m hm => ?_⟩
    rw [before.boundKeys]
    exact (bound _ (bindings o m (fate.subset hm))).1
  · exact (bound _ (bindings o m hm)).2
  · intro placed
    have gains := gains_placeEach ready outside placed
    have length : (orders.flatMap Order.messages).length = 2 * orders.length := by
      simp [List.length_flatMap, Order.messages, Nat.mul_comm]
    refine ⟨gains.stored_of_bound fun m hm => ?_, fun tags ht => ?_⟩
    · obtain ⟨o, -, hm⟩ := List.mem_flatMap.1 hm
      exact (bound _ (bindings o m hm)).1
    · rw [← length]
      refine consume_deliver (ht.trans length.symm) fun m hm => ?_
      obtain ⟨o, -, hm⟩ := List.mem_flatMap.1 hm
      exact o.announced m hm

/-- The service on a link with one channel, whose broker answers nothing at once. -/
def heldService : Traffic Invocation where
  reserve := { link := { channels := [{ number := 1 }], lastNumber := 1, mode := .hold } }
  declarations := declarations.foldl Declarations.declare ∅

/-- The broker acknowledges the creation of the first order while it is awaited, and that of the
second at once. -/
def twoOrders : List Order := [
  { index := 0, ids := ⟨⟨10, by decide⟩, ⟨11, by decide⟩, ⟨12, by decide⟩⟩,
    during := [.answer 2 1 true false] },
  { index := 1, ids := ⟨⟨20, by decide⟩, ⟨21, by decide⟩, ⟨22, by decide⟩⟩,
    before := [.setMode .ack] }]

theorem orders_reach_consumer_twoOrders : ∃ t, setUp heldService 0 = .ok t ∧
    (placeEach t twoOrders).1.link.stored = twoOrders.flatMap Order.messages ∧
    consume 4 (deliver [7, 8, 9, 10] (twoOrders.flatMap Order.messages)) =
      ⟨[7, 8, 9, 10], .ok ()⟩ := by
  have ready : Ready heldService := ⟨by decide, by decide, rfl, rfl, nofun⟩
  have outside : ∀ o ∈ twoOrders, o.IsOutside := by
    simp [twoOrders, Order.IsOutside, Traffic.Action.isOutside]
  have placed : ∀ p ∈ (placeEach ((setUp heldService 0).toOption.getD heldService) twoOrders).2,
      p.isPlaced = true := by
    decide +kernel
  cases hs : setUp heldService 0 with
  | error fault => cases hs
  | ok t =>
    rw [hs] at placed
    obtain ⟨-, -, all⟩ := orders_reach_consumer ready hs twoOrders outside
    obtain ⟨stored, consumed⟩ := all fun p hp => Placement.eq_placed (placed p hp)
    have none : t.link.stored = [] := by
      cases hs
      rfl
    rw [none, List.nil_append] at stored
    exact ⟨t, rfl, stored, consumed [7, 8, 9, 10] rfl⟩

end Orders

end Courier
