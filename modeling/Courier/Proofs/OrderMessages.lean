import Courier.Consumer
import Courier.Orders
import Courier.Proofs.Acknowledgements
import Courier.Proofs.ReferenceMessages

/-!
# The messages of the order service

The two declared calls of the order service with the arguments that placing an order gives them:
what each publishes (`creation_sends`, `dispatch_sends`), and that a consumer reads the event back
from it (`announces_created`, `announces_event`, `consume_deliver`).
-/

namespace Courier

open Json (Value)

/-- A call that sends a message has a job to publish it. -/
theorem Declaration.Sends.exists_job {d : Declaration} {args : Arguments} {converter : Converter}
    {m : Message} (h : d.Sends args converter m) : ∃ job, d.job args converter = .ok job ∧
      job.message = .ok m ∧ job.returns = d.returns ∧
      ∀ cause, job.unavailable cause = .channelAcquisition m.exchange m.routingKey cause := by
  obtain ⟨e, properties, body, resolves, -, rfl⟩ := id h
  exact ⟨_, job_eq_ok.2 ⟨e, properties, resolves, rfl⟩, resolves.sends_iff.1 h, rfl, fun _ => rfl⟩

/-- The argument of a parameter counts as given if it is a text that is not empty. -/
theorem Arguments.present?_string {args : Arguments} {p : Parameter} {s : String}
    (h : args.get? p.name = some (.string s)) (hs : s ≠ "") :
    args.present? p = some (.string s) := by
  rw [present?, h, Option.filter_some, isPresent, if_pos (decide_eq_true hs)]

/-- A table filled from pairs whose names ascend holds them as they come. -/
theorem Table.entries_of_names {α : Type} {l : List (String × α)} (names : List String)
    (h : l.map (·.1) = names) (sorted : names.Pairwise (· < ·)) : (ofList l).entries = l := by
  subst h
  rw [ofList_of_sorted (List.pairwise_map.1 sorted)]

namespace Orders

/-- The message that announces the creation of an order. -/
def createdMessage (e : OrderEvent) : Message where
  exchange := "orders"
  routingKey := "order.created"
  properties := {
    contentType := some "application/json"
    headers := some (Table.ofList [("x-source", .longString "application")])
    deliveryMode := some 2
    messageId := some e.eventId.text }
  body := e.toValue.text.toUTF8

/-- The message that announces a later event of the order with an index. -/
def eventMessage (index : Nat) (e : OrderEvent) : Message where
  exchange := "orders"
  routingKey := e.routingKey
  properties := {
    contentType := some "application/json"
    headers := some (Table.ofList [("x-trace", .longString ("order-" ++ decimal index))])
    messageId := some e.eventId.text }
  body := e.toValue.text.toUTF8

/-- The call that publishes the creation of an order sends the message that announces it. -/
theorem creation_sends (e : OrderEvent) {converter : Converter}
    (hc : converter.convert = Body.encode) :
    orderCreated.Sends (creation e).arguments converter (createdMessage e) := by
  have given : (creation e).arguments.present? ⟨"event_id", [.property (some "messageId")]⟩ =
      some (.string e.eventId.text) :=
    Arguments.present?_string (Table.get?_ofList _ _) e.eventId.text_ne_empty
  have properties : orderCreated.propertyWrites (creation e).arguments =
      [("contentType", .string "application/json"), ("deliveryMode", .string "2"),
        ("messageId", .string e.eventId.text)] := by
    simp [Declaration.propertyWrites, orderCreated, entry, jsonContent, Entry.write?,
      Entry.effectiveName?, nonEmpty?, Parameter.propertyName?, Parameter.boundName, given]
  have headers : orderCreated.headerWrites (creation e).arguments =
      [("x-source", .string "application")] := by
    simp [Declaration.headerWrites, orderCreated, entry, Entry.write?,
      Entry.effectiveName?, nonEmpty?, Parameter.headerName?]
  have envelope : orderCreated.envelope (creation e).arguments = .ok {
      exchange := "orders"
      routingKey := "order.created"
      properties := Table.ofList (orderCreated.propertyWrites (creation e).arguments)
      headers := Table.ofList (orderCreated.headerWrites (creation e).arguments)
      bodyArgument := "event" } := by
    unfold Declaration.envelope
    rw [properties]
    rfl
  refine ⟨_, _, _, ⟨envelope, ?_⟩, ?_, rfl⟩
  · rw [properties, headers, Envelope.assemble, Envelope.assignments,
      Table.entries_of_names ["contentType", "deliveryMode", "messageId"] rfl (by decide),
      Table.entries_of_names ["x-source"] rfl (by decide)]
    rfl
  · have content : (creation e).arguments.get? "event" = some e.toValue := Table.get?_ofList _ _
    rw [content, hc]
    rfl

/-- The call that publishes a later event sends the message that announces it. -/
theorem dispatch_sends (index : Nat) (e : OrderEvent) {converter : Converter}
    (hc : converter.convert = Body.encode) :
    orderEvent.Sends (dispatch index e).arguments converter (eventMessage index e) := by
  have given : (dispatch index e).arguments.present? ⟨"event_id", [.property (some "messageId")]⟩ =
      some (.string e.eventId.text) :=
    Arguments.present?_string (Table.get?_ofList _ _) e.eventId.text_ne_empty
  have traced : (dispatch index e).arguments.present? ⟨"trace", [.header (some "x-trace")]⟩ =
      some (.string ("order-" ++ decimal index)) :=
    Arguments.present?_string (Table.get?_ofList _ _) (by simp)
  have routingKey : orderEvent.routingKey? (dispatch index e).arguments = some e.routingKey := by
    have key : (dispatch index e).arguments.get? "routing_key" = some (.string e.routingKey) :=
      Table.get?_ofList _ _
    have present : nonEmpty? e.routingKey = some e.routingKey := by
      obtain ⟨kind, eventId, orderId, detail⟩ := e
      cases kind <;> rfl
    show (((dispatch index e).arguments.get? "routing_key").bind Value.string?).bind nonEmpty? = _
    rw [key]
    exact present
  have properties : orderEvent.propertyWrites (dispatch index e).arguments =
      [("contentType", .string "application/json"), ("messageId", .string e.eventId.text)] := by
    simp [Declaration.propertyWrites, orderEvent, entry, jsonContent, Entry.write?,
      Entry.effectiveName?, nonEmpty?, Parameter.propertyName?, Parameter.boundName,
      List.filterMap_cons, given]
  have headers : orderEvent.headerWrites (dispatch index e).arguments =
      [("x-trace", .string ("order-" ++ decimal index))] := by
    simp [Declaration.headerWrites, orderEvent, Parameter.headerName?, Parameter.boundName,
      nonEmpty?, List.filterMap_cons, traced]
  have envelope : orderEvent.envelope (dispatch index e).arguments = .ok {
      exchange := "orders"
      routingKey := e.routingKey
      properties := Table.ofList (orderEvent.propertyWrites (dispatch index e).arguments)
      headers := Table.ofList (orderEvent.headerWrites (dispatch index e).arguments)
      bodyArgument := "event" } := by
    unfold Declaration.envelope
    rw [routingKey, properties]
    rfl
  refine ⟨_, _, _, ⟨envelope, ?_⟩, ?_, rfl⟩
  · rw [properties, headers, Envelope.assemble, Envelope.assignments,
      Table.entries_of_names ["contentType", "messageId"] rfl (by decide),
      Table.entries_of_names ["x-trace"] rfl (by decide)]
    rfl
  · have content : (dispatch index e).arguments.get? "event" = some e.toValue :=
      Table.get?_ofList _ _
    rw [content, hc]
    rfl

/-- A message that announces an event: a consumer reads the event from its body, and its routing key
and its message id are the event's own. -/
structure Announces (m : Message) (e : OrderEvent) : Prop where
  exchange : m.exchange = exchange
  routingKey : m.routingKey = e.routingKey
  body : m.body.Carries e
  messageId : m.properties.messageId = some e.eventId.text

theorem carries_toValue (e : OrderEvent) : Body.Carries e.toValue.text.toUTF8 e := by
  obtain ⟨body, encoded, carries⟩ := e.encode_toValue
  cases encoded
  exact carries

theorem announces_created {e : OrderEvent} (h : e.kind = .created) :
    Announces (createdMessage e) e where
  exchange := rfl
  routingKey := by
    rw [OrderEvent.routingKey, h]
    rfl
  body := carries_toValue e
  messageId := rfl

theorem announces_event (index : Nat) (e : OrderEvent) : Announces (eventMessage index e) e :=
  ⟨rfl, rfl, carries_toValue e, rfl⟩

/-- The queue is bound to the routing key of every event. -/
theorem routingKey_mem (e : OrderEvent) : e.routingKey ∈ routingKeys := by
  show e.kind.routingKey ∈ routingKeys
  cases e.kind <;> decide

/-- The deliveries of messages under tags. -/
def deliver (tags : List Nat) (ms : List Message) : List Arrival :=
  List.zipWith (fun tag m => .delivery tag m.body) tags ms

/-- A consumer acknowledges each delivery of a message that announces an event once, in order. -/
theorem consume_deliver {tags : List Nat} {ms : List Message} (h : tags.length = ms.length)
    (announced : ∀ m ∈ ms, ∃ e, Announces m e) :
    consume ms.length (deliver tags ms) = ⟨tags, .ok ()⟩ := by
  induction ms generalizing tags with
  | nil =>
    obtain rfl := List.length_eq_zero_iff.1 h
    rfl
  | cons m rest ih =>
    obtain ⟨tag, tags, rfl⟩ := List.exists_cons_of_length_eq_add_one h
    obtain ⟨e, announces⟩ := announced m List.mem_cons_self
    have others := ih (Nat.succ.inj h) fun m' hm => announced m' (List.mem_cons_of_mem m hm)
    rw [deliver, List.zipWith_cons_cons, List.length_cons, consume_event announces.body, ← deliver,
      others]

end Orders

end Courier
