import Courier.Call
import Courier.OrderEvent

/-!
# Declared calls of the order service

The order service publishes its events through two declared calls: the creation of an order waits
for the broker's confirmation, every other event is sent without waiting and brings its routing key
along. `Orders.creation` and `Orders.dispatch` are the calls that placing an order makes.
-/

namespace Courier.Orders

open Json (Value)

/-- The exchange of order events. -/
def exchange : String := "orders"

/-- The queue from which order events are consumed. -/
def queue : String := "order-events"

/-- The routing keys under which the queue receives events. -/
def routingKeys : List String := OrderEvent.Kind.all.map OrderEvent.Kind.routingKey

/-- An entry with a name and a value. -/
def entry (name value : String) : Entry := ⟨some name, some value⟩

/-- The property that both calls set. -/
def jsonContent : Entry := entry "contentType" "application/json"

/-- Publishes the creation of an order and waits for its confirmation. -/
def orderCreated : Declaration where
  method := "order_created"
  exchange := some exchange
  routingKey := some (OrderEvent.Kind.routingKey .created)
  headers := [entry "x-source" "application"]
  properties := [jsonContent, entry "deliveryMode" "2"]
  parameters := [⟨"event", [.body]⟩, ⟨"event_id", [.property (some "messageId")]⟩]
  returns := .confirmation

/-- Publishes any event under the routing key that the call brings along. -/
def orderEvent : Declaration where
  method := "order_event"
  exchange := some exchange
  routingKey := none
  headers := []
  properties := [jsonContent]
  parameters := [⟨"routing_key", [.routingKey none]⟩, ⟨"event", []⟩,
    ⟨"event_id", [.property (some "messageId")]⟩, ⟨"trace", [.header (some "x-trace")]⟩]
  returns := .nothing

/-- The declared calls of the order service. -/
def declarations : List Declaration := [orderCreated, orderEvent]

/-- The creation of the order with an index. -/
def createdEvent (index : Nat) (eventId orderId : Uuid) : OrderEvent :=
  ⟨.created, eventId, orderId, "name " ++ decimal index⟩

/-- The dispatch of an order. -/
def dispatchedEvent (eventId orderId : Uuid) : OrderEvent :=
  ⟨.dispatched, eventId, orderId, "2021-01-01"⟩

/-- The call that publishes the creation of an order. -/
def creation (e : OrderEvent) : Invocation :=
  ⟨orderCreated.method, [("event_id", .string e.eventId.text), ("event", e.toValue)]⟩

/-- The call that publishes a later event of the order with an index. -/
def dispatch (index : Nat) (e : OrderEvent) : Invocation :=
  ⟨orderEvent.method, [("routing_key", .string e.routingKey), ("event_id", .string e.eventId.text),
    ("trace", .string ("order-" ++ decimal index)), ("event", e.toValue)]⟩

end Courier.Orders
