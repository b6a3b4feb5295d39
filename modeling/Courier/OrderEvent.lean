import Courier.Json.Reader
import Courier.Json.Text
import Courier.Uuid

/-!
# Order events

The events of an order's life and their JSON form: an object whose member `type` tells the kind, or
an array of the tag and the three fields. `OrderEvent.ofValue?` and `OrderEvent.read?` read them in
any order of members, passing over unknown ones; `OrderEvent.toValue` and `OrderEvent.text` write
them.
-/

namespace Courier

open Json (Value Document)

/-- What happened to an order. -/
inductive OrderEvent.Kind where
  | created
  | dispatched
  | delivered
deriving DecidableEq

/-- An event in the life of an order. -/
structure OrderEvent where
  kind : OrderEvent.Kind
  eventId : Uuid
  orderId : Uuid
  /-- The order's name for a created event, else the time of the event. -/
  detail : String
deriving DecidableEq

namespace OrderEvent

namespace Kind

/-- Every kind of event. -/
def all : List Kind := [created, dispatched, delivered]

/-- The tag that marks events of a kind. -/
def tag : Kind → String
  | created => "created"
  | dispatched => "dispatched"
  | delivered => "delivered"

/-- The name of the member that holds the detail. -/
def detailName : Kind → String
  | created => "name"
  | dispatched => "dispatched_at"
  | delivered => "delivered_at"

/-- The routing key of events of a kind. -/
def routingKey : Kind → String
  | created => "order.created"
  | dispatched => "order.dispatched"
  | delivered => "order.delivered"

/-- The kind with a tag. -/
def ofTag? (tag : String) : Option Kind := all.find? fun k => k.tag = tag

end Kind

/-- The routing key under which the event is published. -/
def routingKey (e : OrderEvent) : String := e.kind.routingKey

/-- The members of the event's object, in the order of their declaration. -/
def members (e : OrderEvent) : List (String × Value) :=
  [("type", .string e.kind.tag), ("event_id", .string e.eventId.text),
    ("order_id", .string e.orderId.text), (e.kind.detailName, .string e.detail)]

/-- The event as a JSON value. -/
def toValue (e : OrderEvent) : Value := .ofMembers e.members

/-- The event as a text, with its members in the order of their declaration. -/
def text (e : OrderEvent) : String := Json.textOfMembers e.members

/-- The value of the only member with a name. -/
def soleMember? (members : List (String × Value)) (name : String) : Option Value :=
  match members.filter fun m => m.1 = name with
  | [m] => some m.2
  | _ => none

/-- The event of a kind with three fields. -/
def ofFields? (kind : Kind) (eventId orderId detail : Value) : Option OrderEvent := do
  return {
    kind
    eventId := ← eventId.string?.bind Uuid.read?
    orderId := ← orderId.string?.bind Uuid.read?
    detail := ← detail.string? }

/-- The event that members describe: the tag and each field of its kind must be there once. -/
def ofMembers? (members : List (String × Value)) : Option OrderEvent := do
  let kind ← ((← soleMember? members "type").string?).bind Kind.ofTag?
  ofFields? kind (← soleMember? members "event_id") (← soleMember? members "order_id")
    (← soleMember? members kind.detailName)

/-- The event that a tag and its fields describe. -/
def ofItems? : List Value → Option OrderEvent
  | [tag, eventId, orderId, detail] => do
    ofFields? (← tag.string?.bind Kind.ofTag?) eventId orderId detail
  | _ => none

/-- The event that a value describes. -/
def ofValue? : Value → Option OrderEvent
  | .object members => ofMembers? members
  | .array items => ofItems? items
  | _ => none

/-- How deep an event's text may nest arrays and objects. -/
def maxDepth : Nat := 127

/-- The event that a document describes. Every part of the document must have a value. -/
def ofDocument? (d : Document) : Option OrderEvent :=
  if d.depth ≤ maxDepth then
    match d with
    | .object members => (Document.memberValues? members).bind ofMembers?
    | .array items => (Document.itemValues? items).bind ofItems?
    | _ => none
  else none

/-- The event that a text describes. -/
def read? (text : String) : Option OrderEvent := (Document.read? text).bind ofDocument?

end OrderEvent

end Courier
