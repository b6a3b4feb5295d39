import Courier.Connection
import Courier.Consumer
import Courier.Orders
import Courier.Traffic

/-!
# The order service at work

Placing an order publishes its creation, waits for the confirmation, and then publishes its
dispatch. The service declares an exchange and a queue bound to every routing key of order events,
places five orders, and consumes the ten events that come of them.
-/

namespace Courier.Orders

/-- The identifiers of one order. -/
structure Ids where
  order : Uuid
  created : Uuid
  dispatched : Uuid

/-- How placing an order ended. -/
inductive Placement where
  | placed
  | failed (failure : Failure)
  /-- The creation is not confirmed yet. -/
  | unconfirmed

/-- The handle of a call is awaited, if the call gave one. -/
def awaitHandle (t : Traffic Invocation) (n : Nat) : Traffic Invocation × Placement :=
  match t.calls[n]? with
  | none => (t, .placed)
  | some c =>
    match c, c.poll.2 with
    | .returned (.failed failure), _ => (t, .failed failure)
    | _, .settled (.error failure) => (t.act (.poll n), .failed failure)
    | _, .pending => (t, .unconfirmed)
    | _, _ => (t.act (.poll n), .placed)

/-- The rest of placing the order with an index, from the call with a number on that publishes its
creation. -/
def resume (t : Traffic Invocation) (n index : Nat) (ids : Ids) : Traffic Invocation × Placement :=
  match awaitHandle t n with
  | (t, .placed) =>
    let n := t.calls.length
    let t := t.call (dispatch index (dispatchedEvent ids.dispatched ids.order))
    (t, match t.calls[n]? with
      | some (.returned (.failed failure)) => .failed failure
      | _ => .placed)
  | (t, p) => (t, p)

/-- Places the order with an index. -/
def place (t : Traffic Invocation) (index : Nat) (ids : Ids) : Traffic Invocation × Placement :=
  let created := t.call (creation (createdEvent index ids.created ids.order))
  resume created t.calls.length index ids

/-- Opens a channel that does not come from the reserve. -/
def openOwn (t : Traffic Invocation) : Except LinkFault (Traffic Invocation × ChannelKey) := do
  let (link, k) ← t.link.openChannel
  return (t.withLink link, k)

/-- Declares the exchange and the queue, and binds the queue to every routing key. -/
def setUp (t : Traffic Invocation) (k : ChannelKey) : Except LinkFault (Traffic Invocation) :=
  if t.link.isConnected k then
    let link := (t.link.send k (.exchangeDeclared exchange "topic" {})).send k
      (.queueDeclared queue {})
    let link := routingKeys.foldl
      (fun link key => link.send k (.queueBound queue exchange key)) link
    .ok (t.withLink { link with boundKeys := link.boundKeys ++ routingKeys })
  else .error .invalidChannelState

/-- Consumes a number of messages of the queue on a channel. What the consumer leaves is lost. -/
def consumeQueue (t : Traffic Invocation) (k : ChannelKey) (n : Nat) :
    Traffic Invocation × Except ConsumeFailure Unit :=
  let arrivals := t.link.stored.zipIdx.map fun (m, i) => Arrival.delivery (i + 1) m.body
  if t.link.isConnected k then
    let c := consume n arrivals
    let link :=
      c.acked.foldl (fun link tag => link.send k (.acked tag)) { t.link with stored := [] }
    (t.withLink link, c.result)
  else (t, .error (.broken .invalidChannelState))

/-- Places orders in turn, up to the first that fails. -/
def placeAll (t : Traffic Invocation) : List (Nat × Ids) → Traffic Invocation × Bool
  | [] => (t, true)
  | (index, ids) :: rest =>
    match place t index ids with
    | (t, .placed) => placeAll t.rest rest
    | (t, _) => (t.rest, false)

/-- The call that no declaration claims. -/
def describe (orders : Nat) : Invocation :=
  ⟨"describe", [("count", (Json.Integer.ofInt? orders).elim .null .integer)]⟩

/-- Runs the service on a link with the identifiers of its orders; true if all went well. -/
def run (link : Link) (orders : List Ids) : Traffic Invocation × Bool :=
  let t : Traffic Invocation := {
    reserve := { link }
    declarations := declarations.foldl Declarations.declare ∅ }
  match openOwn t with
  | .error _ => (t, false)
  | .ok (t, k) =>
    match setUp t k with
    | .error _ => (t, false)
    | .ok t =>
      match placeAll t (orders.zipIdx.map fun (ids, i) => (i, ids)) with
      | (t, false) => (t, false)
      | (t, true) =>
        let (t, result) := consumeQueue (t.call (describe orders.length)) k (2 * orders.length)
        (t, result.isOk)

/-- How many orders the service places. -/
def orderCount : Nat := 5

end Courier.Orders
