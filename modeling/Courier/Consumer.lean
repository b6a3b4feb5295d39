import Courier.Message
import Courier.OrderEvent

/-!
# Consuming order events

A consumer takes a given number of deliveries from a stream. It acknowledges each before it reads
the event in it, and stops at the first delivery that holds no event, and where the stream breaks or
ends too early.
-/

namespace Courier

/-- What a stream of deliveries brings next. -/
inductive Arrival where
  | delivery (tag : Nat) (body : Body)
  | broken (fault : LinkFault)

/-- Why a consumer stopped early. -/
inductive ConsumeFailure where
  | streamClosed
  | broken (fault : LinkFault)
  /-- A delivery that holds no order event. -/
  | notAnEvent

/-- What a consumer did: the tags that it acknowledged, in order, and how it ended. -/
structure Consumption where
  acked : List Nat
  result : Except ConsumeFailure Unit

/-- Consumes a number of deliveries. -/
def consume : Nat → List Arrival → Consumption
  | 0, _ => ⟨[], .ok ()⟩
  | _ + 1, [] => ⟨[], .error .streamClosed⟩
  | _ + 1, .broken fault :: _ => ⟨[], .error (.broken fault)⟩
  | n + 1, .delivery tag body :: rest =>
    match body.text?.bind OrderEvent.read? with
    | none => ⟨[tag], .error .notAnEvent⟩
    | some _ =>
      let c := consume n rest
      ⟨tag :: c.acked, c.result⟩

end Courier
