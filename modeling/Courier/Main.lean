import Courier.Orders.Service

/-!
# The order service as a program

Runs the order service against a broker inside the program, under fresh identifiers, and lists what
that broker received. The exit code is 0 if every order was placed and every event consumed.
-/

open Courier

/-- A fresh identifier. -/
def freshUuid : IO Uuid := do
  return Uuid.ofRandom (← IO.rand 0 (1 <<< 128 - 1))

/-- The identifiers of fresh orders. -/
def freshOrders : Nat → IO (List Orders.Ids)
  | 0 => return []
  | count + 1 => do
    let ids : Orders.Ids := ⟨← freshUuid, ← freshUuid, ← freshUuid⟩
    return ids :: (← freshOrders count)

/-- A line for a message that the broker received. -/
def messageLine? : WireEvent → Option String
  | .onChannel _ _ (.published _ m) =>
    some (m.exchange ++ " " ++ m.routingKey ++ " " ++ m.body.text?.getD "")
  | _ => none

def main : IO UInt32 := do
  let endpoint : Endpoint := { host := (← IO.getEnv "AMQP_HOST").getD "127.0.0.1" }
  match endpoint.connect (some {}) with
  | .error failure =>
    IO.eprintln ("Error: " ++ failure.message)
    return 1
  | .ok (link, _) =>
    let (traffic, success) := Orders.run link (← freshOrders Orders.orderCount)
    for line in traffic.link.wire.filterMap messageLine? do
      IO.println line
    return if success then 0 else 1
