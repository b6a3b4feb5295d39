import Courier.Endpoint.Uri
import Courier.Link

/-!
# Connecting

A link is made by way of the endpoint's URI: the broker learns the login that the URI reads as.
-/

namespace Courier

/-- An endpoint that could not be connected to. -/
structure ConnectFailure where
  endpoint : Endpoint

/-- A connect failure in words. -/
def ConnectFailure.message (f : ConnectFailure) : String :=
  "failed to connect to " ++ f.endpoint.host ++ ":" ++ decimal f.endpoint.port.toNat

/-- Connects to an endpoint at which `listener` answers, if anyone does: the new link, and the
endpoint as the broker reads it. -/
def Endpoint.connect (e : Endpoint) (listener : Option Link) :
    Except ConnectFailure (Link × Endpoint) :=
  match listener, Endpoint.ofUri? e.uri with
  | some link, some received => .ok (link, received)
  | _, _ => .error ⟨e⟩

end Courier
