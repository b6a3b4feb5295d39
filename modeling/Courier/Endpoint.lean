import Courier.Json.Reader
import Courier.Json.Text

/-!
# Endpoints

Where a broker listens and who connects to it. `Endpoint.ofValue?` reads an endpoint from a JSON
value and `Endpoint.read?` from a text: an object gives some of the five fields by name, an array
gives the first so many of them in order, and a field that is not given has its default. A text may
not give one field twice; what an unknown field holds is not looked at.
-/

namespace Courier

open Json (Value Document Piece)

/-- Where a broker listens and who connects to it. -/
structure Endpoint where
  host : String := "127.0.0.1"
  port : UInt16 := 5672
  user : String := "guest"
  password : String := "guest"
  vhost : String := "/"
deriving DecidableEq, Inhabited

/-- A field of an endpoint. -/
inductive EndpointField where
  | host
  | port
  | user
  | password
  | vhost
deriving DecidableEq

namespace EndpointField

/-- The fields, in the order in which an array gives them. -/
def all : List EndpointField := [host, port, user, password, vhost]

/-- The name of a field. -/
def spelling : EndpointField → String
  | host => "host"
  | port => "port"
  | user => "user"
  | password => "password"
  | vhost => "vhost"

/-- The field with a name. -/
def ofSpelling? (s : String) : Option EndpointField := all.find? fun f => f.spelling = s

end EndpointField

/-- A port: an integer of 16 bits. -/
def port? : Value → Option UInt16
  | .number (.integer n) =>
    if 0 ≤ n.val ∧ n.val < 0x10000 then some (UInt16.ofNat n.val.toNat) else none
  | _ => none

namespace Endpoint

/-- Sets a field, if the value has the field's type. -/
def set? (e : Endpoint) (f : EndpointField) (v : Value) : Option Endpoint :=
  match f with
  | .host => v.string?.map fun s => { e with host := s }
  | .port => (port? v).map fun n => { e with port := n }
  | .user => v.string?.map fun s => { e with user := s }
  | .password => v.string?.map fun s => { e with password := s }
  | .vhost => v.string?.map fun s => { e with vhost := s }

/-- Sets fields in order. -/
def setAll? (e : Endpoint) (fields : List (EndpointField × Value)) : Option Endpoint :=
  fields.foldlM (fun e f => e.set? f.1 f.2) e

/-- Pairs items with the fields in order, unless there are too many. -/
def inOrder? {α : Type} (items : List α) : Option (List (EndpointField × α)) :=
  if items.length ≤ EndpointField.all.length then some (EndpointField.all.zip items) else none

/-- The members with the name of a field, as fields. -/
def knownMembers {α : Type} (members : List (String × α)) : List (EndpointField × α) :=
  members.filterMap fun (name, v) => (EndpointField.ofSpelling? name).map fun f => (f, v)

/-- The endpoint that a value describes. -/
def ofValue? : Value → Option Endpoint
  | .object members => setAll? {} (knownMembers members)
  | .array items => (inOrder? items).bind (setAll? {})
  | _ => none

/-- Values the parts of a document that are given for fields. -/
def valueFields? (fields : List (EndpointField × Document)) :
    Option (List (EndpointField × Value)) :=
  fields.mapM fun (f, d) => d.value?.map fun v => (f, v)

/-- The endpoint that a document describes. -/
def ofDocument? : Document → Option Endpoint
  | .object members => do
    let named ← members.mapM fun (name, d) => (Json.pieceString? name).map fun s => (s, d)
    let known := knownMembers named
    if (known.map (·.1)).Nodup then setAll? {} (← valueFields? known) else none
  | .array items => do setAll? {} (← valueFields? (← inOrder? items))
  | _ => none

/-- The endpoint that a text describes. -/
def read? (text : String) : Option Endpoint := (Document.read? text).bind ofDocument?

/-- How the URI writes the default virtual host. -/
def uriPath (vhost : String) : String := if vhost = "/" ∨ vhost = "" then "%2f" else vhost

/-- The URI of the endpoint. Its texts stand in it as they are. -/
def uri (e : Endpoint) : String :=
  "amqp://" ++ e.user ++ ":" ++ e.password ++ "@" ++ e.host ++ ":" ++
    decimal e.port.toNat ++ "/" ++ uriPath e.vhost

end Endpoint

end Courier
