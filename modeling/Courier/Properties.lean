import Courier.Envelope
import Courier.FieldValue

/-!
# Message properties

The basic properties of a message and its headers. `Properties.get` and `Properties.set` address a
field by its name, `Properties.assign` sets one from a JSON value, and `Envelope.assemble` builds
the properties of a message: its property values in name order, then its headers.
-/

namespace Courier

/-- The basic properties of a message. -/
structure Properties where
  contentType : Option String := none
  contentEncoding : Option String := none
  headers : Option (Table FieldValue) := none
  deliveryMode : Option UInt8 := none
  priority : Option UInt8 := none
  correlationId : Option String := none
  replyTo : Option String := none
  expiration : Option String := none
  messageId : Option String := none
  timestamp : Option UInt64 := none
  type : Option String := none
  userId : Option String := none
  appId : Option String := none
  clusterId : Option String := none

namespace Properties

/-- No property is set. -/
def empty : Properties := {}

instance : EmptyCollection Properties := ⟨empty⟩

/-- The value of a property. -/
def get (p : Properties) : (n : PropertyName) → Option n.kind.Carrier
  | .contentType => p.contentType
  | .contentEncoding => p.contentEncoding
  | .deliveryMode => p.deliveryMode
  | .priority => p.priority
  | .correlationId => p.correlationId
  | .replyTo => p.replyTo
  | .expiration => p.expiration
  | .messageId => p.messageId
  | .timestamp => p.timestamp
  | .type => p.type
  | .userId => p.userId
  | .appId => p.appId
  | .clusterId => p.clusterId

/-- Sets a property. -/
def set (p : Properties) : (n : PropertyName) → n.kind.Carrier → Properties
  | .contentType, v => { p with contentType := some v }
  | .contentEncoding, v => { p with contentEncoding := some v }
  | .deliveryMode, v => { p with deliveryMode := some v }
  | .priority, v => { p with priority := some v }
  | .correlationId, v => { p with correlationId := some v }
  | .replyTo, v => { p with replyTo := some v }
  | .expiration, v => { p with expiration := some v }
  | .messageId, v => { p with messageId := some v }
  | .timestamp, v => { p with timestamp := some v }
  | .type, v => { p with type := some v }
  | .userId, v => { p with userId := some v }
  | .appId, v => { p with appId := some v }
  | .clusterId, v => { p with clusterId := some v }

@[simp] theorem get_set_self (p : Properties) (n : PropertyName) (v : n.kind.Carrier) :
    (p.set n v).get n = some v := by
  cases n <;> rfl

theorem get_set_of_ne (p : Properties) {m n : PropertyName} (v : m.kind.Carrier) (h : m ≠ n) :
    (p.set m v).get n = p.get n := by
  cases m <;> cases n <;> (try exact absurd rfl h) <;> rfl

@[simp] theorem headers_set (p : Properties) (n : PropertyName) (v : n.kind.Carrier) :
    (p.set n v).headers = p.headers := by
  cases n <;> rfl

theorem ext_get {p q : Properties} (h : ∀ n, p.get n = q.get n) (hh : p.headers = q.headers) :
    p = q := by
  obtain ⟨⟩ := p
  obtain ⟨⟩ := q
  simp only [Properties.mk.injEq]
  exact ⟨h .contentType, h .contentEncoding, hh, h .deliveryMode, h .priority, h .correlationId,
    h .replyTo, h .expiration, h .messageId, h .timestamp, h .type, h .userId, h .appId,
    h .clusterId⟩

/-- Sets the property with a spelling to a JSON value, coerced to its kind. -/
def assign (p : Properties) (name : String) (value : Json.Value) : Except Failure Properties :=
  match PropertyName.ofSpelling? name with
  | none => .error (.unknownProperty name)
  | some n =>
    match n.kind.read value with
    | .ok v => .ok (p.set n v)
    | .error fault => .error (.invalidPropertyValue name fault)

/-- Assigns in order; an assignment that fails leaves the properties as they are. -/
def assignAll (p : Properties) (writes : List (String × Json.Value)) : Properties :=
  writes.foldl (fun p w => (p.assign w.1 w.2).toOption.getD p) p

/-- Puts headers in place, unless there are none. -/
def withHeaders (p : Properties) (headers : Table FieldValue) : Properties :=
  if headers.entries.isEmpty then p else { p with headers := some headers }

end Properties

/-- One step in the making of message properties. -/
inductive Assignment where
  | property (name : String) (value : Json.Value)
  | header (name : String) (value : Json.Value)

/-- Message properties in the making. -/
structure Draft where
  properties : Properties := ∅
  headers : Table FieldValue := ∅

namespace Draft

/-- Takes a step. -/
def apply (d : Draft) : Assignment → Except Failure Draft
  | .property name value => do return { d with properties := ← d.properties.assign name value }
  | .header name value =>
    return { d with headers := d.headers.insert name (FieldValue.encode value) }

/-- Takes steps in order, up to the first that fails. -/
def applyAll (d : Draft) (steps : List Assignment) : Except Failure Draft :=
  steps.foldlM apply d

/-- The finished properties. -/
def finish (d : Draft) : Properties := d.properties.withHeaders d.headers

end Draft

/-- The steps that an envelope asks for: its properties, then its headers, each in name order. -/
def Envelope.assignments (e : Envelope) : List Assignment :=
  e.properties.entries.map (fun w => .property w.1 w.2) ++
    e.headers.entries.map fun w => .header w.1 w.2

/-- The properties of an envelope's message. -/
def Envelope.assemble (e : Envelope) : Except Failure Properties := do
  return (← Draft.applyAll {} e.assignments).finish

end Courier
