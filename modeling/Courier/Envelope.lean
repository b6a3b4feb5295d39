import Courier.Declaration
import Courier.Failure

/-!
# Envelopes

What a declaration and the arguments of one call say about a message, before any property is
coerced: `Declaration.envelope`. Headers and properties are lists of writes, static entries first
and then the parameters in order, and the last write of a name stands. The failures come in a fixed
order: the routing key, the body argument, then the first write to an unknown property.
-/

namespace Courier

open Json (Value)

/-- The arguments of a call, by parameter name. -/
abbrev Arguments := Table Value

/-- Where a message goes and what it carries, with its property values as they were given. -/
structure Envelope where
  exchange : String
  routingKey : String
  properties : Table Value
  headers : Table Value
  /-- The name of the argument that is the body. -/
  bodyArgument : String

/-- Whether an argument counts as given: not null and not the empty string. -/
def isPresent : Value → Bool
  | .null => false
  | .string s => s ≠ ""
  | _ => true

/-- The argument of a parameter, if it counts as given. -/
def Arguments.present? (args : Arguments) (p : Parameter) : Option Value :=
  (args.get? p.name).filter isPresent

namespace Declaration

/-- The routing key: the method's own, or else the one that the first parameter with a routing key
binding gives. A parameter's key may not be empty, and no later parameter makes up for it. -/
def routingKey? (d : Declaration) (args : Arguments) : Option String :=
  match d.routingKey with
  | some key => some key
  | none =>
    (d.parameters.find? fun p => p.routingBinding?.isSome).bind fun p =>
      match p.routingBinding? with
      | some (some fixed) => nonEmpty? fixed
      | _ => ((args.get? p.name).bind Value.string?).bind nonEmpty?

/-- The body: the first parameter marked as such, or else the first that is bound to nothing. -/
def bodyParameter? (d : Declaration) : Option Parameter :=
  (d.parameters.find? (·.isBody)).or (d.parameters.find? (·.isUnbound))

/-- The header writes of a call, in order. -/
def headerWrites (d : Declaration) (args : Arguments) : List (String × Value) :=
  d.headers.filterMap Entry.write? ++
    d.parameters.filterMap fun p => do return (← p.headerName?, ← args.present? p)

/-- The property writes of a call, in order. -/
def propertyWrites (d : Declaration) (args : Arguments) : List (String × Value) :=
  d.properties.filterMap Entry.write? ++
    d.parameters.filterMap fun p => do return (← p.propertyName?, ← args.present? p)

/-- Whether a write goes to no property. -/
def isUnknown (write : String × Value) : Bool := (PropertyName.ofSpelling? write.1).isNone

/-- The envelope of a call. -/
def envelope (d : Declaration) (args : Arguments) : Except Failure Envelope :=
  match d.routingKey? args, d.bodyParameter?, (d.propertyWrites args).find? isUnknown with
  | none, _, _ => .error (.missingRoutingKey d.method)
  | some _, none, _ => .error (.missingBodyArgument d.method)
  | some _, some _, some (name, _) => .error (.unknownProperty name)
  | some routingKey, some body, none => .ok {
      exchange := d.exchange.getD ""
      routingKey
      properties := Table.ofList (d.propertyWrites args)
      headers := Table.ofList (d.headerWrites args)
      bodyArgument := body.name }

end Declaration

end Courier
