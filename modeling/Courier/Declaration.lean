import Courier.Json.Value

/-!
# Declared calls

A declaration says how a call of a method becomes a message: the exchange, where the routing key
comes from, which headers and properties it sets, and which parameters feed them. It is written once
and only read afterwards.
-/

namespace Courier

/-- What a declared call gives its caller: nothing, or the broker's confirmation. -/
inductive Returns where
  | nothing
  | confirmation
deriving DecidableEq, Inhabited

/-- A header or property that every call of a method sets. -/
structure Entry where
  name : Option String
  value : Option String
deriving DecidableEq

/-- What a parameter is used for. -/
inductive Binding where
  | body
  /-- The routing key: a fixed text, or else the argument. -/
  | routingKey (fixed : Option String)
  | header (name : Option String)
  | property (name : Option String)
deriving DecidableEq

/-- A parameter of a declared method. -/
structure Parameter where
  name : String
  bindings : List Binding
deriving DecidableEq

/-- How calls of one method become messages. -/
structure Declaration where
  method : String
  exchange : Option String
  routingKey : Option String
  headers : List Entry
  properties : List Entry
  parameters : List Parameter
  returns : Returns
deriving DecidableEq

/-- The declaration of a method that binds nothing. -/
def Declaration.ofMethod (method : String) : Declaration :=
  ⟨method, none, none, [], [], [], .nothing⟩

/-- The declarations in force, by method; a later declaration of a method replaces the earlier. -/
abbrev Declarations := Table Declaration

/-- Declares a method. -/
def Declarations.declare (ds : Declarations) (d : Declaration) : Declarations :=
  ds.insert d.method d

/-- The entry's name, or its value where no name is given. -/
def Entry.effectiveName? (e : Entry) : Option String := e.name.or e.value

/-- A text that is not empty. -/
def nonEmpty? (s : String) : Option String := if s = "" then none else some s

/-- What an entry writes: nothing, unless its effective name and its value are both non-empty. -/
def Entry.write? (e : Entry) : Option (String × Json.Value) := do
  let name ← e.effectiveName?.bind nonEmpty?
  let value ← e.value.bind nonEmpty?
  return (name, .string value)

namespace Parameter

/-- Whether the parameter is marked as the message body. -/
def isBody (p : Parameter) : Bool := p.bindings.contains .body

/-- Whether the parameter is bound to nothing. -/
def isUnbound (p : Parameter) : Bool := p.bindings.isEmpty

/-- The parameter's first routing key binding. -/
def routingBinding? (p : Parameter) : Option (Option String) :=
  p.bindings.findSome? fun
    | .routingKey fixed => some fixed
    | _ => none

/-- A binding's own name, or the parameter's where the binding has none or an empty one. -/
def boundName (p : Parameter) (name : Option String) : String :=
  (name.bind nonEmpty?).getD p.name

/-- The name of the header that the parameter sets, by its first header binding. -/
def headerName? (p : Parameter) : Option String :=
  p.bindings.findSome? fun
    | .header name => some (p.boundName name)
    | _ => none

/-- The name of the property that the parameter sets, by its first property binding. -/
def propertyName? (p : Parameter) : Option String :=
  p.bindings.findSome? fun
    | .property name => some (p.boundName name)
    | _ => none

end Parameter

end Courier
