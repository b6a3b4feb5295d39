import Courier.Properties

/-!
# Message bodies and messages

A body is a sequence of bytes. `Body.encode` makes it from the body argument: a string is sent as
its UTF-8 bytes, any other value as its JSON text, and there is no body for null.
`Declaration.message` is what one call of a declared method sends, computed from the declaration and
the arguments alone.
-/

namespace Courier

open Json (Value)

/-- A body as it goes on the wire. -/
abbrev Body := ByteArray

/-- How body arguments become bodies. -/
structure Converter where
  convert : Value → Except Cause Body
  /-- Whether the conversions are reported. -/
  reported : Bool

/-- The body of a value: a string as it is, any other value but null as its JSON text. -/
def Body.encode : Value → Except Cause Body
  | .null => .error .noBodyValue
  | .string s => .ok s.toUTF8
  | v => .ok v.text.toUTF8

/-- Refuses every value. -/
def Body.refuse (v : Value) : Except Cause Body := .error (.cannotEncode v)

/-- The text of a body, if it is UTF-8. -/
def Body.text? (b : Body) : Option String := String.fromUTF8? b

@[simp] theorem Body.text?_toUTF8 (s : String) : Body.text? s.toUTF8 = some s :=
  dif_pos s.isValidUTF8

/-- A message as it is handed to a channel. -/
structure Message where
  exchange : String
  routingKey : String
  properties : Properties
  body : Body

/-- What is left to do for a call once its properties are built: convert the body and publish. -/
structure Job where
  envelope : Envelope
  properties : Properties
  /-- The body argument; null where it was not given. -/
  content : Value
  returns : Returns
  converter : Converter

/-- The message of a job, or the failure of its conversion. -/
def Job.message (j : Job) : Except Failure Message :=
  match j.converter.convert j.content with
  | .ok body => .ok ⟨j.envelope.exchange, j.envelope.routingKey, j.properties, body⟩
  | .error cause => .error
      (.bodyConversion j.envelope.bodyArgument j.envelope.exchange j.envelope.routingKey cause)

/-- The body argument of an envelope's call; null where it was not given. -/
def Envelope.content (e : Envelope) (args : Arguments) : Value :=
  (args.get? e.bodyArgument).getD .null

/-- The job of an envelope with built properties. -/
def Envelope.job (e : Envelope) (properties : Properties) (args : Arguments) (returns : Returns)
    (converter : Converter) : Job :=
  ⟨e, properties, e.content args, returns, converter⟩

/-- The job of a call of a declared method. -/
def Declaration.job (d : Declaration) (args : Arguments) (converter : Converter) :
    Except Failure Job := do
  let e ← d.envelope args
  return e.job (← e.assemble) args d.returns converter

/-- The message of a call of a declared method. -/
def Declaration.message (d : Declaration) (args : Arguments) (converter : Converter) :
    Except Failure Message := do
  (← d.job args converter).message

end Courier
