import Courier.Json.Text
import Courier.WhiteSpace

/-!
# Property names and the values they take

The thirteen basic properties of a message, each known by one spelling and taking one kind of value.
`PropertyKind.read` coerces a JSON value to a kind, or says why it cannot.
-/

namespace Courier

/-- What a basic property holds. -/
inductive PropertyKind where
  | text
  | octet
  /-- Seconds since the epoch. -/
  | seconds
deriving DecidableEq

/-- A basic property of a message. -/
inductive PropertyName where
  | contentType
  | contentEncoding
  | deliveryMode
  | priority
  | correlationId
  | replyTo
  | expiration
  | messageId
  | timestamp
  | type
  | userId
  | appId
  | clusterId
deriving DecidableEq

namespace PropertyName

/-- Every property. -/
def all : List PropertyName :=
  [contentType, contentEncoding, deliveryMode, priority, correlationId, replyTo, expiration,
    messageId, timestamp, type, userId, appId, clusterId]

theorem mem_all (n : PropertyName) : n ∈ all := by cases n <;> decide

/-- The name that declarations use. -/
def spelling : PropertyName → String
  | contentType => "contentType"
  | contentEncoding => "contentEncoding"
  | deliveryMode => "deliveryMode"
  | priority => "priority"
  | correlationId => "correlationId"
  | replyTo => "replyTo"
  | expiration => "expiration"
  | messageId => "messageId"
  | timestamp => "timestamp"
  | type => "type"
  | userId => "userId"
  | appId => "appId"
  | clusterId => "clusterId"

/-- The kind of value a property takes. -/
def kind : PropertyName → PropertyKind
  | deliveryMode | priority => .octet
  | timestamp => .seconds
  | _ => .text

/-- The property with a spelling. Spellings are compared exactly. -/
def ofSpelling? (s : String) : Option PropertyName := all.find? fun n => n.spelling = s

theorem spelling_injective {m n : PropertyName} (h : m.spelling = n.spelling) : m = n :=
  (by decide : ∀ m ∈ all, ∀ n ∈ all, m.spelling = n.spelling → m = n) m (mem_all m) n (mem_all n) h

theorem ofSpelling?_eq_some_iff {s : String} {n : PropertyName} :
    ofSpelling? s = some n ↔ n.spelling = s := by
  constructor
  · exact fun h => by simpa using List.find?_some h
  · intro h
    cases hf : ofSpelling? s with
    | none => exact absurd h (by simpa using List.find?_eq_none.1 hf n (mem_all n))
    | some m =>
      have hm : m.spelling = s := by simpa using List.find?_some hf
      rw [spelling_injective (hm.trans h.symm)]

end PropertyName

/-- The type of the values of a kind. -/
abbrev PropertyKind.Carrier : PropertyKind → Type
  | .text => String
  | .octet => UInt8
  | .seconds => UInt64

/-- Why a value does not fit a property. -/
inductive ValueFault where
  | notText (got : Json.Value)
  | notInteger (got : Json.Value)
  | notSeconds (got : Json.Value)
  /-- An integer, but no octet. -/
  | outOfRange (n : UInt64)

/-- What is wrong with a value, in words. -/
def ValueFault.message : ValueFault → String
  | notText got => "expected a string, got " ++ got.text
  | notInteger got => "expected an integer, got " ++ got.text
  | notSeconds got => "expected seconds since the epoch, got " ++ got.text
  | outOfRange n => decimal n.toNat ++ " is out of range 0..=255"

/-- A natural number in decimal, which one plus sign may precede. -/
def signedNatural? : List Char → Option Nat
  | '+' :: cs => natural? cs
  | cs => natural? cs

/-- The word that a value states: a non-negative integer, or its decimal text with any white space
around it. -/
def Json.Value.word? : Json.Value → Option UInt64
  | .number (.integer n) => n.word?
  | .string s =>
    match signedNatural? (trim s.toList) with
    | some n => if n < 0x10000000000000000 then some (UInt64.ofNat n) else none
    | none => none
  | _ => none

/-- The value coerced to a kind. Numbers and truth values are taken for text as they are written. -/
def PropertyKind.read : (k : PropertyKind) → Json.Value → Except ValueFault k.Carrier
  | .text, .string s => .ok s
  | .text, .number n => .ok n.text
  | .text, .bool b => .ok (Json.Value.text (.bool b))
  | .text, v => .error (.notText v)
  | .octet, v =>
    match v.word? with
    | none => .error (.notInteger v)
    | some n => if n.toNat < 256 then .ok n.toUInt8 else .error (.outOfRange n)
  | .seconds, v =>
    match v.word? with
    | none => .error (.notSeconds v)
    | some n => .ok n

end Courier
