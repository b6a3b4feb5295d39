import Courier.Json.Text

/-!
# Field values

The values of message headers on the wire, with `FieldValue.encode` from JSON values and
`FieldValue.decode` back. An integer above 2^63 - 1 has no place among the integers of the wire and
is written as the string of its decimal digits; nothing else is changed.
-/

namespace Courier

/-- A field value, of the types that JSON values need. -/
inductive FieldValue where
  | void
  | boolean (b : Bool)
  | longLongInt (n : Int64)
  | double (x : Binary64)
  | longString (s : String)
  | array (items : List FieldValue)
  | table (entries : List (String × FieldValue))

instance : Inhabited FieldValue := ⟨.void⟩

namespace FieldValue

open Json (Value)

/-- A number as a field value. -/
def ofNumber : Json.Number → FieldValue
  | .integer n =>
    if n.val < 0x8000000000000000 then .longLongInt (Int64.ofInt n.val)
    else .longString (String.ofList (Json.integerText n.val))
  | .double x => .double x

mutual

/-- The field value of a JSON value. -/
def encode : Value → FieldValue
  | .null => .void
  | .bool b => .boolean b
  | .number n => ofNumber n
  | .string s => .longString s
  | .array items => .array (encodeItems items)
  | .object members => .table (encodeMembers members)

/-- The field values of items, in order. -/
def encodeItems : List Value → List FieldValue
  | [] => []
  | v :: rest => encode v :: encodeItems rest

/-- The field values of members, in order. -/
def encodeMembers : List (String × Value) → List (String × FieldValue)
  | [] => []
  | (k, v) :: rest => (k, encode v) :: encodeMembers rest

end

/-- The integer of a 64-bit field. -/
def toInteger (n : Int64) : Json.Integer :=
  ⟨n.toInt, n.le_toInt, by have := n.toInt_lt; omega⟩

mutual

/-- The JSON value that a field value stands for. -/
def decode : FieldValue → Value
  | .void => .null
  | .boolean b => .bool b
  | .longLongInt n => .integer (toInteger n)
  | .double x => .number (.double x)
  | .longString s => .string s
  | .array items => .array (decodeItems items)
  | .table entries => .object (decodeEntries entries)

/-- The values of items, in order. -/
def decodeItems : List FieldValue → List Value
  | [] => []
  | f :: rest => decode f :: decodeItems rest

/-- The values of entries, in order. -/
def decodeEntries : List (String × FieldValue) → List (String × Value)
  | [] => []
  | (k, f) :: rest => (k, decode f) :: decodeEntries rest

end

end FieldValue

end Courier
