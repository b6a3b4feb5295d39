import Courier.Table
import Courier.Binary64

/-!
# JSON values

The values that arguments, headers, properties and message bodies are made of. An integer within
64 bits is kept as an integer and every other number is a binary64 number, so `1` and `1.0` are
different values. The members of an object are kept in ascending order of names, each name once:
`Value.Ordered` says so at every depth.
-/

namespace Courier.Json

/-- An integer that a JSON number carries exactly: from -2^63 to 2^64 - 1. -/
structure Integer where
  val : Int
  lower : -0x8000000000000000 ≤ val
  upper : val < 0x10000000000000000
deriving DecidableEq

/-- Integers with the same value are the same. -/
theorem Integer.eq_of_val {m n : Integer} (h : m.val = n.val) : m = n := by
  cases m
  cases h
  rfl

/-- A JSON number. -/
inductive Number where
  | integer (n : Integer)
  | double (x : Binary64)
deriving DecidableEq

/-- A JSON value. -/
inductive Value where
  | null
  | bool (b : Bool)
  | number (n : Number)
  | string (s : String)
  | array (items : List Value)
  | object (members : List (String × Value))

instance : Inhabited Value := ⟨.null⟩

/-- The integer `n`, if it is within 64 bits. -/
def Integer.ofInt? (n : Int) : Option Integer :=
  if h : -0x8000000000000000 ≤ n ∧ n < 0x10000000000000000 then some ⟨n, h.1, h.2⟩ else none

/-- The integer of a 64-bit word. -/
def Integer.ofWord (n : UInt64) : Integer :=
  ⟨n.toNat, by omega, by have := n.toNat_lt; omega⟩

/-- An integer as an unsigned word, unless it is negative. -/
def Integer.word? (n : Integer) : Option UInt64 :=
  if 0 ≤ n.val then some (UInt64.ofNat n.val.toNat) else none

namespace Value

/-- The value of an integer. -/
def integer (n : Integer) : Value := .number (.integer n)

/-- The object with the members of a table. -/
def ofTable (t : Table Value) : Value := .object t.entries

/-- The object written member by member, a later member replacing an earlier one of its name. -/
def ofMembers (members : List (String × Value)) : Value := ofTable (Table.ofList members)

/-- The text of a string value. -/
def string? : Value → Option String
  | .string s => some s
  | _ => none

theorem string?_eq_some_iff {v : Value} {s : String} : v.string? = some s ↔ v = .string s := by
  cases v <;> simp [string?]

/-- The member of an object with a name. -/
def member? (name : String) : Value → Option Value
  | .object members => Table.find? name members
  | _ => none

/-- Equal numbers of one kind: an integer never equals a binary64 number, and both zeros are
equal. -/
def sameNumber : Number → Number → Bool
  | .integer n, .integer m => n == m
  | .double x, .double y => x.sameNumber y
  | _, _ => false

mutual

/-- Equality of values, with numbers compared by `sameNumber`. -/
def same : Value → Value → Bool
  | .null, .null => true
  | .bool a, .bool b => a == b
  | .number n, .number m => sameNumber n m
  | .string s, .string t => s == t
  | .array xs, .array ys => sameItems xs ys
  | .object ms, .object ns => sameMembers ms ns
  | _, _ => false

/-- Equality of arrays, item by item. -/
def sameItems : List Value → List Value → Bool
  | [], [] => true
  | x :: xs, y :: ys => same x y && sameItems xs ys
  | _, _ => false

/-- Equality of objects, member by member. -/
def sameMembers : List (String × Value) → List (String × Value) → Bool
  | [], [] => true
  | (k, x) :: ms, (l, y) :: ns => k == l && same x y && sameMembers ms ns
  | _, _ => false

end

mutual

/-- At every depth the members of an object are in strictly ascending order of names. -/
def Ordered : Value → Prop
  | .array items => OrderedItems items
  | .object members => (members.Pairwise fun a b => a.1 < b.1) ∧ OrderedMembers members
  | _ => True

/-- Every item is ordered. -/
def OrderedItems : List Value → Prop
  | [] => True
  | v :: rest => v.Ordered ∧ OrderedItems rest

/-- The value of every member is ordered. -/
def OrderedMembers : List (String × Value) → Prop
  | [] => True
  | (_, v) :: rest => v.Ordered ∧ OrderedMembers rest

end

end Value

end Courier.Json
