import Courier.Digits
import Courier.Json.Value

/-!
# JSON documents

A document is a JSON text as written: numbers by their numerals, strings by their pieces, and
members in order and possibly repeated. `Document.value?` is the value it denotes, if it denotes
one: a numeral may be too large, and half of a surrogate pair stands for no character. Keeping the
two apart lets a reader pass over a part of a document without valuing it.
-/

namespace Courier.Json

/-- A number as written. -/
structure Numeral where
  negative : Bool
  /-- The digits before the point. -/
  whole : List Char
  /-- The digits after the point, if there is one. -/
  fraction : Option (List Char)
  /-- The exponent, if there is one: whether it is negative, and its digits. -/
  exponent : Option (Bool × List Char)

/-- Part of a string as written. -/
inductive Piece where
  | char (c : Char)
  /-- A 16-bit unit, written by its four hexadecimal digits. -/
  | unit (n : Nat)

/-- A JSON text as written. -/
inductive Document where
  | null
  | bool (b : Bool)
  | number (n : Numeral)
  | string (pieces : List Piece)
  | array (items : List Document)
  | object (members : List (List Piece × Document))

namespace Numeral

/-- Takes digits into a significand below 2^64, and counts the digits it has no room for. -/
def absorbWhole (significand : Nat) : List Char → Nat × Nat
  | [] => (significand, 0)
  | d :: rest =>
    let next := Nat.ofDigitChars 10 [d] significand
    if next < 0x10000000000000000 then absorbWhole next rest else (significand, rest.length + 1)

/-- Takes digits into a significand below 2^64 while there is room, and counts those taken. -/
def absorbFraction (significand : Nat) : List Char → Nat × Nat
  | [] => (significand, 0)
  | d :: rest =>
    let next := Nat.ofDigitChars 10 [d] significand
    if next < 0x10000000000000000 then
      let (s, n) := absorbFraction next rest
      (s, n + 1)
    else (significand, 0)

/-- The binary64 number of a numeral, from as many leading digits as 64 bits hold. -/
def double? (n : Numeral) : Option Binary64 :=
  let (whole, dropped) := absorbWhole 0 n.whole
  let (significand, taken) := absorbFraction whole (n.fraction.getD [])
  let shift : Int := match n.exponent with
    | none => 0
    | some (negative, ds) => if negative then -(natural ds : Int) else natural ds
  Binary64.ofDecimal? n.negative significand (dropped - taken + shift)

/-- The integer of a numeral. A negative zero is no integer. -/
def integer? (n : Numeral) : Option Integer :=
  match n.fraction, n.exponent with
  | none, none =>
    if n.negative then if natural n.whole = 0 then none else Integer.ofInt? (-natural n.whole)
    else Integer.ofInt? (natural n.whole)
  | _, _ => none

/-- The number of a numeral: an integer where that is exact, else a binary64 number, if it is
not too large. -/
def number? (n : Numeral) : Option Number :=
  match n.integer? with
  | some i => some (.integer i)
  | none => n.double?.map .double

end Numeral

/-- Whether a 16-bit unit opens a surrogate pair. -/
def opensPair (n : Nat) : Bool := 0xD800 ≤ n && n < 0xDC00

/-- Whether a 16-bit unit closes a surrogate pair. -/
def closesPair (n : Nat) : Bool := 0xDC00 ≤ n && n < 0xE000

/-- The characters that pieces stand for, if every surrogate has its partner next to it. -/
def decodePieces : List Piece → Option (List Char)
  | [] => some []
  | .char c :: rest => (decodePieces rest).map (c :: ·)
  | .unit n :: rest =>
    if opensPair n then
      match rest with
      | .unit m :: rest =>
        if closesPair m then
          (decodePieces rest).map
            (Char.ofNat (0x10000 + (n - 0xD800) * 0x400 + (m - 0xDC00)) :: ·)
        else none
      | _ => none
    else if closesPair n then none
    else (decodePieces rest).map (Char.ofNat n :: ·)

/-- The string that pieces stand for. -/
def pieceString? (pieces : List Piece) : Option String :=
  (decodePieces pieces).map String.ofList

namespace Document

mutual

/-- The value that a document denotes. Of members with one name the last counts. -/
def value? : Document → Option Value
  | .null => some .null
  | .bool b => some (.bool b)
  | .number n => n.number?.map .number
  | .string pieces => (pieceString? pieces).map .string
  | .array items => (itemValues? items).map .array
  | .object members => (memberValues? members).map Value.ofMembers

/-- The values of items, in order. -/
def itemValues? : List Document → Option (List Value)
  | [] => some []
  | d :: rest =>
    match value? d, itemValues? rest with
    | some v, some vs => some (v :: vs)
    | _, _ => none

/-- The names and values of members, in order. -/
def memberValues? : List (List Piece × Document) → Option (List (String × Value))
  | [] => some []
  | (k, d) :: rest =>
    match pieceString? k, value? d, memberValues? rest with
    | some k, some v, some ms => some ((k, v) :: ms)
    | _, _, _ => none

end

mutual

/-- How deep arrays and objects are nested. -/
def depth : Document → Nat
  | .array items => itemsDepth items + 1
  | .object members => membersDepth members + 1
  | _ => 0

/-- The depth of the deepest item. -/
def itemsDepth : List Document → Nat
  | [] => 0
  | d :: rest => max d.depth (itemsDepth rest)

/-- The depth of the deepest member. -/
def membersDepth : List (List Piece × Document) → Nat
  | [] => 0
  | (_, d) :: rest => max d.depth (membersDepth rest)

end

end Document

end Courier.Json
