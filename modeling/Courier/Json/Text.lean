import Courier.Binary64.Shortest
import Courier.Digits
import Courier.Json.Value

/-!
# Compact JSON text

`Value.text` writes a value without blanks. In strings only the quote, the backslash and the
characters below U+0020 are escaped. Integers are written in full; a binary64 number is written
with the fewest digits that identify it, laid out by `doubleLayout`.
-/

namespace Courier.Json

/-- Which decimal exponents are written positionally; the others take the form `d.ddde+x`. -/
structure Layout where
  lowest : Int
  highest : Int
  /-- What follows a positional number without a fraction. -/
  wholeMark : List Char

/-- From 0.00001 up to just below 10^16 numbers are written positionally, always with a point. -/
def doubleLayout : Layout := ⟨-5, 15, ['.', '0']⟩

/-- An integer in decimal. -/
def integerText (n : Int) : List Char :=
  if n < 0 then '-' :: digits n.natAbs else digits n.natAbs

/-- A positive decimal under a layout. -/
def Layout.write (l : Layout) (d : Decimal) : List Char :=
  let ds := digits d.digits
  let x := d.exponent + ds.length - 1
  if l.lowest ≤ x ∧ x ≤ l.highest then
    if 0 ≤ d.exponent then ds ++ List.replicate d.exponent.toNat '0' ++ l.wholeMark
    else if 0 ≤ x then ds.take (x.toNat + 1) ++ '.' :: ds.drop (x.toNat + 1)
    else '0' :: '.' :: List.replicate (-x - 1).toNat '0' ++ ds
  else
    let mantissa := match ds with
      | [] => []
      | [c] => [c]
      | c :: rest => c :: '.' :: rest
    mantissa ++ 'e' :: (if x < 0 then '-' else '+') :: digits x.natAbs

/-- A binary64 number. Zero keeps its sign. -/
def doubleText (x : Binary64) : List Char :=
  let magnitude := if x.isZero then '0' :: doubleLayout.wholeMark
    else doubleLayout.write (Binary64.shortest x.rank)
  if x.negative then '-' :: magnitude else magnitude

/-- A number. -/
def numberText : Number → List Char
  | .integer n => integerText n.val
  | .double x => doubleText x

/-- A character as it stands between quotes. -/
def escape (c : Char) : List Char :=
  if c = '"' then ['\\', '"']
  else if c = '\\' then ['\\', '\\']
  else if c = '\n' then ['\\', 'n']
  else if c = '\r' then ['\\', 'r']
  else if c = '\t' then ['\\', 't']
  else if c = '\x08' then ['\\', 'b']
  else if c = '\x0c' then ['\\', 'f']
  else if c.toNat < 32 then
    ['\\', 'u', '0', '0', Nat.digitChar (c.toNat / 16), Nat.digitChar (c.toNat % 16)]
  else [c]

/-- A string in quotes. -/
def quote (s : List Char) : List Char := '"' :: s.flatMap escape ++ ['"']

mutual

/-- The characters of a value's text. -/
def chars : Value → List Char
  | .null => ['n', 'u', 'l', 'l']
  | .bool true => ['t', 'r', 'u', 'e']
  | .bool false => ['f', 'a', 'l', 's', 'e']
  | .number n => numberText n
  | .string s => quote s.toList
  | .array items => '[' :: itemChars items ++ [']']
  | .object members => '{' :: memberChars members ++ ['}']

/-- Items, separated by commas. -/
def itemChars : List Value → List Char
  | [] => []
  | [v] => chars v
  | v :: rest => chars v ++ ',' :: itemChars rest

/-- Members, separated by commas. -/
def memberChars : List (String × Value) → List Char
  | [] => []
  | [(k, v)] => quote k.toList ++ ':' :: chars v
  | (k, v) :: rest => quote k.toList ++ ':' :: chars v ++ ',' :: memberChars rest

end

/-- The compact text of a value. -/
def Value.text (v : Value) : String := String.ofList (chars v)

/-- The compact text of a number. -/
def Number.text (n : Number) : String := String.ofList (numberText n)

/-- A number has the text of the value that it makes up. -/
theorem Number.text_eq (n : Number) : n.text = (Value.number n).text := rfl

/-- The text of an object whose members keep the order they are given in. -/
def textOfMembers (members : List (String × Value)) : String :=
  String.ofList ('{' :: memberChars members ++ ['}'])

end Courier.Json
