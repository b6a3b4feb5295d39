import Courier.Hex

/-!
# Universally unique identifiers

A UUID is a number of 128 bits. `Uuid.text` writes it in groups of lowercase digits joined by
hyphens; `Uuid.ofChars?` reads that form, the 32 digits without hyphens, and the hyphenated form in
braces or behind `urn:uuid:`, with digits and the name in either case.
-/

namespace Courier

/-- A UUID, as a number of 128 bits. -/
structure Uuid where
  val : Nat
  lt : val < 1 <<< 128
deriving DecidableEq

namespace Uuid

instance : Inhabited Uuid := ⟨⟨0, by decide⟩⟩

/-- The UUID of 128 random bits, marked as random by its version and variant. -/
def ofRandom (bits : Nat) : Uuid :=
  ⟨(((bits >>> 80 % 0x1000000000000) <<< 16 + 0x4000 + bits >>> 64 % 0x1000) * 2 + 1) <<< 63 +
    bits % 0x4000000000000000, by omega⟩

/-- How many digits the hyphens set apart. -/
def groups : List Nat := [8, 4, 4, 4, 12]

/-- Writes characters in groups joined by hyphens. -/
def hyphenate : List Nat → List Char → List Char
  | [], _ => []
  | [n], cs => cs.take n
  | n :: ns, cs => cs.take n ++ '-' :: hyphenate ns (cs.drop n)

/-- Takes the hyphens out from between groups. -/
def unhyphenate? : List Nat → List Char → Option (List Char)
  | [], cs => if cs.isEmpty then some [] else none
  | [n], cs => if cs.length = n then some cs else none
  | n :: ns, cs =>
    match cs.drop n with
    | '-' :: rest => (unhyphenate? ns rest).map (cs.take n ++ ·)
    | _ => none

/-- The characters of the hyphenated form. -/
def chars (u : Uuid) : List Char := hyphenate groups (Hex.digits 32 u.val)

/-- The hyphenated form. -/
def text (u : Uuid) : String := String.ofList u.chars

/-- The UUID of 32 digits. -/
def ofDigits? (cs : List Char) : Option Uuid :=
  if cs.length = 32 then
    match Hex.value? cs with
    | some n => if h : n < 1 <<< 128 then some ⟨n, h⟩ else none
    | none => none
  else none

/-- The UUID of the hyphenated form. -/
def ofHyphenated? (cs : List Char) : Option Uuid := (unhyphenate? groups cs).bind ofDigits?

/-- What stands before a UUID that is written as a name. -/
def urn : List Char := ['u', 'r', 'n', ':', 'u', 'u', 'i', 'd', ':']

/-- The UUID of any of the four forms, told apart by their length. -/
def ofChars? (cs : List Char) : Option Uuid :=
  if cs.length = 32 then ofDigits? cs
  else if cs.length = 36 then ofHyphenated? cs
  else if cs.length = 38 then
    if cs.head? = some '{' ∧ cs.getLast? = some '}' then ofHyphenated? (cs.drop 1).dropLast
    else none
  else if cs.length = 45 then
    if (cs.take 9).map Char.toLower = urn then ofHyphenated? (cs.drop 9) else none
  else none

/-- The UUID that a text writes. -/
def read? (s : String) : Option Uuid := ofChars? s.toList

end Uuid

end Courier
