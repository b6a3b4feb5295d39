import Courier.Hex
import Courier.Json.Document

/-!
# Reading JSON text

`Document.read?` reads a text that is one JSON document with nothing but blanks around it. Each
function takes the characters from a point on and gives what it read and the characters left. The
two mutual scanners of values count down `fuel`; twice the length of the text is always enough,
because every two nested calls pass one character.
-/

namespace Courier.Json

/-- What stands between tokens. -/
def isBlank (c : Char) : Bool := c == ' ' || c == '\t' || c == '\n' || c == '\r'

/-- The characters from the first that is no blank. -/
def skipBlanks (cs : List Char) : List Char := cs.dropWhile isBlank

/-- Passes over the characters of a word. -/
def expect : List Char → List Char → Option (List Char)
  | [], cs => some cs
  | w :: word, c :: cs => if w = c then expect word cs else none
  | _ :: _, [] => none

/-- The character that a letter after a backslash stands for. -/
def escaped? (c : Char) : Option Char :=
  if c = '"' ∨ c = '\\' ∨ c = '/' then some c
  else if c = 'b' then some '\x08'
  else if c = 'f' then some '\x0c'
  else if c = 'n' then some '\n'
  else if c = 'r' then some '\r'
  else if c = 't' then some '\t'
  else none

/-- The rest of a string after its opening quote. -/
def readPieces : List Char → Option (List Piece × List Char)
  | [] => none
  | '"' :: rest => some ([], rest)
  | '\\' :: 'u' :: a :: b :: c :: d :: rest =>
    match Hex.value? [a, b, c, d], readPieces rest with
    | some n, some (ps, rest) => some (.unit n :: ps, rest)
    | _, _ => none
  | '\\' :: c :: rest =>
    match escaped? c, readPieces rest with
    | some e, some (ps, rest) => some (.char e :: ps, rest)
    | _, _ => none
  | c :: rest =>
    if c.toNat < 32 ∨ c = '\\' then none
    else (readPieces rest).map fun (ps, rest) => (.char c :: ps, rest)

/-- The digits at a point, of which there must be one. -/
def readDigits (cs : List Char) : Option (List Char × List Char) :=
  match cs.takeWhile Char.isDigit with
  | [] => none
  | ds => some (ds, cs.dropWhile Char.isDigit)

/-- The fraction of a number, if there is a point. -/
def readFraction : List Char → Option (Option (List Char) × List Char)
  | '.' :: rest => (readDigits rest).map fun (ds, rest) => (some ds, rest)
  | cs => some (none, cs)

/-- The exponent of a number, if there is one. -/
def readExponent : List Char → Option (Option (Bool × List Char) × List Char)
  | c :: rest =>
    if c = 'e' ∨ c = 'E' then
      match rest with
      | '-' :: rest => (readDigits rest).map fun (ds, rest) => (some (true, ds), rest)
      | '+' :: rest => (readDigits rest).map fun (ds, rest) => (some (false, ds), rest)
      | rest => (readDigits rest).map fun (ds, rest) => (some (false, ds), rest)
    else some (none, c :: rest)
  | [] => some (none, [])

/-- A number after its sign. Its whole part has no leading zero. -/
def readNumeral (negative : Bool) (cs : List Char) : Option (Numeral × List Char) := do
  let (whole, rest) ← readDigits cs
  if whole.head? = some '0' ∧ whole.length ≠ 1 then none
  let (fraction, rest) ← readFraction rest
  let (exponent, rest) ← readExponent rest
  return (⟨negative, whole, fraction, exponent⟩, rest)

mutual

/-- The document at a point. -/
def readDocument (fuel : Nat) (cs : List Char) : Option (Document × List Char) :=
  match fuel with
  | 0 => none
  | fuel + 1 =>
    match skipBlanks cs with
    | 'n' :: rest => (expect ['u', 'l', 'l'] rest).map fun rest => (.null, rest)
    | 't' :: rest => (expect ['r', 'u', 'e'] rest).map fun rest => (.bool true, rest)
    | 'f' :: rest => (expect ['a', 'l', 's', 'e'] rest).map fun rest => (.bool false, rest)
    | '"' :: rest => (readPieces rest).map fun (ps, rest) => (.string ps, rest)
    | '[' :: rest =>
      match skipBlanks rest with
      | ']' :: rest => some (.array [], rest)
      | rest => (readItems fuel rest).map fun (items, rest) => (.array items, rest)
    | '{' :: rest =>
      match skipBlanks rest with
      | '}' :: rest => some (.object [], rest)
      | rest => (readMembers fuel rest).map fun (members, rest) => (.object members, rest)
    | '-' :: rest => (readNumeral true rest).map fun (n, rest) => (.number n, rest)
    | rest => (readNumeral false rest).map fun (n, rest) => (.number n, rest)

/-- The items of an array from the first on, up to its closing bracket. -/
def readItems (fuel : Nat) (cs : List Char) : Option (List Document × List Char) :=
  match fuel with
  | 0 => none
  | fuel + 1 =>
    match readDocument fuel cs with
    | none => none
    | some (d, rest) =>
      match skipBlanks rest with
      | ']' :: rest => some ([d], rest)
      | ',' :: rest => (readItems fuel rest).map fun (ds, rest) => (d :: ds, rest)
      | _ => none

/-- The members of an object from the first on, up to its closing brace. -/
def readMembers (fuel : Nat) (cs : List Char) : Option (List (List Piece × Document) × List Char) :=
  match fuel with
  | 0 => none
  | fuel + 1 =>
    match skipBlanks cs with
    | '"' :: rest =>
      match readPieces rest with
      | none => none
      | some (name, rest) =>
        match skipBlanks rest with
        | ':' :: rest =>
          match readDocument fuel rest with
          | none => none
          | some (d, rest) =>
            match skipBlanks rest with
            | '}' :: rest => some ([(name, d)], rest)
            | ',' :: rest => (readMembers fuel rest).map fun (ms, rest) => ((name, d) :: ms, rest)
            | _ => none
        | _ => none
    | _ => none

end

/-- The document that characters write, with nothing but blanks around it. -/
def Document.ofChars? (cs : List Char) : Option Document :=
  match readDocument (2 * cs.length + 2) cs with
  | some (d, rest) => if (skipBlanks rest).isEmpty then some d else none
  | none => none

/-- The document that a text writes, with nothing but blanks around it. -/
def Document.read? (text : String) : Option Document := Document.ofChars? text.toList

/-- The value that a text writes. -/
def Value.read? (text : String) : Option Value := (Document.read? text).bind Document.value?

end Courier.Json
