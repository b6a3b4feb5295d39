/-!
# Decimal digits

Natural numbers in decimal: `digits` writes one, `natural` reads digits, and `natural?` also checks
that there are digits and nothing else.
-/

namespace Courier

/-- The decimal digits of a natural number. -/
def digits (n : Nat) : List Char := Nat.toDigits 10 n

/-- A natural number in decimal. -/
def decimal (n : Nat) : String := String.ofList (digits n)

/-- The number that decimal digits denote. -/
def natural (cs : List Char) : Nat := Nat.ofDigitChars 10 cs 0

/-- The number that characters denote in decimal, if there are any and all are digits. -/
def natural? (cs : List Char) : Option Nat :=
  if cs ≠ [] ∧ cs.all Char.isDigit then some (natural cs) else none

@[simp] theorem natural_digits (n : Nat) : natural (digits n) = n :=
  Nat.ofDigitChars_toDigits (by decide) (by decide)

theorem isDigit_of_mem_digits {c : Char} {n : Nat} (h : c ∈ digits n) : c.isDigit = true :=
  Nat.isDigit_of_mem_toDigits (by decide) (by decide) h

theorem digits_ne_nil (n : Nat) : digits n ≠ [] := Nat.toDigits_ne_nil

@[simp] theorem natural?_digits (n : Nat) : natural? (digits n) = some n := by
  have h : (digits n).all Char.isDigit = true :=
    List.all_eq_true.2 fun _ hc => isDigit_of_mem_digits hc
  rw [natural?, if_pos ⟨digits_ne_nil n, h⟩, natural_digits]

end Courier
