/-!
# Hexadecimal digits

`Hex.digits` writes a number with a fixed count of lowercase digits; `Hex.value?` reads digits of
either case.
-/

namespace Courier.Hex

/-- The value of a hexadecimal digit of either case. -/
def digit? (c : Char) : Option Nat :=
  if '0' ≤ c ∧ c ≤ '9' then some (c.toNat - '0'.toNat)
  else if 'a' ≤ c ∧ c ≤ 'f' then some (c.toNat - 'a'.toNat + 10)
  else if 'A' ≤ c ∧ c ≤ 'F' then some (c.toNat - 'A'.toNat + 10)
  else none

/-- The number that digits denote after those already read. -/
def valueFrom? (high : Nat) : List Char → Option Nat
  | [] => some high
  | c :: rest =>
    match digit? c with
    | some d => valueFrom? (high * 16 + d) rest
    | none => none

/-- The number that digits denote. -/
def value? (cs : List Char) : Option Nat := valueFrom? 0 cs

/-- The last `count` lowercase digits of a number. -/
def digits (count n : Nat) : List Char :=
  match count with
  | 0 => []
  | count + 1 => digits count (n / 16) ++ [Nat.digitChar (n % 16)]

theorem digit?_digitChar {d : Nat} (h : d < 16) : digit? (Nat.digitChar d) = some d :=
  (by decide : ∀ d < 16, digit? (Nat.digitChar d) = some d) d h

@[simp] theorem length_digits (count n : Nat) : (digits count n).length = count := by
  induction count generalizing n with
  | zero => rfl
  | succ count ih => simp [digits, ih]

theorem valueFrom?_append (high : Nat) (cs ds : List Char) :
    valueFrom? high (cs ++ ds) = (valueFrom? high cs).bind (valueFrom? · ds) := by
  induction cs generalizing high with
  | nil => rfl
  | cons c rest ih =>
    rw [List.cons_append, valueFrom?, valueFrom?]
    cases digit? c with
    | none => rfl
    | some d => exact ih _

/-- What is written reads back. -/
theorem value?_digits {count n : Nat} (h : n < 1 <<< (4 * count)) :
    value? (digits count n) = some n := by
  induction count generalizing n with
  | zero =>
    obtain rfl : n = 0 := Nat.lt_one_iff.1 h
    rfl
  | succ count ih =>
    have hq : n / 16 < 1 <<< (4 * count) := by
      rw [Nat.div_lt_iff_lt_mul (by omega)]
      rwa [Nat.mul_succ, Nat.shiftLeft_add, Nat.shiftLeft_eq _ 4] at h
    have := ih hq
    unfold value? at this ⊢
    rw [digits, valueFrom?_append, this]
    simp only [Option.bind_some, valueFrom?, digit?_digitChar (Nat.mod_lt n (by omega : 16 > 0))]
    congr 1
    omega

end Courier.Hex
