import Courier.Binary64

/-!
# Shortest decimals

The decimal of a magnitude is the one with the fewest digits among those nearest to it, that is
between the midpoints to its two neighbours; of several such the nearest, and of two equally near
the even one. An end of that interval belongs to it when the rank is even. The search asks, for
one digit, two digits and so on, whether one of the two neighbours of the value on that decimal
grid lies in the interval.
-/

namespace Courier

/-- The value `digits * 10^exponent`. -/
structure Decimal where
  digits : Nat
  exponent : Int
deriving DecidableEq

namespace Decimal

/-- Compares twice a decimal with `n` units of 2^-1074, exactly. -/
def compareDouble (d : Decimal) (n : Nat) : Ordering :=
  compare (2 * d.digits * Nat.pow 10 d.exponent.toNat * Binary64.one)
    (n * Nat.pow 10 (-d.exponent).toNat)

/-- Moves trailing zeros of the digits into the exponent, at most `fuel` of them. -/
def strip (fuel : Nat) (d : Decimal) : Decimal :=
  match fuel with
  | 0 => d
  | fuel + 1 =>
    if d.digits % 10 = 0 then strip fuel ⟨d.digits / 10, d.exponent + 1⟩ else d

end Decimal

namespace Binary64

/-- Whether a decimal reads as the magnitude of this rank. -/
def readsAs (rank : Nat) (d : Decimal) : Bool :=
  let low := d.compareDouble (units (rank - 1) + units rank)
  let high := d.compareDouble (units rank + units (rank + 1))
  (low == .gt || (rank % 2 == 0 && low == .eq)) && (high == .lt || (rank % 2 == 0 && high == .eq))

/-- The least `k` such that the magnitude is below 10^k, for a positive rank. -/
def decimalScale (rank : Nat) : Int :=
  let below (k : Int) : Bool := (Decimal.mk 1 k).compareDouble (2 * units rank) == .gt
  let k := ((units rank).log2 - 1074 : Int) * 30103 / 100000
  if below k then k else if below (k + 1) then k + 1 else k + 2

/-- How many whole steps of 10^exponent are in the magnitude. -/
def floorOn (rank : Nat) (exponent : Int) : Nat :=
  units rank * Nat.pow 10 (-exponent).toNat / (one * Nat.pow 10 exponent.toNat)

/-- The nearer of the two decimals on the grid 10^exponent around the magnitude that read as it. -/
def onGrid? (rank : Nat) (exponent : Int) : Option Decimal :=
  let d := floorOn rank exponent
  let low := readsAs rank ⟨d, exponent⟩
  let high := readsAs rank ⟨d + 1, exponent⟩
  if low && high then
    let middle := (Decimal.mk (2 * d + 1) exponent).compareDouble (4 * units rank)
    if middle = .gt then some ⟨d, exponent⟩
    else if middle = .lt then some ⟨d + 1, exponent⟩
    else some ⟨d + d % 2, exponent⟩
  else if low then some ⟨d, exponent⟩
  else if high then some ⟨d + 1, exponent⟩
  else none

/-- The shortest decimal that reads as the magnitude. Seventeen digits are enough for every
magnitude; the exact value stands behind them, so that no answer is a guess. -/
def shortest (rank : Nat) : Decimal :=
  if rank = 0 then ⟨0, 0⟩
  else
    let k := decimalScale rank
    match (List.range 17).findSome? fun n => onGrid? rank (k - (n + 1 : Nat)) with
    | some d => d.strip 17
    | none => ⟨units rank * Nat.pow 5 1074, -1074⟩

end Binary64

end Courier
