/-!
# Finite binary64 numbers

A finite binary64 number is a sign and the rank of its magnitude: how many smaller magnitudes there
are. Ranks are ordered as the magnitudes are, the next rank is the next representable magnitude, and
`Binary64.bits` is the sign bit followed by the rank. Every magnitude is a whole number of units of
2^-1074 (`Binary64.units`), so rounding is exact arithmetic on natural numbers. The entry points are
`Binary64.nearestRank` (to nearest, ties to even) and `Binary64.ofDecimal?`, which reads a decimal.
-/

namespace Courier

/-- A finite binary64 number. -/
structure Binary64 where
  negative : Bool
  /-- The number of magnitudes below this one. -/
  rank : Nat
  finite : rank < 2047 * 0x10000000000000
deriving DecidableEq

namespace Binary64

/-- The interchange bits: the sign bit, then the rank. -/
def bits (x : Binary64) : Nat := (if x.negative then 0x8000000000000000 else 0) + x.rank

/-- Whether the number is zero, of either sign. -/
def isZero (x : Binary64) : Bool := x.rank == 0

/-- Numeric equality, for which the two zeros are the same number. -/
def sameNumber (x y : Binary64) : Bool := x == y || (x.isZero && y.isZero)

/-- The magnitude of a rank, counted in units of 2^-1074. -/
def units (rank : Nat) : Nat :=
  if rank < 0x10000000000000 then rank
  else (0x10000000000000 + rank % 0x10000000000000) <<< (rank / 0x10000000000000 - 1)

/-- How many units make one. -/
def one : Nat := 1 <<< 1074

/-- The greatest rank whose magnitude is at most `u` units. -/
def floorRank (u : Nat) : Nat := (u.log2 - 52) * 0x10000000000000 + u >>> (u.log2 - 52)

/-- The rank nearest to `num / den` units; of two equally near ranks the even one. -/
def nearestRank (num den : Nat) : Nat :=
  let r := floorRank (num / den)
  match compare (2 * num) ((units r + units (r + 1)) * den) with
  | .lt => r
  | .gt => r + 1
  | .eq => r + r % 2

/-- The rank of 10^n, rounded. -/
def powerOfTen (n : Nat) : Nat := nearestRank (Nat.pow 10 n * one) 1

/-- The product of two magnitudes, rounded. -/
def mulRank (a b : Nat) : Nat := nearestRank (units a * units b) one

/-- The quotient of two magnitudes, rounded. -/
def divRank (a b : Nat) : Nat := nearestRank (units a * one) (units b)

/-- Divides a magnitude by 10^n, by at most 10^308 at a time. -/
def shrink (rank n : Nat) : Nat :=
  if n ≤ 308 then divRank rank (powerOfTen n)
  else if rank = 0 then 0
  else shrink (divRank rank (powerOfTen 308)) (n - 308)
termination_by n

/-- Multiplies a magnitude by 10^n; beyond 10^308 only zero stays finite. -/
def grow (rank n : Nat) : Nat :=
  if n ≤ 308 then mulRank rank (powerOfTen n)
  else if rank = 0 then 0
  else 2047 * 0x10000000000000

/-- The number with a sign and a rank, if the rank is that of a finite magnitude. -/
def ofRank? (negative : Bool) (rank : Nat) : Option Binary64 :=
  if h : rank < 2047 * 0x10000000000000 then some ⟨negative, rank, h⟩ else none

/-- The number written `significand * 10^exponent`: the significand is rounded first and then scaled
by powers of ten. There is none if the result is too large. -/
def ofDecimal? (negative : Bool) (significand : Nat) (exponent : Int) : Option Binary64 :=
  let rank := nearestRank (significand * one) 1
  ofRank? negative <|
    if exponent < 0 then shrink rank exponent.natAbs else grow rank exponent.natAbs

theorem units_of_lt {rank : Nat} (h : rank < 0x20000000000000) : units rank = rank := by
  unfold units
  split
  · rfl
  · have hone : rank / 0x10000000000000 = 1 := by omega
    rw [hone, Nat.sub_self, Nat.shiftLeft_zero]
    omega

/-- The binary logarithm of a magnitude with a leading bit and 52 more. -/
theorem log2_shiftLeft {m : Nat} (h : 0x10000000000000 ≤ m) (h' : m < 0x20000000000000) (e : Nat) :
    (m <<< e).log2 = 52 + e := by
  have hpos : 0 < 2 ^ e := Nat.two_pow_pos e
  rw [Nat.shiftLeft_eq, Nat.log2_eq_iff (Nat.mul_ne_zero (by omega) (Nat.ne_of_gt hpos)),
    Nat.pow_add 2 52, show 52 + e + 1 = 53 + e by omega, Nat.pow_add 2 53]
  exact ⟨Nat.mul_le_mul_right _ h, Nat.mul_lt_mul_of_pos_right h' hpos⟩

/-- Rounding down is exact on magnitudes. -/
theorem floorRank_units (rank : Nat) : floorRank (units rank) = rank := by
  unfold floorRank units
  split
  next h =>
    have hlog : rank.log2 - 52 = 0 := by
      by_cases h0 : rank = 0
      · simp [h0]
      · have := (Nat.log2_lt h0).2 (show rank < 2 ^ 52 from h)
        omega
    simp [hlog]
  next h =>
    rw [log2_shiftLeft (by omega) (by omega), Nat.add_sub_cancel_left, Nat.shiftLeft_shiftRight]
    omega

end Binary64

end Courier
