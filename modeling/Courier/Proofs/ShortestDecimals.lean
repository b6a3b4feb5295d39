import Courier.Binary64.Shortest
import Courier.Digits
import Mathlib.Algebra.Order.Field.Power
import Mathlib.Algebra.Order.Field.Rat
import Mathlib.Data.Nat.Cast.Order.Field
import Mathlib.Order.Compare
import Mathlib.Tactic.FieldSimp
import Mathlib.Tactic.GCongr
import Mathlib.Tactic.Linarith
import Mathlib.Tactic.LinearCombination
import Mathlib.Tactic.Positivity
import Mathlib.Tactic.Ring

/-!
# Shortest decimals

Ranks and decimals stand for rational numbers (`Binary64.magnitude`, `Decimal.value`). A decimal
reads as the magnitude that is nearest to it, a tie going to the even rank (`Binary64.readsAs_iff`),
and that is one magnitude only (`Binary64.Nearest.unique`). The search of `Binary64.shortest` meets
the grids from the coarsest on, seventeen digits are enough for it, and on the first grid that has
a decimal for the magnitude it takes the closest. So it finds the shortest decimal
(`Binary64.isShortest_shortest`).
-/

namespace Courier

namespace Binary64

/-! ## Magnitudes -/

/-- From one magnitude to the next it is a power of two, the same up to the next leading bit. -/
theorem units_succ (rank : Nat) :
    units (rank + 1) = units rank + 2 ^ (rank / 0x10000000000000 - 1) := by
  by_cases small : rank + 1 < 0x20000000000000
  · rw [units_of_lt small, units_of_lt (Nat.lt_of_succ_lt small),
      show rank / 0x10000000000000 - 1 = 0 by omega, pow_zero]
  · unfold units
    rw [if_neg (by omega), if_neg (by omega), Nat.shiftLeft_eq, Nat.shiftLeft_eq]
    by_cases carry : rank % 0x10000000000000 + 1 = 0x10000000000000
    · rw [show (rank + 1) / 0x10000000000000 - 1 = rank / 0x10000000000000 - 1 + 1 by omega,
        show (rank + 1) % 0x10000000000000 = 0 by omega, pow_succ,
        show rank % 0x10000000000000 = 0x10000000000000 - 1 by omega]
      omega
    · rw [show (rank + 1) / 0x10000000000000 = rank / 0x10000000000000 by omega,
        show (rank + 1) % 0x10000000000000 = rank % 0x10000000000000 + 1 by omega]
      ring

/-- A magnitude has a leading bit and 52 more, or fewer. -/
theorem units_le (rank : Nat) : units rank ≤
    (0x10000000000000 + rank % 0x10000000000000) * 2 ^ (rank / 0x10000000000000 - 1) := by
  unfold units
  split
  · rw [show rank / 0x10000000000000 - 1 = 0 by omega, pow_zero]
    omega
  · rw [Nat.shiftLeft_eq]

theorem units_strictMono : StrictMono units := strictMono_nat_of_lt_succ fun rank => by
  rw [units_succ]
  exact Nat.lt_add_of_pos_right (Nat.two_pow_pos _)

/-- Half the distance between the neighbours of a magnitude is more than its seventeenth digit. -/
theorem units_steps (rank : Nat) :
    2 * units (rank + 1) + 10 ^ 16 * units rank < 10 ^ 16 * units (rank + 1 + 1) := by
  have size := units_le (rank + 1)
  have below := units_succ rank
  have above := units_succ (rank + 1)
  have step := Nat.two_pow_pos (rank / 0x10000000000000 - 1)
  obtain same | carry : (rank + 1) / 0x10000000000000 = rank / 0x10000000000000 ∨
      (rank + 1) % 0x10000000000000 = 0 := by omega
  · rw [same] at size above
    have : (0x10000000000000 + (rank + 1) % 0x10000000000000) *
        2 ^ (rank / 0x10000000000000 - 1) ≤ 0x20000000000000 * 2 ^ (rank / 0x10000000000000 - 1) :=
      Nat.mul_le_mul_right _ (by omega)
    omega
  · rw [carry] at size
    have := Nat.two_pow_pos ((rank + 1) / 0x10000000000000 - 1)
    omega

theorem log2_units_lt {rank : Nat} (h : rank < 2047 * 0x10000000000000) :
    (units rank).log2 < 2098 := by
  unfold units
  split
  next small =>
    obtain rfl | pos := Nat.eq_zero_or_pos rank
    · decide
    · exact ((Nat.log2_lt pos.ne').2 (show rank < 2 ^ 52 from small)).trans (by decide)
  next =>
    rw [log2_shiftLeft (by omega) (by omega)]
    omega

theorem one_pos : (0 : ℚ) < one := Nat.cast_pos.2 (by decide)

/-- The number that a rank stands for. -/
def magnitude (rank : Nat) : ℚ := units rank / one

theorem magnitude_strictMono : StrictMono magnitude := fun _ _ h =>
  div_lt_div_of_pos_right (Nat.cast_lt.2 (units_strictMono h)) one_pos

theorem magnitude_zero : magnitude 0 = 0 := by simp [magnitude, units]

/-! ## Nearest magnitudes -/

/-- How far a number is from the magnitude of a rank. -/
def distance (x : ℚ) (rank : Nat) : ℚ := |x - magnitude rank|

theorem distance_nonneg (x : ℚ) (rank : Nat) : 0 ≤ distance x rank := abs_nonneg _

/-- Of all magnitudes that of a rank is the nearest to a number. Another may be as near only if the
rank is even. -/
def Nearest (x : ℚ) (rank : Nat) : Prop :=
  ∀ r ≠ rank, distance x rank < distance x r ∨ Even rank ∧ distance x rank = distance x r

section Midpoints

variable {x : ℚ} {r s : Nat}

theorem distance_sq_sub (x : ℚ) (r s : Nat) : distance x s ^ 2 - distance x r ^ 2 =
    (magnitude r - magnitude s) * (2 * x - (magnitude r + magnitude s)) := by
  rw [distance, distance, sq_abs, sq_abs]
  ring

theorem distance_lt_iff : distance x r < distance x s ↔
    0 < (magnitude r - magnitude s) * (2 * x - (magnitude r + magnitude s)) := by
  rw [← distance_sq_sub, sub_pos, sq_lt_sq₀ (distance_nonneg x r) (distance_nonneg x s)]

/-- The greater of two magnitudes is the nearer beyond their midpoint. -/
theorem greater_nearer_iff (h : s < r) :
    distance x r < distance x s ↔ magnitude r + magnitude s < 2 * x := by
  rw [distance_lt_iff, mul_pos_iff_of_pos_left (sub_pos.2 (magnitude_strictMono h)), sub_pos]

/-- The lesser of two magnitudes is the nearer before their midpoint. -/
theorem lesser_nearer_iff (h : r < s) :
    distance x r < distance x s ↔ 2 * x < magnitude r + magnitude s := by
  rw [distance_lt_iff, ← neg_mul_neg, neg_sub, neg_sub,
    mul_pos_iff_of_pos_left (sub_pos.2 (magnitude_strictMono h)), sub_pos]

theorem equally_near_iff (h : r ≠ s) :
    distance x r = distance x s ↔ 2 * x = magnitude r + magnitude s := by
  have apart := sub_ne_zero.2 (magnitude_strictMono.injective.ne h)
  rw [eq_comm, ← sq_eq_sq₀ (distance_nonneg x s) (distance_nonneg x r), ← sub_eq_zero,
    distance_sq_sub, mul_eq_zero, or_iff_right apart, sub_eq_zero]

end Midpoints

/-- A number lies between the midpoints from a magnitude to its two neighbours. Of the midpoints
themselves only those of an even rank belong to it. -/
structure Between (x : ℚ) (rank : Nat) : Prop where
  low : magnitude (rank - 1) + magnitude rank < 2 * x ∨
    Even rank ∧ magnitude (rank - 1) + magnitude rank = 2 * x
  high : 2 * x < magnitude rank + magnitude (rank + 1) ∨
    Even rank ∧ 2 * x = magnitude rank + magnitude (rank + 1)

section Ranks

variable {x y : ℚ} {rank : Nat}

theorem Between.nearest (h : Between x rank) : Nearest x rank := by
  intro r hr
  rw [equally_near_iff hr.symm]
  obtain below | above := Nat.lt_or_gt_of_ne hr
  · have neighbour := magnitude_strictMono.monotone (show r ≤ rank - 1 by omega)
    rw [greater_nearer_iff below]
    obtain low | ⟨even, low⟩ := h.low
    · exact .inl (by linarith)
    · obtain less | same := neighbour.lt_or_eq
      · exact .inl (by linarith)
      · exact .inr ⟨even, by linarith⟩
  · have neighbour := magnitude_strictMono.monotone (show rank + 1 ≤ r by omega)
    rw [lesser_nearer_iff above]
    obtain high | ⟨even, high⟩ := h.high
    · exact .inl (by linarith)
    · obtain less | same := neighbour.lt_or_eq
      · exact .inl (by linarith)
      · exact .inr ⟨even, by linarith⟩

theorem Nearest.between (hx : 0 ≤ x) (h : Nearest x rank) : Between x rank where
  low := by
    cases rank with
    | zero =>
      have : (0 : ℚ) < 2 * x ∨ 0 = 2 * x := (by linarith : (0 : ℚ) ≤ 2 * x).lt_or_eq
      simpa [magnitude_zero] using this
    | succ rank =>
      have near := h rank (Nat.succ_ne_self rank).symm
      rw [greater_nearer_iff (Nat.lt_succ_self rank),
        equally_near_iff (Nat.succ_ne_self rank)] at near
      rw [Nat.add_sub_cancel, add_comm (magnitude rank)]
      exact near.imp_right fun ⟨even, tie⟩ => ⟨even, tie.symm⟩
  high := by
    have near := h (rank + 1) (Nat.succ_ne_self rank)
    rwa [lesser_nearer_iff (Nat.lt_succ_self rank),
      equally_near_iff (Nat.succ_ne_self rank).symm] at near

theorem nearest_magnitude (rank : Nat) : Nearest (magnitude rank) rank := fun r hr =>
  .inl (by simpa [distance, sub_eq_zero] using magnitude_strictMono.injective.ne hr.symm)

/-- Every number on the way to the magnitude that a number is nearest to is nearest to it too. -/
theorem Nearest.of_way (h : Nearest x rank) (way : distance x rank = |x - y| + distance y rank) :
    Nearest y rank := by
  intro r hr
  have triangle : distance x r ≤ |x - y| + distance y r := abs_sub_le x y (magnitude r)
  obtain closer | ⟨even, tie⟩ := h r hr
  · exact .inl (by linarith)
  · obtain less | same := (by linarith : distance y rank ≤ distance y r).lt_or_eq
    · exact .inl less
    · exact .inr ⟨even, same⟩

theorem Nearest.of_le (h : Nearest x rank) (hxy : x ≤ y) (hy : y ≤ magnitude rank) :
    Nearest y rank ∧ distance y rank ≤ distance x rank := by
  have way : distance x rank = |x - y| + distance y rank := by
    rw [distance, distance, abs_of_nonpos (by linarith), abs_of_nonpos (by linarith),
      abs_of_nonpos (by linarith)]
    ring
  exact ⟨h.of_way way, by linarith [abs_nonneg (x - y)]⟩

theorem Nearest.of_ge (h : Nearest x rank) (hxy : y ≤ x) (hy : magnitude rank ≤ y) :
    Nearest y rank ∧ distance y rank ≤ distance x rank := by
  have way : distance x rank = |x - y| + distance y rank := by
    rw [distance, distance, abs_of_nonneg (by linarith), abs_of_nonneg (by linarith),
      abs_of_nonneg (by linarith)]
    ring
  exact ⟨h.of_way way, by linarith [abs_nonneg (x - y)]⟩

end Ranks

/-- A number is nearest to one magnitude. -/
theorem Nearest.unique {x : ℚ} {a b : Nat} (ha : Nearest x a) (hb : Nearest x b) : a = b := by
  by_contra hne
  wlog less : a < b generalizing a b
  · exact this hb ha (Ne.symm hne) (by omega)
  obtain closer | ⟨evenA, tie⟩ := ha b (Ne.symm hne)
  · obtain closer' | ⟨-, tie⟩ := hb a hne
    · exact lt_asymm closer closer'
    · exact closer.ne tie.symm
  · obtain closer | ⟨evenB, -⟩ := hb a hne
    · exact closer.ne tie.symm
    · -- a rank between the two even ones has a nearer magnitude
      have apart : a + 1 < b := by
        obtain ⟨m, rfl⟩ := evenA
        obtain ⟨n, rfl⟩ := evenB
        omega
      have upper := magnitude_strictMono apart
      have middle := (equally_near_iff hne).1 tie
      have nearer : distance x (a + 1) < distance x a :=
        (greater_nearer_iff (Nat.lt_succ_self a)).2 (by linarith)
      obtain closer | ⟨-, tie⟩ := ha (a + 1) (Nat.succ_ne_self a)
      · exact lt_asymm closer nearer
      · exact nearer.ne tie.symm

end Binary64

/-! ## Decimals -/

namespace Decimal

/-- The number that a decimal stands for. -/
def value (d : Decimal) : ℚ := d.digits * 10 ^ d.exponent

/-- How many digits a decimal has. -/
def length (d : Decimal) : Nat := (Courier.digits d.digits).length

theorem length_le_iff {d : Decimal} {m : Nat} : d.length ≤ m + 1 ↔ d.digits < 10 ^ (m + 1) :=
  Nat.length_toDigits_le_iff (by decide) (Nat.succ_pos m)

theorem length_pos (d : Decimal) : 0 < d.length := Nat.length_toDigits_pos

theorem value_nonneg (d : Decimal) : 0 ≤ d.value := by
  unfold value
  positivity

theorem value_strictMono (e : Int) : StrictMono fun m => (mk m e).value := fun _ _ h =>
  mul_lt_mul_of_pos_right (Nat.cast_lt.2 h) (by positivity)

theorem value_succ (m : Nat) (e : Int) : (mk (m + 1) e).value = (mk m e).value + 10 ^ e := by
  simp only [value]
  push_cast
  ring

theorem pow_mul_zpow (n : Nat) (e : Int) : (10 : ℚ) ^ n * 10 ^ e = 10 ^ (e + n) := by
  rw [zpow_add₀ (by norm_num), zpow_natCast, mul_comm]

/-- Zeros at the end of the digits count for as much in the exponent. -/
theorem value_zeros (m n : Nat) (e : Int) : (mk (m * 10 ^ n) e).value = (mk m (e + n)).value := by
  rw [value, value, ← pow_mul_zpow]
  push_cast
  ring

theorem value_pow (n : Nat) (e : Int) : (mk (10 ^ n) e).value = 10 ^ (e + n) := by
  rw [value, ← pow_mul_zpow]
  push_cast
  rfl

/-- The last power of ten that is not above a decimal has the place of its first digit. -/
theorem pow_le_value_iff {d : Decimal} (h : d.digits ≠ 0) (j : Int) :
    (10 : ℚ) ^ j ≤ d.value ↔ j ≤ d.exponent + d.length - 1 := by
  obtain ⟨m, hm⟩ := Nat.exists_eq_succ_of_ne_zero d.length_pos.ne'
  have low : 10 ^ m ≤ d.digits := by
    cases m with
    | zero => exact Nat.pos_of_ne_zero h
    | succ m =>
      have := (length_le_iff (d := d) (m := m)).not.1 (by omega)
      omega
  have high : d.digits < 10 ^ (m + 1) := length_le_iff.1 hm.le
  constructor
  · intro hj
    have : (10 : ℚ) ^ j < 10 ^ (d.exponent + (m + 1 : Nat)) := calc
      (10 : ℚ) ^ j ≤ d.value := hj
      _ < (mk (10 ^ (m + 1)) d.exponent).value := value_strictMono d.exponent high
      _ = 10 ^ (d.exponent + (m + 1 : Nat)) := value_pow (m + 1) d.exponent
    have := (zpow_lt_zpow_iff_right₀ (by norm_num)).1 this
    omega
  · intro hj
    calc
      (10 : ℚ) ^ j ≤ 10 ^ (d.exponent + m) := zpow_le_zpow_right₀ (by norm_num) (by omega)
      _ = (mk (10 ^ m) d.exponent).value := (value_pow m d.exponent).symm
      _ ≤ d.value := (value_strictMono d.exponent).monotone low
theorem value_mul_pow (d : Decimal) :
    d.value * 10 ^ (-d.exponent).toNat = (d.digits * 10 ^ d.exponent.toNat : Nat) := by
  have powers : (10 : ℚ) ^ d.exponent * 10 ^ (-d.exponent).toNat = 10 ^ d.exponent.toNat := by
    rw [mul_comm, pow_mul_zpow, ← zpow_natCast]
    congr 1
    omega
  rw [value, mul_assoc, powers]
  push_cast
  rfl

/-- The comparison is exact: both sides are brought to one denominator. -/
theorem compareDouble_eq (d : Decimal) (n : Nat) :
    d.compareDouble n = compare (2 * d.value) (n / Binary64.one) := by
  have denominator : (0 : ℚ) < 10 ^ (-d.exponent).toNat * Binary64.one :=
    mul_pos (by positivity) Binary64.one_pos
  have left : 2 * d.value * (10 ^ (-d.exponent).toNat * Binary64.one) =
      (2 * d.digits * 10 ^ d.exponent.toNat * Binary64.one : Nat) := by
    have := d.value_mul_pow
    push_cast at this ⊢
    linear_combination 2 * (Binary64.one : ℚ) * this
  have right : (n / Binary64.one : ℚ) * (10 ^ (-d.exponent).toNat * Binary64.one) =
      (n * 10 ^ (-d.exponent).toNat : Nat) := by
    have := Binary64.one_pos.ne'
    push_cast
    field_simp
  rw [← cmp_eq_compare, ← cmp_mul_pos_right denominator, left, right,
    Nat.strictMono_cast.cmp_map_eq, cmp_eq_compare]
  rfl

theorem compareDouble_units (d : Decimal) (n rank : Nat) :
    d.compareDouble (n * Binary64.units rank) =
      compare (2 * d.value) (n * Binary64.magnitude rank) := by
  rw [d.compareDouble_eq, Binary64.magnitude, Nat.cast_mul, mul_div_assoc]

theorem value_strip (fuel : Nat) (d : Decimal) : (d.strip fuel).value = d.value := by
  induction fuel generalizing d with
  | zero => rfl
  | succ fuel ih =>
    rw [strip]
    split
    next zero =>
      have digits : d.digits / 10 * 10 = d.digits := by omega
      have step := value_zeros (d.digits / 10) 1 d.exponent
      rw [pow_one, digits] at step
      rw [ih]
      exact step.symm
    next => rfl

theorem digits_strip_le (fuel : Nat) (d : Decimal) : (d.strip fuel).digits ≤ d.digits := by
  induction fuel generalizing d with
  | zero => exact le_rfl
  | succ fuel ih =>
    rw [strip]
    split
    · exact (ih _).trans (Nat.div_le_self _ _)
    · exact le_rfl

end Decimal

namespace Binary64

/-- A decimal reads as the magnitude that it is nearest to. -/
theorem readsAs_iff {rank : Nat} {d : Decimal} : readsAs rank d = true ↔ Nearest d.value rank := by
  have midpoint (r s : Nat) :
      ((units r + units s : Nat) : ℚ) / one = magnitude r + magnitude s := by
    rw [magnitude, magnitude, Nat.cast_add, add_div]
  have between : readsAs rank d = true ↔ Between d.value rank := by
    simp only [readsAs, d.compareDouble_eq, midpoint, Bool.and_eq_true, Bool.or_eq_true,
      beq_iff_eq, compare_gt_iff_gt, compare_lt_iff_lt, compare_eq_iff_eq, ← Nat.even_iff]
    exact ⟨fun h => ⟨h.1.imp_right fun t => ⟨t.1, t.2.symm⟩, h.2⟩,
      fun h => ⟨h.low.imp_right fun t => ⟨t.1, t.2.symm⟩, h.high⟩⟩
  exact between.trans ⟨Between.nearest, Nearest.between d.value_nonneg⟩

/-! ## Grids -/

theorem floorOn_bounds (rank : Nat) (e : Int) :
    (Decimal.mk (floorOn rank e) e).value ≤ magnitude rank ∧
      magnitude rank < (Decimal.mk (floorOn rank e + 1) e).value := by
  have scale : (0 : ℚ) < 10 ^ (-e).toNat := by positivity
  have lower := (Decimal.mk (floorOn rank e) e).value_mul_pow
  have upper := (Decimal.mk (floorOn rank e + 1) e).value_mul_pow
  have grid : 0 < one * 10 ^ e.toNat := Nat.mul_pos (Nat.cast_pos.1 one_pos) (by positivity)
  constructor
  · have floor : floorOn rank e * (one * 10 ^ e.toNat) ≤ units rank * 10 ^ (-e).toNat :=
      Nat.div_mul_le_self _ _
    rw [magnitude, le_div_iff₀ one_pos, ← mul_le_mul_iff_of_pos_right scale, mul_right_comm, lower]
    norm_cast
    linarith
  · have ceiling : units rank * 10 ^ (-e).toNat < (floorOn rank e + 1) * (one * 10 ^ e.toNat) := by
      rw [Nat.succ_mul]
      exact Nat.lt_div_mul_add grid
    rw [magnitude, div_lt_iff₀ one_pos, ← mul_lt_mul_iff_of_pos_right scale,
      mul_right_comm _ (one : ℚ), upper]
    norm_cast
    linarith

section Grid

variable {rank : Nat} {e : Int} {d : Decimal}

/-- If a decimal on a grid reads as a magnitude, so does one of the two around the magnitude, which
is no farther from it. -/
theorem Nearest.neighbour {m : Nat} (h : Nearest (Decimal.mk m e).value rank) :
    ∃ i, (i = floorOn rank e ∨ i = floorOn rank e + 1) ∧ Nearest (Decimal.mk i e).value rank ∧
      distance (Decimal.mk i e).value rank ≤ distance (Decimal.mk m e).value rank := by
  obtain ⟨lower, upper⟩ := floorOn_bounds rank e
  obtain below | above := Nat.lt_or_ge (floorOn rank e) m
  · exact ⟨_, .inr rfl, h.of_ge ((Decimal.value_strictMono e).monotone below) upper.le⟩
  · exact ⟨_, .inl rfl, h.of_le ((Decimal.value_strictMono e).monotone above) lower⟩

theorem not_nearest_of_onGrid? (h : onGrid? rank e = none) (m : Nat) :
    ¬ Nearest (Decimal.mk m e).value rank := by
  intro near
  obtain ⟨i, rfl | rfl, hi, -⟩ := near.neighbour <;> rw [← readsAs_iff] at hi <;>
    simp only [onGrid?, hi] at h <;> split_ifs at h

/-- What a grid has to offer for a magnitude: one of the two decimals around it that reads as it,
and none on the grid that reads as it is closer. -/
structure BestOnGrid (rank : Nat) (e : Int) (d : Decimal) : Prop where
  exponent : d.exponent = e
  digits : d.digits ≤ floorOn rank e + 1
  near : Nearest d.value rank
  best : ∀ m, Nearest (Decimal.mk m e).value rank →
    distance d.value rank ≤ distance (Decimal.mk m e).value rank

theorem bestOnGrid_of {i : Nat} (hi : i ≤ floorOn rank e + 1)
    (near : Nearest (Decimal.mk i e).value rank)
    (floor : Nearest (Decimal.mk (floorOn rank e) e).value rank →
      distance (Decimal.mk i e).value rank ≤ distance (Decimal.mk (floorOn rank e) e).value rank)
    (ceiling : Nearest (Decimal.mk (floorOn rank e + 1) e).value rank →
      distance (Decimal.mk i e).value rank ≤
        distance (Decimal.mk (floorOn rank e + 1) e).value rank) :
    BestOnGrid rank e ⟨i, e⟩ where
  exponent := rfl
  digits := hi
  near := near
  best m hm := by
    obtain ⟨j, rfl | rfl, hj, closer⟩ := hm.neighbour
    · exact (floor hj).trans closer
    · exact (ceiling hj).trans closer

/-- The midpoint of the two decimals around a magnitude tells which of them is closer. -/
theorem middle_tells (rank : Nat) (e : Int) :
    let n := floorOn rank e
    let middle := (Decimal.mk (2 * n + 1) e).compareDouble (4 * units rank)
    (middle ≠ .lt →
      distance (Decimal.mk n e).value rank ≤ distance (Decimal.mk (n + 1) e).value rank) ∧
    (middle ≠ .gt →
      distance (Decimal.mk (n + 1) e).value rank ≤ distance (Decimal.mk n e).value rank) := by
  intro n middle
  obtain ⟨lower, upper⟩ := floorOn_bounds rank e
  have sum : 2 * (Decimal.mk (2 * n + 1) e).value =
      2 * ((Decimal.mk n e).value + (Decimal.mk (n + 1) e).value) := by
    simp only [Decimal.value]
    push_cast
    ring
  have compared : middle = compare (2 * ((Decimal.mk n e).value + (Decimal.mk (n + 1) e).value))
      (4 * magnitude rank) := by
    rw [← sum]
    exact Decimal.compareDouble_units _ 4 rank
  rw [compared, ne_eq, ne_eq, compare_lt_iff_lt, compare_gt_iff_gt, not_lt, not_lt, distance,
    distance, abs_of_nonpos (sub_nonpos.2 lower), abs_of_pos (sub_pos.2 upper)]
  exact ⟨fun h => by linarith, fun h => by linarith⟩

theorem bestOnGrid_of_onGrid? (h : onGrid? rank e = some d) : BestOnGrid rank e d := by
  obtain ⟨floorCloser, ceilingCloser⟩ := middle_tells rank e
  unfold onGrid? at h
  extract_lets n low high middle at h
  have hlow : low = true ↔ Nearest (Decimal.mk n e).value rank := readsAs_iff
  have hhigh : high = true ↔ Nearest (Decimal.mk (n + 1) e).value rank := readsAs_iff
  split at h
  next both =>
    rw [Bool.and_eq_true, hlow, hhigh] at both
    split at h
    next gt =>
      obtain rfl := Option.some.inj h
      exact bestOnGrid_of (Nat.le_succ _) both.1 (fun _ => le_rfl)
        fun _ => floorCloser (ne_of_eq_of_ne gt (by decide))
    next notGt =>
      split at h
      next lt =>
        obtain rfl := Option.some.inj h
        exact bestOnGrid_of le_rfl both.2 (fun _ => ceilingCloser notGt) fun _ => le_rfl
      next notLt =>
        obtain rfl := Option.some.inj h
        obtain even | odd := Nat.mod_two_eq_zero_or_one n
        · rw [even]
          exact bestOnGrid_of (Nat.le_succ _) both.1 (fun _ => le_rfl) fun _ => floorCloser notLt
        · rw [odd]
          exact bestOnGrid_of le_rfl both.2 (fun _ => ceilingCloser notGt) fun _ => le_rfl
  next notBoth =>
    rw [Bool.and_eq_true, hlow, hhigh] at notBoth
    split at h
    next isLow =>
      obtain rfl := Option.some.inj h
      exact bestOnGrid_of (Nat.le_succ _) (hlow.1 isLow) (fun _ => le_rfl)
        fun isHigh => absurd ⟨hlow.1 isLow, isHigh⟩ notBoth
    next notLow =>
      split at h
      next isHigh =>
        obtain rfl := Option.some.inj h
        exact bestOnGrid_of le_rfl (hhigh.1 isHigh) (fun isLow => absurd (hlow.2 isLow) notLow)
          fun _ => le_rfl
      next => cases h

end Grid

/-! ## Scales -/

/-- For each of the 2098 places of the leading bit the guess at the power of ten is right, or one or
two too low. -/
theorem scale_guess : ∀ L : Nat, L < 2098 →
    let k := ((L : Int) - 1074) * 30103 / 100000
    (Decimal.mk 1 (k - 1)).compareDouble (2 * 2 ^ L) ≠ .gt ∧
      (Decimal.mk 1 (k + 2)).compareDouble (2 * 2 ^ (L + 1)) ≠ .lt := by
  decide +kernel

/-- The scale is the power of ten that is just above the magnitude. -/
theorem decimalScale_bounds {rank : Nat} (h0 : 0 < rank) (h : rank < 2047 * 0x10000000000000) :
    (Decimal.mk 1 (decimalScale rank - 1)).value ≤ magnitude rank ∧
      magnitude rank < (Decimal.mk 1 (decimalScale rank)).value := by
  have pos : units rank ≠ 0 := (units_strictMono h0).ne_bot
  obtain ⟨guessLow, guessHigh⟩ := scale_guess _ (log2_units_lt h)
  unfold decimalScale
  extract_lets below k
  have hbelow (j : Int) : below j = true ↔ magnitude rank < (Decimal.mk 1 j).value := by
    rw [beq_iff_eq, Decimal.compareDouble_units, compare_gt_iff_gt]
    norm_num
  have low : (Decimal.mk 1 (k - 1)).value ≤ magnitude rank := by
    rw [Decimal.compareDouble_eq, ne_eq, compare_gt_iff_gt, not_lt] at guessLow
    have leading : ((2 * 2 ^ (units rank).log2 : Nat) : ℚ) ≤ (2 * units rank : Nat) :=
      Nat.cast_le.2 (Nat.mul_le_mul_left 2 (Nat.log2_self_le pos))
    have := guessLow.trans (div_le_div_of_nonneg_right leading one_pos.le)
    rw [Nat.cast_mul, mul_div_assoc] at this
    exact le_of_mul_le_mul_left this two_pos
  have high : magnitude rank < (Decimal.mk 1 (k + 2)).value := by
    rw [Decimal.compareDouble_eq, ne_eq, compare_lt_iff_lt, not_lt] at guessHigh
    have leading : ((2 * units rank : Nat) : ℚ) < (2 * 2 ^ ((units rank).log2 + 1) : Nat) :=
      Nat.cast_lt.2 (Nat.mul_lt_mul_of_pos_left Nat.lt_log2_self two_pos)
    have := (div_lt_div_of_pos_right leading one_pos).trans_le guessHigh
    rw [Nat.cast_mul, mul_div_assoc] at this
    exact lt_of_mul_lt_mul_left this two_pos.le
  split
  next first => exact ⟨low, (hbelow k).1 first⟩
  next notFirst =>
    rw [hbelow, not_lt] at notFirst
    split
    next second => exact ⟨by rwa [add_sub_cancel_right], (hbelow _).1 second⟩
    next notSecond =>
      rw [hbelow, not_lt] at notSecond
      exact ⟨by rwa [show k + 2 - 1 = k + 1 by omega], high⟩

/-- Where the steps of a grid are below the seventeenth digit of a magnitude, the grid has a decimal
that reads as it. -/
theorem exists_nearest_of_fine {rank : Nat} {e : Int} (h0 : 0 < rank)
    (fine : 10 ^ 16 * (10 : ℚ) ^ e ≤ magnitude rank) :
    ∃ i, Nearest (Decimal.mk i e).value rank := by
  obtain ⟨lower, upper⟩ := floorOn_bounds rank e
  have step := Decimal.value_succ (floorOn rank e) e
  have wide : 2 * magnitude rank + 10 ^ 16 * magnitude (rank - 1) <
      10 ^ 16 * magnitude (rank + 1) := by
    have steps := units_steps (rank - 1)
    rw [Nat.sub_add_cancel h0] at steps
    have := div_lt_div_of_pos_right (Nat.cast_lt (α := ℚ).2 steps) one_pos
    push_cast at this
    rwa [add_div, mul_div_assoc, mul_div_assoc, mul_div_assoc] at this
  have before := magnitude_strictMono (show rank - 1 < rank by omega)
  have after := magnitude_strictMono (Nat.lt_succ_self rank)
  -- the decimal below the magnitude may be too low; then the next is not too high
  obtain inside | outside := lt_or_ge (magnitude (rank - 1) + magnitude rank)
    (2 * (Decimal.mk (floorOn rank e) e).value)
  · exact ⟨_, Between.nearest ⟨.inl inside, .inl (by linarith)⟩⟩
  · exact ⟨floorOn rank e + 1, Between.nearest ⟨.inl (by linarith), .inl (by linarith)⟩⟩

/-- For a decimal of at most `m + 1` digits that reads as a magnitude of at least 10^(k - 1) there
is one no farther from it on the grid of 10^(k - m - 1). -/
theorem Nearest.onGrid {rank m : Nat} {k : Int} {d : Decimal} (h : Nearest d.value rank)
    (hk : (Decimal.mk 1 (k - 1)).value ≤ magnitude rank) (hm : d.digits < 10 ^ (m + 1)) :
    ∃ i, Nearest (Decimal.mk i (k - (m + 1 : Nat))).value rank ∧
      distance (Decimal.mk i (k - (m + 1 : Nat))).value rank ≤ distance d.value rank := by
  obtain coarse | fine := le_or_gt (k - (m + 1 : Nat)) d.exponent
  · obtain ⟨n, hn⟩ := Int.eq_ofNat_of_zero_le (Int.sub_nonneg_of_le coarse)
    have same : (Decimal.mk (d.digits * 10 ^ n) (k - (m + 1 : Nat))).value = d.value := by
      rw [Decimal.value_zeros, ← hn, add_sub_cancel]
    exact ⟨d.digits * 10 ^ n, by rwa [same], by rw [same]⟩
  · -- the decimal is below a power of ten that is on the grid and not above the magnitude
    have power :
        (Decimal.mk (10 ^ m) (k - (m + 1 : Nat))).value = (Decimal.mk 1 (k - 1)).value := by
      rw [Decimal.value_pow, Decimal.value, Nat.cast_one, one_mul]
      congr 1
      push_cast
      ring
    have below : d.value ≤ (Decimal.mk 1 (k - 1)).value := calc
      d.value ≤ 10 ^ (m + 1) * 10 ^ d.exponent := by
        refine mul_le_mul_of_nonneg_right ?_ (by positivity)
        exact_mod_cast hm.le
      _ ≤ 10 ^ (m + 1) * 10 ^ (k - (m + 1 : Nat) - 1) := by
        gcongr
        · norm_num
        · omega
      _ = (Decimal.mk 1 (k - 1)).value := by
        rw [Decimal.pow_mul_zpow, Decimal.value, Nat.cast_one, one_mul]
        congr 1
        ring
    refine ⟨10 ^ m, ?_⟩
    rw [power]
    exact h.of_le below hk

/-! ## The search -/

theorem findSome?_range_eq_some {α : Type} {f : Nat → Option α} {n : Nat} {a : α}
    (h : (List.range n).findSome? f = some a) : ∃ i < n, f i = some a ∧ ∀ j < i, f j = none := by
  induction n with
  | zero => cases h
  | succ n ih =>
    rw [List.range_succ, List.findSome?_append, Option.or_eq_some_iff] at h
    obtain first | ⟨none, last⟩ := h
    · obtain ⟨i, hi, found, before⟩ := ih first
      exact ⟨i, Nat.lt_succ_of_lt hi, found, before⟩
    · refine ⟨n, Nat.lt_succ_self n, by simpa using last, fun j hj => ?_⟩
      exact List.findSome?_eq_none_iff.1 none j (List.mem_range.2 hj)

/-- The search finds a decimal, on the first grid that has one. -/
theorem shortest_eq_strip {rank : Nat} (h0 : 0 < rank) (h : rank < 2047 * 0x10000000000000) :
    ∃ m d, shortest rank = d.strip 17 ∧
      onGrid? rank (decimalScale rank - (m + 1 : Nat)) = some d ∧
      ∀ j < m, onGrid? rank (decimalScale rank - (j + 1 : Nat)) = none := by
  unfold shortest
  rw [if_neg h0.ne']
  extract_lets k
  split
  next d found =>
    obtain ⟨m, -, hm, before⟩ := findSome?_range_eq_some found
    exact ⟨m, d, rfl, hm, before⟩
  next none =>
    have fine : 10 ^ 16 * (10 : ℚ) ^ (k - (16 + 1 : Nat)) ≤ magnitude rank := by
      refine le_trans (le_of_eq ?_) (decimalScale_bounds h0 h).1
      rw [Decimal.pow_mul_zpow, Decimal.value, Nat.cast_one, one_mul]
      congr 1
      push_cast
      ring
    obtain ⟨i, near⟩ := exists_nearest_of_fine h0 fine
    have last := List.findSome?_eq_none_iff.1 none 16 (by simp)
    exact absurd near (not_nearest_of_onGrid? last i)

/-- The digits that the search settles on. Only 10^k itself has a digit more than its grid shows,
and that is on the first grid and loses its zero. -/
theorem digits_strip_lt {rank m : Nat} {k : Int} {d : Decimal}
    (hk : magnitude rank < (Decimal.mk 1 k).value) (hd : BestOnGrid rank (k - (m + 1 : Nat)) d)
    (first : ∀ j < m, onGrid? rank (k - (j + 1 : Nat)) = none) :
    (d.strip 17).digits < 10 ^ (m + 1) := by
  have power (n : Nat) : (Decimal.mk (10 ^ n) (k - n)).value = (Decimal.mk 1 k).value := by
    rw [Decimal.value_pow, sub_add_cancel, Decimal.value, Nat.cast_one, one_mul]
  have floor : floorOn rank (k - (m + 1 : Nat)) < 10 ^ (m + 1) := by
    rw [← (Decimal.value_strictMono (k - (m + 1 : Nat))).lt_iff_lt]
    exact (floorOn_bounds rank _).1.trans_lt (hk.trans_eq (power (m + 1)).symm)
  obtain less | full := (hd.digits.trans floor).lt_or_eq
  · exact (d.digits_strip_le 17).trans_lt less
  · obtain ⟨digits, exponent⟩ := d
    obtain rfl : digits = 10 ^ (m + 1) := full
    obtain rfl : exponent = k - (m + 1 : Nat) := hd.exponent
    have near := hd.near
    rw [power, ← power 1] at near
    obtain rfl | later := Nat.eq_zero_or_pos m
    · simp [Decimal.strip]
    · exact absurd near (not_nearest_of_onGrid? (first 0 later) _)

/-- A shortest decimal of a magnitude: of all that are nearest to it, it has the fewest digits, and
none of these is closer. -/
structure IsShortest (rank : Nat) (d : Decimal) : Prop where
  near : Nearest d.value rank
  fewest : ∀ c : Decimal, Nearest c.value rank → d.length ≤ c.length
  closest : ∀ c : Decimal, Nearest c.value rank → c.length = d.length →
    distance d.value rank ≤ distance c.value rank

theorem isShortest_zero : IsShortest 0 (shortest 0) := by
  have value : (shortest 0).value = magnitude 0 := by
    rw [magnitude_zero]
    simp [shortest, Decimal.value]
  refine ⟨?_, fun c _ => c.length_pos, fun c _ _ => ?_⟩
  · rw [value]
    exact nearest_magnitude 0
  · rw [value, distance, sub_self, abs_zero]
    exact distance_nonneg _ _

/-- The search finds a shortest decimal. -/
theorem isShortest_shortest (x : Binary64) : IsShortest x.rank (shortest x.rank) := by
  obtain zero | pos := Nat.eq_zero_or_pos x.rank
  · rw [zero]
    exact isShortest_zero
  · obtain ⟨hlow, hhigh⟩ := decimalScale_bounds pos x.finite
    obtain ⟨m, d, found, hd, first⟩ := shortest_eq_strip pos x.finite
    have best := bestOnGrid_of_onGrid? hd
    have few := Decimal.length_le_iff.2 (digits_strip_lt hhigh best first)
    rw [found]
    refine ⟨?_, fun c hc => ?_, fun c hc same => ?_⟩
    · rw [Decimal.value_strip]
      exact best.near
    · -- with fewer digits it would have been on a grid that was passed over
      obtain ⟨n, hn⟩ := Nat.exists_eq_succ_of_ne_zero c.length_pos.ne'
      obtain ⟨i, near, -⟩ := hc.onGrid hlow (Decimal.length_le_iff.1 hn.le)
      have : ¬ n < m := fun before => not_nearest_of_onGrid? (first n before) i near
      omega
    · obtain ⟨i, near, closer⟩ := hc.onGrid hlow (Decimal.length_le_iff.1 (same.trans_le few))
      rw [Decimal.value_strip]
      exact (best.best i near).trans closer

end Binary64

end Courier
