import Courier.Proofs.JsonReading
import Courier.Proofs.ShortestDecimals

/-!
# The text of a number

A numeral has an exact value (`Numeral.magnitude`). The text of an integer reads back as the
integer, and the text of a binary64 number is a numeral that stands for it, by its sign, by the
value of a shortest decimal and by where it has an exponent (`Number.writtenAs_text`). No text says
so of two numbers (`Number.WrittenAs.unique`).
-/

namespace Courier.Json

/-! ## Numerals -/

theorem natural_zeros_append (n : Nat) (ds : List Char) :
    natural (List.replicate n '0' ++ ds) = natural ds := by
  rw [natural, Nat.ofDigitChars_append, Nat.ofDigitChars_replicate_zero, Nat.mul_zero, natural]

theorem natural_append_zeros (ds : List Char) (n : Nat) :
    natural (ds ++ List.replicate n '0') = natural ds * 10 ^ n := by
  rw [natural, Nat.ofDigitChars_append, Nat.ofDigitChars_replicate_zero, Nat.mul_comm, natural]

/-- Characters taken from digits, and zeros, are digits. -/
theorem AreDigits.of_mem_or_zero {ds es : List Char} (h : AreDigits ds) (hne : es ≠ [])
    (hes : ∀ c ∈ es, c ∈ ds ∨ c = '0') : AreDigits es := by
  refine ⟨hne, fun c hc => ?_⟩
  obtain digit | rfl := hes c hc
  · exact h.2 c digit
  · decide

namespace Numeral

/-- The power of ten that a numeral names. -/
def scale (n : Numeral) : Int :=
  match n.exponent with
  | none => 0
  | some (negative, ds) => if negative then -natural ds else natural ds

/-- The exact value of a numeral, without its sign. -/
def magnitude (n : Numeral) : ℚ :=
  natural (n.whole ++ n.fraction.getD []) * 10 ^ (n.scale - (n.fraction.getD []).length)

/-- A numeral with a sign, the given characters behind it, and the value of a decimal. It has a
point or an exponent, so that it is no integer. -/
structure Spells (n : Numeral) (negative : Bool) (cs : List Char) (d : Decimal) : Prop where
  wellFormed : n.WellFormed
  sign : n.negative = negative
  chars : n.chars = (if negative then ['-'] else []) ++ cs
  magnitude : n.magnitude = d.value
  marked : n.fraction.isSome ∨ n.exponent.isSome

end Numeral

/-! ## Layouts -/

section Layouts

variable (negative : Bool) {m : Nat} {e : Int}

/-- A whole number: its digits, zeros for the exponent, and a fraction of one zero. -/
theorem spells_whole {n : Nat} (hm : m = 0 → n = 0) :
    Numeral.Spells ⟨negative, digits m ++ List.replicate n '0', some ['0'], none⟩ negative
      (digits m ++ List.replicate n '0' ++ ['.', '0']) ⟨m, n⟩ where
  wellFormed := {
    whole := (areDigits_digits m).of_mem_or_zero (by simp [digits_ne_nil]) fun c hc =>
      (List.mem_append.1 hc).imp_right List.eq_of_mem_replicate
    leading := fun zero => by
      rw [List.head?_append_of_ne_nil _ (digits_ne_nil m)] at zero
      obtain rfl := eq_zero_of_head?_digits zero
      obtain rfl := hm rfl
      rfl
    fraction := fun ds h => by
      obtain rfl := Option.some.inj h
      exact areDigits_digits 0
    exponent := nofun }
  sign := rfl
  chars := by simp [Numeral.chars, Numeral.fractionChars, Numeral.exponentChars]
  magnitude := by
    have zeros : digits m ++ List.replicate n '0' ++ ['0'] =
        digits m ++ List.replicate (n + 1) '0' := by
      rw [List.append_assoc, List.replicate_succ']
    rw [Numeral.magnitude, Option.getD_some, zeros, natural_append_zeros, natural_digits]
    simp only [Numeral.scale, Decimal.value, List.length_singleton]
    rw [Nat.cast_mul, Nat.cast_pow, Nat.cast_ofNat, mul_assoc, Decimal.pow_mul_zpow]
    congr 2
    omega
  marked := .inl rfl

/-- A point among the digits. -/
theorem spells_point {n : Nat} (h0 : 0 < n) (h : n < (digits m).length)
    (he : e = n - (digits m).length) :
    Numeral.Spells ⟨negative, (digits m).take n, some ((digits m).drop n), none⟩ negative
      ((digits m).take n ++ '.' :: (digits m).drop n) ⟨m, e⟩ where
  wellFormed := {
    whole := (areDigits_digits m).of_mem_or_zero (by simp [digits_ne_nil, h0.ne']) fun c hc =>
      .inl (List.mem_of_mem_take hc)
    leading := fun zero => by
      rw [List.head?_take, if_neg h0.ne'] at zero
      obtain rfl := eq_zero_of_head?_digits zero
      exact absurd h0 (Nat.not_lt.2 (Nat.le_of_lt_succ h))
    fraction := fun ds hds => by
      obtain rfl := Option.some.inj hds
      exact (areDigits_digits m).of_mem_or_zero
        (List.ne_nil_of_length_pos (by rw [List.length_drop]; omega)) fun c hc =>
          .inl (List.mem_of_mem_drop hc)
    exponent := nofun }
  sign := rfl
  chars := by simp [Numeral.chars, Numeral.fractionChars, Numeral.exponentChars]
  magnitude := by
    rw [Numeral.magnitude, Option.getD_some, List.take_append_drop, natural_digits,
      List.length_drop]
    simp only [Numeral.scale, Decimal.value]
    rw [he, Nat.cast_sub h.le]
    congr 2
    ring
  marked := .inl rfl

/-- A number below one: zeros stand between the point and the digits. -/
theorem spells_small {n : Nat} (he : e = -(n + (digits m).length : Nat)) :
    Numeral.Spells ⟨negative, ['0'], some (List.replicate n '0' ++ digits m), none⟩ negative
      ('0' :: '.' :: List.replicate n '0' ++ digits m) ⟨m, e⟩ where
  wellFormed := {
    whole := areDigits_digits 0
    leading := fun _ => rfl
    fraction := fun ds h => by
      obtain rfl := Option.some.inj h
      exact (areDigits_digits m).of_mem_or_zero (by simp [digits_ne_nil]) fun c hc =>
        (List.mem_append.1 hc).symm.imp_right List.eq_of_mem_replicate
    exponent := nofun }
  sign := rfl
  chars := by simp [Numeral.chars, Numeral.fractionChars, Numeral.exponentChars]
  magnitude := by
    have zeros : ['0'] ++ (List.replicate n '0' ++ digits m) =
        List.replicate (n + 1) '0' ++ digits m := rfl
    rw [Numeral.magnitude, Option.getD_some, zeros, natural_zeros_append, natural_digits]
    simp [Numeral.scale, Decimal.value, he]
  marked := .inl rfl

/-- One digit before the point, and an exponent. -/
theorem spells_scientific {c : Char} {rest : List Char} (hm : digits m = c :: rest) (x : Int)
    (he : e = x - rest.length) :
    Numeral.Spells ⟨negative, [c], if rest = [] then none else some rest,
        some (decide (x < 0), digits x.natAbs)⟩ negative
      ((match c :: rest with
        | [] => []
        | [c] => [c]
        | c :: rest => c :: '.' :: rest) ++
        'e' :: (if x < 0 then '-' else '+') :: digits x.natAbs) ⟨m, e⟩ where
  wellFormed := {
    whole := (areDigits_digits m).of_mem_or_zero (List.cons_ne_nil _ _) (by simp [hm])
    leading := fun _ => rfl
    fraction := fun ds hds => by
      split at hds
      next => cases hds
      next more =>
        obtain rfl := Option.some.inj hds
        exact (areDigits_digits m).of_mem_or_zero more fun c hc =>
          .inl (hm ▸ List.mem_cons_of_mem _ hc)
    exponent := fun _ ds hds => by
      obtain ⟨-, rfl⟩ := Prod.mk.inj (Option.some.inj hds)
      exact areDigits_digits _ }
  sign := rfl
  chars := by cases rest <;> simp [Numeral.chars, Numeral.fractionChars, Numeral.exponentChars]
  magnitude := by
    have scale : (if x < 0 then -(x.natAbs : Int) else x.natAbs) = x := by omega
    have shown : (if rest = [] then none else some rest).getD [] = rest := by
      split
      next empty => rw [empty]; rfl
      next => rfl
    simp only [Numeral.magnitude, Numeral.scale, Decimal.value, shown, List.singleton_append,
      decide_eq_true_eq, natural_digits, scale, he]
    rw [← hm, natural_digits]
  marked := .inr rfl

/-- Numbers that are written with an exponent: those below 0.00001, other than zero, and those from
10^16 on. -/
def TakesExponent (x : ℚ) : Prop :=
  x ≠ 0 ∧ (x < 10 ^ (-5 : Int) ∨ 10 ^ (16 : Int) ≤ x)

theorem takesExponent_iff {d : Decimal} (hd : d.digits = 0 → d.exponent = 0) :
    TakesExponent d.value ↔
      ¬ (doubleLayout.lowest ≤ d.exponent + (digits d.digits).length - 1 ∧
        d.exponent + (digits d.digits).length - 1 ≤ doubleLayout.highest) := by
  by_cases h : d.digits = 0
  · have value : d.value = 0 := by rw [Decimal.value, h, Nat.cast_zero, zero_mul]
    rw [h, hd h]
    exact iff_of_false (fun takes => takes.1 value) (not_not_intro (by decide))
  · have value : d.value ≠ 0 := by
      rw [Decimal.value]
      exact mul_ne_zero (Nat.cast_ne_zero.2 h) (by positivity)
    rw [TakesExponent, and_iff_right value, ← not_le, d.pow_le_value_iff h,
      d.pow_le_value_iff h, Decimal.length]
    simp only [doubleLayout]
    omega

/-- What is laid out for a decimal is a numeral of its value. -/
theorem exists_spells_write {d : Decimal} (hd : d.digits = 0 → d.exponent = 0) :
    ∃ n : Numeral, n.Spells negative (doubleLayout.write d) d ∧
      (n.exponent.isSome ↔ TakesExponent d.value) := by
  unfold Layout.write
  extract_lets ds x mantissa
  have length : 0 < (digits d.digits).length := List.length_pos_of_ne_nil (digits_ne_nil d.digits)
  have hx : x = d.exponent + (digits d.digits).length - 1 := rfl
  split
  next positional =>
    have plain : ¬ TakesExponent d.value := fun takes => (takesExponent_iff hd).1 takes positional
    split
    next whole =>
      obtain ⟨n, hn⟩ := Int.eq_ofNat_of_zero_le whole
      have spells := spells_whole negative (m := d.digits) (n := n) fun zero => by
        have := hd zero
        omega
      rw [← hn] at spells
      rw [hn]
      exact ⟨_, spells, iff_of_false nofun plain⟩
    next =>
      split
      next =>
        exact ⟨_, spells_point negative (m := d.digits) (Nat.succ_pos _) (by omega) (by omega),
          iff_of_false nofun plain⟩
      next =>
        exact ⟨_, spells_small negative (m := d.digits) (by omega), iff_of_false nofun plain⟩
  next scientific =>
    obtain ⟨c, rest, hc⟩ := List.exists_cons_of_ne_nil (digits_ne_nil d.digits)
    have few : (digits d.digits).length = rest.length + 1 := by rw [hc, List.length_cons]
    have spells := spells_scientific negative (e := d.exponent) hc x (by omega)
    rw [← hc] at spells
    exact ⟨_, spells, iff_of_true rfl ((takesExponent_iff hd).2 scientific)⟩

end Layouts

/-! ## Texts -/

theorem shortest_zero {x : Binary64} (h : x.rank = 0) : Binary64.shortest x.rank = ⟨0, 0⟩ := by
  rw [h]
  rfl

/-- Only zero is written by zeros. -/
theorem rank_eq_zero_of_digits {x : Binary64} (h : (Binary64.shortest x.rank).digits = 0) :
    x.rank = 0 := by
  have near := (Binary64.isShortest_shortest x).near
  rw [Decimal.value, h, Nat.cast_zero, zero_mul, ← Binary64.magnitude_zero] at near
  exact near.unique (Binary64.nearest_magnitude 0)

/-- A numeral stands for a binary64 number: it has the sign of the number and the value of a
shortest decimal for its magnitude. It has a point or an exponent, so that it is no integer, and it
has an exponent just where it takes one. -/
structure Numeral.Renders (n : Numeral) (x : Binary64) : Prop where
  sign : n.negative = x.negative
  value : ∃ d, n.magnitude = d.value ∧ Binary64.IsShortest x.rank d
  marked : n.fraction.isSome ∨ n.exponent.isSome
  scientific : n.exponent.isSome ↔ TakesExponent n.magnitude

/-- The text of a binary64 number is a numeral of its shortest decimal. -/
theorem exists_renders_doubleText (x : Binary64) :
    ∃ n : Numeral, n.WellFormed ∧ n.chars = doubleText x ∧ n.Renders x := by
  obtain ⟨n, hn, exponent⟩ := exists_spells_write x.negative (d := Binary64.shortest x.rank)
    fun zero => by rw [shortest_zero (rank_eq_zero_of_digits zero)]
  have magnitude : (if x.isZero then '0' :: doubleLayout.wholeMark
      else doubleLayout.write (Binary64.shortest x.rank)) =
        doubleLayout.write (Binary64.shortest x.rank) := by
    split
    next isZero =>
      rw [shortest_zero (eq_of_beq isZero)]
      rfl
    next => rfl
  refine ⟨n, hn.wellFormed, ?_, hn.sign, ⟨_, hn.magnitude, Binary64.isShortest_shortest x⟩,
    hn.marked, by rwa [hn.magnitude]⟩
  rw [hn.chars, doubleText, magnitude]
  cases x.negative <;> rfl

namespace Number

/-- What a text has to say of a number. An integer reads back as itself, and a binary64 number has a
numeral that stands for it. The exact value of the numeral counts, since `Value.read?` rounds more
than once and may read a neighbour. -/
def WrittenAs : Number → String → Prop
  | .integer i, text => Value.read? text = some (.number (.integer i))
  | .double x, text => ∃ n : Numeral, Document.read? text = some (.number n) ∧ n.Renders x

theorem writtenAs_text (n : Number) : n.WrittenAs (Value.number n).text := by
  cases n with
  | integer i => exact Value.read?_text (v := .number (.integer i)) trivial trivial
  | double x =>
    obtain ⟨n, wellFormed, hchars, renders⟩ := exists_renders_doubleText x
    refine ⟨n, ?_, renders⟩
    have read : readDocument (2 * n.chars.length + 2) (n.chars ++ []) = some (.number n, []) :=
      readDocument_numeral wellFormed nofun
    rw [List.append_nil] at read
    rw [Document.read?, Value.text, String.toList_ofList, chars, numberText, ← hchars,
      ofChars?_of_readDocument read]

/-- A tenth has no exact binary64 number, and the one nearest to it is written by one digit. -/
example : (Value.number (.double ⟨true, 0x3fb999999999999a, by decide⟩)).text = "-0.1" := by
  decide +kernel

/-- A numeral with a point or an exponent is no integer. -/
theorem not_integer_of_marked {n : Numeral} {i : Integer} {text : String}
    (hn : Document.read? text = some (.number n)) (marked : n.fraction.isSome ∨ n.exponent.isSome) :
    Value.read? text ≠ some (.number (.integer i)) := by
  have none : n.integer? = none := by
    unfold Numeral.integer?
    split
    next fraction exponent => simp [fraction, exponent] at marked
    next => rfl
  simp [Value.read?, hn, Document.value?, Numeral.number?, none]

/-- A text says what it says of one number. -/
theorem WrittenAs.unique {n m : Number} {text : String} (hn : n.WrittenAs text)
    (hm : m.WrittenAs text) : n = m := by
  cases n with
  | integer i =>
    cases m with
    | integer j =>
      obtain rfl : i = j := by simpa using hn.symm.trans hm
      rfl
    | double y =>
      obtain ⟨n, hread, renders⟩ := hm
      exact absurd hn (not_integer_of_marked hread renders.marked)
  | double x =>
    obtain ⟨n, hread, renders⟩ := hn
    cases m with
    | integer j => exact absurd hm (not_integer_of_marked hread renders.marked)
    | double y =>
      obtain ⟨n', hread', renders'⟩ := hm
      obtain rfl : n = n' := by simpa using hread.symm.trans hread'
      obtain ⟨d, value, shortest⟩ := renders.value
      obtain ⟨d', value', shortest'⟩ := renders'.value
      have same : x.rank = y.rank := by
        have near := shortest.near
        rw [← value, value'] at near
        exact near.unique shortest'.near
      obtain ⟨negative, rank, finite⟩ := x
      obtain ⟨negative', rank', finite'⟩ := y
      obtain rfl : negative = negative' := renders.sign.symm.trans renders'.sign
      obtain rfl : rank = rank' := same
      rfl

end Number

end Courier.Json
