import Courier.Proofs.FieldWrites

/-!
# Numbers that values state

A value states a natural number if it is that integer or a text of its decimal digits
(`Value.States`); the text may have a plus sign before the digits and white space around them. The
delivery mode, the priority and the time stamp of a message take the values that state a number of
their range, and hold that number (`NumericField.takes_stated_numbers`).
-/

namespace Courier

open Json (Value)

/-! ## White space at the ends -/

/-- Nothing but white space. -/
def White (cs : List Char) : Prop := ∀ c ∈ cs, isWhiteSpace c = true

/-- No white space at all. -/
def Solid (cs : List Char) : Prop := ∀ c ∈ cs, isWhiteSpace c = false

section Trimming

variable {before core after cs : List Char}

theorem White.reverse (h : White cs) : White cs.reverse := fun c hc => h c (List.mem_reverse.1 hc)

theorem Solid.reverse (h : Solid cs) : Solid cs.reverse := fun c hc => h c (List.mem_reverse.1 hc)

theorem white_takeWhile (cs : List Char) : White (cs.takeWhile isWhiteSpace) :=
  fun c hc => List.all_eq_true.1 List.all_takeWhile c hc

theorem dropWhile_surrounded (hb : White before) (hc : Solid core) (ne : core ≠ []) :
    (before ++ core ++ after).dropWhile isWhiteSpace = core ++ after := by
  obtain ⟨c, rest, rfl⟩ := List.exists_cons_of_ne_nil ne
  have stops : isWhiteSpace c = false := hc c List.mem_cons_self
  rw [List.append_assoc, List.dropWhile_append_of_pos hb, List.cons_append, List.dropWhile_cons,
    stops]
  rfl

/-- Of a text without white space trimming takes nothing but what is around it. -/
theorem trim_surrounded (hb : White before) (hc : Solid core) (ne : core ≠ []) (ha : White after) :
    trim (before ++ core ++ after) = core := by
  have back : (after.reverse ++ core.reverse ++ []).dropWhile isWhiteSpace = core.reverse ++ [] :=
    dropWhile_surrounded ha.reverse hc.reverse (mt List.reverse_eq_nil_iff.1 ne)
  rw [List.append_nil, List.append_nil] at back
  rw [trim, dropWhile_surrounded hb hc ne, List.reverse_append, back, List.reverse_reverse]

/-- Trimming takes white space at the ends and nothing else. -/
theorem exists_trim (cs : List Char) :
    ∃ before after, White before ∧ White after ∧ cs = before ++ trim cs ++ after := by
  let rest := cs.dropWhile isWhiteSpace
  have front : cs.takeWhile isWhiteSpace ++ rest = cs := List.takeWhile_append_dropWhile
  have back : rest.reverse.takeWhile isWhiteSpace ++ rest.reverse.dropWhile isWhiteSpace =
      rest.reverse := List.takeWhile_append_dropWhile
  refine ⟨_, _, white_takeWhile cs, (white_takeWhile rest.reverse).reverse, ?_⟩
  rw [trim, List.append_assoc, ← List.reverse_append, back, List.reverse_reverse, front]

end Trimming

/-! ## Digits -/

/-- Characters that write a number in decimal: one digit or more, with any number of zeros first. -/
structure DecimalOf (ds : List Char) (n : Nat) : Prop where
  nonempty : ds ≠ []
  digits : ∀ c ∈ ds, c.isDigit = true
  value : natural ds = n

theorem decimalOf_digits (n : Nat) : DecimalOf (digits n) n where
  nonempty := digits_ne_nil n
  digits := fun _ => isDigit_of_mem_digits
  value := natural_digits n

theorem isWhiteSpace_of_isDigit {c : Char} (h : c.isDigit = true) : isWhiteSpace c = false := by
  have bounds : 48 ≤ c.toNat ∧ c.toNat ≤ 57 := Char.isDigit_iff_toNat.1 h
  simp only [isWhiteSpace, whiteSpaceRanges, List.any_cons, List.any_nil, Bool.or_false,
    Bool.or_eq_false_iff, Bool.and_eq_false_iff, decide_eq_false_iff_not]
  omega

theorem DecimalOf.solid {ds : List Char} {n : Nat} (h : DecimalOf ds n) : Solid ds :=
  fun c hc => isWhiteSpace_of_isDigit (h.digits c hc)

theorem DecimalOf.solid_signed {ds : List Char} {n : Nat} (h : DecimalOf ds n) :
    Solid ('+' :: ds) := by
  intro c hc
  obtain rfl | hc := List.mem_cons.1 hc
  · decide
  · exact h.solid c hc

theorem natural?_eq_some_iff {cs : List Char} {n : Nat} :
    natural? cs = some n ↔ DecimalOf cs n := by
  rw [natural?]
  split
  next h =>
    constructor
    · intro hn
      exact ⟨h.1, List.all_eq_true.1 h.2, Option.some.inj hn⟩
    · intro hn
      exact congrArg some hn.value
  next h =>
    constructor
    · intro hn
      cases hn
    · intro hn
      exact absurd ⟨hn.nonempty, List.all_eq_true.2 hn.digits⟩ h

theorem signedNatural?_eq_some_iff {cs : List Char} {n : Nat} :
    signedNatural? cs = some n ↔ DecimalOf cs n ∨ ∃ ds, cs = '+' :: ds ∧ DecimalOf ds n := by
  by_cases signed : ∃ ds, cs = '+' :: ds
  · obtain ⟨ds, rfl⟩ := signed
    -- a plus sign is no digit, so the characters behind it are the number
    have plus : ¬ DecimalOf ('+' :: ds) n := fun h => by
      simpa using h.digits '+' List.mem_cons_self
    simp only [signedNatural?, natural?_eq_some_iff, plus, false_or, List.cons.injEq, true_and,
      exists_eq_left']
  · have bare : signedNatural? cs = natural? cs := by
      rw [signedNatural?.eq_2 cs fun ds h => signed ⟨ds, h⟩]
    rw [bare, natural?_eq_some_iff]
    refine (or_iff_left ?_).symm
    rintro ⟨ds, h, -⟩
    exact signed ⟨ds, h⟩

/-! ## Stated numbers -/

/-- A text that states a number: its digits, behind one plus sign or none, with any white space
around them. -/
inductive TextStates : List Char → Nat → Prop where
  | bare {before ds after : List Char} {n : Nat} (hb : White before) (h : DecimalOf ds n)
      (ha : White after) : TextStates (before ++ ds ++ after) n
  | signed {before ds after : List Char} {n : Nat} (hb : White before) (h : DecimalOf ds n)
      (ha : White after) : TextStates (before ++ '+' :: ds ++ after) n

/-- A value that states a number: the integer itself or a text of it. -/
inductive Json.Value.States : Value → Nat → Prop where
  | integer {i : Json.Integer} {n : Nat} (h : i.val = n) : States (.number (.integer i)) n
  | text {s : String} {n : Nat} (h : TextStates s.toList n) : States (.string s) n

theorem signedNatural?_trim_eq_some_iff {cs : List Char} {n : Nat} :
    signedNatural? (trim cs) = some n ↔ TextStates cs n := by
  constructor
  · intro h
    obtain ⟨before, after, hb, ha, hcs⟩ := exists_trim cs
    rw [hcs]
    obtain hd | ⟨ds, hs, hd⟩ := signedNatural?_eq_some_iff.1 h
    · exact .bare hb hd ha
    · rw [hs]
      exact .signed hb hd ha
  · intro h
    cases h with
    | bare hb hd ha =>
      rw [trim_surrounded hb hd.solid hd.nonempty ha]
      exact signedNatural?_eq_some_iff.2 (.inl hd)
    | signed hb hd ha =>
      rw [trim_surrounded hb hd.solid_signed (List.cons_ne_nil _ _) ha]
      exact signedNatural?_eq_some_iff.2 (.inr ⟨_, rfl, hd⟩)

theorem word_toNat {n : Nat} (h : n < 0x10000000000000000) : (UInt64.ofNat n).toNat = n :=
  UInt64.toNat_ofNat_of_lt' h

theorem Json.Integer.word?_eq_some_iff {i : Json.Integer} {w : UInt64} :
    i.word? = some w ↔ i.val = w.toNat := by
  have upper := i.upper
  rw [word?]
  split
  next positive =>
    rw [Option.some.injEq]
    constructor
    · rintro rfl
      rw [word_toNat (by omega)]
      omega
    · intro h
      rw [h, Int.toNat_natCast, UInt64.ofNat_toNat]
  next negative =>
    constructor
    · intro h
      cases h
    · omega

namespace Json.Value

variable {v : Value} {m n : Nat}

/-- A value states one number at most. -/
theorem States.unique (hm : v.States m) (hn : v.States n) : m = n := by
  cases hm with
  | integer hm =>
    cases hn with
    | integer hn => omega
  | text hm =>
    cases hn with
    | text hn =>
      rw [← signedNatural?_trim_eq_some_iff] at hm hn
      exact Option.some.inj (hm.symm.trans hn)

theorem states_integer_iff {i : Json.Integer} : States (.number (.integer i)) n ↔ i.val = n := by
  constructor
  · intro h
    cases h with
    | integer h => exact h
  · exact .integer

theorem states_string_iff {s : String} :
    States (.string s) n ↔ signedNatural? (trim s.toList) = some n := by
  rw [signedNatural?_trim_eq_some_iff]
  constructor
  · intro h
    cases h with
    | text h => exact h
  · exact .text

/-- The word of a value is the number that it states. -/
theorem word?_eq_some_iff {w : UInt64} : v.word? = some w ↔ v.States w.toNat := by
  cases v with
  | number number =>
    cases number with
    | integer i => rw [word?, Integer.word?_eq_some_iff, states_integer_iff]
    | double x => exact iff_of_false nofun nofun
  | string s =>
    have range : w.toNat < 0x10000000000000000 := w.toNat_lt
    rw [states_string_iff, word?]
    cases signedNatural? (trim s.toList) with
    | none => exact iff_of_false nofun nofun
    | some n =>
      simp only [Option.some.injEq]
      split
      next small =>
        rw [Option.some.injEq]
        constructor
        · rintro rfl
          exact (word_toNat small).symm
        · rintro rfl
          exact UInt64.ofNat_toNat
      next large => exact iff_of_false nofun fun h => large (h ▸ range)
  | null | bool | array | object => exact iff_of_false nofun nofun

/-- A value without a word states no number below 2^64. -/
theorem word?_eq_none_iff : v.word? = none ↔ ¬ ∃ n ≤ 0xFFFFFFFFFFFFFFFF, v.States n := by
  rw [Option.eq_none_iff_forall_ne_some]
  constructor
  · rintro h ⟨n, small, hn⟩
    refine h (UInt64.ofNat n) (word?_eq_some_iff.2 ?_)
    rwa [word_toNat (by omega)]
  · intro h w hw
    have range : w.toNat < 0x10000000000000000 := w.toNat_lt
    exact h ⟨w.toNat, by omega, word?_eq_some_iff.1 hw⟩

end Json.Value

theorem coerces_octet_iff {v : Value} {c : UInt8} :
    PropertyKind.octet.Coerces v c ↔ v.States c.toNat := by
  constructor
  · intro h
    cases h with
    | @octet _ w hw small =>
      have same : w.toUInt8.toNat = w.toNat := by
        rw [UInt64.toNat_toUInt8]
        omega
      rw [same]
      exact Value.word?_eq_some_iff.1 hw
  · intro h
    have range : c.toNat < 256 := c.toNat_lt
    have wide : c.toUInt64.toNat = c.toNat := UInt8.toNat_toUInt64 c
    have hw : v.word? = some c.toUInt64 := by
      rw [Value.word?_eq_some_iff, wide]
      exact h
    have back : c.toUInt64.toUInt8 = c := by simp
    exact back ▸ PropertyKind.Coerces.octet hw (by omega)

theorem coerces_seconds_iff {v : Value} {c : UInt64} :
    PropertyKind.seconds.Coerces v c ↔ v.States c.toNat := by
  rw [← Value.word?_eq_some_iff]
  constructor
  · intro h
    cases h with
    | seconds h => exact h
  · exact .seconds

/-! ## Properties that hold numbers -/

/-- A property that holds a number. -/
inductive NumericField where
  | deliveryMode
  | priority
  | timestamp

namespace NumericField

/-- The name of the property. -/
def name : NumericField → String
  | deliveryMode => "deliveryMode"
  | priority => "priority"
  | timestamp => "timestamp"

/-- The greatest number that the property takes. -/
def bound : NumericField → Nat
  | deliveryMode | priority => 255
  | timestamp => 0xFFFFFFFFFFFFFFFF

/-- The number that the property holds. -/
def held? (p : Properties) : NumericField → Option Nat
  | deliveryMode => p.deliveryMode.map UInt8.toNat
  | priority => p.priority.map UInt8.toNat
  | timestamp => p.timestamp.map UInt64.toNat

/-- What is wrong with a value that states no number up to the bound of a property. -/
inductive Blames (v : Value) : NumericField → ValueFault → Prop where
  | outOfRange {f : NumericField} {w : UInt64} (octet : f ≠ .timestamp) (hv : v.States w.toNat)
      (large : 256 ≤ w.toNat) : Blames v f (.outOfRange w)
  | notInteger {f : NumericField} (octet : f ≠ .timestamp)
      (h : ¬ ∃ n ≤ 0xFFFFFFFFFFFFFFFF, v.States n) : Blames v f (.notInteger v)
  | notSeconds (h : ¬ ∃ n ≤ 0xFFFFFFFFFFFFFFFF, v.States n) : Blames v .timestamp (.notSeconds v)

/-- Values that may look like numbers but state none up to a bound. -/
inductive Misstates (bound : Nat) : Value → Prop where
  | double (x : Binary64) : Misstates bound (.number (.double x))
  | negative {i : Json.Integer} (h : i.val < 0) : Misstates bound (.number (.integer i))
  | large {i : Json.Integer} (h : bound < i.val) : Misstates bound (.number (.integer i))
  | minus {s : String} (h : '-' ∈ s.toList) : Misstates bound (.string s)
  | noDigit {s : String} (h : ∀ c ∈ s.toList, c.isDigit = false) : Misstates bound (.string s)
  /-- There is white space between two characters that are none. -/
  | innerSpace {s : String} {front back : List Char} {a b c : Char}
      (h : s.toList = front ++ c :: back) (hc : isWhiteSpace c = true) (ha : a ∈ front)
      (hb : b ∈ back) (solid : isWhiteSpace a = false ∧ isWhiteSpace b = false) :
      Misstates bound (.string s)
  | beyond {s : String} {n : Nat} (h : TextStates s.toList n) (hn : bound < n) :
      Misstates bound (.string s)

variable {p q : Properties} {f : NumericField} {v : Value} {fault : ValueFault}

/-- The property by its place in a message. -/
def property : NumericField → PropertyName
  | deliveryMode => .deliveryMode
  | priority => .priority
  | timestamp => .timestamp

/-- The number that a value of the property is. -/
def number : (f : NumericField) → f.property.kind.Carrier → Nat
  | deliveryMode, c | priority, c => UInt8.toNat c
  | timestamp, c => UInt64.toNat c

theorem spelling_property (f : NumericField) : f.property.spelling = f.name := by
  cases f <;> rfl

theorem held?_set (p : Properties) (c : f.property.kind.Carrier) :
    f.held? (p.set f.property c) = some (f.number c) := by
  cases f <;> rfl

theorem number_le (c : f.property.kind.Carrier) : f.number c ≤ f.bound := by
  cases f with
  | deliveryMode | priority => exact Nat.le_of_lt_succ (UInt8.toNat_lt c)
  | timestamp => exact Nat.le_of_lt_succ (UInt64.toNat_lt c)

theorem exists_number {n : Nat} (h : n ≤ f.bound) : ∃ c, f.number c = n := by
  cases f with
  | deliveryMode | priority => exact ⟨UInt8.ofNat n, UInt8.toNat_ofNat_of_lt' (Nat.lt_succ_of_le h)⟩
  | timestamp => exact ⟨UInt64.ofNat n, UInt64.toNat_ofNat_of_lt' (Nat.lt_succ_of_le h)⟩

theorem coerces_iff {c : f.property.kind.Carrier} :
    f.property.kind.Coerces v c ↔ v.States (f.number c) := by
  cases f with
  | deliveryMode | priority => exact coerces_octet_iff
  | timestamp => exact coerces_seconds_iff

theorem faults_iff : f.property.kind.Faults v fault ↔ f.Blames v fault := by
  have octet (hf : f ≠ .timestamp) : PropertyKind.octet.Faults v fault ↔ f.Blames v fault := by
    constructor
    · intro h
      cases h with
      | notInteger h => exact .notInteger hf (Value.word?_eq_none_iff.1 h)
      | outOfRange h large => exact .outOfRange hf (Value.word?_eq_some_iff.1 h) large
    · intro h
      cases h with
      | outOfRange _ h large => exact .outOfRange (Value.word?_eq_some_iff.2 h) large
      | notInteger _ h => exact .notInteger (Value.word?_eq_none_iff.2 h)
      | notSeconds => exact absurd rfl hf
  cases f with
  | deliveryMode | priority => exact octet nofun
  | timestamp =>
    constructor
    · intro h
      cases h with
      | notSeconds h => exact .notSeconds (Value.word?_eq_none_iff.1 h)
    · intro h
      cases h with
      | outOfRange hf | notInteger hf => exact absurd rfl hf
      | notSeconds h => exact .notSeconds (Value.word?_eq_none_iff.2 h)

theorem assignable_iff : Assignable f.name v ↔ ∃ n ≤ f.bound, v.States n := by
  rw [← spelling_property, assignable_spelling_iff]
  constructor
  · rintro ⟨c, hc⟩
    exact ⟨f.number c, number_le c, coerces_iff.1 hc⟩
  · rintro ⟨n, hn, h⟩
    obtain ⟨c, rfl⟩ := exists_number hn
    exact ⟨c, coerces_iff.2 h⟩

theorem refuses_iff {failure : Failure} : Refuses f.name v failure ↔
    ∃ fault, f.Blames v fault ∧ failure = .invalidPropertyValue f.name fault := by
  rw [← spelling_property, refuses_spelling_iff]
  simp only [faults_iff]

/-- A number up to the bound of a property is what the property then holds. -/
theorem exists_assign {n : Nat} (hn : n ≤ f.bound) (h : v.States n) (p : Properties) :
    ∃ q, p.assign f.name v = .ok q ∧ f.held? q = some n := by
  obtain ⟨c, rfl⟩ := exists_number hn
  have assigned := p.assign_of_coerces (coerces_iff.2 h)
  rw [spelling_property] at assigned
  exact ⟨_, assigned, held?_set p c⟩

/-- Values that state the same word are taken alike, or refused alike. -/
theorem assign_congr {v' : Value} {w : UInt64} (h : v.States w.toNat) (h' : v'.States w.toNat)
    (p : Properties) : p.assign f.name v = p.assign f.name v' := by
  by_cases small : w.toNat ≤ f.bound
  · obtain ⟨c, hc⟩ := exists_number small
    rw [← hc] at h h'
    rw [← spelling_property, p.assign_of_coerces (coerces_iff.2 h),
      p.assign_of_coerces (coerces_iff.2 h')]
  · have octet : f ≠ .timestamp := by
      rintro rfl
      exact small (Nat.le_of_lt_succ w.toNat_lt)
    have large : 256 ≤ w.toNat := by
      cases f with
      | deliveryMode | priority => exact Nat.lt_of_not_le small
      | timestamp => exact absurd rfl octet
    rw [p.assign_of_refuses (refuses_iff.2 ⟨_, .outOfRange octet h large, rfl⟩),
      p.assign_of_refuses (refuses_iff.2 ⟨_, .outOfRange octet h' large, rfl⟩)]

end NumericField

/-! ## What states no number -/

namespace TextStates

variable {cs : List Char} {n : Nat}

/-- A text that states a number is white space around characters that are none. -/
theorem exists_solid (h : TextStates cs n) : ∃ before core after, cs = before ++ core ++ after ∧
    White before ∧ Solid core ∧ White after := by
  cases h with
  | bare hb hd ha => exact ⟨_, _, _, rfl, hb, hd.solid, ha⟩
  | signed hb hd ha => exact ⟨_, _, _, rfl, hb, hd.solid_signed, ha⟩

theorem exists_digit (h : TextStates cs n) : ∃ c ∈ cs, c.isDigit = true := by
  have digit {ds : List Char} (hd : DecimalOf ds n) : ∃ c ∈ ds, c.isDigit = true := by
    obtain ⟨c, hc⟩ := List.exists_mem_of_ne_nil ds hd.nonempty
    exact ⟨c, hc, hd.digits c hc⟩
  cases h with
  | bare _ hd | signed _ hd =>
    obtain ⟨c, hc, h⟩ := digit hd
    exact ⟨c, by simp [hc], h⟩

theorem minus_not_mem (h : TextStates cs n) : '-' ∉ cs := by
  have white {l : List Char} (hl : White l) : '-' ∉ l := fun hm => absurd (hl '-' hm) (by decide)
  have digit {ds : List Char} (hd : DecimalOf ds n) : '-' ∉ ds :=
    fun hm => absurd (hd.digits '-' hm) (by decide)
  cases h with
  | bare hb hd ha => simp [white hb, digit hd, white ha]
  | signed hb hd ha => simp [white hb, digit hd, white ha]

/-- White space in a text that states a number is not between other characters. -/
theorem white_of_split {front back : List Char} {c : Char} (h : TextStates (front ++ c :: back) n)
    (hc : isWhiteSpace c = true) : White front ∨ White back := by
  obtain ⟨before, core, after, hcs, hb, solid, ha⟩ := h.exists_solid
  rw [List.append_assoc] at hcs
  -- the space is before the characters that are none, among them, or after them
  obtain ⟨tail, rfl, -⟩ | ⟨tail, rfl, hrest⟩ := List.append_eq_append_iff.1 hcs
  · exact .inl fun d hd => hb d (List.mem_append_left _ hd)
  · obtain ⟨tail', rfl, rfl⟩ | ⟨tail', rfl, hback⟩ := List.append_eq_append_iff.1 hrest
    · exact .inr fun d hd => ha d (by simp [hd])
    · cases tail' with
      | nil =>
        rw [List.nil_append] at hback
        exact .inr fun d hd => ha d (hback ▸ List.mem_cons_of_mem _ hd)
      | cons d tail' =>
        obtain ⟨rfl, -⟩ := List.cons.inj hback
        exact absurd (hc.symm.trans (solid c (by simp))) nofun

end TextStates

namespace NumericField

variable {f : NumericField} {v : Value}

theorem Misstates.not_stated {bound : Nat} (h : Misstates bound v) :
    ¬ ∃ n ≤ bound, v.States n := by
  rintro ⟨n, hn, hv⟩
  cases hv with
  | integer hi =>
    cases h with
    | negative h | large h => omega
  | text ht =>
    cases h with
    | minus h => exact ht.minus_not_mem h
    | noDigit h =>
      obtain ⟨c, hc, digit⟩ := ht.exists_digit
      exact absurd (digit.symm.trans (h c hc)) nofun
    | innerSpace h hc ha hb solid =>
      rw [h] at ht
      obtain white | white := ht.white_of_split hc
      · exact absurd ((white _ ha).symm.trans solid.1) nofun
      · exact absurd ((white _ hb).symm.trans solid.2) nofun
    | beyond h large =>
      have same := (Value.States.text h).unique (.text ht)
      omega

/-- A property that holds numbers takes the values that state a number up to its bound, and then
holds this number. Any other value is refused under the name of the property: as out of range where
it states a larger number of 64 bits, and otherwise as none. So a word and its digits, with any
white space around them, are taken alike. -/
theorem takes_stated_numbers (f : NumericField) (p : Properties) (v : Value) :
    ((∃ q, p.assign f.name v = .ok q) ↔ ∃ n ≤ f.bound, v.States n) ∧
    (∀ n ≤ f.bound, v.States n → ∃ q, p.assign f.name v = .ok q ∧ f.held? q = some n) ∧
    ((¬ ∃ n ≤ f.bound, v.States n) →
      ∃ fault, p.assign f.name v = .error (.invalidPropertyValue f.name fault)) ∧
    (∀ failure, p.assign f.name v = .error failure ↔
      ∃ fault, f.Blames v fault ∧ failure = .invalidPropertyValue f.name fault) ∧
    (Misstates f.bound v →
      ∃ fault, p.assign f.name v = .error (.invalidPropertyValue f.name fault)) ∧
    ∀ (w : UInt64) (s : String) (before after : List Char), White before → White after →
      s.toList = before ++ digits w.toNat ++ after →
      p.assign f.name (.string s) = p.assign f.name (.integer (.ofWord w)) := by
  have refused (h : ¬ ∃ n ≤ f.bound, v.States n) :
      ∃ fault, p.assign f.name v = .error (.invalidPropertyValue f.name fault) := by
    obtain ⟨failure, hf⟩ := not_assignable_iff.1 (mt assignable_iff.1 h)
    obtain ⟨fault, -, rfl⟩ := refuses_iff.1 hf
    exact ⟨fault, p.assign_of_refuses hf⟩
  refine ⟨?_, fun n hn h => exists_assign hn h p, refused, fun failure => ?_,
    fun h => refused h.not_stated, fun w s before after hb ha hs => ?_⟩
  · rw [Properties.exists_assign_iff, assignable_iff]
  · rw [Properties.assign_eq_error_iff, refuses_iff]
  · refine assign_congr (w := w) (.text ?_) (.integer rfl) p
    rw [hs]
    exact .bare hb (decimalOf_digits _) ha

/-- A plus sign, leading zeros and white space of any kind around them count for nothing. -/
example : (((∅ : Properties).assign "priority" (.string "\u00a0+00255\n")).toOption.bind
    (·.priority)) = some 255 := by
  decide

end NumericField

end Courier
