import Courier.Uuid
import Mathlib.Algebra.Order.Ring.Nat
import Mathlib.Data.List.Induction

/-!
# How UUIDs are written

A text reads as a UUID exactly if it is one of the UUID's spellings (`Uuid.read?_eq_some_iff`): its
32 digits in either case, in one row or in hyphenated groups, and the groups bare, in braces or
behind `urn:uuid:`. The spelling that is written is the canonical one (`Uuid.canonical_chars`).
-/

namespace Courier

/-! ## Hexadecimal digits -/

namespace Hex

/-- A character is a digit if it is the digit's character, in either case. -/
theorem digit?_eq_some_iff {c : Char} {d : Nat} :
    digit? c = some d ↔ d < 16 ∧ c.toLower = Nat.digitChar d := by
  by_cases ascii : c.toNat < 128
  · have digits : ∀ n < 128, ∀ d < 16,
        digit? (Char.ofNat n) = some d ↔ (Char.ofNat n).toLower = Nat.digitChar d := by
      decide +kernel
    have small : ∀ n < 128, ∀ d ∈ digit? (Char.ofNat n), d < 16 := by decide
    rw [← Char.ofNat_toNat c]
    exact ⟨fun h => ⟨small _ ascii d h, (digits _ ascii d (small _ ascii d h)).1 h⟩,
      fun h => (digits _ ascii d h.1).2 h.2⟩
  · have above : ∀ b : Char, b.toNat < 128 → ¬ c ≤ b :=
      fun b hb (hc : c.toNat ≤ b.toNat) => by omega
    have notDigit : digit? c = none := by
      rw [digit?, if_neg fun h => above '9' (by decide) h.2,
        if_neg fun h => above 'f' (by decide) h.2, if_neg fun h => above 'F' (by decide) h.2]
    have lower : c.toLower = c := dif_neg fun h => above 'Z' (by decide) h.2
    have notChar : ∀ d < 16, (Nat.digitChar d).toNat < 128 := by decide
    rw [notDigit, lower]
    exact iff_of_false (by simp) fun ⟨hd, hc⟩ => ascii (hc ▸ notChar d hd)

theorem value?_concat (cs : List Char) (c : Char) :
    value? (cs ++ [c]) = (value? cs).bind fun n => (digit? c).map (n * 16 + ·) := by
  unfold value?
  rw [valueFrom?_append]
  congr 1
  funext n
  rw [valueFrom?]
  cases digit? c <;> rfl

/-- Characters read as a number if they are its digits, in either case. -/
theorem value?_eq_some_iff {cs : List Char} {n : Nat} : value? cs = some n ↔
    cs.map Char.toLower = digits cs.length n ∧ n < 16 ^ cs.length := by
  induction cs using List.reverseRecOn generalizing n with
  | nil => simp [value?, valueFrom?, digits, eq_comm]
  | append_singleton cs c ih =>
    simp only [value?_concat, Option.bind_eq_some_iff, Option.map_eq_some_iff, ih,
      digit?_eq_some_iff, List.map_append, List.map_cons, List.map_nil, List.length_append,
      List.length_singleton, digits, Nat.pow_succ]
    constructor
    · rintro ⟨high, ⟨hcs, hhigh⟩, d, ⟨hd, hc⟩, rfl⟩
      rw [show (high * 16 + d) / 16 = high by omega, show (high * 16 + d) % 16 = d by omega, hcs,
        hc]
      exact ⟨rfl, by omega⟩
    · rintro ⟨hdigits, hn⟩
      obtain ⟨hcs, hc⟩ := List.append_inj' hdigits rfl
      exact ⟨n / 16, ⟨hcs, by omega⟩, n % 16, ⟨by omega, (List.cons.inj hc).1⟩, by omega⟩

end Hex

namespace Uuid

/-- The digits of the UUID, in either case. -/
def Digits (u : Uuid) (ds : List Char) : Prop := ds.map Char.toLower = Hex.digits 32 u.val

/-- The spellings of a UUID: its digits in a row or in hyphenated groups, and the groups in braces
or behind the name of the scheme, in either case. -/
inductive Spelling (u : Uuid) : List Char → Prop where
  | row {ds} : u.Digits ds → Spelling u ds
  | grouped {ds} : u.Digits ds → Spelling u (hyphenate groups ds)
  | braced {ds} : u.Digits ds → Spelling u ('{' :: hyphenate groups ds ++ ['}'])
  | named {ds name} : u.Digits ds → name.map Char.toLower = urn →
      Spelling u (name ++ hyphenate groups ds)

variable {u : Uuid} {cs ds : List Char}

theorem ofDigits?_eq_some_iff :
    ofDigits? cs = some u ↔ cs.map Char.toLower = Hex.digits 32 u.val := by
  have bound : (16 : Nat) ^ 32 = 1 <<< 128 := by decide
  have value : cs.length = 32 → (cs.map Char.toLower = Hex.digits 32 u.val ↔
      Hex.value? cs = some u.val) := by
    intro length
    rw [Hex.value?_eq_some_iff, length, bound, and_iff_left u.lt]
  unfold ofDigits?
  split
  next length =>
    rw [value length]
    split
    next n hn =>
      rw [hn, Option.some.injEq]
      split
      next hlt => rw [Option.some.injEq, Uuid.mk.injEq]
      next hge => exact iff_of_false (by simp) fun h => hge (h ▸ u.lt)
    next hnone => simp [hnone]
  next length =>
    refine iff_of_false (by simp) fun h => length ?_
    rw [← List.length_map (f := Char.toLower), h, Hex.length_digits]

theorem unhyphenate?_cons {n m : Nat} {groups : List Nat} :
    unhyphenate? (n :: m :: groups) cs = some ds ↔ ∃ rest tail, cs.drop n = '-' :: rest ∧
      unhyphenate? (m :: groups) rest = some tail ∧ cs.take n ++ tail = ds := by
  simp only [unhyphenate?]
  split
  next rest hdrop => simp [hdrop, Option.map_eq_some_iff]
  next hno => exact iff_of_false (by simp) fun ⟨rest, _, hdrop, _⟩ => hno rest hdrop

/-- The hyphens come out of what they were put into, and out of nothing else. -/
theorem unhyphenate?_eq_some_iff {groups : List Nat} :
    unhyphenate? groups cs = some ds ↔ ds.length = groups.sum ∧ cs = hyphenate groups ds := by
  induction groups generalizing cs ds with
  | nil => cases cs <;> simp [unhyphenate?, hyphenate, eq_comm]
  | cons n groups ih =>
    cases groups with
    | nil =>
      simp only [unhyphenate?, hyphenate, List.sum_cons, List.sum_nil, Nat.add_zero,
        Option.ite_none_right_eq_some, Option.some.injEq]
      constructor
      · rintro ⟨hlength, rfl⟩
        exact ⟨hlength, by rw [← hlength, List.take_length]⟩
      · rintro ⟨hlength, rfl⟩
        rw [← hlength, List.take_length]
        exact ⟨rfl, rfl⟩
    | cons m groups =>
      simp only [unhyphenate?_cons, ih]
      show _ ↔ _ ∧ cs = ds.take n ++ '-' :: hyphenate (m :: groups) (ds.drop n)
      constructor
      · rintro ⟨_, tail, hdrop, ⟨hlength, rfl⟩, rfl⟩
        have taken : (cs.take n).length = n := by
          have := congrArg List.length hdrop
          rw [List.length_drop, List.length_cons] at this
          rw [List.length_take]
          omega
        refine ⟨by rw [List.length_append, taken, hlength, ← List.sum_cons], ?_⟩
        rw [List.take_left' taken, List.drop_left' taken, ← hdrop, List.take_append_drop]
      · rintro ⟨hlength, rfl⟩
        rw [List.sum_cons] at hlength
        have taken : (ds.take n).length = n := by
          rw [List.length_take]
          omega
        refine ⟨_, ds.drop n, List.drop_left' taken, ⟨?_, rfl⟩, ?_⟩
        · rw [List.length_drop]
          omega
        · rw [List.take_left' taken, List.take_append_drop]

theorem Digits.length (h : u.Digits ds) : ds.length = 32 := by
  rw [← List.length_map (f := Char.toLower), h, Hex.length_digits]

theorem length_hyphenate (h : ds.length = 32) : (hyphenate groups ds).length = 36 := by
  simp [hyphenate, groups, h]

theorem ofHyphenated?_eq_some_iff :
    ofHyphenated? cs = some u ↔ ∃ ds, u.Digits ds ∧ cs = hyphenate groups ds := by
  simp only [ofHyphenated?, Option.bind_eq_some_iff, unhyphenate?_eq_some_iff,
    ofDigits?_eq_some_iff]
  constructor
  · rintro ⟨ds, ⟨-, hcs⟩, h⟩
    exact ⟨ds, h, hcs⟩
  · rintro ⟨ds, h, hcs⟩
    exact ⟨ds, ⟨h.length, hcs⟩, h⟩

theorem eq_of_braces {a b : Char} (ha : cs.head? = some a) (hb : cs.getLast? = some b)
    (length : 2 ≤ cs.length) : cs = a :: (cs.drop 1).dropLast ++ [b] := by
  cases cs with
  | nil => cases ha
  | cons c rest =>
    obtain rfl : c = a := Option.some.inj ha
    have nonempty : rest ≠ [] := by
      rintro rfl
      simp at length
    have last : rest.getLast nonempty = b := by
      rw [List.getLast?_eq_some_getLast (List.cons_ne_nil c rest),
        List.getLast_cons nonempty] at hb
      exact Option.some.inj hb
    rw [List.drop_one, List.tail_cons, List.cons_append, ← last, List.dropLast_concat_getLast]

theorem spelling_of_ofChars (h : ofChars? cs = some u) : u.Spelling cs := by
  unfold ofChars? at h
  split at h
  · exact .row (ofDigits?_eq_some_iff.1 h)
  split at h
  · obtain ⟨ds, hds, rfl⟩ := ofHyphenated?_eq_some_iff.1 h
    exact .grouped hds
  split at h
  · split at h
    next braces =>
      obtain ⟨ds, hds, hcs⟩ := ofHyphenated?_eq_some_iff.1 h
      rw [eq_of_braces braces.1 braces.2 (by omega), hcs]
      exact .braced hds
    next => cases h
  split at h
  · split at h
    next name =>
      obtain ⟨ds, hds, hcs⟩ := ofHyphenated?_eq_some_iff.1 h
      rw [← List.take_append_drop 9 cs, hcs]
      exact .named hds name
    next => cases h
  · cases h

theorem Spelling.read (h : u.Spelling cs) : ofChars? cs = some u := by
  cases h with
  | row hds => rw [ofChars?, if_pos hds.length]; exact ofDigits?_eq_some_iff.2 hds
  | grouped hds =>
    rw [ofChars?, length_hyphenate hds.length]
    exact ofHyphenated?_eq_some_iff.2 ⟨_, hds, rfl⟩
  | @braced ds hds =>
    have length := length_hyphenate hds.length
    have length' : ('{' :: hyphenate groups ds ++ ['}']).length = 38 := by simp [length]
    have inner : (('{' :: hyphenate groups ds ++ ['}']).drop 1).dropLast = hyphenate groups ds := by
      simp
    have braces : ('{' :: hyphenate groups ds ++ ['}']).head? = some '{' ∧
        ('{' :: hyphenate groups ds ++ ['}']).getLast? = some '}' := ⟨rfl, List.getLast?_concat⟩
    rw [ofChars?, length', inner, if_pos braces]
    exact ofHyphenated?_eq_some_iff.2 ⟨_, hds, rfl⟩
  | @named ds name hds hname =>
    have length := length_hyphenate hds.length
    have nine : name.length = 9 := by rw [← List.length_map (f := Char.toLower), hname]; rfl
    have length' : (name ++ hyphenate groups ds).length = 45 := by simp [length, nine]
    rw [ofChars?, length', List.take_left' nine, List.drop_left' nine]
    simpa [hname] using ofHyphenated?_eq_some_iff.2 ⟨_, hds, rfl⟩

/-- A text reads as a UUID exactly if it is one of the UUID's spellings. -/
theorem read?_eq_some_iff {s : String} : read? s = some u ↔ u.Spelling s.toList :=
  ⟨spelling_of_ofChars, Spelling.read⟩

/-- Groups of eight, four, four, four and twelve lowercase digits, joined by hyphens. -/
def Canonical (cs : List Char) : Prop :=
  ∃ ds, ds.length = 32 ∧ (∀ c ∈ ds, c ∈ "0123456789abcdef".toList) ∧ cs = hyphenate groups ds

theorem mem_digits {count n : Nat} {c : Char} (h : c ∈ Hex.digits count n) :
    c ∈ "0123456789abcdef".toList := by
  have digit : ∀ d < 16, Nat.digitChar d ∈ "0123456789abcdef".toList := by decide
  induction count generalizing n with
  | zero => cases h
  | succ count ih =>
    obtain h | h := List.mem_append.1 h
    · exact ih h
    · rw [List.mem_singleton.1 h]
      exact digit _ (Nat.mod_lt _ (by decide))

/-- The spelling that is written is the canonical one. -/
theorem canonical_text (u : Uuid) : Canonical u.text.toList :=
  ⟨Hex.digits 32 u.val, Hex.length_digits _ _, fun _ => mem_digits, String.toList_ofList⟩

theorem map_toLower_digits (count n : Nat) :
    (Hex.digits count n).map Char.toLower = Hex.digits count n := by
  have lower : ("0123456789abcdef".toList.all fun c => c.toLower == c) = true := by decide
  have same (c : Char) (hc : c ∈ Hex.digits count n) : c.toLower = c :=
    eq_of_beq (List.all_eq_true.1 lower c (mem_digits hc))
  rw [List.map_congr_left same, List.map_id']

/-- What is written reads back. -/
@[simp] theorem read?_text (u : Uuid) : read? u.text = some u := by
  rw [read?_eq_some_iff, text, String.toList_ofList]
  exact .grouped (map_toLower_digits 32 u.val)

theorem text_ne_empty (u : Uuid) : u.text ≠ "" := by
  intro h
  have := length_hyphenate (Hex.length_digits 32 u.val)
  rw [← String.toList_inj, text, String.toList_ofList, chars] at h
  rw [h] at this
  cases this

end Uuid

end Courier
