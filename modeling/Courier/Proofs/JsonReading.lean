import Courier.Json.Reader
import Courier.Json.Text

/-!
# Reading compact JSON text back

The reader takes the compact text of a value without binary64 numbers for a document that denotes
the value, and leaves what follows (`reads_chars`), so the text reads back as the value
(`Value.read?_text`); the members of a written object read back in the order in which they were
written (`Document.read?_textOfMembers`).
-/

namespace Courier

/-! ## Tables -/

namespace Table

variable {α : Type}

theorem put_of_last {name : String} {value : α} {l : List (String × α)}
    (h : ∀ e ∈ l, e.1 < name) : put name value l = l ++ [(name, value)] := by
  induction l with
  | nil => rfl
  | cons d rest ih =>
    have hd := h d List.mem_cons_self
    rw [put, if_neg (String.lt_asymm hd), if_pos hd, ih fun e he => h e (List.mem_cons_of_mem _ he),
      List.cons_append]

/-- Writing entries in ascending order adds them one after another. -/
theorem entries_foldl_insert {t : Table α} {l : List (String × α)}
    (h : (t.entries ++ l).Pairwise fun a b => a.1 < b.1) :
    (l.foldl (fun t e => t.insert e.1 e.2) t).entries = t.entries ++ l := by
  induction l generalizing t with
  | nil => simp
  | cons e rest ih =>
    have last : ∀ d ∈ t.entries, d.1 < e.1 := fun d hd =>
      (List.pairwise_append.1 h).2.2 d hd e List.mem_cons_self
    have inserted : (t.insert e.1 e.2).entries = t.entries ++ [e] := put_of_last last
    rw [List.foldl_cons, ih (by rwa [inserted, List.append_assoc]), inserted, List.append_assoc]
    rfl

/-- A table filled from its entries is the table. -/
theorem ofList_of_sorted {l : List (String × α)} (h : l.Pairwise fun a b => a.1 < b.1) :
    ofList l = ⟨l, h⟩ := by
  have entries : (ofList l).entries = l := entries_foldl_insert (t := ∅) h
  cases hl : ofList l with
  | mk entries' sorted =>
    rw [hl] at entries
    subst entries
    rfl

end Table

namespace Json

/-! ## Strings -/

/-- A character is written as a letter behind a backslash, by its four hexadecimal digits, or as it
is. -/
theorem escape_cases (c : Char) :
    (∃ l, l ≠ 'u' ∧ escaped? l = some c ∧ escape c = ['\\', l]) ∨
    (c.toNat < 32 ∧ escape c = ['\\', 'u', '0', '0', Nat.digitChar (c.toNat / 16),
      Nat.digitChar (c.toNat % 16)]) ∨
    (32 ≤ c.toNat ∧ c ≠ '"' ∧ c ≠ '\\' ∧ escape c = [c]) := by
  by_cases letter : c ∈ ['"', '\\', '\n', '\r', '\t', '\x08', '\x0c']
  · left
    simp only [List.mem_cons, List.not_mem_nil, or_false] at letter
    obtain rfl | rfl | rfl | rfl | rfl | rfl | rfl := letter <;>
      exact ⟨_, by decide, by decide, rfl⟩
  · right
    simp only [List.mem_cons, List.not_mem_nil, or_false, not_or] at letter
    obtain ⟨h1, h2, h3, h4, h5, h6, h7⟩ := letter
    by_cases control : c.toNat < 32
    · exact .inl ⟨control,
        by simp only [escape, h1, h2, h3, h4, h5, h6, h7, control, if_true, if_false]⟩
    · exact .inr ⟨by omega, h1, h2,
        by simp only [escape, h1, h2, h3, h4, h5, h6, h7, control, if_false]⟩

theorem readPieces_letter {l c : Char} (hl : l ≠ 'u') (hc : escaped? l = some c) (cs : List Char) :
    readPieces ('\\' :: l :: cs) = (readPieces cs).map fun (ps, rest) => (.char c :: ps, rest) := by
  rw [readPieces.eq_4 l cs fun _ _ _ _ _ hu _ => hl hu, hc]
  cases readPieces cs <;> rfl

/-- A character below U+0020 reads back from its four hexadecimal digits. -/
theorem hexValue_escape {n : Nat} (h : n < 32) :
    Hex.value? ['0', '0', Nat.digitChar (n / 16), Nat.digitChar (n % 16)] = some n :=
  (by decide : ∀ n < 32,
    Hex.value? ['0', '0', Nat.digitChar (n / 16), Nat.digitChar (n % 16)] = some n) n h

theorem decodePieces_unit {c : Char} (h : c.toNat < 32) (ps : List Piece) :
    decodePieces (.unit c.toNat :: ps) = (decodePieces ps).map (c :: ·) := by
  have opens : opensPair c.toNat = false := by
    simp only [opensPair, Bool.and_eq_false_iff, decide_eq_false_iff_not]
    omega
  have closes : closesPair c.toNat = false := by
    simp only [closesPair, Bool.and_eq_false_iff, decide_eq_false_iff_not]
    omega
  rw [decodePieces.eq_def]
  simp [opens, closes, Char.ofNat_toNat]

/-- A character behind its escape is one piece, which stands for it. -/
theorem readPieces_escape (c : Char) : ∃ p : Piece,
    (∀ cs, readPieces (escape c ++ cs) = (readPieces cs).map fun (ps, rest) => (p :: ps, rest)) ∧
      ∀ ps, decodePieces (p :: ps) = (decodePieces ps).map (c :: ·) := by
  obtain ⟨l, hl, hc, he⟩ | ⟨control, he⟩ | ⟨plain, quote, backslash, he⟩ := escape_cases c
  · exact ⟨.char c, fun cs => by rw [he]; exact readPieces_letter hl hc cs, fun _ => rfl⟩
  · refine ⟨.unit c.toNat, fun cs => ?_, decodePieces_unit control⟩
    rw [he]
    simp only [List.cons_append, List.nil_append, readPieces, hexValue_escape control]
    cases readPieces cs <;> rfl
  · refine ⟨.char c, fun cs => ?_, fun _ => rfl⟩
    rw [he, List.singleton_append, readPieces.eq_5 c cs quote (fun _ _ _ _ _ hb _ => backslash hb)
      fun _ _ hb _ => backslash hb, if_neg (not_or.2 ⟨by omega, backslash⟩)]

/-- A string's pieces stand for it. -/
theorem readPieces_flatMap (s rest : List Char) : ∃ ps,
    readPieces (s.flatMap escape ++ '"' :: rest) = some (ps, rest) ∧ decodePieces ps = some s := by
  induction s with
  | nil => exact ⟨[], rfl, rfl⟩
  | cons c s ih =>
    obtain ⟨ps, hread, hdecode⟩ := ih
    obtain ⟨p, hp, hc⟩ := readPieces_escape c
    exact ⟨p :: ps, by rw [List.flatMap_cons, List.append_assoc, hp, hread]; rfl,
      by rw [hc, hdecode]; rfl⟩

/-! ## Numbers -/

/-- Decimal digits, at least one. -/
def AreDigits (ds : List Char) : Prop := ds ≠ [] ∧ ∀ c ∈ ds, c.isDigit = true

theorem areDigits_digits (n : Nat) : AreDigits (digits n) :=
  ⟨digits_ne_nil n, fun _ => isDigit_of_mem_digits⟩

/-- What may follow a number. -/
def EndsNumber (rest : List Char) : Prop :=
  ∀ c ∈ rest.head?, c.isDigit = false ∧ c ≠ '.' ∧ c ≠ 'e' ∧ c ≠ 'E'

theorem readDigits_append {ds rest : List Char} (hds : AreDigits ds)
    (hrest : ∀ c ∈ rest.head?, c.isDigit = false) : readDigits (ds ++ rest) = some (ds, rest) := by
  have stops : rest.takeWhile Char.isDigit = [] ∧ rest.dropWhile Char.isDigit = rest := by
    cases rest with
    | nil => exact ⟨rfl, rfl⟩
    | cons c rest => simp [hrest c rfl]
  have taken : (ds ++ rest).takeWhile Char.isDigit = ds := by
    rw [List.takeWhile_append_of_pos hds.2, stops.1, List.append_nil]
  have dropped : (ds ++ rest).dropWhile Char.isDigit = rest := by
    rw [List.dropWhile_append_of_pos hds.2, stops.2]
  cases ds with
  | nil => exact (hds.1 rfl).elim
  | cons d ds => simp only [readDigits, taken, dropped]

/-- A number in decimal has no leading zero. -/
theorem eq_zero_of_head?_digits {n : Nat} (h : (digits n).head? = some '0') : n = 0 := by
  induction n using Nat.strongRecOn with
  | ind n ih =>
    unfold digits at h ih
    rw [Nat.toDigits_eq_if (by decide)] at h
    split at h
    next small => simpa using h
    next large =>
      have head : (Nat.toDigits 10 (n / 10)).head? = some '0' := by
        cases hd : Nat.toDigits 10 (n / 10) with
        | nil => exact absurd hd Nat.toDigits_ne_nil
        | cons d ds => simpa [hd] using h
      have := ih (n / 10) (by omega) head
      omega

namespace Numeral

/-- The point and the digits after it. -/
def fractionChars : Option (List Char) → List Char
  | none => []
  | some ds => '.' :: ds

/-- The exponent with its sign. -/
def exponentChars : Option (Bool × List Char) → List Char
  | none => []
  | some (negative, ds) => 'e' :: (if negative then '-' else '+') :: ds

/-- The characters that write a numeral. -/
def chars (n : Numeral) : List Char :=
  (if n.negative then ['-'] else []) ++
    (n.whole ++ (fractionChars n.fraction ++ exponentChars n.exponent))

/-- What the grammar asks of a numeral: digits wherever it has any, and no leading zero. -/
structure WellFormed (n : Numeral) : Prop where
  whole : AreDigits n.whole
  leading : n.whole.head? = some '0' → n.whole.length = 1
  fraction : ∀ ds, n.fraction = some ds → AreDigits ds
  exponent : ∀ negative ds, n.exponent = some (negative, ds) → AreDigits ds

theorem wellFormed_digits (negative : Bool) (n : Nat) :
    WellFormed ⟨negative, digits n, none, none⟩ where
  whole := areDigits_digits n
  leading h := by
    obtain rfl := eq_zero_of_head?_digits h
    rfl
  fraction := nofun
  exponent := nofun

end Numeral

section Numerals

variable {n : Numeral} {rest : List Char}

theorem readExponent_chars (h : n.WellFormed) (hrest : EndsNumber rest) :
    readExponent (Numeral.exponentChars n.exponent ++ rest) = some (n.exponent, rest) := by
  cases he : n.exponent with
  | none =>
    cases rest with
    | nil => rfl
    | cons c tail =>
      obtain ⟨-, -, lower, upper⟩ := hrest c rfl
      rw [Numeral.exponentChars, List.nil_append, readExponent.eq_def]
      simp [lower, upper]
  | some e =>
    obtain ⟨negative, ds⟩ := e
    have read := readDigits_append (h.exponent negative ds he) fun c hc => (hrest c hc).1
    cases negative <;> simp [Numeral.exponentChars, readExponent, read]

theorem exponentChars_ends (n : Numeral) (hrest : EndsNumber rest) :
    ∀ c ∈ (Numeral.exponentChars n.exponent ++ rest).head?, c.isDigit = false ∧ c ≠ '.' := by
  intro c hc
  cases he : n.exponent with
  | none =>
    rw [he] at hc
    exact ⟨(hrest c hc).1, (hrest c hc).2.1⟩
  | some e =>
    rw [he] at hc
    obtain rfl : 'e' = c := Option.some.inj hc
    exact ⟨by decide, by decide⟩

theorem readFraction_chars (h : n.WellFormed)
    (hrest : ∀ c ∈ rest.head?, c.isDigit = false ∧ c ≠ '.') :
    readFraction (Numeral.fractionChars n.fraction ++ rest) = some (n.fraction, rest) := by
  cases hf : n.fraction with
  | none => exact readFraction.eq_2 rest fun tail hr => (hrest '.' (by rw [hr]; rfl)).2 rfl
  | some ds =>
    have read := readDigits_append (h.fraction ds hf) fun c hc => (hrest c hc).1
    simp [Numeral.fractionChars, readFraction, read]

theorem fractionChars_ends (n : Numeral) (hrest : ∀ c ∈ rest.head?, c.isDigit = false ∧ c ≠ '.') :
    ∀ c ∈ (Numeral.fractionChars n.fraction ++ rest).head?, c.isDigit = false := by
  intro c hc
  cases hf : n.fraction with
  | none =>
    rw [hf] at hc
    exact (hrest c hc).1
  | some ds =>
    rw [hf] at hc
    obtain rfl : '.' = c := Option.some.inj hc
    decide

/-- A well-formed numeral is read whole, up to what follows it. -/
theorem readNumeral_chars (h : n.WellFormed) (hrest : EndsNumber rest) :
    readNumeral n.negative (n.whole ++ (Numeral.fractionChars n.fraction ++
      (Numeral.exponentChars n.exponent ++ rest))) = some (n, rest) := by
  have exponentEnds := exponentChars_ends n hrest
  have whole := readDigits_append h.whole (fractionChars_ends n exponentEnds)
  have leading : ¬ (n.whole.head? = some '0' ∧ n.whole.length ≠ 1) :=
    fun ⟨zero, length⟩ => length (h.leading zero)
  simp [readNumeral, whole, leading, readFraction_chars h exponentEnds,
    readExponent_chars h hrest]

end Numerals

/-! ## Values -/

namespace Value

mutual

/-- At every depth each number is an integer. -/
def Integral : Value → Prop
  | .number (.double _) => False
  | .array items => IntegralItems items
  | .object members => IntegralMembers members
  | _ => True

/-- Every item is integral. -/
def IntegralItems : List Value → Prop
  | [] => True
  | v :: rest => v.Integral ∧ IntegralItems rest

/-- The value of every member is integral. -/
def IntegralMembers : List (String × Value) → Prop
  | [] => True
  | (_, v) :: rest => v.Integral ∧ IntegralMembers rest

end

end Value

theorem skipBlanks_cons {c : Char} (h : isBlank c = false) (cs : List Char) :
    skipBlanks (c :: cs) = c :: cs := by
  simp [skipBlanks, h]

theorem isBlank_of_isDigit {c : Char} (h : c.isDigit = true) : isBlank c = false := by
  rw [← Bool.not_eq_true]
  intro hb
  simp only [isBlank, Bool.or_eq_true, beq_iff_eq] at hb
  obtain ((rfl | rfl) | rfl) | rfl := hb <;> simp at h

theorem readDocument_numeral {n : Numeral} {fuel : Nat} {rest : List Char} (h : n.WellFormed)
    (hrest : EndsNumber rest) :
    readDocument (fuel + 1) (n.chars ++ rest) = some (.number n, rest) := by
  have numeral := readNumeral_chars h hrest
  unfold Numeral.chars
  cases negative : n.negative with
  | true =>
    rw [negative] at numeral
    rw [if_pos rfl, List.append_assoc, List.singleton_append, readDocument,
      skipBlanks_cons (by decide)]
    simp only [List.append_assoc]
    rw [numeral]
    rfl
  | false =>
    rw [negative] at numeral
    obtain ⟨d, ds, hd⟩ := List.exists_cons_of_ne_nil h.whole.1
    have digit : d.isDigit = true := h.whole.2 d (hd ▸ List.mem_cons_self)
    simp only [Bool.false_eq_true, if_false, List.nil_append, List.append_assoc]
    rw [hd, List.cons_append] at numeral ⊢
    rw [readDocument, skipBlanks_cons (isBlank_of_isDigit digit)]
    split <;> first
      | (next he => obtain ⟨rfl, -⟩ := List.cons.inj he; simp at digit)
      | rw [numeral]; rfl

theorem Integer.ofInt?_val (n : Integer) : Integer.ofInt? n.val = some n := by
  rw [Integer.ofInt?, dif_pos ⟨n.lower, n.upper⟩]

/-- The numeral that an integer is written as stands for it. -/
theorem integer?_digits (n : Integer) :
    Numeral.integer? ⟨decide (n.val < 0), digits n.val.natAbs, none, none⟩ = some n := by
  by_cases negative : n.val < 0
  · have nonzero : n.val.natAbs ≠ 0 := by omega
    have back : -(n.val.natAbs : Int) = n.val := by omega
    simp only [Numeral.integer?, decide_eq_true negative, natural_digits, if_neg nonzero, if_true]
    rw [back, n.ofInt?_val]
  · have back : (n.val.natAbs : Int) = n.val := by omega
    simp only [Numeral.integer?, decide_eq_false negative, natural_digits, Bool.false_eq_true,
      if_false]
    rw [back, n.ofInt?_val]

theorem integerText_eq_chars (n : Int) :
    integerText n = Numeral.chars ⟨decide (n < 0), digits n.natAbs, none, none⟩ := by
  by_cases negative : n < 0 <;>
    simp [integerText, Numeral.chars, Numeral.fractionChars, Numeral.exponentChars, negative]

/-- The text of an integer reads back as the integer. -/
theorem reads_integer (n : Integer) {fuel : Nat} {rest : List Char} (h : EndsNumber rest) :
    ∃ d, readDocument (fuel + 1) (integerText n.val ++ rest) = some (d, rest) ∧
      d.value? = some (.number (.integer n)) := by
  rw [integerText_eq_chars]
  refine ⟨_, readDocument_numeral (Numeral.wellFormed_digits _ _) h, ?_⟩
  simp only [Document.value?, Numeral.number?, integer?_digits, Option.map_some]

/-! ## Arrays and objects -/

section Steps

variable {fuel : Nat} {cs tail rest : List Char} {d : Document} {name : List Piece}

theorem readItems_last (h : readDocument fuel cs = some (d, ']' :: rest)) :
    readItems (fuel + 1) cs = some ([d], rest) := by
  simp [readItems, h, skipBlanks_cons, isBlank]

theorem readItems_more {ds : List Document} (h : readDocument fuel cs = some (d, ',' :: tail))
    (hds : readItems fuel tail = some (ds, rest)) :
    readItems (fuel + 1) cs = some (d :: ds, rest) := by
  simp [readItems, h, hds, skipBlanks_cons, isBlank]

theorem readMembers_last (hname : readPieces cs = some (name, ':' :: tail))
    (h : readDocument fuel tail = some (d, '}' :: rest)) :
    readMembers (fuel + 1) ('"' :: cs) = some ([(name, d)], rest) := by
  simp [readMembers, hname, h, skipBlanks_cons, isBlank]

theorem readMembers_more {more : List Char} {ms : List (List Piece × Document)}
    (hname : readPieces cs = some (name, ':' :: tail))
    (h : readDocument fuel tail = some (d, ',' :: more))
    (hms : readMembers fuel more = some (ms, rest)) :
    readMembers (fuel + 1) ('"' :: cs) = some ((name, d) :: ms, rest) := by
  simp [readMembers, hname, h, hms, skipBlanks_cons, isBlank]

theorem readDocument_array {ds : List Document} {c : Char} (blank : isBlank c = false)
    (open_ : c ≠ ']') (h : readItems fuel (c :: cs) = some (ds, rest)) :
    readDocument (fuel + 1) ('[' :: c :: cs) = some (.array ds, rest) := by
  rw [readDocument, skipBlanks_cons (by decide)]
  simp only [skipBlanks_cons blank]
  split
  next he => exact (open_ (List.cons.inj he).1).elim
  next => rw [h]; rfl

theorem readDocument_object {ms : List (List Piece × Document)}
    (h : readMembers fuel ('"' :: cs) = some (ms, rest)) :
    readDocument (fuel + 1) ('{' :: '"' :: cs) = some (.object ms, rest) := by
  simp [readDocument, h, skipBlanks_cons, isBlank]

end Steps

/-! ## Documents -/

/-- Members that stand in ascending order make up their object. -/
theorem Value.ofMembers_of_sorted {members : List (String × Value)}
    (h : members.Pairwise fun a b => a.1 < b.1) : Value.ofMembers members = .object members := by
  rw [Value.ofMembers, Value.ofTable, Table.ofList_of_sorted h]

/-- No text begins with a blank or closes an array. -/
theorem chars_eq_cons {v : Value} (h : v.Integral) :
    ∃ c cs, chars v = c :: cs ∧ isBlank c = false ∧ c ≠ ']' := by
  cases v with
  | null => exact ⟨_, _, rfl, by decide, by decide⟩
  | bool b => cases b <;> exact ⟨_, _, rfl, by decide, by decide⟩
  | number n =>
    cases n with
    | integer n =>
      simp only [chars, numberText, integerText]
      split
      · exact ⟨_, _, rfl, by decide, by decide⟩
      · cases hd : digits n.val.natAbs with
        | nil => exact absurd hd (digits_ne_nil _)
        | cons d ds =>
          have digit : d.isDigit = true := isDigit_of_mem_digits (hd ▸ List.mem_cons_self)
          exact ⟨d, ds, rfl, isBlank_of_isDigit digit, by rintro rfl; simp at digit⟩
    | double x => exact h.elim
  | string s => exact ⟨_, _, rfl, by decide, by decide⟩
  | array items => exact ⟨_, _, rfl, by decide, by decide⟩
  | object members => exact ⟨_, _, rfl, by decide, by decide⟩

theorem itemChars_eq_cons {v : Value} {items : List Value} (h : Value.IntegralItems (v :: items)) :
    ∃ c cs, itemChars (v :: items) = c :: cs ∧ isBlank c = false ∧ c ≠ ']' := by
  obtain ⟨c, cs, hc, blank, notClosing⟩ := chars_eq_cons h.1
  cases items with
  | nil => exact ⟨c, cs, hc, blank, notClosing⟩
  | cons w items => exact ⟨c, _, by simp [itemChars, hc]; rfl, blank, notClosing⟩

theorem memberChars_eq_cons (m : String × Value) (members : List (String × Value)) :
    ∃ cs, memberChars (m :: members) = '"' :: cs := by
  cases members <;> exact ⟨_, rfl⟩

theorem endsNumber_cons {c : Char} (h : c = ',' ∨ c = ']' ∨ c = '}') (rest : List Char) :
    EndsNumber (c :: rest) := by
  intro d hd
  obtain rfl : c = d := Option.some.inj hd
  obtain rfl | rfl | rfl := h <;> decide

open Document in
mutual

/-- The compact text of a value reads back as the value, up to what follows it. -/
theorem reads_chars : (v : Value) → v.Integral → v.Ordered → (fuel : Nat) →
    2 * (chars v).length ≤ fuel → (rest : List Char) → EndsNumber rest →
    ∃ d, readDocument fuel (chars v ++ rest) = some (d, rest) ∧ d.value? = some v
  | .null, _, _, fuel + 1, _, rest, _ =>
    ⟨.null, by simp [chars, readDocument, skipBlanks_cons, isBlank, expect], rfl⟩
  | .bool b, _, _, fuel + 1, _, rest, _ =>
    ⟨.bool b, by cases b <;> simp [chars, readDocument, skipBlanks_cons, isBlank, expect], rfl⟩
  | .number (.integer n), _, _, fuel + 1, _, rest, hrest => reads_integer n hrest
  | .string s, _, _, fuel + 1, _, rest, _ => by
    obtain ⟨ps, hread, hdecode⟩ := readPieces_flatMap s.toList rest
    refine ⟨.string ps, ?_, ?_⟩
    · simp [chars, quote, readDocument, hread, skipBlanks_cons, isBlank]
    · simp [Document.value?, pieceString?, hdecode]
  | .array [], _, _, fuel + 1, _, rest, _ =>
    ⟨.array [], by simp [chars, itemChars, readDocument, skipBlanks_cons, isBlank], rfl⟩
  | .array (v :: items), h, ordered, fuel + 1, hfuel, rest, _ => by
    simp only [chars, List.length_append, List.length_cons, List.length_nil] at hfuel
    obtain ⟨ds, hread, hvalues⟩ := reads_itemChars v items h ordered fuel (by omega) rest
    obtain ⟨c, cs, hc, blank, notClosing⟩ := itemChars_eq_cons h
    rw [hc, List.cons_append] at hread
    refine ⟨.array ds, ?_, by simp [Document.value?, hvalues]⟩
    simpa [chars, hc] using readDocument_array blank notClosing hread
  | .object [], _, _, fuel + 1, _, rest, _ =>
    ⟨.object [], by simp [chars, memberChars, readDocument, skipBlanks_cons, isBlank], rfl⟩
  | .object (m :: members), h, ordered, fuel + 1, hfuel, rest, _ => by
    simp only [chars, List.length_append, List.length_cons, List.length_nil] at hfuel
    obtain ⟨ms, hread, hvalues⟩ := reads_memberChars m members h ordered.2 fuel (by omega) rest
    obtain ⟨cs, hc⟩ := memberChars_eq_cons m members
    rw [hc, List.cons_append] at hread
    refine ⟨.object ms, ?_, by simp [Document.value?, hvalues, Value.ofMembers_of_sorted ordered.1]⟩
    simpa [chars, hc] using readDocument_object hread
  | v, h, _, 0, hfuel, _, _ => by
    obtain ⟨c, cs, hc, -⟩ := chars_eq_cons h
    simp [hc] at hfuel

/-- Items that are written one after another read back in order. -/
theorem reads_itemChars : (v : Value) → (items : List Value) → Value.IntegralItems (v :: items) →
    Value.OrderedItems (v :: items) → (fuel : Nat) →
    2 * (itemChars (v :: items)).length + 1 ≤ fuel → (rest : List Char) →
    ∃ ds, readItems fuel (itemChars (v :: items) ++ ']' :: rest) = some (ds, rest) ∧
      itemValues? ds = some (v :: items)
  | v, [], h, ordered, fuel + 1, hfuel, rest => by
    simp only [itemChars] at hfuel ⊢
    obtain ⟨d, hread, hvalue⟩ := reads_chars v h.1 ordered.1 fuel (by omega) (']' :: rest)
      (endsNumber_cons (.inr (.inl rfl)) rest)
    exact ⟨[d], readItems_last hread, by simp [itemValues?, hvalue]⟩
  | v, w :: items, h, ordered, fuel + 1, hfuel, rest => by
    simp only [itemChars, List.length_append, List.length_cons] at hfuel
    obtain ⟨d, hread, hvalue⟩ := reads_chars v h.1 ordered.1 fuel (by omega)
      (',' :: (itemChars (w :: items) ++ ']' :: rest)) (endsNumber_cons (.inl rfl) _)
    obtain ⟨ds, hmore, hvalues⟩ := reads_itemChars w items h.2 ordered.2 fuel (by omega) rest
    refine ⟨d :: ds, ?_, by simp [itemValues?, hvalue, hvalues]⟩
    simpa [itemChars] using readItems_more hread hmore

/-- Members that are written one after another read back in order. -/
theorem reads_memberChars : (m : String × Value) → (members : List (String × Value)) →
    Value.IntegralMembers (m :: members) → Value.OrderedMembers (m :: members) → (fuel : Nat) →
    2 * (memberChars (m :: members)).length + 1 ≤ fuel → (rest : List Char) →
    ∃ ms, readMembers fuel (memberChars (m :: members) ++ '}' :: rest) = some (ms, rest) ∧
      memberValues? ms = some (m :: members)
  | (k, v), [], h, ordered, fuel + 1, hfuel, rest => by
    simp only [memberChars, List.length_append, List.length_cons] at hfuel
    obtain ⟨d, hread, hvalue⟩ := reads_chars v h.1 ordered.1 fuel (by omega) ('}' :: rest)
      (endsNumber_cons (.inr (.inr rfl)) rest)
    obtain ⟨name, hname, hk⟩ := readPieces_flatMap k.toList (':' :: (chars v ++ '}' :: rest))
    refine ⟨[(name, d)], ?_, by simp [memberValues?, pieceString?, hk, hvalue]⟩
    simpa [memberChars, quote] using readMembers_last hname hread
  | (k, v), m :: members, h, ordered, fuel + 1, hfuel, rest => by
    simp only [memberChars, List.length_append, List.length_cons] at hfuel
    obtain ⟨d, hread, hvalue⟩ := reads_chars v h.1 ordered.1 fuel (by omega)
      (',' :: (memberChars (m :: members) ++ '}' :: rest)) (endsNumber_cons (.inl rfl) _)
    obtain ⟨name, hname, hk⟩ := readPieces_flatMap k.toList
      (':' :: (chars v ++ ',' :: (memberChars (m :: members) ++ '}' :: rest)))
    obtain ⟨ms, hmore, hvalues⟩ := reads_memberChars m members h.2 ordered.2 fuel (by omega) rest
    refine ⟨(name, d) :: ms, ?_, by simp [memberValues?, pieceString?, hk, hvalue, hvalues]⟩
    simpa [memberChars, quote] using readMembers_more hname hread hmore

end

theorem ofChars?_of_readDocument {cs : List Char} {d : Document}
    (h : readDocument (2 * cs.length + 2) cs = some (d, [])) : Document.ofChars? cs = some d := by
  rw [Document.ofChars?, h]
  rfl

/-- The compact text of a value reads back as the value. -/
theorem Value.read?_text {v : Value} (h : v.Integral) (ordered : v.Ordered) :
    Value.read? v.text = some v := by
  obtain ⟨d, hread, hvalue⟩ := reads_chars v h ordered (2 * (chars v).length + 2) (by omega) []
    fun _ hc => nomatch hc
  rw [List.append_nil] at hread
  rw [Value.read?, Document.read?, Value.text, String.toList_ofList,
    ofChars?_of_readDocument hread, Option.bind_some, hvalue]

/-- The members of a written object read back in the order in which they were written. -/
theorem Document.read?_textOfMembers {members : List (String × Value)}
    (h : Value.IntegralMembers members) (ordered : Value.OrderedMembers members) :
    ∃ ms, Document.read? (textOfMembers members) = some (.object ms) ∧
      memberValues? ms = some members := by
  cases members with
  | nil => exact ⟨[], by rfl, rfl⟩
  | cons m members =>
    let cs := '{' :: (memberChars (m :: members) ++ ['}'])
    obtain ⟨ms, hread, hvalues⟩ := reads_memberChars m members h ordered (2 * cs.length + 1)
      (by simp only [cs, List.length_cons, List.length_append]; omega) []
    obtain ⟨tail, htail⟩ := memberChars_eq_cons m members
    rw [htail, List.cons_append] at hread
    have whole : readDocument (2 * cs.length + 2) cs = some (.object ms, []) := by
      simpa [cs, htail] using readDocument_object hread
    refine ⟨ms, ?_, hvalues⟩
    rw [Document.read?, textOfMembers, String.toList_ofList, List.cons_append]
    exact ofChars?_of_readDocument whole

end Json

end Courier
