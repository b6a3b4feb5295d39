import Courier.FieldValue
import Courier.Proofs.JsonReading

/-!
# Reading field values back

A value on the wire stands for the value that it was made of, but for the integers above 2^63 - 1:
of these only the decimal digits are left, as a string (`FieldValue.encoding_keeps_values`).
`Value.spelled` is the value with these integers spelled out, and two values have one encoding just
if they differ in no more than such spellings (`Value.Respells`).
-/

namespace Courier

open Json (Value Number Integer)

namespace Json.Value

/-! ## Spelling integers out -/

mutual

/-- The value with each integer above 2^63 - 1, at whatever depth, replaced by the string of its
decimal digits. -/
def spelled : Value → Value
  | .null => .null
  | .bool b => .bool b
  | .number (.integer n) =>
    if n.val < 0x8000000000000000 then .number (.integer n) else .string (decimal n.val.toNat)
  | .number (.double x) => .number (.double x)
  | .string s => .string s
  | .array items => .array (spelledItems items)
  | .object members => .object (spelledMembers members)

/-- The items spelled out, in order. -/
def spelledItems : List Value → List Value
  | [] => []
  | v :: rest => v.spelled :: spelledItems rest

/-- The members with their values spelled out, in order. -/
def spelledMembers : List (String × Value) → List (String × Value)
  | [] => []
  | (k, v) :: rest => (k, v.spelled) :: spelledMembers rest

end

mutual

/-- At every depth each integer is at most 2^63 - 1. -/
def Narrow : Value → Prop
  | .number (.integer n) => n.val < 0x8000000000000000
  | .array items => NarrowItems items
  | .object members => NarrowMembers members
  | _ => True

/-- Every item is narrow. -/
def NarrowItems : List Value → Prop
  | [] => True
  | v :: rest => v.Narrow ∧ NarrowItems rest

/-- The value of every member is narrow. -/
def NarrowMembers : List (String × Value) → Prop
  | [] => True
  | (_, v) :: rest => v.Narrow ∧ NarrowMembers rest

end

mutual

/-- Two values differ at most in integers above 2^63 - 1 that one of them has and of which the other
has the decimal digits, as a string. -/
inductive Respells : Value → Value → Prop where
  | same (v : Value) : Respells v v
  | left {n : Integer} (h : 0x8000000000000000 ≤ n.val) :
      Respells (.string (decimal n.val.toNat)) (.number (.integer n))
  | right {n : Integer} (h : 0x8000000000000000 ≤ n.val) :
      Respells (.number (.integer n)) (.string (decimal n.val.toNat))
  | array {vs ws : List Value} (h : RespellsItems vs ws) : Respells (.array vs) (.array ws)
  | object {ms ns : List (String × Value)} (h : RespellsMembers ms ns) :
      Respells (.object ms) (.object ns)

/-- Items that differ at most in such integers, one by one. -/
inductive RespellsItems : List Value → List Value → Prop where
  | nil : RespellsItems [] []
  | cons {v w : Value} {vs ws : List Value} (h : Respells v w) (rest : RespellsItems vs ws) :
      RespellsItems (v :: vs) (w :: ws)

/-- Members of the same names whose values differ at most in such integers. -/
inductive RespellsMembers : List (String × Value) → List (String × Value) → Prop where
  | nil : RespellsMembers [] []
  | cons {k : String} {v w : Value} {ms ns : List (String × Value)} (h : Respells v w)
      (rest : RespellsMembers ms ns) : RespellsMembers ((k, v) :: ms) ((k, w) :: ns)

end

mutual

/-- A narrow value has nothing to spell out. -/
theorem spelled_of_narrow : (v : Value) → v.Narrow → v.spelled = v
  | .null, _ | .bool _, _ | .string _, _ => rfl
  | .number (.integer _), h => if_pos h
  | .number (.double _), _ => rfl
  | .array items, h => congrArg array (spelledItems_of_narrow items h)
  | .object members, h => congrArg object (spelledMembers_of_narrow members h)

theorem spelledItems_of_narrow : (vs : List Value) → NarrowItems vs → spelledItems vs = vs
  | [], _ => rfl
  | v :: rest, h => by
    rw [spelledItems, spelled_of_narrow v h.1, spelledItems_of_narrow rest h.2]

theorem spelledMembers_of_narrow :
    (ms : List (String × Value)) → NarrowMembers ms → spelledMembers ms = ms
  | [], _ => rfl
  | (k, v) :: rest, h => by
    rw [spelledMembers, spelled_of_narrow v h.1, spelledMembers_of_narrow rest h.2]

end

end Json.Value

namespace FieldValue

/-! ## Decoding what was encoded -/

/-- A reading of field values as values, type by type. -/
structure IsReading (read : FieldValue → Value) : Prop where
  void : read .void = .null
  boolean (b : Bool) : read (.boolean b) = .bool b
  longLongInt (n : Int64) : ∃ i : Integer, i.val = n.toInt ∧ read (.longLongInt n) = .integer i
  double (x : Binary64) : read (.double x) = .number (.double x)
  longString (s : String) : read (.longString s) = .string s
  array (items : List FieldValue) : read (.array items) = .array (items.map read)
  table (entries : List (String × FieldValue)) :
    read (.table entries) = .object (entries.map fun e => (e.1, read e.2))

theorem decodeItems_eq_map (items : List FieldValue) : decodeItems items = items.map decode := by
  induction items with
  | nil => rfl
  | cons f rest ih => rw [decodeItems, ih, List.map_cons]

theorem decodeEntries_eq_map (entries : List (String × FieldValue)) :
    decodeEntries entries = entries.map fun e => (e.1, decode e.2) := by
  induction entries with
  | nil => rfl
  | cons e rest ih => rw [decodeEntries, ih, List.map_cons]

theorem isReading_decode : IsReading decode where
  void := rfl
  boolean _ := rfl
  longLongInt n := ⟨toInteger n, rfl, rfl⟩
  double _ := rfl
  longString _ := rfl
  array items := by rw [decode, decodeItems_eq_map]
  table entries := by rw [decode, decodeEntries_eq_map]

theorem encodeMembers_eq_map (members : List (String × Value)) :
    encodeMembers members = members.map fun m => (m.1, encode m.2) := by
  induction members with
  | nil => rfl
  | cons m rest ih => rw [encodeMembers, ih, List.map_cons]

theorem ofNumber_narrow {n : Integer} (h : n.val < 0x8000000000000000) :
    ofNumber (.integer n) = .longLongInt (Int64.ofInt n.val) := if_pos h

theorem ofNumber_wide {n : Integer} (h : 0x8000000000000000 ≤ n.val) :
    ofNumber (.integer n) = .longString (decimal n.val.toNat) := by
  have digits_eq : Json.integerText n.val = digits n.val.toNat := by
    have same : n.val.natAbs = n.val.toNat := by omega
    rw [Json.integerText, if_neg (by omega), same]
  have large : ¬ n.val < 0x8000000000000000 := Int.not_lt.2 h
  rw [ofNumber, if_neg large, digits_eq]
  rfl

theorem toInteger_ofInt {n : Integer} (h : n.val < 0x8000000000000000) :
    toInteger (Int64.ofInt n.val) = n :=
  Json.Integer.eq_of_val (Int64.toInt_ofInt_of_le n.lower h)

theorem decode_ofNumber (n : Number) : decode (ofNumber n) = (Value.number n).spelled := by
  cases n with
  | integer n =>
    rw [Value.spelled]
    split
    next h => rw [ofNumber_narrow h, decode, toInteger_ofInt h]; rfl
    next h => rw [ofNumber_wide (Int.not_lt.1 h), decode]
  | double x => rfl

mutual

/-- What is encoded decodes to the value with its wide integers spelled out. -/
theorem decode_encode : (v : Value) → decode (encode v) = v.spelled
  | .null | .bool _ | .string _ => rfl
  | .number n => decode_ofNumber n
  | .array items => congrArg Value.array (decodeItems_encodeItems items)
  | .object members => congrArg Value.object (decodeEntries_encodeMembers members)

theorem decodeItems_encodeItems :
    (vs : List Value) → decodeItems (encodeItems vs) = Value.spelledItems vs
  | [] => rfl
  | v :: rest => by
    rw [encodeItems, decodeItems, decode_encode v, decodeItems_encodeItems rest,
      Value.spelledItems]

theorem decodeEntries_encodeMembers :
    (ms : List (String × Value)) → decodeEntries (encodeMembers ms) = Value.spelledMembers ms
  | [] => rfl
  | (k, v) :: rest => by
    rw [encodeMembers, decodeEntries, decode_encode v, decodeEntries_encodeMembers rest,
      Value.spelledMembers]

end

/-! ## Values with one encoding -/

mutual

/-- The encodings of values that differ in no more than spellings are the same. -/
theorem encode_eq_of_respells : {v w : Value} → v.Respells w → encode v = encode w
  | _, _, .same _ => rfl
  | _, _, .left h => (ofNumber_wide h).symm
  | _, _, .right h => ofNumber_wide h
  | _, _, .array h => congrArg FieldValue.array (encodeItems_eq_of_respells h)
  | _, _, .object h => congrArg FieldValue.table (encodeMembers_eq_of_respells h)

theorem encodeItems_eq_of_respells :
    {vs ws : List Value} → Value.RespellsItems vs ws → encodeItems vs = encodeItems ws
  | _, _, .nil => rfl
  | _, _, .cons h rest => by
    rw [encodeItems, encodeItems, encode_eq_of_respells h, encodeItems_eq_of_respells rest]

theorem encodeMembers_eq_of_respells : {ms ns : List (String × Value)} →
    Value.RespellsMembers ms ns → encodeMembers ms = encodeMembers ns
  | _, _, .nil => rfl
  | _, _, .cons h rest => by
    rw [encodeMembers, encodeMembers, encode_eq_of_respells h, encodeMembers_eq_of_respells rest]

end

theorem decimal_injective {m n : Nat} (h : decimal m = decimal n) : m = n := by
  have same : digits m = digits n := String.ofList_injective h
  rw [← natural_digits m, same, natural_digits]

/-- A number is encoded as an integer, as the digits of one, or as a binary64 number. -/
theorem ofNumber_cases (n : Number) :
    (∃ i : Integer, n = .integer i ∧ i.val < 0x8000000000000000 ∧
      ofNumber n = .longLongInt (Int64.ofInt i.val)) ∨
    (∃ i : Integer, n = .integer i ∧ 0x8000000000000000 ≤ i.val ∧
      ofNumber n = .longString (decimal i.val.toNat)) ∨
    ∃ x, n = .double x ∧ ofNumber n = .double x := by
  cases n with
  | integer i =>
    by_cases h : i.val < 0x8000000000000000
    · exact .inl ⟨i, rfl, h, ofNumber_narrow h⟩
    · exact .inr (.inl ⟨i, rfl, Int.not_lt.1 h, ofNumber_wide (Int.not_lt.1 h)⟩)
  | double x => exact .inr (.inr ⟨x, rfl, rfl⟩)

/-- Different numbers are encoded differently. -/
theorem ofNumber_injective {m n : Number} (h : ofNumber m = ofNumber n) : m = n := by
  obtain ⟨i, rfl, hi, he⟩ | ⟨i, rfl, hi, he⟩ | ⟨x, rfl, he⟩ := ofNumber_cases m
  all_goals
    rw [he] at h
    obtain ⟨j, rfl, hj, hf⟩ | ⟨j, rfl, hj, hf⟩ | ⟨y, rfl, hf⟩ := ofNumber_cases n
    all_goals rw [hf] at h
  case inl.inl =>
    rw [← toInteger_ofInt hi, longLongInt.inj h, toInteger_ofInt hj]
  case inr.inl.inr.inl =>
    have same := decimal_injective (longString.inj h)
    rw [Json.Integer.eq_of_val (show i.val = j.val by omega)]
  case inr.inr.inr.inr => rw [double.inj h]
  all_goals cases h

/-- What is encoded as a number is the number, or the decimal digits of one above 2^63 - 1. -/
theorem respells_number {v : Value} {n : Number} (h : encode v = ofNumber n) :
    v.Respells (.number n) ∧ (Value.number n).Respells v := by
  cases v with
  | number m =>
    obtain rfl := ofNumber_injective h
    exact ⟨.same _, .same _⟩
  | string s =>
    obtain ⟨i, rfl, hi, he⟩ | ⟨i, rfl, hi, he⟩ | ⟨x, rfl, he⟩ := ofNumber_cases n
    · cases h.trans he
    · obtain rfl := longString.inj (h.trans he)
      exact ⟨.left hi, .right hi⟩
    · cases h.trans he
  | null | bool | array | object =>
    obtain ⟨i, rfl, -, he⟩ | ⟨i, rfl, -, he⟩ | ⟨x, rfl, he⟩ := ofNumber_cases n <;>
      cases h.trans he

mutual

/-- Values with one encoding differ in no more than spellings. -/
theorem respells_of_encode_eq : (v w : Value) → encode v = encode w → v.Respells w
  | .number _, _, h => (respells_number h.symm).2
  | .null, w, h => by
    cases w with
    | null => exact .same _
    | number n => exact (respells_number h).1
    | _ => cases h
  | .bool b, w, h => by
    cases w with
    | bool c =>
      obtain rfl := boolean.inj h
      exact .same _
    | number n => exact (respells_number h).1
    | _ => cases h
  | .string s, w, h => by
    cases w with
    | string t =>
      obtain rfl := longString.inj h
      exact .same _
    | number n => exact (respells_number h).1
    | _ => cases h
  | .array vs, w, h => by
    cases w with
    | array ws => exact .array (respellsItems_of_encode_eq vs ws (array.inj h))
    | number n => exact (respells_number h).1
    | _ => cases h
  | .object ms, w, h => by
    cases w with
    | object ns => exact .object (respellsMembers_of_encode_eq ms ns (table.inj h))
    | number n => exact (respells_number h).1
    | _ => cases h

theorem respellsItems_of_encode_eq :
    (vs ws : List Value) → encodeItems vs = encodeItems ws → Value.RespellsItems vs ws
  | [], [], _ => .nil
  | [], _ :: _, h | _ :: _, [], h => nomatch h
  | v :: vs, w :: ws, h => .cons (respells_of_encode_eq v w (List.cons.inj h).1)
      (respellsItems_of_encode_eq vs ws (List.cons.inj h).2)

theorem respellsMembers_of_encode_eq : (ms ns : List (String × Value)) →
    encodeMembers ms = encodeMembers ns → Value.RespellsMembers ms ns
  | [], [], _ => .nil
  | [], _ :: _, h | _ :: _, [], h => nomatch h
  | (k, v) :: ms, (l, w) :: ns, h => by
    obtain ⟨head, tail⟩ := List.cons.inj h
    obtain ⟨rfl, value⟩ := Prod.mk.inj head
    exact .cons (respells_of_encode_eq v w value) (respellsMembers_of_encode_eq ms ns tail)

end

/-- Field values are read back, type by type, as the values that they were made of, but that each
integer above 2^63 - 1 has become the string of its digits. So values without such integers have
different encodings if they are different, and two values have the same encoding just if they differ
in no more than such spellings. The fields of a table are those that the members of an object make
when they are written one after another. -/
theorem encoding_keeps_values :
    IsReading decode ∧
    (∀ v : Value, decode (encode v) = v.spelled) ∧
    (∀ v w : Value, v.Narrow → w.Narrow → encode v = encode w → v = w) ∧
    (∀ v w : Value, encode v = encode w ↔ v.Respells w) ∧
    ∀ members : List (String × Value), (members.Pairwise fun a b => a.1 < b.1) →
      encode (.object members) =
        .table (Table.ofList (members.map fun m => (m.1, encode m.2))).entries := by
  refine ⟨isReading_decode, decode_encode, fun v w hv hw h => ?_,
    fun v w => ⟨respells_of_encode_eq v w, encode_eq_of_respells⟩, fun members sorted => ?_⟩
  · calc v = v.spelled := (Value.spelled_of_narrow v hv).symm
      _ = decode (encode v) := (decode_encode v).symm
      _ = decode (encode w) := congrArg decode h
      _ = w.spelled := decode_encode w
      _ = w := Value.spelled_of_narrow w hw
  · have ascending : (members.map fun m => (m.1, encode m.2)).Pairwise fun a b => a.1 < b.1 :=
      List.pairwise_map.2 sorted
    rw [encode, encodeMembers_eq_map, Table.ofList_of_sorted ascending]

/-- An integer above 2^63 - 1 has the encoding of its digits, and 2^63 - 1 itself has not. -/
theorem encoding_keeps_values_limit :
    encode (.array [.integer ⟨0x8000000000000000, by decide, by decide⟩]) =
      encode (.array [.string "9223372036854775808"]) ∧
    encode (.array [.integer ⟨0x7FFFFFFFFFFFFFFF, by decide, by decide⟩]) ≠
      encode (.array [.string "9223372036854775807"]) := by
  obtain ⟨-, -, separates, same_iff, -⟩ := encoding_keeps_values
  constructor
  · exact (same_iff _ _).2 (.array (.cons (.right (by decide)) .nil))
  · intro same
    have narrow : Value.Narrow (.array [.integer ⟨0x7FFFFFFFFFFFFFFF, by decide, by decide⟩]) := by
      simp [Value.integer, Value.Narrow, Value.NarrowItems]
    have digits : Value.Narrow (.array [.string "9223372036854775807"]) := ⟨trivial, trivial⟩
    cases separates _ _ narrow digits same

end FieldValue

end Courier
