import Courier.Table

/-!
# The byte order of names

Tables keep their names in the order of code points. It is the order of the names' UTF-8 bytes
(`lt_iff_utf8_lt`): of two characters the one with the smaller code point has the smaller bytes.
-/

namespace Courier

/-- The UTF-8 bytes of a text. -/
def utf8 (s : String) : List UInt8 := s.toUTF8.data.toList

theorem utf8_eq (s : String) : utf8 s = s.toList.flatMap String.utf8EncodeChar := by
  conv => lhs; rw [← String.ofList_toList (s := s)]
  rw [utf8, String.toUTF8_eq_toByteArray, String.toByteArray_ofList, List.utf8Encode,
    List.data_toByteArray]

theorem ofNat_byte_lt {m n : Nat} (hm : m < 256) (hn : n < 256) :
    UInt8.ofNat m < UInt8.ofNat n ↔ m < n := by
  rw [UInt8.lt_iff_toNat_lt, UInt8.toNat_ofNat_of_lt' hm, UInt8.toNat_ofNat_of_lt' hn]

theorem ofNat_byte_inj {m n : Nat} (hm : m < 256) (hn : n < 256) :
    UInt8.ofNat m = UInt8.ofNat n ↔ m = n := by
  rw [← UInt8.toNat_inj, UInt8.toNat_ofNat_of_lt' hm, UInt8.toNat_ofNat_of_lt' hn]

/-- Of two characters the one with the smaller code point has the smaller bytes, whatever follows
them. -/
theorem utf8EncodeChar_lt {c d : Char} (h : c < d) (r r' : List UInt8) :
    String.utf8EncodeChar c ++ r < String.utf8EncodeChar d ++ r' := by
  have hlt : c.val.toNat < d.val.toNat := UInt32.lt_iff_toNat_lt.1 h
  have hmax : d.val.toNat < 0x110000 := by
    have := d.valid
    simp only [UInt32.isValidChar, Nat.isValidChar] at this
    omega
  unfold String.utf8EncodeChar
  generalize c.val.toNat = m at hlt
  generalize d.val.toNat = n at hlt hmax
  have lead : m / 262144 % 8 = m / 262144 ∧ n / 262144 % 8 = n / 262144 := by omega
  dsimp only
  -- the first byte tells the lengths apart; characters of one length are compared digit by digit
  repeat' split
  all_goals
    simp (disch := omega) only [List.cons_append, List.cons_lt_cons_iff, ofNat_byte_lt,
      ofNat_byte_inj, lead, Nat.add_lt_add_iff_right, Nat.add_right_cancel_iff]
    omega

theorem utf8EncodeChar_ne_nil (c : Char) : String.utf8EncodeChar c ≠ [] := by
  intro h
  have := String.length_utf8EncodeChar c
  have := c.utf8Size_pos
  rw [h, List.length_nil] at *
  omega

theorem flatMap_utf8EncodeChar_lt {cs ds : List Char} (h : cs < ds) :
    cs.flatMap String.utf8EncodeChar < ds.flatMap String.utf8EncodeChar := by
  induction cs generalizing ds with
  | nil =>
    cases ds with
    | nil => exact absurd h (List.lt_irrefl _)
    | cons d ds =>
      obtain ⟨b, bs, hb⟩ := List.exists_cons_of_ne_nil (utf8EncodeChar_ne_nil d)
      rw [List.flatMap_nil, List.flatMap_cons, hb]
      exact List.nil_lt_cons b _
  | cons c cs ih =>
    cases ds with
    | nil => exact absurd h (List.not_lt_nil _)
    | cons d ds =>
      rw [List.flatMap_cons, List.flatMap_cons]
      obtain hc | ⟨rfl, hcs⟩ := List.cons_lt_cons_iff.1 h
      · exact utf8EncodeChar_lt hc _ _
      · exact List.append_left_lt (ih hcs)

theorem utf8_lt {s t : String} (h : s < t) : utf8 s < utf8 t := by
  rw [utf8_eq, utf8_eq]
  exact flatMap_utf8EncodeChar_lt (String.lt_iff.1 h)

/-- Names are in the order of their bytes. -/
theorem lt_iff_utf8_lt {s t : String} : s < t ↔ utf8 s < utf8 t := by
  refine ⟨utf8_lt, fun h => ?_⟩
  by_cases hst : s < t
  · exact hst
  · by_cases hts : t < s
    · exact absurd (utf8_lt hts) (List.lt_asymm h)
    · obtain rfl := Table.name_eq_of_not_lt hst hts
      exact absurd h (List.lt_irrefl _)

theorem le_iff_utf8_le {s t : String} : s ≤ t ↔ utf8 s ≤ utf8 t := by
  rw [← String.not_lt, ← List.not_lt, lt_iff_utf8_lt]

end Courier
