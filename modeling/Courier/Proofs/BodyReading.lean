import Courier.Message
import Courier.Proofs.JsonReading

/-!
# Reading bodies back

A body is the UTF-8 bytes of a text: of the string itself where the body argument is one, and of the
JSON text of any other value but null (`Body.Sends`). The JSON text reads back as the value. So a
body tells which value without binary64 numbers it was made of, unless a string has the characters
of another value's JSON text (`Body.bodies_read_back`).
-/

namespace Courier.Body

open Json (Value)

variable {v w : Value} {b : Body} {t : String}

/-- The text that is sent for a value: a string itself, and the JSON text of a value that is neither
null nor a string. -/
inductive Sends : Value → String → Prop where
  | string (s : String) : Sends (.string s) s
  | json {v : Value} (not_null : v ≠ .null) (not_string : ∀ s, v ≠ .string s) : Sends v v.text

/-- There is no body for null, and a body of the text that is sent for any other value. -/
theorem encode_cases (v : Value) :
    (v = .null ∧ encode v = .error .noBodyValue) ∨
      v ≠ .null ∧ ∃ t, Sends v t ∧ encode v = .ok t.toUTF8 := by
  cases v with
  | null => exact .inl ⟨rfl, rfl⟩
  | string s => exact .inr ⟨nofun, s, .string s, rfl⟩
  | bool | number | array | object => exact .inr ⟨nofun, _, .json nofun nofun, rfl⟩

theorem exists_encode_error_iff : (∃ cause, encode v = .error cause) ↔ v = .null := by
  obtain ⟨hv, he⟩ | ⟨hv, t, -, he⟩ := encode_cases v
  · exact iff_of_true ⟨_, he⟩ hv
  · refine iff_of_false ?_ hv
    rintro ⟨cause, hc⟩
    cases he.symm.trans hc

theorem encode_eq_ok (h : encode v = .ok b) : ∃ t, Sends v t ∧ b = t.toUTF8 := by
  obtain ⟨-, he⟩ | ⟨-, t, ht, he⟩ := encode_cases v
  · cases he.symm.trans h
  · exact ⟨t, ht, (Except.ok.inj (he.symm.trans h)).symm⟩

theorem toUTF8_injective {s t : String} (h : s.toUTF8 = t.toUTF8) : s = t := by
  have same : Body.text? s.toUTF8 = Body.text? t.toUTF8 := congrArg Body.text? h
  rw [text?_toUTF8, text?_toUTF8] at same
  exact Option.some.inj same

/-- Values with the same JSON text are the same. -/
theorem eq_of_text_eq (hv : v.Integral) (ov : v.Ordered) (hw : w.Integral) (ow : w.Ordered)
    (h : v.text = w.text) : v = w := by
  have read := Value.read?_text hv ov
  rw [h, Value.read?_text hw ow] at read
  exact (Option.some.inj read).symm

/-- Of two values for which one text is sent, one is the text of the other if they are different. -/
theorem eq_or_text_of_sends (hv : v.Integral) (ov : v.Ordered) (hw : w.Integral) (ow : w.Ordered)
    (h : Sends v t) (h' : Sends w t) : v = w ∨ v = .string w.text ∨ w = .string v.text := by
  cases h with
  | string =>
    cases h' with
    | string => exact .inl rfl
    | json => exact .inr (.inl rfl)
  | json =>
    generalize same : v.text = s at h'
    cases h' with
    | string => exact .inr (.inr (same ▸ rfl))
    | json => exact .inl (eq_of_text_eq hv ov hw ow same)

/-- A conversion fails just for null. The body of a string is its bytes. The body of any other value
without binary64 numbers is a JSON text that reads back as the value. So two different values of
this kind have one body only where one of them is the JSON text of the other. -/
theorem bodies_read_back :
    (∀ v : Value, (∃ cause, encode v = .error cause) ↔ v = .null) ∧
    (∀ s : String, encode (.string s) = .ok s.toUTF8) ∧
    (∀ v : Value, v.Integral → v.Ordered → v ≠ .null → (∀ s, v ≠ .string s) →
      ∃ b text, encode v = .ok b ∧ b = text.toUTF8 ∧ Value.read? text = some v) ∧
    ∀ (v w : Value) (b : Body), v.Integral → v.Ordered → w.Integral → w.Ordered →
      encode v = .ok b → encode w = .ok b → v ≠ w → v = .string w.text ∨ w = .string v.text := by
  refine ⟨fun v => exists_encode_error_iff, fun s => rfl, fun v hv ov not_null not_string => ?_,
    fun v w b hv ov hw ow h h' different => ?_⟩
  · obtain ⟨hn, -⟩ | ⟨-, t, ht, he⟩ := encode_cases v
    · exact absurd hn not_null
    · cases ht with
      | string => exact absurd rfl (not_string _)
      | json => exact ⟨_, _, he, rfl, Value.read?_text hv ov⟩
  · obtain ⟨t, ht, rfl⟩ := encode_eq_ok h
    obtain ⟨u, hu, same⟩ := encode_eq_ok h'
    rw [← toUTF8_injective same] at hu
    exact (eq_or_text_of_sends hv ov hw ow ht hu).resolve_left different

/-- Characters that are escaped and characters that are not, and the integers at both limits. -/
def intricate : Value :=
  .object [("\"\\\n", .array [.integer ⟨-0x8000000000000000, by decide, by decide⟩,
    .integer ⟨0xFFFFFFFFFFFFFFFF, by decide, by decide⟩]), ("é", .string "\u0001/😀")]

theorem bodies_read_back_intricate :
    ∃ b text, encode intricate = .ok b ∧ b = text.toUTF8 ∧ Value.read? text = some intricate := by
  have integral : intricate.Integral := by
    simp [intricate, Value.integer, Value.Integral, Value.IntegralMembers, Value.IntegralItems]
  have ordered : intricate.Ordered :=
    ⟨List.pairwise_pair.2 (by decide), ⟨trivial, trivial, trivial⟩, trivial, trivial⟩
  exact bodies_read_back.2.2.1 intricate integral ordered nofun nofun

end Courier.Body
