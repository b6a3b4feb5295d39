import Courier.Properties
import Courier.Proofs.NumberText
import Courier.Proofs.Positions
import Mathlib.Data.List.Induction

/-!
# Writing property fields

An assignment changes the one field that its name stands for, and only if the value can be coerced
to the field's kind (`PropertyKind.Coerces`). A run of assignments therefore leaves in each field
what the last assignment put there that succeeded under the field's own name
(`Properties.fieldsAfter_assignAll`).
-/

namespace Courier

open Json (Value)

/-! ## Coercion -/

namespace PropertyKind

/-- What a kind of property makes of a value. -/
inductive Coerces : (k : PropertyKind) → Value → k.Carrier → Prop where
  | string (s : String) : Coerces .text (.string s) s
  | number (n : Json.Number) : Coerces .text (.number n) (Value.number n).text
  | bool (b : Bool) : Coerces .text (.bool b) (if b then "true" else "false")
  | octet {v : Value} {n : UInt64} (h : v.word? = some n) (hn : n.toNat < 256) :
      Coerces .octet v n.toUInt8
  | seconds {v : Value} {n : UInt64} (h : v.word? = some n) : Coerces .seconds v n

/-- Why a kind of property has no use for a value. -/
inductive Faults : PropertyKind → Value → ValueFault → Prop where
  | null : Faults .text .null (.notText .null)
  | array (items : List Value) : Faults .text (.array items) (.notText (.array items))
  | object (members : List (String × Value)) :
      Faults .text (.object members) (.notText (.object members))
  | notInteger {v : Value} (h : v.word? = none) : Faults .octet v (.notInteger v)
  | outOfRange {v : Value} {n : UInt64} (h : v.word? = some n) (hn : 256 ≤ n.toNat) :
      Faults .octet v (.outOfRange n)
  | notSeconds {v : Value} (h : v.word? = none) : Faults .seconds v (.notSeconds v)

/-- A value that can be coerced to a kind. -/
def Accepts (k : PropertyKind) (v : Value) : Prop := ∃ c, k.Coerces v c

variable {k : PropertyKind} {v : Value} {c d : k.Carrier} {fault : ValueFault}

theorem coerces_or_faults (k : PropertyKind) (v : Value) :
    (∃ c, k.Coerces v c) ∨ ∃ fault, k.Faults v fault := by
  cases k with
  | text =>
    cases v with
    | string s => exact .inl ⟨_, .string s⟩
    | number n => exact .inl ⟨_, .number n⟩
    | bool b => exact .inl ⟨_, .bool b⟩
    | null => exact .inr ⟨_, .null⟩
    | array items => exact .inr ⟨_, .array items⟩
    | object members => exact .inr ⟨_, .object members⟩
  | octet =>
    cases hv : v.word? with
    | none => exact .inr ⟨_, .notInteger hv⟩
    | some n =>
      obtain hn | hn := Nat.lt_or_ge n.toNat 256
      · exact .inl ⟨_, .octet hv hn⟩
      · exact .inr ⟨_, .outOfRange hv hn⟩
  | seconds =>
    cases hv : v.word? with
    | none => exact .inr ⟨_, .notSeconds hv⟩
    | some n => exact .inl ⟨_, .seconds hv⟩

theorem Coerces.read_eq (h : k.Coerces v c) : k.read v = .ok c := by
  cases h with
  | string s => rfl
  | number n => rw [read, n.text_eq]
  | bool b => cases b <;> rfl
  | octet hv hn => simp only [read, hv, if_pos hn]
  | seconds hv => simp only [read, hv]

theorem Faults.read_eq (h : k.Faults v fault) : k.read v = .error fault := by
  cases h with
  | null | array | object => rfl
  | notInteger hv => simp only [read, hv]
  | outOfRange hv hn => simp only [read, hv, if_neg (Nat.not_lt.2 hn)]
  | notSeconds hv => simp only [read, hv]

theorem read_eq_ok_iff : k.read v = .ok c ↔ k.Coerces v c := by
  refine ⟨fun h => ?_, Coerces.read_eq⟩
  obtain ⟨d, hd⟩ | ⟨fault, hf⟩ := coerces_or_faults k v
  · obtain rfl := Except.ok.inj (hd.read_eq.symm.trans h)
    exact hd
  · exact absurd (hf.read_eq.symm.trans h) nofun

theorem read_eq_error_iff : k.read v = .error fault ↔ k.Faults v fault := by
  refine ⟨fun h => ?_, Faults.read_eq⟩
  obtain ⟨d, hd⟩ | ⟨fault', hf⟩ := coerces_or_faults k v
  · exact absurd (hd.read_eq.symm.trans h) nofun
  · obtain rfl := Except.error.inj (hf.read_eq.symm.trans h)
    exact hf

theorem Coerces.unique (hc : k.Coerces v c) (hd : k.Coerces v d) : c = d :=
  Except.ok.inj (hc.read_eq.symm.trans hd.read_eq)

end PropertyKind

/-! ## One assignment -/

/-- The names of the properties that a message has. -/
def propertyNames : List String :=
  ["contentType", "contentEncoding", "deliveryMode", "priority", "correlationId", "replyTo",
    "expiration", "messageId", "timestamp", "type", "userId", "appId", "clusterId"]

theorem mem_propertyNames {name : String} :
    name ∈ propertyNames ↔ ∃ n : PropertyName, n.spelling = name := by
  have spelt : propertyNames = PropertyName.all.map PropertyName.spelling := rfl
  rw [spelt, List.mem_map]
  exact ⟨fun ⟨n, _, hn⟩ => ⟨n, hn⟩, fun ⟨n, hn⟩ => ⟨n, n.mem_all, hn⟩⟩

/-- A name of a property together with a value that the property accepts. -/
def Assignable (name : String) (value : Value) : Prop :=
  ∃ n : PropertyName, n.spelling = name ∧ n.kind.Accepts value

/-- Why nothing can be assigned: there is no property of the name, or it does not accept the
value. -/
inductive Refuses (name : String) (value : Value) : Failure → Prop where
  | unknown (h : name ∉ propertyNames) : Refuses name value (.unknownProperty name)
  | invalid {n : PropertyName} {fault : ValueFault} (hn : n.spelling = name)
      (hf : n.kind.Faults value fault) : Refuses name value (.invalidPropertyValue name fault)

namespace Properties

variable {p q : Properties} {name : String} {value : Value} {failure : Failure}

theorem assign_of_coerces (p : Properties) {n : PropertyName} {c : n.kind.Carrier}
    (h : n.kind.Coerces value c) : p.assign n.spelling value = .ok (p.set n c) := by
  simp only [assign, PropertyName.ofSpelling?_eq_some_iff.2 rfl, h.read_eq]

theorem assign_of_refuses (p : Properties) (h : Refuses name value failure) :
    p.assign name value = .error failure := by
  cases h with
  | unknown hno =>
    have none : PropertyName.ofSpelling? name = none :=
      Option.eq_none_iff_forall_ne_some.2 fun n hn =>
        hno (mem_propertyNames.2 ⟨n, PropertyName.ofSpelling?_eq_some_iff.1 hn⟩)
    simp only [assign, none]
  | invalid hn hf => simp only [assign, PropertyName.ofSpelling?_eq_some_iff.2 hn, hf.read_eq]

end Properties

theorem assignable_or_refuses (name : String) (value : Value) :
    Assignable name value ∨ ∃ failure, Refuses name value failure := by
  by_cases h : name ∈ propertyNames
  · obtain ⟨n, hn⟩ := mem_propertyNames.1 h
    obtain hc | ⟨fault, hf⟩ := PropertyKind.coerces_or_faults n.kind value
    · exact .inl ⟨n, hn, hc⟩
    · exact .inr ⟨_, .invalid hn hf⟩
  · exact .inr ⟨_, .unknown h⟩

theorem not_assignable_iff {name : String} {value : Value} :
    ¬ Assignable name value ↔ ∃ failure, Refuses name value failure := by
  constructor
  · exact fun h => (assignable_or_refuses name value).resolve_left h
  · rintro ⟨failure, hf⟩ ⟨n, rfl, c, hc⟩
    have := Properties.assign_of_coerces ∅ hc
    rw [Properties.assign_of_refuses ∅ hf] at this
    cases this

theorem assignable_spelling_iff {n : PropertyName} {value : Value} :
    Assignable n.spelling value ↔ n.kind.Accepts value := by
  constructor
  · rintro ⟨m, hm, hv⟩
    obtain rfl := PropertyName.spelling_injective hm
    exact hv
  · exact fun hv => ⟨n, rfl, hv⟩

theorem refuses_spelling_iff {n : PropertyName} {value : Value} {failure : Failure} :
    Refuses n.spelling value failure ↔
      ∃ fault, n.kind.Faults value fault ∧ failure = .invalidPropertyValue n.spelling fault := by
  constructor
  · intro h
    cases h with
    | unknown hno => exact absurd (mem_propertyNames.2 ⟨n, rfl⟩) hno
    | invalid hm hf =>
      obtain rfl := PropertyName.spelling_injective hm
      exact ⟨_, hf, rfl⟩
  · rintro ⟨fault, hf, rfl⟩
    exact .invalid rfl hf

namespace Properties

variable {p : Properties} {name : String} {value : Value} {failure : Failure}

theorem exists_assign_iff : (∃ q, p.assign name value = .ok q) ↔ Assignable name value := by
  constructor
  · rintro ⟨q, hq⟩
    refine (assignable_or_refuses name value).resolve_right ?_
    rintro ⟨failure, hf⟩
    exact absurd (hq.symm.trans (assign_of_refuses p hf)) nofun
  · rintro ⟨n, rfl, c, hc⟩
    exact ⟨_, assign_of_coerces p hc⟩

theorem assign_eq_error_iff :
    p.assign name value = .error failure ↔ Refuses name value failure := by
  refine ⟨fun h => ?_, assign_of_refuses p⟩
  obtain hok | ⟨failure', hf⟩ := assignable_or_refuses name value
  · obtain ⟨q, hq⟩ := exists_assign_iff.2 hok
    exact absurd (hq.symm.trans h) nofun
  · obtain rfl := Except.error.inj ((assign_of_refuses p hf).symm.trans h)
    exact hf

end Properties

/-! ## Runs of assignments -/

/-- A field after some writes: the coerced value of the write that counts, or what it held before if
none does. -/
inductive FieldAfter (k : PropertyKind) (counts : Value → Prop) (before : Option k.Carrier) :
    Option k.Carrier → Prop where
  | kept (h : ∀ v, ¬ counts v) : FieldAfter k counts before before
  | set {v : Value} {c : k.Carrier} (h : counts v) (hc : k.Coerces v c) :
      FieldAfter k counts before (some c)

theorem FieldAfter.congr {k : PropertyKind} {counts counts' : Value → Prop}
    {before after : Option k.Carrier} (h : FieldAfter k counts before after)
    (same : ∀ v, counts v ↔ counts' v) : FieldAfter k counts' before after := by
  cases h with
  | kept h => exact .kept fun v hv => h v ((same v).2 hv)
  | set h hc => exact .set ((same _).1 h) hc

/-- Each field after some writes, by the kind and the name of the writes that count for it. -/
structure Properties.FieldsAfter (counts : PropertyKind → String → Value → Prop)
    (p q : Properties) : Prop where
  contentType : FieldAfter .text (counts .text "contentType") p.contentType q.contentType
  contentEncoding :
    FieldAfter .text (counts .text "contentEncoding") p.contentEncoding q.contentEncoding
  deliveryMode : FieldAfter .octet (counts .octet "deliveryMode") p.deliveryMode q.deliveryMode
  priority : FieldAfter .octet (counts .octet "priority") p.priority q.priority
  correlationId : FieldAfter .text (counts .text "correlationId") p.correlationId q.correlationId
  replyTo : FieldAfter .text (counts .text "replyTo") p.replyTo q.replyTo
  expiration : FieldAfter .text (counts .text "expiration") p.expiration q.expiration
  messageId : FieldAfter .text (counts .text "messageId") p.messageId q.messageId
  timestamp : FieldAfter .seconds (counts .seconds "timestamp") p.timestamp q.timestamp
  type : FieldAfter .text (counts .text "type") p.type q.type
  userId : FieldAfter .text (counts .text "userId") p.userId q.userId
  appId : FieldAfter .text (counts .text "appId") p.appId q.appId
  clusterId : FieldAfter .text (counts .text "clusterId") p.clusterId q.clusterId

/-- The write that counts for a field in a run: the last one under its name that it accepts. -/
def LastAccepted (writes : List (String × Value)) (k : PropertyKind) (name : String) (v : Value) :
    Prop :=
  LastOf (fun w => w.1 = name ∧ k.Accepts w.2) writes (name, v)

namespace Properties

variable {p q : Properties} {counts : PropertyKind → String → Value → Prop}

theorem fieldsAfter_iff : p.FieldsAfter counts q ↔
    ∀ n : PropertyName, FieldAfter n.kind (counts n.kind n.spelling) (p.get n) (q.get n) := by
  constructor
  · intro h n
    cases n with
    | contentType => exact h.contentType
    | contentEncoding => exact h.contentEncoding
    | deliveryMode => exact h.deliveryMode
    | priority => exact h.priority
    | correlationId => exact h.correlationId
    | replyTo => exact h.replyTo
    | expiration => exact h.expiration
    | messageId => exact h.messageId
    | timestamp => exact h.timestamp
    | type => exact h.type
    | userId => exact h.userId
    | appId => exact h.appId
    | clusterId => exact h.clusterId
  · intro h
    exact {
      contentType := h .contentType
      contentEncoding := h .contentEncoding
      deliveryMode := h .deliveryMode
      priority := h .priority
      correlationId := h .correlationId
      replyTo := h .replyTo
      expiration := h .expiration
      messageId := h .messageId
      timestamp := h .timestamp
      type := h .type
      userId := h .userId
      appId := h .appId
      clusterId := h .clusterId }

theorem assignAll_concat (p : Properties) (writes : List (String × Value)) (w : String × Value) :
    p.assignAll (writes ++ [w]) =
      ((p.assignAll writes).assign w.1 w.2).toOption.getD (p.assignAll writes) := by
  simp only [assignAll, List.foldl_append, List.foldl_cons, List.foldl_nil]

/-- An assignment that succeeds sets the field of its name and no other. -/
theorem get_attempt (p : Properties) (w : String × Value) (n : PropertyName) :
    (w.1 = n.spelling ∧ ∃ c, n.kind.Coerces w.2 c ∧
      ((p.assign w.1 w.2).toOption.getD p).get n = some c) ∨
    ¬ (w.1 = n.spelling ∧ n.kind.Accepts w.2) ∧
      ((p.assign w.1 w.2).toOption.getD p).get n = p.get n := by
  obtain ⟨name, value⟩ := w
  obtain ⟨m, rfl, c, hc⟩ | ⟨failure, hf⟩ := assignable_or_refuses name value
  · have assigned : (p.assign m.spelling value).toOption.getD p = p.set m c := by
      rw [assign_of_coerces p hc]
      rfl
    by_cases hmn : m = n
    · subst hmn
      refine .inl ⟨rfl, c, hc, ?_⟩
      rw [assigned, get_set_self]
    · refine .inr ⟨fun h => hmn (PropertyName.spelling_injective h.1), ?_⟩
      rw [assigned, get_set_of_ne p c hmn]
  · refine .inr ⟨fun h => ?_, ?_⟩
    · exact not_assignable_iff.2 ⟨failure, hf⟩ ⟨n, h.1.symm, h.2⟩
    · rw [assign_of_refuses p hf]
      rfl

theorem headers_attempt (p : Properties) (w : String × Value) :
    ((p.assign w.1 w.2).toOption.getD p).headers = p.headers := by
  obtain ⟨name, value⟩ := w
  obtain ⟨m, rfl, c, hc⟩ | ⟨failure, hf⟩ := assignable_or_refuses name value
  · rw [assign_of_coerces p hc]
    exact p.headers_set m c
  · rw [assign_of_refuses p hf]
    rfl

/-- A run of assignments leaves in each field the value of the last one that succeeded under the
field's name. -/
theorem fieldsAfter_assignAll (p : Properties) (writes : List (String × Value)) :
    p.FieldsAfter (LastAccepted writes) (p.assignAll writes) := by
  refine fieldsAfter_iff.2 fun n => ?_
  -- the last write sets the field, or it does not count and the field is as the others left it
  induction writes using List.reverseRecOn with
  | nil => exact .kept fun v h => absurd (LastOf.mem h) List.not_mem_nil
  | append_singleton writes w ih =>
    rw [assignAll_concat]
    obtain ⟨hw, c, hc, hget⟩ | ⟨hw, hget⟩ := (p.assignAll writes).get_attempt w n
    · obtain ⟨name, value⟩ := w
      obtain rfl : name = n.spelling := hw
      rw [hget]
      exact .set (lastOf_concat.2 (.inl ⟨⟨rfl, c, hc⟩, rfl⟩)) hc
    · have same : ∀ v, LastAccepted (writes ++ [w]) n.kind n.spelling v ↔
          LastAccepted writes n.kind n.spelling v := fun v => by
        unfold LastAccepted
        rw [lastOf_concat]
        simp only [hw, false_and, not_false_eq_true, true_and, false_or]
      rw [hget]
      exact ih.congr fun v => (same v).symm

theorem headers_assignAll (p : Properties) (writes : List (String × Value)) :
    (p.assignAll writes).headers = p.headers := by
  induction writes using List.reverseRecOn with
  | nil => rfl
  | append_singleton writes w ih => rw [assignAll_concat, headers_attempt, ih]

theorem text_read_eq_ok_iff {v : Value} {s : String} : PropertyKind.text.read v = .ok s ↔
    v = .string s ∨ (∃ n, v = .number n ∧ s = (Value.number n).text) ∨
      ∃ b, v = .bool b ∧ s = if b then "true" else "false" := by
  rw [PropertyKind.read_eq_ok_iff]
  constructor
  · intro h
    cases h with
    | string => exact .inl rfl
    | number n => exact .inr (.inl ⟨n, rfl, rfl⟩)
    | bool b => exact .inr (.inr ⟨b, rfl, rfl⟩)
  · rintro (rfl | ⟨n, rfl, rfl⟩ | ⟨b, rfl, rfl⟩)
    · exact .string s
    · exact .number n
    · exact .bool b

theorem text_read_eq_error_iff {v : Value} {fault : ValueFault} :
    PropertyKind.text.read v = .error fault ↔ fault = .notText v ∧
      (v = .null ∨ (∃ items, v = .array items) ∨ ∃ members, v = .object members) := by
  rw [PropertyKind.read_eq_error_iff]
  constructor
  · intro h
    cases h with
    | null => exact ⟨rfl, .inl rfl⟩
    | array items => exact ⟨rfl, .inr (.inl ⟨items, rfl⟩)⟩
    | object members => exact ⟨rfl, .inr (.inr ⟨members, rfl⟩)⟩
  · rintro ⟨rfl, rfl | ⟨items, rfl⟩ | ⟨members, rfl⟩⟩
    · exact .null
    · exact .array items
    · exact .object members

/-- However far a run of assignments has come, each field holds the value of the last assignment
that succeeded under the field's own name, or what it held at first, and the headers are as they
were. An assignment succeeds just if its name is the name of a property that accepts its value, and
otherwise its failure names it. Texts are made of strings, numbers and truth values alone: a number
becomes its JSON text, which writes this number and no other. -/
theorem assignments_set_named_fields :
    (∀ (p : Properties) (writes : List (String × Value)) (i : Nat),
      p.FieldsAfter (LastAccepted (writes.take i)) (p.assignAll (writes.take i)) ∧
      (p.assignAll (writes.take i)).headers = p.headers) ∧
    (∀ (p : Properties) (name : String) (value : Value),
      ((∃ q, p.assign name value = .ok q) ↔ Assignable name value) ∧
      (name ∈ propertyNames → ¬ Assignable name value →
        ∃ fault, p.assign name value = .error (.invalidPropertyValue name fault)) ∧
      (name ∉ propertyNames → p.assign name value = .error (.unknownProperty name))) ∧
    (∀ (v : Value) (s : String), PropertyKind.text.read v = .ok s ↔
      v = .string s ∨ (∃ n, v = .number n ∧ s = (Value.number n).text) ∨
        ∃ b, v = .bool b ∧ s = if b then "true" else "false") ∧
    (∀ n m : Json.Number, m.WrittenAs (Value.number n).text ↔ m = n) ∧
    ∀ (v : Value) (fault : ValueFault), PropertyKind.text.read v = .error fault ↔
      fault = .notText v ∧
        (v = .null ∨ (∃ items, v = .array items) ∨ ∃ members, v = .object members) := by
  refine ⟨fun p writes i => ⟨p.fieldsAfter_assignAll _, p.headers_assignAll _⟩,
    fun p name value => ⟨exists_assign_iff, ?_, fun h => assign_of_refuses p (.unknown h)⟩,
    fun v s => text_read_eq_ok_iff,
    fun n m => ⟨fun h => h.unique n.writtenAs_text, fun h => h ▸ n.writtenAs_text⟩,
    fun v fault => text_read_eq_error_iff⟩
  intro hname hno
  obtain ⟨failure, hf⟩ := not_assignable_iff.1 hno
  cases hf with
  | unknown h => exact absurd hname h
  | invalid hn hf => exact ⟨_, assign_of_refuses p (.invalid hn hf)⟩

/-- A value that is refused and a name that is none leave the field as it was. -/
example : ((∅ : Properties).assignAll [("messageId", .string "m-1"), ("messageId", .null),
    ("message_id", .string "m-2")]).messageId = some "m-1" := by
  decide

end Properties

end Courier
