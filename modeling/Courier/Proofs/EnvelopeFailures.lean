import Courier.Proofs.EnvelopeContents
import Mathlib.Data.List.Basic

/-!
# How an envelope fails

A call without a routing key fails before one without a body, and that one before a call that writes
an unknown property. `Declaration.envelope_cases` lists the outcomes, each with what it takes, and
`Declaration.envelope_outcomes` says when each of them comes. An entry that is dropped and an
argument that counts for nothing can be left out (`Declaration.envelope_filter_entries`,
`Declaration.envelope_of_same`), and so can what is given to no bound parameter
(`Declaration.envelope_of_agree`).
-/

namespace Courier

open Json (Value)

/-! ## No routing key -/

/-- A parameter whose first routing key binding gives no key: its fixed text is empty, or it has
none and the argument is missing, no text, or the empty one. -/
inductive Parameter.Keyless (p : Parameter) (args : Arguments) : Prop where
  | empty (first : p.FirstRouting (some ""))
  | missing (first : p.FirstRouting none) (h : args.get? p.name = none)
  | notText {v : Value} (first : p.FirstRouting none) (hv : args.get? p.name = some v)
      (h : ∀ s, v ≠ .string s)
  | emptyText (first : p.FirstRouting none) (hv : args.get? p.name = some (.string ""))

theorem Parameter.FirstRouting.unique {p : Parameter} {a b : Option String}
    (ha : p.FirstRouting a) (hb : p.FirstRouting b) : a = b :=
  Binding.routingKey.inj (FirstOf.unique ha hb)

/-- A parameter with a routing key binding gives a key or is keyless. -/
theorem Parameter.keys_or_keyless {p : Parameter} (h : ∃ fixed, .routingKey fixed ∈ p.bindings)
    (args : Arguments) : (∃ key, p.Keys args key) ∨ p.Keyless args := by
  obtain ⟨fixed, hf⟩ := Option.isSome_iff_exists.1 (isSome_routingBinding?.2 h)
  have first := routingBinding?_eq_some_iff.1 hf
  -- a fixed text is taken or refused as it is; only without one is the argument looked at
  cases fixed with
  | some key =>
    by_cases hkey : key = ""
    · exact .inr (.empty (hkey ▸ first))
    · exact .inl ⟨key, .fixed hkey first⟩
  | none =>
    cases hv : args.get? p.name with
    | none => exact .inr (.missing first hv)
    | some v =>
      cases hs : v.string? with
      | none =>
        refine .inr (.notText first hv fun s h => ?_)
        exact absurd (hs.symm.trans (Value.string?_eq_some_iff.2 h)) nofun
      | some key =>
        obtain rfl := Value.string?_eq_some_iff.1 hs
        by_cases hkey : key = ""
        · exact .inr (.emptyText first (hkey ▸ hv))
        · exact .inl ⟨key, .argument hkey first hv⟩

theorem Parameter.Keyless.not_keys {p : Parameter} {args : Arguments} {key : String}
    (h : p.Keyless args) : ¬ p.Keys args key := by
  intro hk
  cases hk with
  | fixed hne own =>
    cases h with
    | empty first => exact hne (Option.some.inj (own.unique first))
    | missing first | notText first | emptyText first => exact absurd (own.unique first) nofun
  | argument hne own hv =>
    cases h with
    | empty first => exact absurd (own.unique first) nofun
    | missing _ none => exact absurd (hv.symm.trans none) nofun
    | notText _ hv' no_text => exact no_text key (Option.some.inj (hv'.symm.trans hv))
    | emptyText _ hv' => exact hne (Value.string.inj (Option.some.inj (hv.symm.trans hv')))

namespace Declaration

variable {d : Declaration} {args : Arguments}

/-- A call without a routing key: the method has none, and no parameter has a routing key binding or
the first one that has is keyless. -/
inductive Unrouted (d : Declaration) (args : Arguments) : Prop where
  | unbound (h : d.routingKey = none)
      (none : ∀ p ∈ d.parameters, ∀ fixed, .routingKey fixed ∉ p.bindings) : d.Unrouted args
  | keyless {p : Parameter} (h : d.routingKey = none) (first : d.FirstRouting p)
      (hp : p.Keyless args) : d.Unrouted args

theorem routed_or_unrouted (d : Declaration) (args : Arguments) :
    (∃ key, d.Routed args key) ∨ d.Unrouted args := by
  cases hd : d.routingKey with
  | some key => exact .inl ⟨key, .method hd⟩
  | none =>
    by_cases h : ∃ p ∈ d.parameters, ∃ fixed, .routingKey fixed ∈ p.bindings
    · obtain ⟨p, first⟩ := exists_firstOf_iff.2 h
      obtain ⟨key, hk⟩ | hp := Parameter.keys_or_keyless first.holds args
      · exact .inl ⟨key, .parameter hd first hk⟩
      · exact .inr (.keyless hd first hp)
    · exact .inr (.unbound hd fun p hp fixed hf => h ⟨p, hp, fixed, hf⟩)

theorem Unrouted.not_routed (h : d.Unrouted args) {key : String} : ¬ d.Routed args key := by
  intro hr
  cases hr with
  | method hd =>
    cases h with
    | unbound hno | keyless hno => exact absurd (hd.symm.trans hno) nofun
  | parameter _ first hk =>
    cases h with
    | unbound _ none =>
      obtain ⟨fixed, hf⟩ := first.holds
      exact none _ first.mem fixed hf
    | keyless _ first' hp =>
      obtain rfl := first.unique first'
      exact hp.not_keys hk

theorem routingKey?_eq_none_iff : d.routingKey? args = none ↔ d.Unrouted args := by
  rw [Option.eq_none_iff_forall_ne_some]
  constructor
  · intro h
    refine (d.routed_or_unrouted args).resolve_left ?_
    rintro ⟨key, hk⟩
    exact h key (routingKey?_eq_some_iff.2 hk)
  · exact fun h key hk => h.not_routed (routingKey?_eq_some_iff.1 hk)

/-! ## No body -/

/-- A declaration without a parameter for the body: none is marked as the body, and every one is
bound to something. -/
def Bodiless (d : Declaration) : Prop :=
  (∀ p ∈ d.parameters, .body ∉ p.bindings) ∧ ∀ p ∈ d.parameters, p.bindings ≠ []

theorem bodyParameter?_eq_none_iff : d.bodyParameter? = none ↔ d.Bodiless := by
  simp only [bodyParameter?, Option.or_eq_none_iff, List.find?_eq_none, Bodiless, Parameter.isBody,
    List.contains_iff_mem, Parameter.isUnbound, List.isEmpty_iff, ne_eq]

end Declaration

/-! ## An unknown property -/

/-- A source that writes a property under a name that is none. -/
def Source.Misnames (args : Arguments) (s : Source) (name : String) : Prop :=
  name ∉ propertyNames ∧ ∃ v, s.Writes .property args name v

/-- The name under which the first source writes that writes an unknown property. -/
def Declaration.FirstUnknown (d : Declaration) (args : Arguments) (name : String) : Prop :=
  ∃ s, FirstOf (fun s => ∃ name, Source.Misnames args s name) (Part.property.sources d) s ∧
    s.Misnames args name

theorem Source.Writes.unique {part : Part} {args : Arguments} {s : Source} {m n : String}
    {v w : Value} (hv : s.Writes part args m v) (hw : s.Writes part args n w) : (m, v) = (n, w) :=
  Option.some.inj ((Source.write?_eq_some_iff.2 hv).symm.trans (Source.write?_eq_some_iff.2 hw))

namespace Declaration

variable {d : Declaration} {args : Arguments}

theorem FirstUnknown.unique {m n : String} (hm : d.FirstUnknown args m)
    (hn : d.FirstUnknown args n) : m = n := by
  obtain ⟨s, first, -, v, hv⟩ := hm
  obtain ⟨t, first', -, w, hw⟩ := hn
  obtain rfl := first.unique first'
  exact (Prod.mk.inj (hv.unique hw)).1

theorem exists_firstUnknown_iff : (∃ name, d.FirstUnknown args name) ↔
    ∃ s ∈ Part.property.sources d, ∃ name, Source.Misnames args s name := by
  rw [← exists_firstOf_iff]
  constructor
  · rintro ⟨name, s, first, -⟩
    exact ⟨s, first⟩
  · rintro ⟨s, first⟩
    obtain ⟨name, hs⟩ := first.holds
    exact ⟨name, s, first, hs⟩

theorem find?_isUnknown_iff {name : String} :
    (∃ v, (d.propertyWrites args).find? isUnknown = some (name, v)) ↔ d.FirstUnknown args name := by
  have misnames (s : Source) : (∃ key v, s.Writes .property args key v ∧ key ∉ propertyNames) ↔
      ∃ name, s.Misnames args name :=
    exists_congr fun name => ⟨fun ⟨v, hv, hno⟩ => ⟨hno, v, hv⟩, fun ⟨hno, v, hv⟩ => ⟨v, hv, hno⟩⟩
  have writes : d.propertyWrites args = Part.property.writes d args := rfl
  -- the search runs over the writes, and each of them has the one source that makes it
  have found {v : Value} : (d.propertyWrites args).find? isUnknown = some (name, v) ↔
      ∃ s, FirstOf (fun s => ∃ name, Source.Misnames args s name) (Part.property.sources d) s ∧
        s.Writes .property args name v := by
    rw [find?_eq_some_iff_firstOf fun w => isUnknown_iff, writes, Part.writes_eq, firstOf_filterMap]
    simp only [Source.write?_eq_some_iff, Prod.exists, misnames]
  simp only [found]
  constructor
  · rintro ⟨v, s, first, hv⟩
    obtain ⟨other, hno, w, hw⟩ := first.holds
    obtain rfl : other = name := (Prod.mk.inj (hw.unique hv)).1
    exact ⟨s, first, hno, v, hv⟩
  · rintro ⟨s, first, -, v, hv⟩
    exact ⟨v, s, first, hv⟩

/-! ## Outcomes -/

/-- The outcomes of a call, in the order in which they are decided. -/
theorem envelope_cases (d : Declaration) (args : Arguments) :
    (d.Unrouted args ∧ d.envelope args = .error (.missingRoutingKey d.method)) ∨
    (¬ d.Unrouted args ∧ d.Bodiless ∧ d.envelope args = .error (.missingBodyArgument d.method)) ∨
    (¬ d.Unrouted args ∧ ¬ d.Bodiless ∧ ∃ name, d.FirstUnknown args name ∧
      d.envelope args = .error (.unknownProperty name)) ∨
    (¬ d.Unrouted args ∧ ¬ d.Bodiless ∧ (∀ name, ¬ d.FirstUnknown args name) ∧
      ∃ e, d.envelope args = .ok e) := by
  rw [← routingKey?_eq_none_iff, ← bodyParameter?_eq_none_iff]
  simp only [← find?_isUnknown_iff]
  cases hkey : d.routingKey? args with
  | none => exact .inl ⟨rfl, by simp only [envelope, hkey]⟩
  | some key =>
    have routed : some key ≠ none := Option.some_ne_none key
    refine .inr ?_
    cases hbody : d.bodyParameter? with
    | none => exact .inl ⟨routed, rfl, by simp only [envelope, hkey, hbody]⟩
    | some p =>
      have carried : some p ≠ none := Option.some_ne_none p
      refine .inr ?_
      cases hw : (d.propertyWrites args).find? isUnknown with
      | some w =>
        refine .inl ⟨routed, carried, w.1, ⟨w.2, rfl⟩, ?_⟩
        simp only [envelope, hkey, hbody, hw]
      | none =>
        have known (name : String) : ¬ ∃ v : Value, none = some (name, v) := by simp
        refine .inr ⟨routed, carried, known, ?_⟩
        simp only [envelope, hkey, hbody, hw, Except.ok.injEq, exists_eq']

theorem envelope_eq_missingRoutingKey_iff {method : String} :
    d.envelope args = .error (.missingRoutingKey method) ↔
      method = d.method ∧ d.Unrouted args := by
  obtain ⟨hu, he⟩ | ⟨hu, -, he⟩ | ⟨hu, -, name, -, he⟩ | ⟨hu, -, -, e, he⟩ := d.envelope_cases args
  · simp [he, hu, eq_comm]
  all_goals simp [he, hu]

theorem envelope_eq_missingBodyArgument_iff {method : String} :
    d.envelope args = .error (.missingBodyArgument method) ↔
      method = d.method ∧ ¬ d.Unrouted args ∧ d.Bodiless := by
  obtain ⟨hu, he⟩ | ⟨hu, hb, he⟩ | ⟨-, hb, name, -, he⟩ | ⟨-, hb, -, e, he⟩ := d.envelope_cases args
  · simp [he, hu]
  · simp [he, hu, hb, eq_comm]
  all_goals simp [he, hb]

theorem envelope_eq_unknownProperty_iff {name : String} :
    d.envelope args = .error (.unknownProperty name) ↔
      ¬ d.Unrouted args ∧ ¬ d.Bodiless ∧ d.FirstUnknown args name := by
  obtain ⟨hu, he⟩ | ⟨hu, hb, he⟩ | ⟨hu, hb, first, hf, he⟩ | ⟨hu, hb, hno, e, he⟩ :=
    d.envelope_cases args
  · simp [he, hu]
  · simp [he, hb]
  · have same : first = name ↔ d.FirstUnknown args name :=
      ⟨fun h => h ▸ hf, fun h => hf.unique h⟩
    simp [he, hu, hb, same]
  · simp [he, hno]

theorem exists_envelope_iff : (∃ e, d.envelope args = .ok e) ↔
    ¬ d.Unrouted args ∧ ¬ d.Bodiless ∧ ∀ name, ¬ d.FirstUnknown args name := by
  obtain ⟨hu, he⟩ | ⟨hu, hb, he⟩ | ⟨hu, hb, first, hf, he⟩ | ⟨hu, hb, hno, e, he⟩ :=
    d.envelope_cases args
  · simp [he, hu]
  · simp [he, hb]
  · have unknown : ¬ ∀ name, ¬ d.FirstUnknown args name := fun h => h first hf
    simp [he, unknown]
  · simp [he, hu, hb, hno]

end Declaration

/-! ## What makes no difference -/

/-- An entry that writes nothing: it has no value or an empty one, or its own name is empty. -/
inductive Entry.Dropped (e : Entry) : Prop where
  | noValue (h : e.value = none)
  | emptyValue (h : e.value = some "")
  | emptyName (h : e.name = some "")

theorem Entry.Dropped.write?_eq_none {e : Entry} (h : e.Dropped) : e.write? = none := by
  rw [Option.eq_none_iff_forall_ne_some]
  rintro ⟨name, v⟩ hw
  obtain ⟨text, hn, hname, hv, htext, -⟩ := Entry.write?_eq_some_iff.1 hw
  cases h with
  | noValue h => exact absurd (hv.symm.trans h) nofun
  | emptyValue h => exact htext (Option.some.inj (hv.symm.trans h))
  | emptyName h =>
    rw [effectiveName?, h, Option.some_or] at hn
    exact hname (Option.some.inj hn).symm

/-- Arguments that differ only where they count for nothing: where they are missing, null or the
empty text. -/
def Arguments.SamePresent (args args' : Arguments) : Prop :=
  ∀ name v, v ≠ .null → v ≠ .string "" → (args.get? name = some v ↔ args'.get? name = some v)

/-- Arguments that count for the same under one name. -/
def Arguments.AgreeAt (args args' : Arguments) (name : String) : Prop :=
  ∀ v, v ≠ .null → v ≠ .string "" → (args.get? name = some v ↔ args'.get? name = some v)

theorem Arguments.AgreeAt.symm {args args' : Arguments} {name : String}
    (h : args.AgreeAt args' name) : args'.AgreeAt args name :=
  fun v not_null not_empty => (h v not_null not_empty).symm

/-- A parameter that is bound to anything but the body. -/
def Parameter.IsBound (p : Parameter) : Prop := ∃ b ∈ p.bindings, b ≠ .body

instance (p : Parameter) : Decidable p.IsBound :=
  inferInstanceAs (Decidable (∃ b ∈ p.bindings, b ≠ .body))

theorem Parameter.FirstBound.isBound {p : Parameter} {part : Part} {own : Option String}
    (h : p.FirstBound part own) : p.IsBound :=
  ⟨_, h.mem, by cases part <;> nofun⟩

theorem Parameter.Named.isBound {p : Parameter} {part : Part} {name : String}
    (h : p.Named part name) : p.IsBound := by
  cases h with
  | own _ first => exact first.isBound
  | fallback _ first => exact first.isBound

theorem Source.Writes.of_agree {part : Part} {args args' : Arguments} {s : Source} {name : String}
    {v : Value} (h : s.Writes part args name v)
    (same : ∀ p, s = .parameter p → p.IsBound → args.AgreeAt args' p.name) :
    s.Writes part args' name v := by
  cases h with
  | named hn hv hname htext => exact .named hn hv hname htext
  | unnamed hn hv htext => exact .unnamed hn hv htext
  | bound hp hv hnull hempty =>
    exact .bound hp ((same _ rfl hp.isBound v hnull hempty).1 hv) hnull hempty

theorem Parameter.Keys.of_agree {p : Parameter} {args args' : Arguments} {key : String}
    (h : p.Keys args key) (same : args.AgreeAt args' p.name) : p.Keys args' key := by
  cases h with
  | fixed hne first => exact .fixed hne first
  | argument hne first hv =>
    have not_empty : Value.string key ≠ .string "" := fun h => hne (Value.string.inj h)
    exact .argument hne first ((same (.string key) nofun not_empty).1 hv)

namespace Declaration

variable {d d' : Declaration} {args args' : Arguments}

/-- Arguments that count for the same at each bound parameter. -/
def Agree (d : Declaration) (args args' : Arguments) : Prop :=
  ∀ p ∈ d.parameters, p.IsBound → args.AgreeAt args' p.name

theorem Agree.symm (h : d.Agree args args') : d.Agree args' args :=
  fun p hp bound => (h p hp bound).symm

theorem Routed.of_agree {key : String} (h : d.Routed args key) (same : d.Agree args args') :
    d.Routed args' key := by
  cases h with
  | method h => exact .method h
  | parameter h first hk =>
    obtain ⟨fixed, hf⟩ := first.holds
    exact .parameter h first (hk.of_agree (same _ first.mem ⟨_, hf, nofun⟩))

theorem writes_of_agree (part : Part) (same : d.Agree args args') :
    part.writes d args = part.writes d args' := by
  have agree {args args' : Arguments} (same : d.Agree args args') {s : Source} {name : String}
      {v : Value} (hs : s ∈ part.sources d) (h : s.Writes part args name v) :
      s.Writes part args' name v := by
    apply h.of_agree
    rintro p rfl bound
    exact same p (Part.parameter_mem_sources.1 hs) bound
  rw [Part.writes_eq, Part.writes_eq]
  refine List.filterMap_congr fun s hs => Option.ext fun ⟨name, v⟩ => ?_
  simp only [Source.write?_eq_some_iff]
  exact ⟨agree same hs, agree same.symm hs⟩

/-- An envelope is made of nothing but the parts that it resolves. -/
theorem envelope_congr (method : d.method = d'.method) (exchange : d.exchange = d'.exchange)
    (key : d.routingKey? args = d'.routingKey? args') (body : d.bodyParameter? = d'.bodyParameter?)
    (headers : d.headerWrites args = d'.headerWrites args')
    (properties : d.propertyWrites args = d'.propertyWrites args') :
    d.envelope args = d'.envelope args' := by
  simp only [envelope, method, exchange, key, body, headers, properties]

/-- Entries that are dropped can be left out of a declaration. -/
theorem envelope_filter_entries (d : Declaration) (args : Arguments) {keep : Entry → Bool}
    (h : ∀ e, keep e = false → e.Dropped) :
    { d with
      headers := d.headers.filter keep
      properties := d.properties.filter keep }.envelope args = d.envelope args := by
  have writes (entries : List Entry) :
      (entries.filter keep).filterMap Entry.write? = entries.filterMap Entry.write? :=
    filterMap_filter_of_none fun e he => (h e he).write?_eq_none
  refine envelope_congr rfl rfl rfl rfl ?_ ?_
  · simp only [headerWrites, writes]
  · simp only [propertyWrites, writes]

/-- Only what counts, and only at the bound parameters, has a part in an envelope. -/
theorem envelope_of_agree (same : d.Agree args args') : d.envelope args = d.envelope args' := by
  refine envelope_congr rfl rfl (Option.ext fun key => ?_) rfl
    (writes_of_agree .header same) (writes_of_agree .property same)
  simp only [routingKey?_eq_some_iff]
  exact ⟨fun h => h.of_agree same, fun h => h.of_agree same.symm⟩

/-- An argument that is null or the empty text can be left out of a call. -/
theorem envelope_of_same (d : Declaration) (same : args.SamePresent args') :
    d.envelope args = d.envelope args' :=
  envelope_of_agree fun p _ _ => same p.name

/-- A call fails for want of a routing key just if it has none; otherwise for want of a body just if
no parameter carries one; otherwise for an unknown property just if some source writes one, and then
it names the one that the first such source writes; and otherwise it has an envelope. Entries that
are dropped and arguments that count for nothing make no difference. -/
theorem envelope_outcomes (d : Declaration) (args : Arguments) :
    (∀ method, d.envelope args = .error (.missingRoutingKey method) ↔
      method = d.method ∧ d.Unrouted args) ∧
    (∀ method, d.envelope args = .error (.missingBodyArgument method) ↔
      method = d.method ∧ ¬ d.Unrouted args ∧ d.Bodiless) ∧
    (∀ name, d.envelope args = .error (.unknownProperty name) ↔
      ¬ d.Unrouted args ∧ ¬ d.Bodiless ∧ d.FirstUnknown args name) ∧
    ((∃ name, d.FirstUnknown args name) ↔
      ∃ s ∈ Part.property.sources d, ∃ name, Source.Misnames args s name) ∧
    ((∃ e, d.envelope args = .ok e) ↔ ¬ d.Unrouted args ∧ ¬ d.Bodiless ∧
      ∀ s ∈ Part.property.sources d, ∀ name, ¬ Source.Misnames args s name) ∧
    (∀ keep : Entry → Bool, (∀ e, keep e = false → e.Dropped) →
      { d with
        headers := d.headers.filter keep
        properties := d.properties.filter keep }.envelope args = d.envelope args) ∧
    ∀ args' : Arguments, args.SamePresent args' → d.envelope args = d.envelope args' := by
  have known : (∀ s ∈ Part.property.sources d, ∀ name, ¬ Source.Misnames args s name) ↔
      ∀ name, ¬ d.FirstUnknown args name := by
    rw [← not_exists, exists_firstUnknown_iff]
    simp only [not_exists, not_and]
  rw [known]
  exact ⟨fun _ => envelope_eq_missingRoutingKey_iff, fun _ => envelope_eq_missingBodyArgument_iff,
    fun _ => envelope_eq_unknownProperty_iff, exists_firstUnknown_iff, exists_envelope_iff,
    fun _ h => d.envelope_filter_entries args h, fun _ same => d.envelope_of_same same⟩

/-- Of two unknown properties the first that is declared is reported, not the first by name. -/
example : { ofMethod "store" with
      routingKey := some "records"
      properties := [⟨some "alpha", some ""⟩, ⟨some "zeta", some "1"⟩, ⟨some "alpha", some "2"⟩]
      parameters := [⟨"text", []⟩] }.envelope ∅ = .error (.unknownProperty "zeta") :=
  rfl

end Declaration

end Courier
