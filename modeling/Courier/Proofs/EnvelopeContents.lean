import Courier.Proofs.FieldWrites

/-!
# What an envelope holds

The headers and the properties of an envelope come from a row of sources: the declared entries and
then the parameters, each in the order of the declaration. A source writes one value under one name
or nothing (`Source.Writes`), and an envelope holds the last value written under each name
(`Declaration.envelope_holds_last_writes`).
-/

namespace Courier

open Json (Value)

/-! ## Sources -/

/-- The parts of an envelope that a declaration fills name by name. -/
inductive Part where
  | header
  | property

namespace Part

/-- The binding of a parameter to a part, with a name of its own or without. -/
def binding : Part → Option String → Binding
  | header, name => .header name
  | property, name => .property name

/-- The declared entries of a part. -/
def entries : Part → Declaration → List Entry
  | header, d => d.headers
  | property, d => d.properties

/-- What an envelope holds in a part. -/
def table : Part → Envelope → Table Value
  | header, e => e.headers
  | property, e => e.properties

/-- The name that a parameter is bound to in a part. -/
def name? : Part → Parameter → Option String
  | header, p => p.headerName?
  | property, p => p.propertyName?

/-- The writes of a call to a part, in order. -/
def writes : Part → Declaration → Arguments → List (String × Value)
  | header, d, args => d.headerWrites args
  | property, d, args => d.propertyWrites args

end Part

/-- Where a header or a property comes from. -/
inductive Source where
  | entry (e : Entry)
  | parameter (p : Parameter)

/-- The sources of a part, in the order in which they write. -/
def Part.sources (part : Part) (d : Declaration) : List Source :=
  (part.entries d).map .entry ++ d.parameters.map .parameter

theorem Part.parameter_mem_sources {part : Part} {d : Declaration} {p : Parameter} :
    Source.parameter p ∈ part.sources d ↔ p ∈ d.parameters := by
  simp [sources]

/-- The first binding of a parameter to a part has a name of its own, or none. -/
def Parameter.FirstBound (p : Parameter) (part : Part) (own : Option String) : Prop :=
  FirstOf (fun b => ∃ own, b = part.binding own) p.bindings (part.binding own)

/-- The name that a parameter is bound to in a part: the own name of its first binding to the part,
or the parameter's where that binding has none or an empty one. -/
inductive Parameter.Named (p : Parameter) (part : Part) : String → Prop where
  | own {name : String} (h : name ≠ "") (first : p.FirstBound part (some name)) : p.Named part name
  | fallback {own : Option String} (h : own = none ∨ own = some "")
      (first : p.FirstBound part own) : p.Named part p.name

/-- What a source writes to a part: an entry its text, a bound parameter its argument. A text that
is empty and an argument that is null count for nothing, and so does an empty name of an entry. -/
inductive Source.Writes (part : Part) (args : Arguments) : Source → String → Value → Prop where
  | named {e : Entry} {name text : String} (hn : e.name = some name) (hv : e.value = some text)
      (name_ne : name ≠ "") (text_ne : text ≠ "") : Writes part args (.entry e) name (.string text)
  | unnamed {e : Entry} {text : String} (hn : e.name = none) (hv : e.value = some text)
      (text_ne : text ≠ "") : Writes part args (.entry e) text (.string text)
  | bound {p : Parameter} {name : String} {v : Value} (hp : p.Named part name)
      (hv : args.get? p.name = some v) (not_null : v ≠ .null) (not_empty : v ≠ .string "") :
      Writes part args (.parameter p) name v

/-- What a source writes to a part. -/
def Source.write? (part : Part) (args : Arguments) : Source → Option (String × Value)
  | .entry e => e.write?
  | .parameter p => do return (← part.name? p, ← args.present? p)

theorem nonEmpty?_eq_some_iff {s t : String} : nonEmpty? s = some t ↔ s = t ∧ t ≠ "" := by
  unfold nonEmpty?
  split
  next h => exact iff_of_false nofun fun ⟨hst, ht⟩ => ht (hst ▸ h)
  next h => exact ⟨fun hst => Option.some.inj hst ▸ ⟨rfl, h⟩, fun hst => hst.1 ▸ rfl⟩

theorem isPresent_iff {v : Value} : isPresent v = true ↔ v ≠ .null ∧ v ≠ .string "" := by
  cases v <;> simp [isPresent]

theorem Arguments.present?_eq_some_iff {args : Arguments} {p : Parameter} {v : Value} :
    args.present? p = some v ↔ args.get? p.name = some v ∧ v ≠ .null ∧ v ≠ .string "" := by
  rw [present?, Option.filter_eq_some_iff, isPresent_iff]

theorem Parameter.boundName_cases (p : Parameter) (own : Option String) :
    (∃ name, name ≠ "" ∧ own = some name ∧ p.boundName own = name) ∨
      (own = none ∨ own = some "") ∧ p.boundName own = p.name := by
  cases own with
  | none => exact .inr ⟨.inl rfl, rfl⟩
  | some name =>
    by_cases h : name = ""
    · exact .inr ⟨.inr (h ▸ rfl), by rw [boundName, Option.bind_some, nonEmpty?, if_pos h]; rfl⟩
    · exact .inl ⟨name, h, rfl, by rw [boundName, Option.bind_some, nonEmpty?, if_neg h]; rfl⟩

theorem Part.name?_eq_some_iff {part : Part} {p : Parameter} {name : String} :
    part.name? p = some name ↔ p.Named part name := by
  have found : part.name? p = some name ↔
      ∃ own, p.FirstBound part own ∧ p.boundName own = name := by
    cases part with
    | header => exact findSome?_eq_some_iff_firstOf fun b own => by cases b <;> simp [binding]
    | property => exact findSome?_eq_some_iff_firstOf fun b own => by cases b <;> simp [binding]
  rw [found]
  constructor
  · rintro ⟨own, first, rfl⟩
    obtain ⟨name, h, rfl, hname⟩ | ⟨h, hname⟩ := p.boundName_cases own
    · rw [hname]
      exact .own h first
    · rw [hname]
      exact .fallback h first
  · intro h
    cases h with
    | own h first =>
      refine ⟨_, first, ?_⟩
      rw [Parameter.boundName, Option.bind_some, nonEmpty?, if_neg h]
      rfl
    | fallback h first =>
      refine ⟨_, first, ?_⟩
      obtain rfl | rfl := h <;> rfl

theorem Entry.write?_eq_some_iff {e : Entry} {name : String} {v : Value} :
    e.write? = some (name, v) ↔ ∃ text, e.effectiveName? = some name ∧ name ≠ "" ∧
      e.value = some text ∧ text ≠ "" ∧ v = .string text := by
  simp only [write?, Option.bind_eq_bind, Option.bind_eq_some_iff, nonEmpty?_eq_some_iff,
    Option.pure_def, Option.some.injEq, Prod.mk.injEq]
  constructor
  · rintro ⟨_, ⟨_, hn, rfl, hname⟩, text, ⟨_, hv, rfl, htext⟩, rfl, rfl⟩
    exact ⟨_, hn, hname, hv, htext, rfl⟩
  · rintro ⟨text, hn, hname, hv, htext, rfl⟩
    exact ⟨name, ⟨name, hn, rfl, hname⟩, text, ⟨text, hv, rfl, htext⟩, rfl, rfl⟩

theorem Source.write?_eq_some_iff {part : Part} {args : Arguments} {s : Source} {name : String}
    {v : Value} : s.write? part args = some (name, v) ↔ s.Writes part args name v := by
  cases s with
  | entry e =>
    rw [write?, Entry.write?_eq_some_iff]
    constructor
    · rintro ⟨text, hn, hname, hv, htext, rfl⟩
      cases he : e.name with
      | none =>
        rw [Entry.effectiveName?, he, Option.none_or, hv] at hn
        obtain rfl := Option.some.inj hn
        exact .unnamed he hv htext
      | some own =>
        rw [Entry.effectiveName?, he, Option.some_or] at hn
        obtain rfl := Option.some.inj hn
        exact .named he hv hname htext
    · intro h
      cases h with
      | named hn hv hname htext =>
        exact ⟨_, by rw [Entry.effectiveName?, hn, Option.some_or], hname, hv, htext, rfl⟩
      | unnamed hn hv htext =>
        exact ⟨_, by rw [Entry.effectiveName?, hn, Option.none_or, hv], htext, hv, htext, rfl⟩
  | parameter p =>
    simp only [write?, Option.bind_eq_bind, Option.bind_eq_some_iff, Part.name?_eq_some_iff,
      Arguments.present?_eq_some_iff, Option.pure_def, Option.some.injEq, Prod.mk.injEq]
    constructor
    · rintro ⟨_, hp, _, ⟨hv, hnull, hempty⟩, rfl, rfl⟩
      exact .bound hp hv hnull hempty
    · intro h
      cases h with
      | bound hp hv hnull hempty => exact ⟨_, hp, _, ⟨hv, hnull, hempty⟩, rfl, rfl⟩

theorem Part.writes_eq (part : Part) (d : Declaration) (args : Arguments) :
    part.writes d args = (part.sources d).filterMap (Source.write? part args) := by
  rw [sources, List.filterMap_append, List.filterMap_map, List.filterMap_map]
  cases part <;> rfl

/-! ## The routing key and the body -/

/-- The first routing key binding of a parameter has a fixed text, or none. -/
def Parameter.FirstRouting (p : Parameter) (fixed : Option String) : Prop :=
  FirstOf (fun b => ∃ fixed, b = .routingKey fixed) p.bindings (.routingKey fixed)

/-- The routing key that a parameter gives by its first routing key binding: the fixed text of the
binding, or else the argument if it is a text. It is not empty. -/
inductive Parameter.Keys (p : Parameter) (args : Arguments) : String → Prop where
  | fixed {key : String} (h : key ≠ "") (first : p.FirstRouting (some key)) : p.Keys args key
  | argument {key : String} (h : key ≠ "") (first : p.FirstRouting none)
      (hv : args.get? p.name = some (.string key)) : p.Keys args key

namespace Declaration

/-- The first parameter with a routing key binding. -/
def FirstRouting (d : Declaration) (p : Parameter) : Prop :=
  FirstOf (fun p => ∃ fixed, .routingKey fixed ∈ p.bindings) d.parameters p

/-- The routing key of a call: the method's own, or else the one that the first parameter with a
routing key binding gives. -/
inductive Routed (d : Declaration) (args : Arguments) : String → Prop where
  | method {key : String} (h : d.routingKey = some key) : d.Routed args key
  | parameter {p : Parameter} {key : String} (h : d.routingKey = none) (first : d.FirstRouting p)
      (hk : p.Keys args key) : d.Routed args key

/-- The parameter that carries the body: the first that is marked as the body, or else the first
without bindings. -/
inductive Carries (d : Declaration) : Parameter → Prop where
  | marked {p : Parameter} (first : FirstOf (fun p => .body ∈ p.bindings) d.parameters p) :
      d.Carries p
  | unbound {p : Parameter} (h : ∀ q ∈ d.parameters, .body ∉ q.bindings)
      (first : FirstOf (fun p => p.bindings = []) d.parameters p) : d.Carries p

end Declaration

theorem Declaration.Carries.mem {d : Declaration} {p : Parameter} (h : d.Carries p) :
    p ∈ d.parameters := by
  cases h with
  | marked first => exact first.mem
  | unbound _ first => exact first.mem

theorem Parameter.routingBinding?_eq_some_iff {p : Parameter} {fixed : Option String} :
    p.routingBinding? = some fixed ↔ p.FirstRouting fixed := by
  have found : p.routingBinding? = some fixed ↔ ∃ own, p.FirstRouting own ∧ own = fixed :=
    findSome?_eq_some_iff_firstOf fun b own => by cases b <;> simp
  rw [found, exists_eq_right]

theorem Parameter.isSome_routingBinding? {p : Parameter} :
    p.routingBinding?.isSome = true ↔ ∃ fixed, .routingKey fixed ∈ p.bindings := by
  simp only [Option.isSome_iff_exists, routingBinding?_eq_some_iff]
  constructor
  · rintro ⟨fixed, h⟩
    exact ⟨fixed, h.mem⟩
  · rintro ⟨fixed, h⟩
    have bound : ∃ b ∈ p.bindings, ∃ fixed, b = .routingKey fixed := ⟨_, h, fixed, rfl⟩
    obtain ⟨b, first⟩ := exists_firstOf_iff.2 bound
    obtain ⟨own, rfl⟩ := first.holds
    exact ⟨own, first⟩

namespace Declaration

variable {d : Declaration} {args : Arguments}

theorem routingKey?_eq_some_iff {key : String} :
    d.routingKey? args = some key ↔ d.Routed args key := by
  have find {p : Parameter} :
      d.parameters.find? (fun p => p.routingBinding?.isSome) = some p ↔ d.FirstRouting p :=
    find?_eq_some_iff_firstOf fun p => p.isSome_routingBinding?
  unfold routingKey?
  cases hd : d.routingKey with
  | some own =>
    constructor
    · intro h
      exact .method (hd.trans h)
    · intro h
      cases h with
      | method h => exact hd.symm.trans h
      | parameter h => exact absurd (hd.symm.trans h) nofun
  | none =>
    simp only [Option.bind_eq_some_iff, find]
    constructor
    · rintro ⟨p, first, hp⟩
      refine .parameter hd first ?_
      obtain ⟨fixed, hf⟩ :=
        Option.isSome_iff_exists.1 (Parameter.isSome_routingBinding?.2 first.holds)
      rw [hf] at hp
      have own := Parameter.routingBinding?_eq_some_iff.1 hf
      cases fixed with
      | some fixed =>
        obtain ⟨rfl, hne⟩ := nonEmpty?_eq_some_iff.1 hp
        exact .fixed hne own
      | none =>
        simp only [Option.bind_eq_some_iff, nonEmpty?_eq_some_iff] at hp
        obtain ⟨_, ⟨v, hv, hs⟩, rfl, hne⟩ := hp
        rw [Value.string?_eq_some_iff.1 hs] at hv
        exact .argument hne own hv
    · intro h
      cases h with
      | method h => exact absurd (hd.symm.trans h) nofun
      | parameter _ first hk =>
        refine ⟨_, first, ?_⟩
        cases hk with
        | fixed hne own =>
          rw [Parameter.routingBinding?_eq_some_iff.2 own]
          exact nonEmpty?_eq_some_iff.2 ⟨rfl, hne⟩
        | argument hne own hv =>
          rw [Parameter.routingBinding?_eq_some_iff.2 own, hv]
          exact nonEmpty?_eq_some_iff.2 ⟨rfl, hne⟩

theorem bodyParameter?_eq_some_iff {p : Parameter} :
    d.bodyParameter? = some p ↔ d.Carries p := by
  have isBody (p : Parameter) : p.isBody = true ↔ .body ∈ p.bindings := by
    rw [Parameter.isBody, List.contains_iff_mem]
  have isUnbound (p : Parameter) : p.isUnbound = true ↔ p.bindings = [] := by
    rw [Parameter.isUnbound, List.isEmpty_iff]
  rw [bodyParameter?, Option.or_eq_some_iff, find?_eq_some_iff_firstOf isBody,
    find?_eq_some_iff_firstOf isUnbound, List.find?_eq_none]
  simp only [isBody]
  constructor
  · rintro (first | ⟨none, first⟩)
    · exact .marked first
    · exact .unbound none first
  · intro h
    cases h with
    | marked first => exact .inl first
    | unbound none first => exact .inr ⟨none, first⟩

end Declaration

/-! ## Envelopes -/

/-- Of the sources that write to a part under a name, the last one writes the value. -/
def Part.LastWritten (part : Part) (d : Declaration) (args : Arguments) (name : String)
    (v : Value) : Prop :=
  ∃ s, LastOf (fun s => ∃ w, Source.Writes part args s name w) (part.sources d) s ∧
    s.Writes part args name v

theorem Part.lastWritten_iff {part : Part} {d : Declaration} {args : Arguments} {name : String}
    {v : Value} : LastOf (fun w => w.1 = name) (part.writes d args) (name, v) ↔
      part.LastWritten d args name v := by
  rw [writes_eq, lastOf_filterMap, LastWritten]
  simp only [Source.write?_eq_some_iff, Prod.exists]
  have writes (s : Source) : (∃ key v, s.Writes part args key v ∧ key = name) ↔
      ∃ v, s.Writes part args name v :=
    ⟨fun ⟨_, v, hs, hk⟩ => ⟨v, hk ▸ hs⟩, fun ⟨v, hs⟩ => ⟨name, v, hs, rfl⟩⟩
  simp only [writes]

theorem Part.get?_ofList_writes {part : Part} {d : Declaration} {args : Arguments} {name : String}
    {v : Value} : (Table.ofList (part.writes d args)).get? name = some v ↔
      part.LastWritten d args name v := by
  rw [Table.get?_ofList_eq_some_iff, lastWritten_iff]

/-- A name that some source writes has a last value, and a name that none writes has none. -/
theorem Part.exists_lastWritten_iff {part : Part} {d : Declaration} {args : Arguments}
    {name : String} : (∃ v, part.LastWritten d args name v) ↔
      ∃ s ∈ part.sources d, ∃ v, Source.Writes part args s name v := by
  rw [← exists_lastOf_iff]
  constructor
  · rintro ⟨v, s, last, -⟩
    exact ⟨s, last⟩
  · rintro ⟨s, last⟩
    obtain ⟨v, hv⟩ := last.holds
    exact ⟨v, s, last, hv⟩

namespace Declaration

variable {d : Declaration} {args : Arguments} {e : Envelope}

theorem isUnknown_iff {w : String × Value} : isUnknown w = true ↔ w.1 ∉ propertyNames := by
  rw [isUnknown, Option.isNone_iff_eq_none, Option.eq_none_iff_forall_ne_some, mem_propertyNames,
    not_exists]
  exact forall_congr' fun n => not_congr PropertyName.ofSpelling?_eq_some_iff

theorem envelope_eq_ok_iff : d.envelope args = .ok e ↔
    ∃ key p, d.Routed args key ∧ d.Carries p ∧
      (∀ w ∈ d.propertyWrites args, w.1 ∈ propertyNames) ∧
      e = {
        exchange := d.exchange.getD ""
        routingKey := key
        properties := Table.ofList (d.propertyWrites args)
        headers := Table.ofList (d.headerWrites args)
        bodyArgument := p.name } := by
  have known : (d.propertyWrites args).find? isUnknown = none ↔
      ∀ w ∈ d.propertyWrites args, w.1 ∈ propertyNames := by
    simp only [List.find?_eq_none, isUnknown_iff, not_not]
  simp only [← routingKey?_eq_some_iff, ← bodyParameter?_eq_some_iff, ← known]
  constructor
  · intro h
    unfold envelope at h
    split at h
    next => cases h
    next => cases h
    next => cases h
    next key p hkey hp hno =>
      exact ⟨key, p, hkey, hp, hno, (Except.ok.inj h).symm⟩
  · rintro ⟨key, p, hkey, hp, hno, rfl⟩
    simp only [envelope, hkey, hp, hno]

theorem table_eq_of_envelope (h : d.envelope args = .ok e) (part : Part) :
    part.table e = Table.ofList (part.writes d args) := by
  obtain ⟨key, p, -, -, -, rfl⟩ := envelope_eq_ok_iff.1 h
  cases part <;> rfl

/-- An envelope holds under each name, in its headers and in its properties, the value of the last
source that writes one there, and nothing under other names. Its properties are all known, and its
body is the argument of the parameter that carries it. -/
theorem envelope_holds_last_writes (h : d.envelope args = .ok e) :
    (∀ (part : Part) (name : String),
      (∀ v, (part.table e).get? name = some v ↔ part.LastWritten d args name v) ∧
      ((part.table e).get? name = none ↔
        ∀ s ∈ part.sources d, ∀ v, ¬ Source.Writes part args s name v)) ∧
    (∀ name v, e.properties.get? name = some v → name ∈ propertyNames) ∧
    (∀ exchange, d.exchange = some exchange → e.exchange = exchange) ∧
    (d.exchange = none → e.exchange = "") ∧
    d.Routed args e.routingKey ∧
    ∃ p, d.Carries p ∧ e.bodyArgument = p.name := by
  have holds (part : Part) {name : String} {v : Value} :
      (part.table e).get? name = some v ↔ part.LastWritten d args name v := by
    rw [table_eq_of_envelope h, Part.get?_ofList_writes]
  refine ⟨fun part name => ⟨fun v => holds part, ?_⟩, ?_⟩
  -- a name that is written at all has a last write, so a name without a value is not written
  · rw [Option.eq_none_iff_forall_ne_some]
    constructor
    · intro none s hs v hv
      obtain ⟨last, hlast⟩ := Part.exists_lastWritten_iff.2 ⟨s, hs, v, hv⟩
      exact none last ((holds part).2 hlast)
    · intro none v hv
      obtain ⟨s, hs, w, hw⟩ := Part.exists_lastWritten_iff.1 ⟨v, (holds part).1 hv⟩
      exact none s hs w hw
  · obtain ⟨key, p, routed, carries, known, rfl⟩ := envelope_eq_ok_iff.1 h
    refine ⟨fun name v hv => ?_, fun exchange hx => ?_, fun hx => ?_, routed, p, carries, rfl⟩
    · exact known _ (Table.get?_ofList_eq_some_iff.1 hv).mem
    · exact congrArg (Option.getD · "") hx
    · exact congrArg (Option.getD · "") hx

/-- A method whose second parameter overwrites a declared header; the third would, were its
argument not null, and the empty header is dropped. -/
def greeting : Declaration :=
  { ofMethod "greet" with
    routingKey := some "greetings"
    headers := [⟨some "lang", some "en"⟩, ⟨some "x-empty", some ""⟩]
    parameters := [⟨"text", []⟩, ⟨"language", [.header (some "lang"), .header none]⟩,
      ⟨"lang", [.header none]⟩] }

/-- The arguments of a call of `greeting`. -/
def greetingArguments : Arguments :=
  Table.ofList [("language", .string "de"), ("lang", .null)]

theorem envelope_holds_last_writes_overwritten :
    ∃ e, greeting.envelope greetingArguments = .ok e ∧
      e.headers.get? "lang" = some (.string "de") ∧ e.headers.get? "x-empty" = none ∧
      e.bodyArgument = "text" := by
  obtain ⟨e, he⟩ : ∃ e, greeting.envelope greetingArguments = .ok e := ⟨_, rfl⟩
  obtain ⟨contents, -, -, -, -, p, carries, body⟩ := envelope_holds_last_writes he
  refine ⟨e, he, ((contents .header "lang").1 _).2 ?_, (contents .header "x-empty").2.2 ?_,
    body.trans ?_⟩
  · have language : Source.Writes .header greetingArguments
        (.parameter ⟨"language", [.header (some "lang"), .header none]⟩) "lang" (.string "de") :=
      .bound (.own (by decide) (firstOf_cons.2 (.inl ⟨⟨_, rfl⟩, rfl⟩))) rfl nofun (by simp)
    refine ⟨_, ⟨(Part.header.sources greeting).take 3, [.parameter ⟨"lang", [.header none]⟩], rfl,
      ⟨_, language⟩, ?_⟩, language⟩
    rintro s hs ⟨v, hv⟩
    obtain rfl := List.mem_singleton.1 hs
    cases hv with
    | bound _ hv not_null _ => exact not_null (Option.some.inj hv).symm
  · have unwritten : ∀ s ∈ Part.header.sources greeting,
        (s.write? .header greetingArguments).map (·.1) ≠ some "x-empty" := by
      decide
    intro s hs v hv
    refine unwritten s hs ?_
    rw [Source.write?_eq_some_iff.2 hv]
    rfl
  · have found : greeting.bodyParameter? = some ⟨"text", []⟩ := rfl
    rw [bodyParameter?_eq_some_iff.2 carries] at found
    rw [Option.some.inj found]

end Declaration

end Courier
