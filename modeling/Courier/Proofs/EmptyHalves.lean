import Courier.Proofs.EnvelopeContents

/-!
# Empty halves of headers and properties

A header or a property with an empty half counts for nothing: neither its value nor its name is
empty. That holds of every value, and of every name but one. Where a binding has no name of its own,
the parameter's is taken as it is, so a parameter whose name is empty sets a header whose name is
empty (`Part.lastWritten_empty_iff`). Among the properties such a name is unknown and the call
fails.
-/

namespace Courier

open Json (Value)

/-- A parameter that is bound to a part under an empty name: its own name is empty, and so is that
of its first binding to the part, or there is none. -/
def Parameter.Nameless (p : Parameter) (part : Part) : Prop :=
  p.name = "" ∧ ∃ own, (own = none ∨ own = some "") ∧ p.FirstBound part own

theorem Parameter.named_empty_iff {p : Parameter} {part : Part} :
    p.Named part "" ↔ p.Nameless part := by
  constructor
  · intro h
    generalize hname : "" = name at h
    cases h with
    | own name_ne => exact absurd hname.symm name_ne
    | fallback own first => exact ⟨hname.symm, _, own, first⟩
  · rintro ⟨name, own, fallback, first⟩
    rw [← name]
    exact .fallback fallback first

variable {part : Part} {args : Arguments} {s : Source} {name : String} {v : Value}

theorem Source.Writes.present (h : s.Writes part args name v) : v ≠ .null ∧ v ≠ .string "" := by
  cases h with
  | named _ _ _ text_ne => exact ⟨nofun, fun h => text_ne (Value.string.inj h)⟩
  | unnamed _ _ text_ne => exact ⟨nofun, fun h => text_ne (Value.string.inj h)⟩
  | bound _ _ not_null not_empty => exact ⟨not_null, not_empty⟩

/-- Only a nameless parameter writes under the empty name, and it writes the argument that has no
name either. -/
theorem Source.writes_empty_iff : s.Writes part args "" v ↔
    (∃ p, s = .parameter p ∧ p.Nameless part) ∧ args.get? "" = some v ∧ v ≠ .null ∧
      v ≠ .string "" := by
  constructor
  · intro h
    have present := h.present
    generalize hname : "" = name at h
    cases h with
    | named _ _ name_ne => exact absurd hname.symm name_ne
    | unnamed _ _ text_ne => exact absurd hname.symm text_ne
    | bound hp hv =>
      subst hname
      have nameless := Parameter.named_empty_iff.1 hp
      rw [nameless.1] at hv
      exact ⟨⟨_, rfl, nameless⟩, hv, present⟩
  · rintro ⟨⟨p, rfl, nameless⟩, hv, not_null, not_empty⟩
    rw [← nameless.1] at hv
    exact .bound (Parameter.named_empty_iff.2 nameless) hv not_null not_empty

namespace Part

variable {d : Declaration}

theorem LastWritten.present (h : part.LastWritten d args name v) : v ≠ .null ∧ v ≠ .string "" := by
  obtain ⟨s, -, hs⟩ := h
  exact hs.present

theorem lastWritten_empty_iff : part.LastWritten d args "" v ↔
    (∃ p ∈ d.parameters, p.Nameless part) ∧ args.get? "" = some v ∧ v ≠ .null ∧
      v ≠ .string "" := by
  constructor
  · rintro ⟨s, last, hs⟩
    obtain ⟨⟨p, rfl, nameless⟩, written⟩ := Source.writes_empty_iff.1 hs
    exact ⟨⟨p, parameter_mem_sources.1 last.mem, nameless⟩, written⟩
  · rintro ⟨⟨p, hp, nameless⟩, written⟩
    have writes := Source.writes_empty_iff.2 ⟨⟨p, rfl, nameless⟩, written⟩
    obtain ⟨w, s, last, hs⟩ :=
      exists_lastWritten_iff.2 ⟨_, parameter_mem_sources.2 hp, v, writes⟩
    -- whichever of the nameless parameters comes last, they all write the same argument
    obtain ⟨-, found, -⟩ := Source.writes_empty_iff.1 hs
    obtain rfl := Option.some.inj (found.symm.trans written.1)
    exact ⟨s, last, hs⟩

end Part

namespace Declaration

variable {d : Declaration} {e : Envelope}

/-- No header and no property of an envelope is null or the empty text, and no property has an empty
name. A header has an empty name if and only if a parameter is called so and bound to a header under
no other name, and its argument counts. -/
theorem empty_halves_are_dropped (h : d.envelope args = .ok e) :
    (∀ (part : Part) name v, (part.table e).get? name = some v → v ≠ .null ∧ v ≠ .string "") ∧
    e.properties.get? "" = none ∧
    ∀ v, e.headers.get? "" = some v ↔
      (∃ p ∈ d.parameters, p.Nameless .header) ∧ args.get? "" = some v ∧ v ≠ .null ∧
        v ≠ .string "" := by
  have holds (part : Part) {name : String} {v : Value} :
      (part.table e).get? name = some v ↔ part.LastWritten d args name v := by
    rw [table_eq_of_envelope h, Part.get?_ofList_writes]
  refine ⟨fun part name v hv => ((holds part).1 hv).present, ?_, fun v => ?_⟩
  · rw [Option.eq_none_iff_forall_ne_some]
    intro v hv
    obtain ⟨key, p, -, -, known, rfl⟩ := envelope_eq_ok_iff.1 h
    have empty_known : "" ∈ propertyNames := known _ (Table.get?_ofList_eq_some_iff.1 hv).mem
    revert empty_known
    decide
  · exact (holds .header).trans Part.lastWritten_empty_iff

/-- A method with a parameter that has no name and is bound to a header. -/
def unlabelled : Declaration :=
  { ofMethod "send" with
    routingKey := some "rk"
    parameters := [⟨"body", []⟩, ⟨"", [.header none]⟩] }

/-- The arguments of a call of `unlabelled`. -/
def unlabelledArguments : Arguments := Table.ofList [("body", .string "x"), ("", .string "v")]

theorem empty_halves_are_dropped_unlabelled : ∃ e, unlabelled.envelope unlabelledArguments = .ok e ∧
    e.headers.get? "" = some (.string "v") ∧ e.properties.get? "" = none := by
  obtain ⟨e, he⟩ : ∃ e, unlabelled.envelope unlabelledArguments = .ok e := ⟨_, rfl⟩
  obtain ⟨-, property, header⟩ := empty_halves_are_dropped he
  refine ⟨e, he, (header _).2 ⟨⟨⟨"", [.header none]⟩, by decide, rfl, none, .inl rfl, ?_⟩, rfl, ?_⟩,
    property⟩
  · exact firstOf_cons.2 (.inl ⟨⟨none, rfl⟩, rfl⟩)
  · exact ⟨nofun, by simp⟩

/-- Not every empty half is dropped: a parameter without a name sets a header without one. -/
theorem not_every_empty_half_is_dropped : ¬ ∀ (d : Declaration) (args : Arguments) (e : Envelope),
    d.envelope args = .ok e → ∀ (part : Part) name v, (part.table e).get? name = some v →
      name ≠ "" ∧ v ≠ .null ∧ v ≠ .string "" := by
  intro h
  obtain ⟨e, he, header⟩ : ∃ e, unlabelled.envelope unlabelledArguments = .ok e ∧
      e.headers.get? "" = some (.string "v") := ⟨_, rfl, rfl⟩
  exact (h unlabelled unlabelledArguments e he .header "" _ header).1 rfl

end Declaration

end Courier
