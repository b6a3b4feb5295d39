import Courier.Proofs.AssemblyOrder
import Courier.Proofs.EnvelopeFailures
import Courier.Proofs.ReferenceMessages

/-!
# Two passes over the properties

The properties of a call are looked at twice: their names when its envelope is resolved, in the
order of the declaration, and their values when its message is assembled, in the order of the names.
The passes agree on what a property is, so a failure of the second is always about a value
(`Declaration.Misfit`), and about one that no later source overwrites. An unknown property is always
reported by the first pass, which names the first one that is declared
(`Session.names_settle_before_values`).
-/

namespace Courier

variable {α : Type}

open Json (Value)

/-! ## Values that do not fit -/

/-- The property at which the assembly of a call's message fails, and its value: of the properties
that do not accept the last value written to them, the one with the least name. -/
structure Declaration.Misfit (d : Declaration) (args : Arguments) (n : PropertyName) (v : Value) :
    Prop where
  written : Part.property.LastWritten d args n.spelling v
  refused : ¬ n.kind.Accepts v
  least : ∀ (m : PropertyName) (w : Value), Part.property.LastWritten d args m.spelling w →
    ¬ m.kind.Accepts w → utf8 n.spelling ≤ utf8 m.spelling

namespace Declaration

variable {d d' : Declaration} {args args' : Arguments} {e e' : Envelope}

/-- Calls that leave the same values in their properties fail at the same property. -/
theorem Misfit.congr {n : PropertyName} {v : Value} (h : d.Misfit args n v)
    (same : ∀ name w, Part.property.LastWritten d args name w ↔
      Part.property.LastWritten d' args' name w) : d'.Misfit args' n v where
  written := (same _ v).1 h.written
  refused := h.refused
  least m w hw := h.least m w ((same _ w).2 hw)

theorem property_iff (h : d.envelope args = .ok e) {name : String} {v : Value} :
    e.Property name v ↔ Part.property.LastWritten d args name v := by
  have table : e.properties = Table.ofList (Part.property.writes d args) :=
    table_eq_of_envelope h .property
  rw [Envelope.Property, table, Part.get?_ofList_writes]

/-- What an envelope says of properties it says of known ones. -/
theorem exists_spelling_of_property (h : d.envelope args = .ok e) {name : String} {v : Value}
    (hv : Part.property.LastWritten d args name v) : ∃ n : PropertyName, n.spelling = name := by
  obtain ⟨-, -, -, -, known, -⟩ := envelope_eq_ok_iff.1 h
  exact mem_propertyNames.1 (known _ (Part.lastWritten_iff.2 hv).mem)

/-- The values that are coerced are the last ones that are written. -/
theorem mem_assignments_iff (h : d.envelope args = .ok e) {name : String} {v : Value} :
    .property name v ∈ e.assignments ↔ Part.property.LastWritten d args name v := by
  rw [← property_iff h, Envelope.Property, ← Table.mem_entries_iff]
  simp [Envelope.assignments]

/-- A message that cannot be assembled fails at the least property that does not accept its
value. -/
theorem assemble_eq_error_iff_misfit (h : d.envelope args = .ok e) {failure : Failure} :
    e.assemble = .error failure ↔ ∃ (n : PropertyName) (v : Value) (fault : ValueFault),
      d.Misfit args n v ∧ n.kind.Faults v fault ∧
        failure = .invalidPropertyValue n.spelling fault := by
  rw [Envelope.assemble_eq_error_iff]
  simp only [property_iff h]
  constructor
  · rintro ⟨name, v, hv, hf, least⟩
    obtain ⟨n, rfl⟩ := exists_spelling_of_property h hv
    obtain ⟨fault, hfault, rfl⟩ := refuses_spelling_iff.1 hf
    have refused : ¬ n.kind.Accepts v :=
      assignable_spelling_iff.not.1 (not_assignable_iff.2 ⟨_, hf⟩)
    refine ⟨n, v, fault, ⟨hv, refused, fun m w hw hno => ?_⟩, hfault, rfl⟩
    exact least m.spelling w hw (assignable_spelling_iff.not.2 hno)
  · rintro ⟨n, v, fault, misfit, hf, rfl⟩
    refine ⟨n.spelling, v, misfit.written, .invalid rfl hf, fun name w hw hno => ?_⟩
    obtain ⟨m, rfl⟩ := exists_spelling_of_property h hw
    exact misfit.least m w hw (assignable_spelling_iff.not.1 hno)

theorem exists_assemble_iff (h : d.envelope args = .ok e) : (∃ q, e.assemble = .ok q) ↔
    ∀ (n : PropertyName) (v : Value), Part.property.LastWritten d args n.spelling v →
      n.kind.Accepts v := by
  constructor
  · rintro ⟨q, hq⟩ n v hv
    have assignable := (Envelope.assemble_eq_ok_iff.1 hq).1 n.spelling v ((property_iff h).2 hv)
    exact assignable_spelling_iff.1 assignable
  · intro fits
    cases hq : e.assemble with
    | ok q => exact ⟨q, rfl⟩
    | error failure =>
      obtain ⟨n, v, -, misfit, -⟩ := (assemble_eq_error_iff_misfit h).1 hq
      exact absurd (fits n v misfit.written) misfit.refused

theorem assemble_ne_unknownProperty (h : d.envelope args = .ok e) (name : String) :
    e.assemble ≠ .error (.unknownProperty name) := by
  intro hq
  obtain ⟨n, v, fault, -, -, hf⟩ := (assemble_eq_error_iff_misfit h).1 hq
  cases hf

/-- An unknown property is a failure of the envelope. -/
theorem fails_unknown_iff {name : String} : d.Fails args (.unknownProperty name) ↔
    d.envelope args = .error (.unknownProperty name) := by
  refine ⟨fun h => ?_, .envelope⟩
  cases h with
  | envelope he => exact he
  | properties he hp => exact absurd hp (assemble_ne_unknownProperty he name)

/-- Neither headers nor values that are overwritten have a part in a failure. -/
theorem assemble_error_congr (h : d.envelope args = .ok e) (h' : d'.envelope args' = .ok e')
    (same : ∀ name v, Part.property.LastWritten d args name v ↔
      Part.property.LastWritten d' args' name v) (failure : Failure) :
    e.assemble = .error failure ↔ e'.assemble = .error failure := by
  rw [assemble_eq_error_iff_misfit h, assemble_eq_error_iff_misfit h']
  constructor
  · rintro ⟨n, v, fault, misfit, hf⟩
    exact ⟨n, v, fault, misfit.congr same, hf⟩
  · rintro ⟨n, v, fault, misfit, hf⟩
    exact ⟨n, v, fault, misfit.congr fun name w => (same name w).symm, hf⟩

end Declaration

/-! ## The failures that calls return -/

/-- The failures of a job are not about its properties. -/
theorem Job.Course.not_unknown {j : Job} {c : Call α} {events : List (Event α)}
    (h : j.Course c events) (name : String) :
    .returned (.failed (.unknownProperty name)) ∉ events := by
  cases h with
  | confirming hm hr k shows => simp [Job.opening, shows.returned_mem_iff]
  | returned ht =>
    cases ht with
    | confirmed hm hr k attempt task =>
      have shows : Confirmation.Shows ⟨_, k, .ended attempt⟩ (.returned true) _ :=
        .returned task true
      simp [Job.opening, shows.returned_mem_iff]
    | _ => simp [Job.opening, Job.unavailable, Job.refused, Message.unpublished]
  | _ => simp [Job.opening]

/-- A call fails for an unknown property if its envelope does, and only then. -/
theorem Invocation.Course.unknown_iff {i : Invocation} {declarations : Declarations}
    {converter : Converter} {c : Call α} {events : List (Event α)}
    (h : i.Course declarations converter c events) {name : String} :
    .returned (.failed (.unknownProperty name)) ∈ events ↔
      ∃ d, declarations.get? i.method = some d ∧
        d.envelope i.arguments = .error (.unknownProperty name) := by
  have undeclared (none : declarations.get? i.method = none) :
      ¬ ∃ d, declarations.get? i.method = some d ∧
        d.envelope i.arguments = .error (.unknownProperty name) := by
    rintro ⟨d, hd, -⟩
    cases none.symm.trans hd
  have resolved {d : Declaration} {e : Envelope} {properties : Properties}
      (h : declarations.get? i.method = some d) (hd : d.Resolves i.arguments e properties) :
      ¬ ∃ d, declarations.get? i.method = some d ∧
        d.envelope i.arguments = .error (.unknownProperty name) := by
    rintro ⟨d', h', he⟩
    obtain rfl := Option.some.inj (h.symm.trans h')
    cases hd.envelope.symm.trans he
  cases h with
  | forwarding h | forgotten h => exact iff_of_false (by simp) (undeclared h)
  | job h hd hc => exact iff_of_false (hc.not_unknown name) (resolved h hd)
  | returned ht =>
    cases ht with
    | forwarded h answer => exact iff_of_false (by simp) (undeclared h)
    | job h hd ht =>
      have course := Job.Course.returned ht
      exact iff_of_false (course.not_unknown name) (resolved h hd)
    | @unresolved d failure h hf =>
      simp only [List.mem_singleton, Event.returned.injEq, Reply.failed.injEq, h,
        Option.some.injEq, exists_eq_left']
      constructor
      · rintro rfl
        exact Declaration.fails_unknown_iff.1 hf
      · intro he
        cases hf with
        | envelope he' => exact Except.error.inj (he.symm.trans he')
        | properties he' => cases he'.symm.trans he

namespace Session

/-- An event of a call is in what the call shows, unless it is a wait. -/
theorem mem_traceOf_iff {s : Session α} {n : Nat} {e : Event α} (he : e.isShown = true) :
    e ∈ s.traceOf n ↔ (.call n, e) ∈ s.log := by
  refine ⟨mem_log_of_traceOf, fun h => List.mem_filter.2 ⟨?_, he⟩⟩
  exact List.mem_filterMap.2 ⟨_, h, if_pos rfl⟩

/-- Every event of a call is an event of one that arrived. -/
theorem exists_origin_of_log {actions : List (Action α)} {n : Nat} {e : Event α}
    (h : (.call n, e) ∈ (actAll {} actions).log) : ∃ before a, Origin actions n before a := by
  refine exists_origin (Nat.not_le.1 fun hn => ?_)
  have none := eventsOf_absent (reachable_actAll .start actions) (List.getElem?_eq_none hn)
  have mem : e ∈ (actAll {} actions).eventsOf (.call n) := List.mem_filterMap.2 ⟨_, h, if_pos rfl⟩
  rw [none] at mem
  cases mem

/-- What a call reports as an unknown property is what the envelope of a declared call does. -/
theorem unknown_mem_log_iff {actions : List (Action α)} {n : Nat} {name : String} :
    (.call n, .returned (.failed (.unknownProperty name))) ∈ (actAll {} actions).log ↔
      ∃ before converter i d, Origin actions n before (.call converter i) ∧
        lastDeclared before i.method = some d ∧
          d.envelope i.arguments = .error (.unknownProperty name) := by
  rw [← mem_traceOf_iff rfl]
  constructor
  · intro h
    obtain ⟨before, a, origin⟩ := exists_origin_of_log (mem_log_of_traceOf h)
    obtain ⟨c, -, course⟩ := origin.course
    generalize (actAll {} actions).traceOf n = events at h course
    cases course with
    | refused failure => cases h
    | dispatch course => exact absurd h (course.not_unknown name)
    | call course =>
      obtain ⟨d, hd, he⟩ := course.unknown_iff.1 h
      rw [get?_declarations] at hd
      exact ⟨before, _, _, d, origin, hd, he⟩
  · rintro ⟨before, converter, i, d, origin, hd, he⟩
    obtain ⟨c, -, course⟩ := origin.course
    rw [← get?_declarations] at hd
    cases course with
    | call course => exact course.unknown_iff.2 ⟨d, hd, he⟩

/-- Resolving and assembling agree on the properties of a call. Once there is an envelope, only the
last value written to each property is coerced, and none of them belongs to an unknown property. The
message is assembled if every property accepts its value; otherwise the failure is about the one
with the least name among those that do not. Overwritten values and headers make no difference to
it. So a call that fails for an unknown property is one of a declared method, it has a routing key
and a body, and the property is the first unknown one that is declared. -/
theorem names_settle_before_values :
    (∀ (d : Declaration) (args : Arguments) (e : Envelope), d.envelope args = .ok e →
      (∀ name, e.assemble ≠ .error (.unknownProperty name)) ∧
      (∀ name v, .property name v ∈ e.assignments ↔ Part.property.LastWritten d args name v) ∧
      ((∃ q, e.assemble = .ok q) ↔ ∀ (n : PropertyName) (v : Value),
        Part.property.LastWritten d args n.spelling v → n.kind.Accepts v) ∧
      (∀ failure, e.assemble = .error failure ↔
        ∃ (n : PropertyName) (v : Value) (fault : ValueFault), d.Misfit args n v ∧
          n.kind.Faults v fault ∧ failure = .invalidPropertyValue n.spelling fault) ∧
      ∀ (d' : Declaration) (args' : Arguments) (e' : Envelope), d'.envelope args' = .ok e' →
        (∀ name v, Part.property.LastWritten d args name v ↔
          Part.property.LastWritten d' args' name v) →
        ∀ failure, e.assemble = .error failure ↔ e'.assemble = .error failure) ∧
    ∀ (actions : List (Action α)) (n : Nat) (name : String),
      (.call n, .returned (.failed (.unknownProperty name))) ∈ (actAll {} actions).log ↔
        ∃ before converter i d, Origin actions n before (.call converter i) ∧
          lastDeclared before i.method = some d ∧ ¬ d.Unrouted i.arguments ∧ ¬ d.Bodiless ∧
            d.FirstUnknown i.arguments name := by
  refine ⟨fun d args e h => ⟨Declaration.assemble_ne_unknownProperty h,
    fun name v => Declaration.mem_assignments_iff h, Declaration.exists_assemble_iff h,
    fun failure => Declaration.assemble_eq_error_iff_misfit h,
    fun d' args' e' h' same => Declaration.assemble_error_congr h h' same⟩, ?_⟩
  intro actions n name
  simp only [unknown_mem_log_iff, Declaration.envelope_eq_unknownProperty_iff]

/-- A method that declares a priority which a parameter overwrites, and a delivery mode that another
parameter gives. -/
def escalation : Declaration :=
  { Declaration.ofMethod "escalate" with
    routingKey := some "alerts"
    properties := [⟨some "priority", some "high"⟩]
    parameters := [⟨"text", []⟩, ⟨"level", [.property (some "priority")]⟩,
      ⟨"mode", [.property (some "deliveryMode")]⟩] }

/-- The arguments of a call of `escalation`. -/
def escalationArguments (level mode : String) : Arguments :=
  Table.ofList [("level", .string level), ("mode", .string mode)]

/-- The declared priority is no number, but it is overwritten: a call with two numbers is assembled.
Of two values that do not fit, the delivery mode fails, though it is declared last. -/
theorem names_settle_before_values_escalation :
    (∃ e, escalation.envelope (escalationArguments "7" "2") = .ok e ∧
      ∃ q, e.assemble = .ok q ∧ q.priority = some 7) ∧
    escalation.Misfit (escalationArguments "300" "twice") .deliveryMode (.string "twice") := by
  refine ⟨⟨_, rfl, _, rfl, rfl⟩, ?_⟩
  obtain ⟨e, he⟩ : ∃ e, escalation.envelope (escalationArguments "300" "twice") = .ok e := ⟨_, rfl⟩
  obtain ⟨-, -, -, failures, -⟩ := (names_settle_before_values (α := Unit)).1 _ _ e he
  have failed : e.assemble =
      .error (.invalidPropertyValue "deliveryMode" (.notInteger (.string "twice"))) := by
    obtain rfl := Except.ok.inj he
    rfl
  obtain ⟨n, v, fault, misfit, hf, same⟩ := (failures _).1 failed
  obtain ⟨spelt, rfl⟩ := Failure.invalidPropertyValue.inj same
  obtain rfl : PropertyName.deliveryMode = n := PropertyName.spelling_injective spelt
  cases hf with
  | notInteger => exact misfit

end Session

end Courier
