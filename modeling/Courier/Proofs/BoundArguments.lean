import Courier.Proofs.EnvelopeFailures
import Courier.Proofs.ReferenceMessages
import Courier.Traffic

/-!
# Which arguments reach a message

An argument takes part in the routing key, the headers and the properties of a message only as the
argument of a parameter that is bound to one of them. Two calls whose arguments agree there have the
same envelope and the same properties, or fail alike (`Declaration.envelope_of_sameBound`), and if
they agree on the body too, nobody can tell them apart (`Call.start_of_sameBound`). Arguments are
found by name, so what is given as the body takes part in the rest of the message if a bound
parameter shares its name.
-/

namespace Courier

variable {α : Type}

open Json (Value)

namespace Declaration

variable {d : Declaration} {args args' : Arguments}

/-- Arguments that are the same at each parameter that is bound to a routing key, a header or a
property. -/
def SameBound (d : Declaration) (args args' : Arguments) : Prop :=
  ∀ p ∈ d.parameters, p.IsBound → args.get? p.name = args'.get? p.name

/-- Arguments that are the same at the parameter that carries the body. -/
def SameBody (d : Declaration) (args args' : Arguments) : Prop :=
  ∀ p, d.Carries p → args.get? p.name = args'.get? p.name

theorem SameBound.agree (h : d.SameBound args args') : d.Agree args args' := by
  intro p hp bound v _ _
  rw [h p hp bound]

theorem envelope_of_sameBound (h : d.SameBound args args') : d.envelope args = d.envelope args' :=
  envelope_of_agree h.agree

theorem resolves_of_envelope (h : d.envelope args = d.envelope args') {e : Envelope}
    {properties : Properties} : d.Resolves args e properties ↔ d.Resolves args' e properties := by
  constructor
  · rintro ⟨he, hp⟩
    exact ⟨h ▸ he, hp⟩
  · rintro ⟨he, hp⟩
    exact ⟨h ▸ he, hp⟩

theorem fails_of_envelope (h : d.envelope args = d.envelope args') {failure : Failure}
    (hf : d.Fails args failure) : d.Fails args' failure := by
  cases hf with
  | envelope he => exact .envelope (h ▸ he)
  | properties he hp => exact .properties (h ▸ he) hp

/-- Of the arguments, a job has the body beside what its envelope was made of. -/
theorem job_of_sameBody (h : d.envelope args = d.envelope args') (body : d.SameBody args args')
    (converter : Converter) : d.job args converter = d.job args' converter := by
  have content {e : Envelope} (he : d.envelope args = .ok e) :
      e.content args = e.content args' := by
    obtain ⟨key, p, -, carries, -, rfl⟩ := envelope_eq_ok_iff.1 he
    exact congrArg (Option.getD · .null) (body p carries)
  unfold job
  rw [← h]
  cases he : d.envelope args with
  | error failure => rfl
  | ok e =>
    have same (properties : Properties) : e.job properties args d.returns converter =
        e.job properties args' d.returns converter := by
      rw [Envelope.job, content he, Envelope.job]
    simp only [Bind.bind, Except.bind, same]

/-- What is given under a name that no bound parameter has is given to none. -/
theorem sameBound_of_unbound {name : String}
    (h : ∀ p ∈ d.parameters, p.name = name → ¬ p.IsBound)
    (same : ∀ other, other ≠ name → args.get? other = args'.get? other) :
    d.SameBound args args' := by
  intro p hp bound
  apply same
  intro hname
  exact h p hp hname bound

theorem Sends.congr_envelope {converter : Converter} {m m' : Message}
    (h : d.envelope args = d.envelope args') (hm : d.Sends args converter m)
    (hm' : d.Sends args' converter m') : m.exchange = m'.exchange ∧
      m.routingKey = m'.routingKey ∧ m.properties = m'.properties := by
  obtain ⟨e, properties, body, ⟨he, hp⟩, -, rfl⟩ := hm
  obtain ⟨e', properties', body', ⟨he', hp'⟩, -, rfl⟩ := hm'
  obtain rfl := Except.ok.inj (he.symm.trans (h.trans he'))
  exact ⟨rfl, rfl, Except.ok.inj (hp.symm.trans hp')⟩

end Declaration

/-- Calls of a declared method that agree on what is bound and on the body start alike. -/
theorem Call.start_of_sameBound {declarations : Declarations} {d : Declaration} {i i' : Invocation}
    (hd : declarations.get? i.method = some d) (method : i.method = i'.method)
    (bound : d.SameBound i.arguments i'.arguments) (body : d.SameBody i.arguments i'.arguments)
    (converter : Converter) :
    Call.start (α := α) declarations converter i = Call.start declarations converter i' := by
  have hd' : declarations.get? i'.method = some d := method ▸ hd
  have job := Declaration.job_of_sameBody (Declaration.envelope_of_sameBound bound) body converter
  unfold Call.start
  simp only [hd, hd', job]

namespace Declaration

/-- Arguments that agree at each bound parameter give the same envelope and the same properties, or
the same failure, whatever else they hold. If they agree on the body as well, nobody can tell the
two calls apart: whatever the pool and others do before and after them, everything that happens is
the same. What is given under a name that no bound parameter has, be it the name of the body, has no
part in the exchange, the routing key, the headers and the properties. -/
theorem only_bindings_reach_metadata (d : Declaration) :
    (∀ args args', d.SameBound args args' → d.envelope args = d.envelope args' ∧
      (∀ e properties, d.Resolves args e properties ↔ d.Resolves args' e properties) ∧
      ∀ failure, d.Fails args failure ↔ d.Fails args' failure) ∧
    (∀ i i' : Invocation, i.method = i'.method → d.SameBound i.arguments i'.arguments →
      d.SameBody i.arguments i'.arguments →
      (∀ (s : Session α) converter after, s.declarations.get? i.method = some d →
        s.actAll (.call converter i :: after) = s.actAll (.call converter i' :: after)) ∧
      ∀ (t : Traffic α) after, t.declarations.get? i.method = some d →
        t.actAll (.call i :: after) = t.actAll (.call i' :: after)) ∧
    ∀ name, (∀ p ∈ d.parameters, p.name = name → ¬ p.IsBound) →
      ∀ args args' : Arguments, (∀ other, other ≠ name → args.get? other = args'.get? other) →
        d.envelope args = d.envelope args' ∧
        ∀ converter m m', d.Sends args converter m → d.Sends args' converter m' →
          m.exchange = m'.exchange ∧ m.routingKey = m'.routingKey ∧
            m.properties = m'.properties := by
  refine ⟨fun args args' bound => ?_, fun i i' method bound body => ⟨?_, ?_⟩,
    fun name unbound args args' same => ?_⟩
  · have envelope := envelope_of_sameBound bound
    exact ⟨envelope, fun e properties => resolves_of_envelope envelope, fun failure =>
      ⟨fails_of_envelope envelope, fails_of_envelope envelope.symm⟩⟩
  · intro s converter after hd
    have start := Call.start_of_sameBound (α := α) hd method bound body converter
    simp only [Session.actAll, List.foldl_cons, Session.act, start]
  · intro t after hd
    have start := Call.start_of_sameBound (α := α) hd method bound body t.converter
    simp only [Traffic.actAll, List.foldl_cons, Traffic.act, start]
  · have envelope := envelope_of_sameBound (sameBound_of_unbound unbound same)
    exact ⟨envelope, fun converter m m' hm hm' => hm.congr_envelope envelope hm'⟩

/-- A call of `greeting` with an argument that no parameter takes. -/
def strayGreeting (stray : String) : Invocation :=
  ⟨"greet", [("stray", .string stray), ("text", .string "hello"), ("language", .string "de")]⟩

theorem only_bindings_reach_metadata_strayGreeting :
    let s : Session Unit := Session.actAll {} [.declare greeting]
    let after : List (Session.Action Unit) := [.acquire 0 (.ok ()), .publish 0 .done]
    s.actAll (.call ⟨Body.encode, true⟩ (strayGreeting "a") :: after) =
      s.actAll (.call ⟨Body.encode, true⟩ (strayGreeting "b") :: after) ∧
    ∀ text text', greeting.envelope (Table.ofList [("text", text)]) =
      greeting.envelope (Table.ofList [("text", text')]) := by
  intro s after
  have absent : ∀ p ∈ greeting.parameters, p.name ≠ "stray" := by decide
  have same {p : Parameter} (hp : p ∈ greeting.parameters) :
      (strayGreeting "a").arguments.get? p.name = (strayGreeting "b").arguments.get? p.name := by
    simp [strayGreeting, Invocation.arguments, Table.get?_ofList, Table.lastWrite,
      List.find?_cons, (absent p hp).symm]
  have body : greeting.SameBody (strayGreeting "a").arguments (strayGreeting "b").arguments :=
    fun p carries => same carries.mem
  obtain ⟨-, calls, content⟩ := only_bindings_reach_metadata (α := Unit) greeting
  have bound : greeting.SameBound (strayGreeting "a").arguments (strayGreeting "b").arguments :=
    fun p hp _ => same hp
  refine ⟨(calls (strayGreeting "a") (strayGreeting "b") rfl bound body).1 s _ after rfl,
    fun text text' => ?_⟩
  have unbound : ∀ p ∈ greeting.parameters, p.name = "text" → ¬ p.IsBound := by decide
  refine (content "text" unbound _ _ fun other hne => ?_).1
  simp [Table.get?_ofList, Table.lastWrite, hne.symm]

/-- Two parameters of one name, of which the first is the body and the second is bound to a
header. -/
def namesakes : Declaration :=
  { ofMethod "send" with
    routingKey := some "rk"
    parameters := [⟨"x", []⟩, ⟨"x", [.header none]⟩] }

/-- What is given as the body can reach the headers though the parameter that carries it is bound to
none of them. -/
theorem body_reaches_headers_by_name : ¬ ∀ (d : Declaration) p, d.Carries p → ¬ p.IsBound →
    ∀ args args' : Arguments, (∀ name, name ≠ p.name → args.get? name = args'.get? name) →
      ∀ e e', d.envelope args = .ok e → d.envelope args' = .ok e' → e.headers = e'.headers := by
  intro h
  have carries : namesakes.Carries ⟨"x", []⟩ := bodyParameter?_eq_some_iff.1 rfl
  have given : ∃ e, namesakes.envelope (Table.ofList [("x", .string "a")]) = .ok e ∧
      e.headers.get? "x" = some (.string "a") := ⟨_, rfl, rfl⟩
  have missing : ∃ e, namesakes.envelope ∅ = .ok e ∧ e.headers.get? "x" = none := ⟨_, rfl, rfl⟩
  obtain ⟨e, he, header⟩ := given
  obtain ⟨e', he', no_header⟩ := missing
  have same := h namesakes _ carries (by decide) _ _ (fun name hne => ?_) e e' he he'
  · rw [same, no_header] at header
    cases header
  · simp [Table.get?_ofList, Table.lastWrite, hne.symm]

end Declaration

end Courier
