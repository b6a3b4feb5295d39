import Courier.Proofs.FieldWrites
import Courier.Proofs.NameOrder

/-!
# The making of message properties

The steps in the making of message properties do not get in each other's way: a property step
writes one field, a header step one entry of the headers, and whether a step fails depends on
nothing but its own name and value. So the steps on different names can be taken in any order
(`Draft.assembly_ignores_order`); of the steps on one name the last one stands.
-/

namespace Courier

open Json (Value)

/-! ## The steps of each kind -/

namespace Assignment

/-- What a step assigns to a property. -/
def property? : Assignment → Option (String × Value)
  | .property name v => some (name, v)
  | .header _ _ => none

/-- What a step assigns to a header. -/
def header? : Assignment → Option (String × Value)
  | .property _ _ => none
  | .header name v => some (name, v)

theorem property?_eq_some_iff {s : Assignment} {w : String × Value} :
    s.property? = some w ↔ s = .property w.1 w.2 := by
  cases s <;> simp [property?, Prod.ext_iff]

theorem header?_eq_some_iff {s : Assignment} {w : String × Value} :
    s.header? = some w ↔ s = .header w.1 w.2 := by
  cases s <;> simp [header?, Prod.ext_iff]

/-- What steps assign to properties, in order. -/
def propertyWrites (steps : List Assignment) : List (String × Value) := steps.filterMap property?

/-- What steps assign to headers, in order. -/
def headerWrites (steps : List Assignment) : List (String × Value) := steps.filterMap header?

/-- The steps that assign all properties first and then all headers. -/
def ofWrites (properties headers : List (String × Value)) : List Assignment :=
  properties.map (fun w => .property w.1 w.2) ++ headers.map fun w => .header w.1 w.2

theorem propertyWrites_ofWrites (properties headers : List (String × Value)) :
    propertyWrites (ofWrites properties headers) = properties := by
  have own : (property? ∘ fun w : String × Value => .property w.1 w.2) = some := rfl
  have other : headers.filterMap (property? ∘ fun w => .header w.1 w.2) = [] :=
    List.filterMap_eq_nil_iff.2 fun _ _ => rfl
  rw [propertyWrites, ofWrites, List.filterMap_append, List.filterMap_map, List.filterMap_map, own,
    other, List.filterMap_some, List.append_nil]

theorem headerWrites_ofWrites (properties headers : List (String × Value)) :
    headerWrites (ofWrites properties headers) = headers := by
  have own : (header? ∘ fun w : String × Value => .header w.1 w.2) = some := rfl
  have other : properties.filterMap (header? ∘ fun w => .property w.1 w.2) = [] :=
    List.filterMap_eq_nil_iff.2 fun _ _ => rfl
  rw [headerWrites, ofWrites, List.filterMap_append, List.filterMap_map, List.filterMap_map, own,
    other, List.filterMap_some, List.nil_append]

end Assignment

open Assignment

/-- A write that no property takes. -/
def Unassignable (w : String × Value) : Prop := ¬ Assignable w.1 w.2

/-! ## Runs of steps -/

namespace Draft

/-- The headers that writes make. -/
def headerTable (writes : List (String × Value)) : Table FieldValue :=
  Table.ofList (writes.map fun w => (w.1, FieldValue.encode w.2))

/-- The properties that steps make, or the failure of the first step that fails. -/
def build (steps : List Assignment) : Except Failure Properties :=
  (applyAll {} steps).map finish

theorem apply_property_ok {d : Draft} {p : Properties} {name : String} {v : Value}
    (h : d.properties.assign name v = .ok p) :
    d.apply (.property name v) = .ok { d with properties := p } := by
  simp only [apply, h]
  rfl

theorem apply_property_error {d : Draft} {failure : Failure} {name : String} {v : Value}
    (h : d.properties.assign name v = .error failure) :
    d.apply (.property name v) = .error failure := by
  simp only [apply, h]
  rfl

theorem applyAll_cons {d e : Draft} {s : Assignment} (h : d.apply s = .ok e)
    (steps : List Assignment) : d.applyAll (s :: steps) = e.applyAll steps := by
  rw [applyAll, List.foldlM_cons, h]
  rfl

/-- Steps that can all be taken leave the properties that the property steps make and the headers
that the header steps make. -/
theorem applyAll_eq_ok {steps : List Assignment}
    (h : ∀ w ∈ propertyWrites steps, Assignable w.1 w.2) (d : Draft) :
    d.applyAll steps = .ok {
      properties := d.properties.assignAll (propertyWrites steps)
      headers := ((headerWrites steps).map fun w => (w.1, FieldValue.encode w.2)).foldl
        (fun t e => t.insert e.1 e.2) d.headers } := by
  -- whether a step fails does not depend on the draft, so `d` is any draft
  induction steps generalizing d with
  | nil => rfl
  | cons s steps ih =>
    cases s with
    | property name v =>
      obtain ⟨n, rfl, c, hc⟩ := h (name, v) List.mem_cons_self
      have assigned := Properties.assign_of_coerces d.properties hc
      have rest : ∀ w ∈ propertyWrites steps, Assignable w.1 w.2 :=
        fun w hw => h w (List.mem_cons_of_mem _ hw)
      have first : d.properties.assignAll ((n.spelling, v) :: propertyWrites steps) =
          (d.properties.set n c).assignAll (propertyWrites steps) := by
        simp only [Properties.assignAll, List.foldl_cons, assigned]
        rfl
      rw [applyAll_cons (apply_property_ok assigned), ih rest]
      exact congrArg (fun p => Except.ok (Draft.mk p _)) first.symm
    | header name v => exact ih h _

/-- A step that cannot be taken ends the run with its failure. -/
theorem applyAll_eq_error {steps : List Assignment} {w : String × Value} {failure : Failure}
    (h : FirstOf Unassignable (propertyWrites steps) w) (hf : Refuses w.1 w.2 failure) (d : Draft) :
    d.applyAll steps = .error failure := by
  induction steps generalizing d with
  | nil => exact absurd h.mem List.not_mem_nil
  | cons s steps ih =>
    cases s with
    | property name v =>
      obtain ⟨-, rfl⟩ | ⟨hv, hw⟩ := firstOf_cons.1 h
      · rw [applyAll, List.foldlM_cons,
          apply_property_error (Properties.assign_of_refuses d.properties hf)]
        rfl
      · obtain ⟨n, rfl, c, hc⟩ := Classical.not_not.1 hv
        rw [applyAll_cons (apply_property_ok (Properties.assign_of_coerces d.properties hc))]
        exact ih hw _
    | header name v => exact ih h _

variable {steps : List Assignment} {q : Properties} {failure : Failure}

theorem build_eq_ok (h : ∀ w ∈ propertyWrites steps, Assignable w.1 w.2) :
    build steps = .ok (((∅ : Properties).assignAll (propertyWrites steps)).withHeaders
      (headerTable (headerWrites steps))) := by
  rw [build, applyAll_eq_ok h]
  rfl

theorem build_eq_error {w : String × Value} (h : FirstOf Unassignable (propertyWrites steps) w)
    (hf : Refuses w.1 w.2 failure) : build steps = .error failure := by
  rw [build, applyAll_eq_error h hf]
  rfl

theorem assignable_or_first (writes : List (String × Value)) :
    (∀ w ∈ writes, Assignable w.1 w.2) ∨
      ∃ w failure, FirstOf Unassignable writes w ∧ Refuses w.1 w.2 failure := by
  by_cases h : ∃ w ∈ writes, Unassignable w
  · obtain ⟨w, hw⟩ := exists_firstOf_iff.2 h
    obtain ⟨failure, hf⟩ := not_assignable_iff.1 hw.holds
    exact .inr ⟨w, failure, hw, hf⟩
  · exact .inl fun w hw => Classical.not_not.1 fun hno => h ⟨w, hw, hno⟩

theorem build_eq_ok_iff : build steps = .ok q ↔
    (∀ w ∈ propertyWrites steps, Assignable w.1 w.2) ∧
      ((∅ : Properties).assignAll (propertyWrites steps)).withHeaders
        (headerTable (headerWrites steps)) = q := by
  constructor
  · intro h
    obtain all | ⟨w, failure, hw, hf⟩ := assignable_or_first (propertyWrites steps)
    · exact ⟨all, Except.ok.inj ((build_eq_ok all).symm.trans h)⟩
    · exact absurd (h.symm.trans (build_eq_error hw hf)) nofun
  · rintro ⟨all, rfl⟩
    exact build_eq_ok all

theorem build_eq_error_iff : build steps = .error failure ↔
    ∃ w, FirstOf Unassignable (propertyWrites steps) w ∧ Refuses w.1 w.2 failure := by
  constructor
  · intro h
    obtain all | ⟨w, failure', hw, hf⟩ := assignable_or_first (propertyWrites steps)
    · exact absurd (h.symm.trans (build_eq_ok all)) nofun
    · obtain rfl := Except.error.inj ((build_eq_error hw hf).symm.trans h)
      exact ⟨w, hw, hf⟩
  · rintro ⟨w, hw, hf⟩
    exact build_eq_error hw hf

end Draft

/-! ## What is made -/

/-- The headers of a message by what its header entries give to each name: none, or the table of
their field values. -/
inductive HeadersOf (entry : String → Value → Prop) : Option (Table FieldValue) → Prop where
  | none (h : ∀ name v, ¬ entry name v) : HeadersOf entry none
  | some {t : Table FieldValue} (h : ∃ name v, entry name v)
      (ht : ∀ name f, t.get? name = some f ↔ ∃ v, entry name v ∧ f = FieldValue.encode v) :
      HeadersOf entry (some t)

/-- The properties of a message by what its entries give to each name: a field is set if its name
has an entry, to the entry's coerced value. -/
structure Properties.MadeOf (property header : String → Value → Prop) (q : Properties) : Prop where
  fields : (∅ : Properties).FieldsAfter (fun _ => property) q
  headers : HeadersOf header q.headers

/-- Each name has one value at most. -/
def SingleValued (entry : String → Value → Prop) : Prop :=
  ∀ name v w, entry name v → entry name w → v = w

theorem FieldAfter.unique {k : PropertyKind} {counts : Value → Prop} {before x y : Option k.Carrier}
    (single : ∀ v w, counts v → counts w → v = w) (hx : FieldAfter k counts before x)
    (hy : FieldAfter k counts before y) : x = y := by
  cases hx with
  | kept h =>
    cases hy with
    | kept => rfl
    | set hw => exact absurd hw (h _)
  | set hv hc =>
    cases hy with
    | kept h => exact absurd hv (h _)
    | set hw hd =>
      obtain rfl := single _ _ hv hw
      rw [hc.unique hd]

theorem HeadersOf.unique {entry : String → Value → Prop} {x y : Option (Table FieldValue)}
    (hx : HeadersOf entry x) (hy : HeadersOf entry y) : x = y := by
  cases hx with
  | none h =>
    cases hy with
    | none => rfl
    | some hw =>
      obtain ⟨name, v, hv⟩ := hw
      exact absurd hv (h name v)
  | some hv ht =>
    cases hy with
    | none h =>
      obtain ⟨name, v, hv⟩ := hv
      exact absurd hv (h name v)
    | some hw hu =>
      refine congrArg Option.some (Table.ext_get? fun name => Option.ext fun f => ?_)
      rw [ht, hu]

/-- Entries with one value for each name make one message. -/
theorem Properties.MadeOf.unique {property header : String → Value → Prop} {p q : Properties}
    (single : SingleValued property) (hp : p.MadeOf property header)
    (hq : q.MadeOf property header) : p = q := by
  refine ext_get (fun n => ?_) (hp.headers.unique hq.headers)
  exact (fieldsAfter_iff.1 hp.fields n).unique (single n.spelling) (fieldsAfter_iff.1 hq.fields n)

namespace Properties

theorem get_withHeaders (p : Properties) (t : Table FieldValue) (n : PropertyName) :
    (p.withHeaders t).get n = p.get n := by
  rw [withHeaders]
  split
  · rfl
  · cases n <;> rfl

theorem headers_withHeaders (p : Properties) (t : Table FieldValue) :
    (p.withHeaders t).headers = if t.entries.isEmpty then p.headers else some t := by
  rw [withHeaders]
  split <;> rfl

theorem withoutHeaders_withHeaders {p : Properties} (h : p.headers = none) (t : Table FieldValue) :
    { p.withHeaders t with headers := none } = p := by
  obtain ⟨⟩ := p
  obtain rfl := h
  rw [withHeaders]
  split <;> rfl

theorem onlyHeaders_withHeaders {p : Properties} (h : p.headers = none) (t : Table FieldValue) :
    ({ headers := (p.withHeaders t).headers } : Properties) = (∅ : Properties).withHeaders t := by
  rw [headers_withHeaders, h, withHeaders]
  split <;> rfl

end Properties

namespace Draft

/-- The last entry of a name. -/
def LastEntry (writes : List (String × Value)) (name : String) (v : Value) : Prop :=
  LastOf (fun w => w.1 = name) writes (name, v)

theorem get?_headerTable {writes : List (String × Value)} {name : String} {f : FieldValue} :
    (headerTable writes).get? name = some f ↔
      ∃ v, LastEntry writes name v ∧ f = FieldValue.encode v := by
  have named : ∀ w ∈ writes, (∃ e : String × FieldValue,
      (some ∘ fun w : String × Value => (w.1, FieldValue.encode w.2)) w = some e ∧ e.1 = name) ↔
      w.1 = name := by simp
  rw [headerTable, Table.get?_ofList_eq_some_iff, ← List.filterMap_eq_map, lastOf_filterMap]
  simp only [lastOf_congr named]
  constructor
  · rintro ⟨⟨key, v⟩, hv, he⟩
    obtain ⟨rfl, rfl⟩ := Prod.mk.inj (Option.some.inj he)
    exact ⟨v, hv, rfl⟩
  · rintro ⟨v, hv, rfl⟩
    exact ⟨_, hv, rfl⟩

theorem headersOf_headerTable (writes : List (String × Value)) :
    HeadersOf (LastEntry writes)
      (if (headerTable writes).entries.isEmpty then none else some (headerTable writes)) := by
  split
  next h =>
    refine .none fun name v hv => ?_
    have found := Table.mem_entries_iff.2 (get?_headerTable.2 ⟨v, hv, rfl⟩)
    rw [List.isEmpty_iff.1 h] at found
    cases found
  next h =>
    refine .some ?_ fun name f => get?_headerTable
    obtain ⟨⟨name, f⟩, he⟩ := List.exists_mem_of_ne_nil _ (mt List.isEmpty_iff.2 h)
    obtain ⟨v, hv, -⟩ := get?_headerTable.1 (Table.mem_entries_iff.1 he)
    exact ⟨name, v, hv⟩

/-- Where every write is taken, the last write of a field's name is the last one it accepts. -/
theorem lastAccepted_iff {writes : List (String × Value)}
    (h : ∀ w ∈ writes, Assignable w.1 w.2) (n : PropertyName) (v : Value) :
    LastAccepted writes n.kind n.spelling v ↔ LastEntry writes n.spelling v := by
  refine lastOf_congr fun w hw => and_iff_left_of_imp fun hn => ?_
  obtain ⟨m, hm, hv⟩ := h w hw
  obtain rfl := PropertyName.spelling_injective (hm.trans hn)
  exact hv

theorem madeOf_build {steps : List Assignment} {q : Properties} (h : build steps = .ok q) :
    q.MadeOf (LastEntry (propertyWrites steps)) (LastEntry (headerWrites steps)) := by
  obtain ⟨all, rfl⟩ := build_eq_ok_iff.1 h
  refine ⟨Properties.fieldsAfter_iff.2 fun n => ?_, ?_⟩
  · rw [Properties.get_withHeaders]
    exact (Properties.fieldsAfter_iff.1 (Properties.fieldsAfter_assignAll ∅ _) n).congr
      (lastAccepted_iff all n)
  · rw [Properties.headers_withHeaders, Properties.headers_assignAll]
    exact headersOf_headerTable _

/-! ## The order of the steps -/

theorem lastEntry_iff_mem {writes : List (String × Value)} (h : (writes.map (·.1)).Nodup)
    {name : String} {v : Value} : LastEntry writes name v ↔ (name, v) ∈ writes :=
  (lastOf_iff_mem h).trans (and_iff_left rfl)

theorem singleValued_of_nodup {writes : List (String × Value)} (h : (writes.map (·.1)).Nodup) :
    SingleValued fun name v => (name, v) ∈ writes := by
  intro name v w hv hw
  have same : (name, v) = (name, w) :=
    LastOf.unique ((lastEntry_iff_mem h).2 hv) ((lastEntry_iff_mem h).2 hw)
  exact (Prod.mk.inj same).2

theorem propertyWrites_perm {steps : List Assignment} {properties headers : List (String × Value)}
    (h : steps.Perm (ofWrites properties headers)) : (propertyWrites steps).Perm properties := by
  have := h.filterMap property?
  rwa [← propertyWrites, ← propertyWrites, propertyWrites_ofWrites] at this

theorem headerWrites_perm {steps : List Assignment} {properties headers : List (String × Value)}
    (h : steps.Perm (ofWrites properties headers)) : (headerWrites steps).Perm headers := by
  have := h.filterMap header?
  rwa [← headerWrites, ← headerWrites, headerWrites_ofWrites] at this

theorem madeOf_mem_of_build {steps : List Assignment} {properties headers : List (String × Value)}
    {q : Properties} (hp : (properties.map (·.1)).Nodup) (hh : (headers.map (·.1)).Nodup)
    (h : steps.Perm (ofWrites properties headers)) (hq : build steps = .ok q) :
    q.MadeOf (fun name v => (name, v) ∈ properties) (fun name v => (name, v) ∈ headers) := by
  have permP := propertyWrites_perm h
  have permH := headerWrites_perm h
  have entries : LastEntry (propertyWrites steps) = fun name v => (name, v) ∈ properties := by
    funext name v
    rw [lastEntry_iff_mem ((permP.map _).nodup_iff.2 hp), permP.mem_iff]
  have entries' : LastEntry (headerWrites steps) = fun name v => (name, v) ∈ headers := by
    funext name v
    rw [lastEntry_iff_mem ((permH.map _).nodup_iff.2 hh), permH.mem_iff]
  exact entries ▸ entries' ▸ madeOf_build hq

/-- Entries of different names fail in every order or make the same properties in every order. -/
theorem build_of_perm {properties headers : List (String × Value)}
    (hp : (properties.map (·.1)).Nodup) (hh : (headers.map (·.1)).Nodup) :
    ((∃ w ∈ properties, Unassignable w) ∧ ∀ steps, steps.Perm (ofWrites properties headers) →
        ∃ failure, build steps = .error failure) ∨
      (∀ w ∈ properties, Assignable w.1 w.2) ∧ ∃ q : Properties,
        q.MadeOf (fun name v => (name, v) ∈ properties) (fun name v => (name, v) ∈ headers) ∧
          ∀ steps, steps.Perm (ofWrites properties headers) → build steps = .ok q := by
  by_cases h : ∃ w ∈ properties, Unassignable w
  · refine .inl ⟨h, fun steps perm => ?_⟩
    obtain ⟨w, hw, hno⟩ := h
    obtain all | ⟨w', failure, hw', hf⟩ := assignable_or_first (propertyWrites steps)
    · exact absurd (all w ((propertyWrites_perm perm).mem_iff.2 hw)) hno
    · exact ⟨failure, build_eq_error hw' hf⟩
  · have all : ∀ w ∈ properties, Assignable w.1 w.2 :=
      fun w hw => Classical.not_not.1 fun hno => h ⟨w, hw, hno⟩
    have builds {steps : List Assignment} (perm : steps.Perm (ofWrites properties headers)) :=
      @build_eq_ok steps fun w hw => all w ((propertyWrites_perm perm).mem_iff.1 hw)
    have made := madeOf_mem_of_build hp hh (.refl _) (builds (.refl _))
    refine .inr ⟨all, _, made, fun steps perm => ?_⟩
    rw [builds perm, (madeOf_mem_of_build hp hh perm (builds perm)).unique
      (singleValued_of_nodup hp) made]

/-- The last entry that steps of one kind make for a name is made by the last step of the kind with
that name. -/
theorem lastEntry_filterMap {f : Assignment → Option (String × Value)}
    {step : String → Value → Assignment} (hf : ∀ s w, f s = some w ↔ s = step w.1 w.2)
    {steps : List Assignment} {name : String} {v : Value} :
    LastEntry (steps.filterMap f) name v ↔
      LastOf (fun s => ∃ w, s = step name w) steps (step name v) := by
  rw [LastEntry, lastOf_filterMap]
  simp only [hf, exists_eq_right, Prod.exists]
  refine lastOf_congr fun s _ => ?_
  exact ⟨fun ⟨_, w, hs, hn⟩ => ⟨w, hn ▸ hs⟩, fun ⟨w, hs⟩ => ⟨name, w, hs, rfl⟩⟩

theorem firstOf_propertyWrites {steps : List Assignment} {w : String × Value} :
    FirstOf Unassignable (propertyWrites steps) w ↔
      FirstOf (fun s => ∃ name v, s = .property name v ∧ ¬ Assignable name v) steps
        (.property w.1 w.2) := by
  simp only [propertyWrites, firstOf_filterMap, property?_eq_some_iff, exists_eq_right,
    Prod.exists, Unassignable]

/-- The property steps by themselves fail as all the steps do, or make the same fields. -/
theorem build_propertySteps (steps : List Assignment) :
    build (steps.filter (·.property?.isSome)) = (build steps).map ({ · with headers := none }) := by
  have same : propertyWrites (steps.filter (·.property?.isSome)) = propertyWrites steps :=
    filterMap_filter_of_none fun _ => by simp
  have none : headerWrites (steps.filter (·.property?.isSome)) = [] := by
    refine List.filterMap_eq_nil_iff.2 fun s hs => ?_
    cases s with
    | property name v => rfl
    | header name v => exact absurd (List.mem_filter.1 hs).2 nofun
  obtain all | ⟨w, failure, hw, hf⟩ := assignable_or_first (propertyWrites steps)
  · rw [build_eq_ok all, build_eq_ok (same ▸ all), same, none]
    exact congrArg Except.ok (Properties.withoutHeaders_withHeaders
      (Properties.headers_assignAll ∅ _) _).symm
  · rw [build_eq_error hw hf, build_eq_error (same ▸ hw) hf]
    rfl

/-- The header steps by themselves make the same headers. -/
theorem build_headerSteps {steps : List Assignment} {q : Properties} (h : build steps = .ok q) :
    build (steps.filter (·.header?.isSome)) = .ok { headers := q.headers } := by
  have same : headerWrites (steps.filter (·.header?.isSome)) = headerWrites steps :=
    filterMap_filter_of_none fun _ => by simp
  have none : propertyWrites (steps.filter (·.header?.isSome)) = [] := by
    refine List.filterMap_eq_nil_iff.2 fun s hs => ?_
    cases s with
    | property name v => exact absurd (List.mem_filter.1 hs).2 nofun
    | header name v => rfl
  have all : ∀ w ∈ propertyWrites (steps.filter (·.header?.isSome)), Assignable w.1 w.2 := by
    rw [none]
    exact fun w hw => absurd hw List.not_mem_nil
  obtain ⟨-, rfl⟩ := build_eq_ok_iff.1 h
  rw [build_eq_ok all, same, none]
  exact congrArg Except.ok (Properties.onlyHeaders_withHeaders
    (Properties.headers_assignAll ∅ _) _).symm

end Draft

/-! ## The properties of an envelope's message -/

namespace Envelope

/-- What an envelope says of a property. -/
def Property (e : Envelope) (name : String) (v : Value) : Prop := e.properties.get? name = some v

/-- What an envelope says of a header. -/
def Header (e : Envelope) (name : String) (v : Value) : Prop := e.headers.get? name = some v

variable {e : Envelope} {q : Properties} {failure : Failure}

theorem assemble_eq (e : Envelope) :
    e.assemble = Draft.build (ofWrites e.properties.entries e.headers.entries) := by
  rw [assemble, assignments, Draft.build, ofWrites]
  cases Draft.applyAll {} _ <;> rfl

theorem entries_eq_property (e : Envelope) :
    (fun name v => (name, v) ∈ e.properties.entries) = e.Property :=
  funext fun _ => funext fun _ => propext Table.mem_entries_iff

theorem entries_eq_header (e : Envelope) :
    (fun name v => (name, v) ∈ e.headers.entries) = e.Header :=
  funext fun _ => funext fun _ => propext Table.mem_entries_iff

theorem assemble_eq_ok_iff : e.assemble = .ok q ↔
    (∀ name v, e.Property name v → Assignable name v) ∧ q.MadeOf e.Property e.Header := by
  have all : (∀ w ∈ e.properties.entries, Assignable w.1 w.2) ↔
      ∀ name v, e.Property name v → Assignable name v := by
    simp only [Prod.forall, Property, Table.mem_entries_iff]
  rw [← all, ← entries_eq_property, ← entries_eq_header, assemble_eq]
  -- the names of a table are different, so its entries are assembled as in any other order
  obtain ⟨⟨w, hw, hno⟩, fails⟩ | ⟨all, p, made, builds⟩ :=
    Draft.build_of_perm e.properties.nodup_names e.headers.nodup_names
  · obtain ⟨failure, hf⟩ := fails _ (.refl _)
    rw [hf]
    exact iff_of_false nofun fun h => hno (h.1 w hw)
  · rw [builds _ (.refl _)]
    constructor
    · intro h
      obtain rfl := Except.ok.inj h
      exact ⟨all, made⟩
    · rintro ⟨-, made'⟩
      exact congrArg Except.ok
        (made.unique (Draft.singleValued_of_nodup e.properties.nodup_names) made')

/-- Among failing properties the one with the least name gives the failure. -/
theorem assemble_eq_error_iff : e.assemble = .error failure ↔
    ∃ name v, e.Property name v ∧ Refuses name v failure ∧
      ∀ name' v', e.Property name' v' → ¬ Assignable name' v' → utf8 name ≤ utf8 name' := by
  have asymm : ∀ x y : String × Value, x.1 < y.1 → ¬ y.1 < x.1 := fun _ _ => String.lt_asymm
  rw [assemble_eq, Draft.build_eq_error_iff, propertyWrites_ofWrites]
  simp only [firstOf_iff_of_sorted asymm e.properties.sorted, Prod.exists, Prod.forall,
    Table.mem_entries_iff, Unassignable]
  constructor
  · rintro ⟨name, v, ⟨hv, -, least⟩, hf⟩
    refine ⟨name, v, hv, hf, fun name' v' hv' hno => le_iff_utf8_le.1 ?_⟩
    obtain same | hlt := least name' v' hv' hno
    · obtain rfl : name' = name := (Prod.mk.inj same).1
      exact String.le_refl name'
    · exact String.not_lt.1 (String.lt_asymm hlt)
  · rintro ⟨name, v, hv, hf, least⟩
    refine ⟨name, v, ⟨hv, not_assignable_iff.2 ⟨failure, hf⟩, fun name' v' hv' hno => ?_⟩, hf⟩
    by_cases hlt : name < name'
    · exact .inr hlt
    · obtain rfl : name = name' :=
        String.le_antisymm (le_iff_utf8_le.2 (least name' v' hv' hno)) (String.not_lt.1 hlt)
      rw [Option.some.inj (hv.symm.trans hv')]
      exact .inl rfl

end Envelope

namespace Draft

/-- Steps for different names fail in every order or make the same properties in every order: each
field whose name occurs holds the coerced value, and the headers are the table of the header
entries. Of steps for one name the last one stands; the first step that fails gives the failure;
property steps and header steps leave each other's results alone. The properties of an envelope's
message are made of its two maps in this way, and of the properties that fail the one with the least
name gives the failure. -/
theorem assembly_ignores_order :
    (∀ properties headers : List (String × Value),
      (properties.map (·.1)).Nodup → (headers.map (·.1)).Nodup →
      ((∃ w ∈ properties, ¬ Assignable w.1 w.2) ∧
        ∀ steps, steps.Perm (ofWrites properties headers) →
          ∃ failure, build steps = .error failure) ∨
      (∀ w ∈ properties, Assignable w.1 w.2) ∧ ∃ q : Properties,
        q.MadeOf (fun name v => (name, v) ∈ properties) (fun name v => (name, v) ∈ headers) ∧
        ∀ steps, steps.Perm (ofWrites properties headers) → build steps = .ok q) ∧
    (∀ steps : List Assignment,
      (∀ q, build steps = .ok q →
        q.MadeOf
          (fun name v => LastOf (fun s => ∃ w, s = .property name w) steps (.property name v))
          (fun name v => LastOf (fun s => ∃ w, s = .header name w) steps (.header name v)) ∧
        build (steps.filter (·.header?.isSome)) = .ok { headers := q.headers }) ∧
      build (steps.filter (·.property?.isSome)) =
        (build steps).map ({ · with headers := none }) ∧
      ∀ failure, build steps = .error failure ↔ ∃ name v,
        FirstOf (fun s => ∃ name v, s = .property name v ∧ ¬ Assignable name v) steps
          (.property name v) ∧ Refuses name v failure) ∧
    ∀ e : Envelope,
      (∀ steps, steps.Perm (ofWrites e.properties.entries e.headers.entries) →
        ∀ q, e.assemble = .ok q ↔ build steps = .ok q) ∧
      (∀ q, e.assemble = .ok q ↔ (∀ name v, e.Property name v → Assignable name v) ∧
        q.MadeOf e.Property e.Header) ∧
      ∀ failure, e.assemble = .error failure ↔
        ∃ name v, e.Property name v ∧ Refuses name v failure ∧
          ∀ name' v', e.Property name' v' → ¬ Assignable name' v' → utf8 name ≤ utf8 name' := by
  refine ⟨fun properties headers hp hh => build_of_perm hp hh,
    fun steps => ⟨fun q hq => ⟨?_, build_headerSteps hq⟩, build_propertySteps steps, ?_⟩,
    fun e => ⟨fun steps perm q => ?_, fun q => Envelope.assemble_eq_ok_iff,
      fun failure => Envelope.assemble_eq_error_iff⟩⟩
  · have made := madeOf_build hq
    have properties : LastEntry (propertyWrites steps) = fun name v =>
        LastOf (fun s => ∃ w, s = .property name w) steps (.property name v) :=
      funext fun name => funext fun v =>
        propext (lastEntry_filterMap fun s w => property?_eq_some_iff)
    have headers : LastEntry (headerWrites steps) = fun name v =>
        LastOf (fun s => ∃ w, s = .header name w) steps (.header name v) :=
      funext fun name => funext fun v =>
        propext (lastEntry_filterMap fun s w => header?_eq_some_iff)
    rwa [properties, headers] at made
  · intro failure
    simp only [build_eq_error_iff, firstOf_propertyWrites, Prod.exists]
  · rw [Envelope.assemble_eq]
    obtain ⟨-, fails⟩ | ⟨-, p, -, builds⟩ :=
      build_of_perm e.properties.nodup_names e.headers.nodup_names
    · obtain ⟨failure, hf⟩ := fails _ (.refl _)
      obtain ⟨failure', hf'⟩ := fails steps perm
      rw [hf, hf']
      exact iff_of_false nofun nofun
    · rw [builds _ (.refl _), builds steps perm]

/-- Three steps in another order. -/
theorem assembly_ignores_order_shuffled :
    (["priority", "messageId"].Nodup ∧ ["x-a"].Nodup) ∧ ∃ q : Properties,
      build [.property "priority" (.string "5"), .property "messageId" (.string "m-1"),
        .header "x-a" .null] = .ok q ∧
      build [.header "x-a" .null, .property "messageId" (.string "m-1"),
        .property "priority" (.string "5")] = .ok q ∧
      q.priority = some 5 ∧ q.messageId = some "m-1" := by
  have distinct : ["priority", "messageId"].Nodup ∧ ["x-a"].Nodup := by decide
  refine ⟨distinct, ?_⟩
  obtain ⟨⟨w, hw, hno⟩, -⟩ | ⟨-, q, made, builds⟩ := assembly_ignores_order.1
    [("priority", .string "5"), ("messageId", .string "m-1")] [("x-a", .null)] distinct.1 distinct.2
  · obtain rfl | hw := List.mem_cons.1 hw
    · exact absurd ⟨.priority, rfl, (5 : UInt8), PropertyKind.read_eq_ok_iff.1 rfl⟩ hno
    · obtain rfl := List.mem_singleton.1 hw
      exact absurd ⟨.messageId, rfl, "m-1", .string "m-1"⟩ hno
  · let steps := ofWrites [("priority", .string "5"), ("messageId", .string "m-1")] [("x-a", .null)]
    have first : build steps = .ok q := builds steps (.refl _)
    have backwards : build steps.reverse = .ok q := builds _ (List.reverse_perm steps)
    have fields : (build steps).map (fun q => (q.priority, q.messageId)) =
        .ok (some 5, some "m-1") := rfl
    rw [first] at fields
    obtain ⟨priority, messageId⟩ := Prod.mk.inj (Except.ok.inj fields)
    exact ⟨q, first, backwards, priority, messageId⟩

end Draft

end Courier
