import Courier.Endpoint
import Courier.Proofs.JsonReading
import Mathlib.Data.List.Forall2
import Mathlib.Data.List.Nodup

/-!
# Reading endpoints

An endpoint is read from an object, from an array or from a text. An object overrides the default
endpoint in the fields that it has a member for (`Endpoint.ofValue?_object_eq_some_iff`), and is
refused if a field does not take what its member holds (`Endpoint.ofValue?_object_eq_none_iff`). The
text of a value reads as the value does, unless it is an object that gives one field twice
(`Endpoint.read?_of_value`), and an array reads as the object that names its items
(`Endpoint.ofValue?_array`). Each of these sets the fields that are given one after another, and
`Endpoint.setAll?_eq_some_iff` says what comes of it where no field is given twice.
-/

namespace Courier

open Json (Value Document Piece)

/-- A key that is listed once is looked up with its value. -/
theorem lookup_eq_some_iff_mem {κ α : Type} [DecidableEq κ] {l : List (κ × α)} {k : κ} {a : α}
    (once : (l.map (·.1)).Nodup) : l.lookup k = some a ↔ (k, a) ∈ l := by
  rw [List.lookup_eq_some_iff]
  constructor
  · rintro ⟨before, after, rfl, -⟩
    simp
  · intro h
    obtain ⟨before, after, rfl⟩ := List.append_of_mem h
    refine ⟨before, after, rfl, ?_⟩
    intro p hp
    rw [List.map_append, List.map_cons, List.nodup_append] at once
    exact bne_iff_ne.2 (once.2.2 p.1 (List.mem_map_of_mem hp) k List.mem_cons_self).symm

/-! ## What a field takes -/

namespace EndpointField

theorem ofSpelling?_eq_some_iff {s : String} {f : EndpointField} :
    ofSpelling? s = some f ↔ s = f.spelling := by
  constructor
  · intro h
    have found := List.find?_some h
    exact (of_decide_eq_true found).symm
  · rintro rfl
    cases f <;> rfl

/-- What a field takes: the port an integer of 16 bits, every other field a string. -/
def Admits : EndpointField → Value → Prop
  | port, v => ∃ n : Json.Integer, v = .integer n ∧ 0 ≤ n.val ∧ n.val ≤ 65535
  | host, v | user, v | password, v | vhost, v => ∃ s, v = .string s

end EndpointField

theorem port?_integer {n : Json.Integer} {p : UInt16} :
    port? (.integer n) = some p ↔ n.val = p.toNat := by
  have bound := p.toNat_lt
  show (if 0 ≤ n.val ∧ n.val < 0x10000 then some (UInt16.ofNat n.val.toNat) else none) = some p ↔ _
  split
  next range =>
    rw [Option.some.injEq, ← UInt16.toNat_inj, UInt16.toNat_ofNat']
    omega
  next range =>
    refine iff_of_false nofun ?_
    intro h
    omega

theorem val_ofWord_port (p : UInt16) : (Json.Integer.ofWord p.toUInt64).val = p.toNat := by
  show (p.toUInt64.toNat : Int) = p.toNat
  rw [UInt16.toNat_toUInt64]

/-- A port is read from the integer that it is, and from nothing else. -/
theorem port?_eq_some_iff {v : Value} {p : UInt16} :
    port? v = some p ↔ v = .integer (.ofWord p.toUInt64) := by
  constructor
  · intro h
    cases v with
    | number n =>
      cases n with
      | integer n =>
        have same : n.val = p.toNat := port?_integer.1 h
        rw [Json.Integer.eq_of_val (same.trans (val_ofWord_port p).symm), Value.integer]
      | double x => cases h
    | _ => cases h
  · rintro rfl
    exact port?_integer.2 (val_ofWord_port p)

theorem admits_port (p : UInt16) : EndpointField.port.Admits (.integer (.ofWord p.toUInt64)) := by
  have bound := p.toNat_lt
  refine ⟨_, rfl, ?_, ?_⟩
  · rw [val_ofWord_port]
    omega
  · rw [val_ofWord_port]
    omega

theorem port?_eq_none_iff {v : Value} : port? v = none ↔ ¬ EndpointField.port.Admits v := by
  constructor
  · rintro h ⟨n, rfl, lower, upper⟩
    have read : port? (.integer n) = some (UInt16.ofNat n.val.toNat) := if_pos (by omega)
    rw [h] at read
    cases read
  · intro h
    rw [Option.eq_none_iff_forall_ne_some]
    intro p hp
    rw [port?_eq_some_iff.1 hp] at h
    exact h (admits_port p)

namespace Endpoint

variable {e e' : Endpoint} {f : EndpointField} {v : Value}
  {fields : List (EndpointField × Value)}

/-- A field as a JSON value. -/
def get (e : Endpoint) : EndpointField → Value
  | .host => .string e.host
  | .port => .integer (.ofWord e.port.toUInt64)
  | .user => .string e.user
  | .password => .string e.password
  | .vhost => .string e.vhost

theorem ext_get (h : ∀ f, e.get f = e'.get f) : e = e' := by
  have port : some e.port = some e'.port := by
    rw [← port?_eq_some_iff.2 (h .port)]
    exact (port?_eq_some_iff.2 rfl).symm
  cases e
  cases e'
  congr
  · exact Value.string.inj (h .host)
  · exact Option.some.inj port
  · exact Value.string.inj (h .user)
  · exact Value.string.inj (h .password)
  · exact Value.string.inj (h .vhost)

theorem admits_get (e : Endpoint) (f : EndpointField) : f.Admits (e.get f) := by
  cases f with
  | port => exact admits_port e.port
  | _ => exact ⟨_, rfl⟩

/-! ## Setting fields -/

/-- A field that is set has the value, and the others are as before. -/
theorem get_of_set? (h : e.set? f v = some e') (g : EndpointField) :
    e'.get g = if f = g then v else e.get g := by
  cases f <;> obtain ⟨x, hx, rfl⟩ := Option.map_eq_some_iff.1 h
  case port => cases g <;> first | rfl | exact (port?_eq_some_iff.1 hx).symm
  all_goals cases g <;> first | rfl | exact (Value.string?_eq_some_iff.1 hx).symm

theorem set?_eq_none_iff : e.set? f v = none ↔ ¬ f.Admits v := by
  cases f with
  | port =>
    rw [set?, Option.map_eq_none_iff]
    exact port?_eq_none_iff
  | host | user | password | vhost =>
    rw [set?, Option.map_eq_none_iff, Option.eq_none_iff_forall_ne_some]
    simp only [ne_eq, Value.string?_eq_some_iff, EndpointField.Admits, not_exists]

theorem setAll?_cons (e : Endpoint) (f : EndpointField) (v : Value) :
    e.setAll? ((f, v) :: fields) = (e.set? f v).bind fun e => e.setAll? fields := rfl

/-- Fields cannot be set if one of them does not take its value. -/
theorem setAll?_eq_none_iff : e.setAll? fields = none ↔ ∃ p ∈ fields, ¬ p.1.Admits p.2 := by
  induction fields generalizing e with
  | nil => simp [setAll?]
  | cons p rest ih =>
    obtain ⟨f, v⟩ := p
    simp only [setAll?_cons, List.mem_cons, exists_eq_or_imp]
    cases hset : e.set? f v with
    | none => exact iff_of_true rfl (.inl (set?_eq_none_iff.1 hset))
    | some e' =>
      have admitted : ¬ ¬ f.Admits v := by
        rw [← set?_eq_none_iff (e := e), hset]
        exact nofun
      rw [Option.bind_some, ih, or_iff_right admitted]

theorem get_of_setAll? (once : (fields.map (·.1)).Nodup) (h : e.setAll? fields = some e')
    (f : EndpointField) : e'.get f = (fields.lookup f).getD (e.get f) := by
  induction fields generalizing e with
  | nil =>
    obtain rfl := Option.some.inj h
    rfl
  | cons p rest ih =>
    obtain ⟨g, v⟩ := p
    obtain ⟨fresh, once⟩ := List.nodup_cons.1 once
    rw [setAll?_cons] at h
    obtain ⟨e₁, hset, h⟩ := Option.bind_eq_some_iff.1 h
    rw [ih once h, get_of_set? hset, List.lookup_cons]
    by_cases hf : g = f
    · subst hf
      -- the rest does not set the field again
      have later : rest.lookup g = none := by
        rw [List.lookup_eq_none_iff]
        intro p hp
        refine bne_iff_ne.2 fun same => fresh ?_
        exact List.mem_map.2 ⟨p, hp, same.symm⟩
      simp [later]
    · have other : (f == g) = false := beq_eq_false_iff_ne.2 (Ne.symm hf)
      rw [if_neg hf, other]

/-- Fields that are set, each once, have their values, and the others are as before. -/
theorem setAll?_eq_some_iff (once : (fields.map (·.1)).Nodup) :
    e.setAll? fields = some e' ↔ ∀ f, e'.get f = (fields.lookup f).getD (e.get f) := by
  constructor
  · exact get_of_setAll? once
  · intro h
    cases hset : e.setAll? fields with
    | none =>
      obtain ⟨⟨f, v⟩, hmem, refused⟩ := setAll?_eq_none_iff.1 hset
      have given : e'.get f = v := by
        rw [h, (lookup_eq_some_iff_mem once).2 hmem, Option.getD_some]
      rw [← given] at refused
      exact absurd (e'.admits_get f) refused
    | some e₁ =>
      have same : e₁ = e' := by
        apply ext_get
        intro f
        rw [get_of_setAll? once hset, h]
      rw [same]

theorem setAll?_congr {fields' : List (EndpointField × Value)} (once : (fields.map (·.1)).Nodup)
    (once' : (fields'.map (·.1)).Nodup) (same : ∀ f, fields.lookup f = fields'.lookup f) :
    e.setAll? fields = e.setAll? fields' := by
  ext e'
  simp only [setAll?_eq_some_iff once, setAll?_eq_some_iff once', same]

/-! ## Members as fields -/

section Members

variable {α : Type} {members : List (String × α)}

theorem knownMembers_cons (name : String) (a : α) :
    knownMembers ((name, a) :: members) =
      ((EndpointField.ofSpelling? name).map fun f => (f, a)).toList ++ knownMembers members := by
  simp only [knownMembers, List.filterMap_cons]
  cases EndpointField.ofSpelling? name <;> rfl

theorem map_fst_knownMembers (members : List (String × α)) :
    (knownMembers members).map (·.1) =
      (members.map (·.1)).filterMap EndpointField.ofSpelling? := by
  simp only [knownMembers, List.map_filterMap, List.filterMap_map]
  refine congrArg (List.filterMap · members) (funext fun m => ?_)
  rw [Option.map_map]
  exact Option.map_id'

/-- A field is given by the first member with its name. -/
theorem lookup_knownMembers (members : List (String × α)) (f : EndpointField) :
    (knownMembers members).lookup f = Table.find? f.spelling members := by
  induction members with
  | nil => rfl
  | cons m rest ih =>
    obtain ⟨name, a⟩ := m
    rw [knownMembers_cons, Table.find?]
    by_cases hname : name = f.spelling
    · rw [if_pos hname, EndpointField.ofSpelling?_eq_some_iff.2 hname]
      simp
    · rw [if_neg hname]
      cases hg : EndpointField.ofSpelling? name with
      | none => exact ih
      | some g =>
        have other : (f == g) = false := by
          rw [beq_eq_false_iff_ne]
          rintro rfl
          exact hname (EndpointField.ofSpelling?_eq_some_iff.1 hg)
        simp only [Option.map_some, Option.toList_some, List.singleton_append, List.lookup_cons,
          other, ih]

/-- A field is given as often as there are members with its name. -/
theorem count_knownMembers (members : List (String × α)) (f : EndpointField) :
    ((knownMembers members).map (·.1)).count f = members.countP fun m => m.1 = f.spelling := by
  rw [map_fst_knownMembers, List.count, List.countP_filterMap, List.countP_map]
  refine congrArg (List.countP · members) (funext fun m => ?_)
  simp only [Function.comp_apply]
  by_cases hm : m.1 = f.spelling
  · rw [EndpointField.ofSpelling?_eq_some_iff.2 hm]
    simp [hm]
  · have other : ∀ g, EndpointField.ofSpelling? m.1 = some g → g ≠ f := by
      rintro g hg rfl
      exact hm (EndpointField.ofSpelling?_eq_some_iff.1 hg)
    cases hg : EndpointField.ofSpelling? m.1 with
    | none => simp [hm]
    | some g => simp [hm, other g hg]

theorem nodup_knownMembers (h : (members.map (·.1)).Nodup) :
    ((knownMembers members).map (·.1)).Nodup := by
  rw [map_fst_knownMembers]
  refine h.filterMap fun a a' f ha ha' => ?_
  rw [EndpointField.ofSpelling?_eq_some_iff.1 ha, EndpointField.ofSpelling?_eq_some_iff.1 ha']

end Members

/-! ## Objects -/

section Objects

variable {members others : List (String × Value)}

/-- An object overrides the default endpoint in the fields that it has a member for. -/
theorem ofValue?_object_eq_some_iff (names : (members.map (·.1)).Nodup) :
    ofValue? (.object members) = some e ↔
      ∀ f, e.get f = (Table.find? f.spelling members).getD (get {} f) := by
  rw [ofValue?, setAll?_eq_some_iff (nodup_knownMembers names)]
  simp only [lookup_knownMembers]

/-- An object is refused if a field does not take what its member holds. -/
theorem ofValue?_object_eq_none_iff (names : (members.map (·.1)).Nodup) :
    ofValue? (.object members) = none ↔
      ∃ (f : EndpointField) (v : Value),
        Table.find? f.spelling members = some v ∧ ¬ f.Admits v := by
  rw [ofValue?, setAll?_eq_none_iff]
  simp only [← lookup_knownMembers, lookup_eq_some_iff_mem (nodup_knownMembers names), Prod.exists]

/-- Objects that have the same for every field read the same. -/
theorem ofValue?_object_congr (names : (members.map (·.1)).Nodup)
    (names' : (others.map (·.1)).Nodup)
    (same : ∀ f : EndpointField, Table.find? f.spelling members = Table.find? f.spelling others) :
    ofValue? (.object members) = ofValue? (.object others) := by
  refine setAll?_congr (nodup_knownMembers names) (nodup_knownMembers names') fun f => ?_
  rw [lookup_knownMembers, lookup_knownMembers, same]

/-- Members that give no field twice can be set as they come, without making an object of them. -/
theorem ofValue?_ofMembers (once : ((knownMembers members).map (·.1)).Nodup) :
    ofValue? (.ofMembers members) = setAll? {} (knownMembers members) := by
  refine setAll?_congr (nodup_knownMembers (Table.ofList members).nodup_names) once fun f => ?_
  rw [lookup_knownMembers, lookup_knownMembers]
  refine (Table.get?_ofList members f.spelling).trans (Table.lastWrite_eq_find? ?_)
  rw [← count_knownMembers]
  exact List.nodup_iff_count.1 once f

end Objects

/-! ## Arrays -/

section Arrays

variable {α : Type}

theorem nodup_zip {fs : List EndpointField} (h : fs.Nodup) (items : List α) :
    ((fs.zip items).map (·.1)).Nodup := by
  refine h.sublist ?_
  induction fs generalizing items with
  | nil => exact List.nil_sublist []
  | cons f fs ih =>
    cases items with
    | nil => exact List.nil_sublist _
    | cons a items => exact (ih (List.nodup_cons.1 h).2 items).cons_cons f

/-- Items that are named after fields are given for these fields. -/
theorem knownMembers_zip (fs : List EndpointField) (items : List α) :
    knownMembers ((fs.map EndpointField.spelling).zip items) = fs.zip items := by
  induction fs generalizing items with
  | nil => rfl
  | cons f fs ih =>
    cases items with
    | nil => rfl
    | cons a items =>
      rw [List.map_cons, List.zip_cons_cons, knownMembers_cons, ih,
        EndpointField.ofSpelling?_eq_some_iff.2 rfl]
      rfl

theorem inOrder?_of_le {items : List α} (h : items.length ≤ 5) :
    inOrder? items = some (EndpointField.all.zip items) :=
  if_pos h

theorem inOrder?_of_lt {items : List α} (h : 5 < items.length) : inOrder? items = none :=
  if_neg (Nat.not_le.2 h)

end Arrays

/-- An array of as many items as there are fields, or fewer, reads as the object that names them in
order. -/
theorem ofValue?_array {items : List Value} (h : items.length ≤ 5) :
    ofValue? (.array items) =
      ofValue? (.ofMembers (["host", "port", "user", "password", "vhost"].zip items)) := by
  have given : knownMembers (["host", "port", "user", "password", "vhost"].zip items) =
      EndpointField.all.zip items := knownMembers_zip EndpointField.all items
  have once : ((EndpointField.all.zip items).map (·.1)).Nodup := nodup_zip (by decide) items
  rw [ofValue?_ofMembers (given ▸ once), given, ofValue?, inOrder?_of_le h, Option.bind_some]

theorem ofValue?_long_array {items : List Value} (h : 5 < items.length) :
    ofValue? (.array items) = none := by
  rw [ofValue?, inOrder?_of_lt h, Option.bind_none]

/-! ## Texts -/

section Texts

variable {text : String} {ds : List (List Piece × Document)} {ms : List (String × Value)}

/-- A text that is an object with two members, or more, that have the name of the same field. -/
def RepeatsField (text : String) : Prop :=
  ∃ members, Document.read? text = some (.object members) ∧
    ∃ f : EndpointField, 1 < members.countP fun m => Json.pieceString? m.1 = some f.spelling

theorem members_of_memberValues? (h : Document.memberValues? ds = some ms) :
    List.Forall₂ (fun d m => Json.pieceString? d.1 = some m.1 ∧ d.2.value? = some m.2) ds ms := by
  induction ds generalizing ms with
  | nil =>
    obtain rfl := Option.some.inj h
    exact .nil
  | cons d rest ih =>
    rw [Document.memberValues?] at h
    split at h
    next hname hvalue htail =>
      obtain rfl := Option.some.inj h
      exact .cons ⟨hname, hvalue⟩ (ih htail)
    next => cases h

theorem items_of_itemValues? {ds : List Document} {vs : List Value}
    (h : Document.itemValues? ds = some vs) :
    List.Forall₂ (fun d v => d.value? = some v) ds vs := by
  induction ds generalizing vs with
  | nil =>
    obtain rfl := Option.some.inj h
    exact .nil
  | cons d rest ih =>
    rw [Document.itemValues?] at h
    split at h
    next hvalue htail =>
      obtain rfl := Option.some.inj h
      exact .cons hvalue (ih htail)
    next => cases h

/-- The members of a written object that are fields have the values of the object's members. -/
theorem named_of_memberValues? (h : Document.memberValues? ds = some ms) : ∃ named,
    (ds.mapM fun (name, d) => (Json.pieceString? name).map fun s => (s, d)) = some named ∧
      named.map (·.1) = ms.map (·.1) ∧
      valueFields? (knownMembers named) = some (knownMembers ms) := by
  replace h := members_of_memberValues? h
  induction h with
  | nil => exact ⟨[], rfl, rfl, rfl⟩
  | @cons d m rest tail hd _ ih =>
    obtain ⟨hname, hvalue⟩ := hd
    obtain ⟨named, hnamed, names, values⟩ := ih
    refine ⟨(m.1, d.2) :: named, ?_, ?_, ?_⟩
    · simp [List.mapM_cons, hname, hnamed]
    · rw [List.map_cons, List.map_cons, names]
    · rw [knownMembers_cons, knownMembers_cons]
      cases EndpointField.ofSpelling? m.1 with
      | none => exact values
      | some f =>
        simp only [valueFields?] at values
        simp [valueFields?, hvalue, values]

theorem ofDocument?_object (h : Document.memberValues? ds = some ms) :
    ofDocument? (.object ds) =
      if ((knownMembers ms).map (·.1)).Nodup then setAll? {} (knownMembers ms) else none := by
  obtain ⟨named, hnamed, names, values⟩ := named_of_memberValues? h
  have fields : (knownMembers named).map (·.1) = (knownMembers ms).map (·.1) := by
    rw [map_fst_knownMembers, map_fst_knownMembers, names]
  simp only [ofDocument?, hnamed, Option.bind_eq_bind, Option.bind_some, fields, values]

theorem countP_documents (h : Document.memberValues? ds = some ms) (f : EndpointField) :
    (ds.countP fun m => Json.pieceString? m.1 = some f.spelling) =
      ((knownMembers ms).map (·.1)).count f := by
  rw [count_knownMembers]
  replace h := members_of_memberValues? h
  induction h with
  | nil => rfl
  | cons hd _ ih => simp only [List.countP_cons, hd.1, ih, Option.some.injEq]

/-- The text of an object repeats a field if the fields that it gives are not all different. -/
theorem repeatsField_iff (hd : Document.read? text = some (.object ds))
    (h : Document.memberValues? ds = some ms) :
    RepeatsField text ↔ ¬ ((knownMembers ms).map (·.1)).Nodup := by
  rw [List.nodup_iff_count]
  constructor
  · rintro ⟨members, hm, f, twice⟩ once
    obtain rfl := Document.object.inj (Option.some.inj (hd.symm.trans hm))
    rw [countP_documents h] at twice
    have := once f
    omega
  · intro twice
    obtain ⟨f, hf⟩ := not_forall.1 twice
    refine ⟨ds, hd, f, ?_⟩
    rw [countP_documents h]
    omega

theorem not_repeatsField {d : Document} (hd : Document.read? text = some d)
    (h : ∀ ds, d ≠ .object ds) : ¬ RepeatsField text := by
  rintro ⟨members, hm, -⟩
  exact h members (Option.some.inj (hd.symm.trans hm))

theorem value_of_members (hd : Document.read? text = some (.object ds))
    (h : Document.memberValues? ds = some ms) : Value.read? text = some (.ofMembers ms) := by
  rw [Value.read?, hd, Option.bind_some, Document.value?, h, Option.map_some]

theorem valueFields?_zip {ds : List Document} {vs : List Value}
    (h : Document.itemValues? ds = some vs) (fs : List EndpointField) :
    valueFields? (fs.zip ds) = some (fs.zip vs) := by
  replace h := items_of_itemValues? h
  induction h generalizing fs with
  | nil =>
    rw [List.zip_nil_right, List.zip_nil_right]
    rfl
  | cons hvalue _ ih =>
    cases fs with
    | nil => rfl
    | cons f fs =>
      have rest := ih fs
      simp only [valueFields?] at rest
      simp [valueFields?, hvalue, rest]

theorem ofDocument?_array {ds : List Document} {vs : List Value}
    (h : Document.itemValues? ds = some vs) :
    ofDocument? (.array ds) = ofValue? (.array vs) := by
  have length : ds.length = vs.length := (items_of_itemValues? h).length_eq
  rw [ofDocument?, ofValue?]
  by_cases short : vs.length ≤ 5
  · rw [inOrder?_of_le short, inOrder?_of_le (length ▸ short)]
    simp only [Option.bind_eq_bind, Option.bind_some, valueFields?_zip h]
  · rw [inOrder?_of_lt (Nat.not_le.1 short), inOrder?_of_lt (length ▸ Nat.not_le.1 short)]
    rfl

/-- The text of a value reads as the value does, unless it gives one field twice. -/
theorem read?_of_value (h : Value.read? text = some v) :
    (RepeatsField text → read? text = none) ∧ (¬ RepeatsField text → read? text = ofValue? v) := by
  obtain ⟨d, hd, hv⟩ := Option.bind_eq_some_iff.1 h
  have read : read? text = ofDocument? d := by
    rw [read?, hd, Option.bind_some]
  rw [read]
  cases d with
  | object ds =>
    obtain ⟨ms, hms, rfl⟩ := Option.map_eq_some_iff.1 hv
    rw [ofDocument?_object hms, repeatsField_iff hd hms, not_not]
    constructor
    · intro twice
      exact if_neg twice
    · intro once
      rw [if_pos once, ofValue?_ofMembers once]
  | array ds =>
    obtain ⟨vs, hvs, rfl⟩ := Option.map_eq_some_iff.1 hv
    constructor
    · intro twice
      exact absurd twice (not_repeatsField hd nofun)
    · intro _
      exact ofDocument?_array hvs
  | null | bool b =>
    obtain rfl := Option.some.inj hv
    exact ⟨fun _ => rfl, fun _ => rfl⟩
  | number n =>
    obtain ⟨m, -, rfl⟩ := Option.map_eq_some_iff.1 hv
    exact ⟨fun _ => rfl, fun _ => rfl⟩
  | string pieces =>
    obtain ⟨s, -, rfl⟩ := Option.map_eq_some_iff.1 hv
    exact ⟨fun _ => rfl, fun _ => rfl⟩

end Texts

/-- An object reads as the default endpoint with the fields that it has a member for in place of the
default ones, and is refused just if a field does not take what its member holds; the order of the
members and members with other names make no difference. The text of a value reads as the value
does, but for a text that gives one field twice, which is refused. An array of up to five items
reads as the object that names them in order, and a longer one is refused. -/
theorem readings_agree :
    (∀ members : List (String × Value), (members.map (·.1)).Nodup →
      (∀ e : Endpoint, ofValue? (.object members) = some e ↔
        ∀ f, e.get f = (Table.find? f.spelling members).getD (get {} f)) ∧
      (ofValue? (.object members) = none ↔
        ∃ (f : EndpointField) (v : Value),
          Table.find? f.spelling members = some v ∧ ¬ f.Admits v) ∧
      ∀ others : List (String × Value), (others.map (·.1)).Nodup →
        (∀ f : EndpointField,
          Table.find? f.spelling others = Table.find? f.spelling members) →
        ofValue? (.object others) = ofValue? (.object members)) ∧
    (∀ text v, Value.read? text = some v →
      (RepeatsField text → read? text = none) ∧
      (¬ RepeatsField text → read? text = ofValue? v)) ∧
    ∀ items : List Value,
      (items.length ≤ 5 → ofValue? (.array items) =
        ofValue? (.ofMembers (["host", "port", "user", "password", "vhost"].zip items))) ∧
      (5 < items.length → ofValue? (.array items) = none) := by
  refine ⟨?_, ?_, ?_⟩
  · intro members names
    refine ⟨fun e => ofValue?_object_eq_some_iff names, ofValue?_object_eq_none_iff names, ?_⟩
    intro others names' same
    exact ofValue?_object_congr names' names same
  · intro text v h
    exact read?_of_value h
  · intro items
    exact ⟨ofValue?_array, ofValue?_long_array⟩

/-- Members for two fields, and one that has the name of no field. -/
def shuffled : List (String × Value) :=
  [("vhost", .string "orders"), ("note", .array []), ("host", .string "rabbit")]

/-- The text of the members reads as the default endpoint with two fields replaced; with a second
host it is refused. An array of a host alone replaces the host. -/
theorem readings_agree_shuffled :
    read? (Json.textOfMembers shuffled) = some { host := "rabbit", vhost := "orders" } ∧
    read? (Json.textOfMembers (("host", .string "lost") :: shuffled)) = none ∧
    ofValue? (.array [.string "rabbit"]) = some { host := "rabbit" } := by
  obtain ⟨objects, texts, arrays⟩ := readings_agree
  refine ⟨?_, ?_, ?_⟩
  · obtain ⟨ds, hd, hms⟩ := @Document.read?_textOfMembers shuffled
      ⟨trivial, trivial, trivial, trivial⟩ ⟨trivial, trivial, trivial, trivial⟩
    have once : ¬ RepeatsField (Json.textOfMembers shuffled) := by
      rw [repeatsField_iff hd hms]
      decide
    rw [(texts _ _ (value_of_members hd hms)).2 once]
    apply ((objects _ (Table.ofList shuffled).nodup_names).1 _).2
    intro f
    cases f <;> rfl
  · obtain ⟨ds, hd, hms⟩ := @Document.read?_textOfMembers (("host", .string "lost") :: shuffled)
      ⟨trivial, trivial, trivial, trivial, trivial⟩ ⟨trivial, trivial, trivial, trivial, trivial⟩
    apply (texts _ _ (value_of_members hd hms)).1
    rw [repeatsField_iff hd hms]
    decide
  · rw [(arrays [.string "rabbit"]).1 (by decide)]
    apply ((objects _ (Table.nodup_names _)).1 _).2
    intro f
    cases f <;> rfl

end Endpoint

end Courier
