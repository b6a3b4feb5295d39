import Courier.Message
import Courier.OrderEvent
import Courier.Proofs.JsonReading
import Courier.Proofs.UuidSpelling

/-!
# Order events on the wire

Whatever is written for an event reads back as the event, and what is read does not depend on how
it was written: not on the order of the members, on unknown members, or on how the UUIDs are spelled
(`OrderEvent.survives_wire`).
-/

namespace Courier

open Json (Value Document)

namespace Table

variable {α : Type}

theorem put_perm {name : String} {value : α} {l : List (String × α)} (h : ∀ e ∈ l, e.1 ≠ name) :
    (put name value l).Perm ((name, value) :: l) := by
  induction l with
  | nil => exact .refl _
  | cons d rest ih =>
    have hd := h d List.mem_cons_self
    unfold put
    split
    · exact .refl _
    next hlt =>
      split
      · exact ((ih fun e he => h e (List.mem_cons_of_mem _ he)).cons d).trans (.swap _ _ _)
      next hgt => exact absurd (name_eq_of_not_lt hlt hgt).symm hd

theorem entries_foldl_insert_perm {t : Table α} {l : List (String × α)}
    (h : ((t.entries ++ l).map (·.1)).Nodup) :
    (l.foldl (fun t e => t.insert e.1 e.2) t).entries.Perm (t.entries ++ l) := by
  induction l generalizing t with
  | nil => simp
  | cons e rest ih =>
    have fresh : ∀ d ∈ t.entries, d.1 ≠ e.1 := by
      intro d hd
      rw [List.map_append, List.nodup_append] at h
      exact h.2.2 d.1 (List.mem_map_of_mem hd) e.1 (List.mem_map_of_mem List.mem_cons_self)
    have inserted : (t.insert e.1 e.2).entries.Perm (e :: t.entries) := put_perm fresh
    have reordered : ((t.insert e.1 e.2).entries ++ rest).Perm (t.entries ++ e :: rest) :=
      (inserted.append_right rest).trans List.perm_middle.symm
    exact (ih ((reordered.map _).nodup_iff.2 h)).trans reordered

/-- A table filled from pairs with different names holds just the pairs. -/
theorem entries_ofList_perm {l : List (String × α)} (h : (l.map (·.1)).Nodup) :
    (ofList l).entries.Perm l :=
  entries_foldl_insert_perm (t := ∅) h

end Table

namespace OrderEvent

variable {ms ns : List (String × Value)} {e : OrderEvent}

theorem soleMember?_eq_some_iff {name : String} {v : Value} :
    soleMember? ms name = some v ↔ (ms.filter fun m => m.1 = name) = [(name, v)] := by
  unfold soleMember?
  split
  next m hm =>
    have named : m.1 = name := by
      have : m ∈ ms.filter fun m => m.1 = name := hm ▸ List.mem_singleton_self m
      simpa using (List.mem_filter.1 this).2
    obtain ⟨n, w⟩ := m
    obtain rfl : n = name := named
    simp [hm]
  next hno => exact iff_of_false (by simp) fun h => hno _ h

theorem soleMember?_perm (h : ms.Perm ns) (name : String) :
    soleMember? ms name = soleMember? ns name := by
  ext v
  have same := h.filter fun m => decide (m.1 = name)
  rw [soleMember?_eq_some_iff, soleMember?_eq_some_iff]
  constructor <;> intro hsole <;> rw [hsole] at same
  · exact List.perm_singleton.1 same.symm
  · exact List.perm_singleton.1 same

theorem soleMember?_cons_of_ne {name other : String} (h : other ≠ name) (v : Value) :
    soleMember? ((other, v) :: ms) name = soleMember? ms name := by
  unfold soleMember?
  rw [List.filter_cons_of_neg (by simpa using h)]

theorem soleMember?_cons_self {name : String} {v w : Value} :
    soleMember? ((name, v) :: ms) name = some w ↔
      v = w ∧ (ms.filter fun m => m.1 = name) = [] := by
  rw [soleMember?_eq_some_iff, List.filter_cons_of_pos (by simp)]
  simp

/-- Members describe an event: the tag of its kind, its fields, and each of them once. -/
structure Describe (ms : List (String × Value)) (e : OrderEvent) : Prop where
  tag : soleMember? ms "type" = some (.string e.kind.tag)
  eventId : ∃ s, soleMember? ms "event_id" = some (.string s) ∧ e.eventId.Spelling s.toList
  orderId : ∃ s, soleMember? ms "order_id" = some (.string s) ∧ e.orderId.Spelling s.toList
  detail : soleMember? ms e.kind.detailName = some (.string e.detail)

theorem ofTag?_eq_some_iff {tag : String} {k : Kind} :
    Kind.ofTag? tag = some k ↔ tag = k.tag := by
  constructor
  · intro h
    simpa [eq_comm] using List.find?_some h
  · rintro rfl
    cases k <;> rfl

theorem uuid?_eq_some_iff {v : Value} {u : Uuid} : v.string?.bind Uuid.read? = some u ↔
    ∃ s, v = .string s ∧ u.Spelling s.toList := by
  simp only [Option.bind_eq_some_iff, Value.string?_eq_some_iff, Uuid.read?_eq_some_iff]

theorem ofFields?_eq_some_iff {kind : Kind} {a b c : Value} :
    ofFields? kind a b c = some e ↔ kind = e.kind ∧
      (∃ s, a = .string s ∧ e.eventId.Spelling s.toList) ∧
      (∃ s, b = .string s ∧ e.orderId.Spelling s.toList) ∧ c = .string e.detail := by
  obtain ⟨kind', eventId, orderId, detail⟩ := e
  rw [← uuid?_eq_some_iff, ← uuid?_eq_some_iff, ← Value.string?_eq_some_iff]
  unfold ofFields?
  cases a.string?.bind Uuid.read? <;> cases b.string?.bind Uuid.read? <;> cases c.string? <;>
    simp

/-- Members read as an event if they describe it. -/
theorem ofMembers?_eq_some_iff : ofMembers? ms = some e ↔ Describe ms e := by
  simp only [ofMembers?, Option.bind_eq_bind, Option.bind_eq_some_iff, Value.string?_eq_some_iff,
    ofTag?_eq_some_iff, ofFields?_eq_some_iff]
  constructor
  · rintro ⟨_, htag, kind, ⟨_, rfl, rfl⟩, a, ha, b, hb, c, hc, rfl, ⟨s, rfl, hs⟩, ⟨t, rfl, ht⟩, rfl⟩
    exact ⟨htag, ⟨s, ha, hs⟩, ⟨t, hb, ht⟩, hc⟩
  · rintro ⟨htag, ⟨s, hs, heventId⟩, ⟨t, ht, horderId⟩, hdetail⟩
    exact ⟨_, htag, _, ⟨_, rfl, rfl⟩, _, hs, _, ht, _, hdetail, rfl, ⟨s, rfl, heventId⟩,
      ⟨t, rfl, horderId⟩, rfl⟩

/-! ## What an event is read from -/

namespace Kind

/-- The names of the members that events of a kind are made of. -/
def memberNames (k : Kind) : List String := ["type", "event_id", "order_id", k.detailName]

end Kind

/-- Members written differently for events of one kind: in another order, with or without a member
that these events do not have, or with another spelling of a UUID. -/
inductive Rewritten (kind : Kind) : List (String × Value) → List (String × Value) → Prop where
  | order {ms ns : List (String × Value)} : ms.Perm ns → Rewritten kind ms ns
  | unknown {name : String} (v : Value) (ms : List (String × Value)) :
      name ∉ kind.memberNames → Rewritten kind ms ((name, v) :: ms)
  | spelling {name : String} {u : Uuid} {s t : String} (ms : List (String × Value)) :
      name = "event_id" ∨ name = "order_id" → u.Spelling s.toList → u.Spelling t.toList →
      Rewritten kind ((name, .string s) :: ms) ((name, .string t) :: ms)
  | symm {ms ns : List (String × Value)} : Rewritten kind ms ns → Rewritten kind ns ms
  | trans {ms ns ls : List (String × Value)} :
      Rewritten kind ms ns → Rewritten kind ns ls → Rewritten kind ms ls

theorem Describe.perm (d : Describe ms e) (h : ms.Perm ns) : Describe ns e where
  tag := by rw [← soleMember?_perm h, d.tag]
  eventId := by simpa only [soleMember?_perm h] using d.eventId
  orderId := by simpa only [soleMember?_perm h] using d.orderId
  detail := by rw [← soleMember?_perm h, d.detail]

theorem describe_unknown {name : String} {v : Value} (h : name ∉ e.kind.memberNames) :
    Describe ((name, v) :: ms) e ↔ Describe ms e := by
  simp only [Kind.memberNames, List.mem_cons, List.not_mem_nil, or_false, not_or] at h
  obtain ⟨h1, h2, h3, h4⟩ := h
  have skip : ∀ {other : String}, name ≠ other →
      soleMember? ((name, v) :: ms) other = soleMember? ms other :=
    fun hne => soleMember?_cons_of_ne hne v
  constructor
  · rintro ⟨htag, heventId, horderId, hdetail⟩
    rw [skip h1] at htag
    rw [skip h4] at hdetail
    simp only [skip h2, skip h3] at heventId horderId
    exact ⟨htag, heventId, horderId, hdetail⟩
  · rintro ⟨htag, heventId, horderId, hdetail⟩
    refine ⟨?_, ?_, ?_, ?_⟩
    · rw [skip h1, htag]
    · simpa only [skip h2] using heventId
    · simpa only [skip h3] using horderId
    · rw [skip h4, hdetail]

theorem Describe.respell {name s t : String} {u : Uuid}
    (d : Describe ((name, .string s) :: ms) e) (hname : name = "event_id" ∨ name = "order_id")
    (hs : u.Spelling s.toList) (ht : u.Spelling t.toList) :
    Describe ((name, .string t) :: ms) e := by
  have keep : ∀ {other : String} {v : Value}, name ≠ other →
      soleMember? ((name, .string s) :: ms) other = some v →
      soleMember? ((name, .string t) :: ms) other = some v := fun hne h => by
    rwa [soleMember?_cons_of_ne hne] at h ⊢
  have respelt : ∀ {v : Uuid},
      (∃ r, soleMember? ((name, .string s) :: ms) name = some (.string r) ∧ v.Spelling r.toList) →
      ∃ r, soleMember? ((name, .string t) :: ms) name = some (.string r) ∧ v.Spelling r.toList := by
    rintro v ⟨r, hr, hv⟩
    obtain ⟨hsr, hno⟩ := soleMember?_cons_self.1 hr
    obtain rfl : s = r := Value.string.inj hsr
    have same : u = v := Option.some.inj
      ((Uuid.read?_eq_some_iff.2 hs).symm.trans (Uuid.read?_eq_some_iff.2 hv))
    exact ⟨t, soleMember?_cons_self.2 ⟨rfl, hno⟩, same ▸ ht⟩
  have notTag : name ≠ "type" := by obtain rfl | rfl := hname <;> decide
  have notDetail : name ≠ e.kind.detailName := by
    obtain rfl | rfl := hname <;> cases e.kind <;> decide
  refine ⟨keep notTag d.tag, ?_, ?_, keep notDetail d.detail⟩
  · obtain rfl | rfl := hname
    · exact respelt d.eventId
    · obtain ⟨r, hr, hv⟩ := d.eventId
      exact ⟨r, keep (by decide) hr, hv⟩
  · obtain rfl | rfl := hname
    · obtain ⟨r, hr, hv⟩ := d.orderId
      exact ⟨r, keep (by decide) hr, hv⟩
    · exact respelt d.orderId

/-- How its members are written makes no difference to the event. -/
theorem Rewritten.describe (h : Rewritten e.kind ms ns) : Describe ms e ↔ Describe ns e := by
  induction h with
  | order hperm => exact ⟨fun d => d.perm hperm, fun d => d.perm hperm.symm⟩
  | unknown v ms hname => exact (describe_unknown hname).symm
  | spelling ms hname hs ht =>
    exact ⟨fun d => d.respell hname hs ht, fun d => d.respell hname ht hs⟩
  | symm _ ih => exact ih.symm
  | trans _ _ ih ih' => exact ih.trans ih'

/-! ## What is written for an event -/

theorem describe_members (e : OrderEvent) : Describe e.members e := by
  have written : ∀ u : Uuid, u.Spelling u.text.toList := fun u =>
    Uuid.read?_eq_some_iff.1 u.read?_text
  obtain ⟨kind, eventId, orderId, detail⟩ := e
  cases kind <;> exact ⟨rfl, ⟨_, rfl, written eventId⟩, ⟨_, rfl, written orderId⟩, rfl⟩

theorem nodup_members (e : OrderEvent) : (e.members.map (·.1)).Nodup := by
  obtain ⟨kind, eventId, orderId, detail⟩ := e
  cases kind <;> simp [members, Kind.detailName]

/-- A text that is an object with these members, nested no deeper than the reader goes. -/
def Holds (text : String) (ms : List (String × Value)) : Prop :=
  ∃ ds, Document.read? text = some (.object ds) ∧ (Document.object ds).depth ≤ maxDepth ∧
    Document.memberValues? ds = some ms

theorem read?_of_holds {text : String} (h : Holds text ms) : read? text = ofMembers? ms := by
  obtain ⟨ds, hread, hdepth, hvalues⟩ := h
  rw [read?, hread, Option.bind_some, ofDocument?, if_pos hdepth]
  exact (congrArg (·.bind ofMembers?) hvalues).trans rfl

theorem depth_of_string {d : Document} {s : String} (h : d.value? = some (.string s)) :
    d.depth = 0 := by
  cases d with
  | array items =>
    obtain ⟨vs, -, h⟩ := Option.map_eq_some_iff.1 h
    cases h
  | object members =>
    obtain ⟨vs, -, h⟩ := Option.map_eq_some_iff.1 h
    cases h
  | _ => rfl

theorem membersDepth_of_strings {ds : List (List Json.Piece × Document)}
    (hvalues : Document.memberValues? ds = some ms) (h : ∀ m ∈ ms, ∃ s, m.2 = .string s) :
    Document.membersDepth ds = 0 := by
  induction ds generalizing ms with
  | nil => rfl
  | cons d ds ih =>
    obtain ⟨k, d⟩ := d
    rw [Document.memberValues?] at hvalues
    split at hvalues
    next name v rest hname hvalue hrest =>
      obtain rfl := Option.some.inj hvalues
      obtain ⟨s, rfl⟩ := h _ List.mem_cons_self
      have tail := ih hrest fun m hm => h m (List.mem_cons_of_mem _ hm)
      rw [Document.membersDepth, depth_of_string hvalue, tail]
      rfl
    next => cases hvalues

theorem integral_of_strings (h : ∀ m ∈ ms, ∃ s, m.2 = .string s) : Value.IntegralMembers ms := by
  induction ms with
  | nil => trivial
  | cons m rest ih =>
    obtain ⟨s, hs⟩ := h m List.mem_cons_self
    exact ⟨hs ▸ trivial, ih fun m hm => h m (List.mem_cons_of_mem _ hm)⟩

theorem ordered_of_strings (h : ∀ m ∈ ms, ∃ s, m.2 = .string s) : Value.OrderedMembers ms := by
  induction ms with
  | nil => trivial
  | cons m rest ih =>
    obtain ⟨s, hs⟩ := h m List.mem_cons_self
    exact ⟨hs ▸ trivial, ih fun m hm => h m (List.mem_cons_of_mem _ hm)⟩

/-- An object of strings reads back with its members in order. -/
theorem holds_textOfMembers (h : ∀ m ∈ ms, ∃ s, m.2 = .string s) :
    Holds (Json.textOfMembers ms) ms := by
  obtain ⟨ds, hread, hvalues⟩ :=
    Document.read?_textOfMembers (integral_of_strings h) (ordered_of_strings h)
  refine ⟨ds, hread, ?_, hvalues⟩
  rw [Document.depth, membersDepth_of_strings hvalues h]
  decide

theorem strings_members (e : OrderEvent) : ∀ m ∈ e.members, ∃ s, m.2 = .string s := by
  simp [members]

/-- The members of the event as a value, in ascending order of their names. -/
def sortedMembers (e : OrderEvent) : List (String × Value) := (Table.ofList e.members).entries

theorem sortedMembers_perm (e : OrderEvent) : e.sortedMembers.Perm e.members :=
  Table.entries_ofList_perm e.nodup_members

theorem describe_sortedMembers (e : OrderEvent) : Describe e.sortedMembers e :=
  e.describe_members.perm e.sortedMembers_perm.symm

theorem holds_toValue (e : OrderEvent) : Holds e.toValue.text e.sortedMembers :=
  holds_textOfMembers fun m hm => e.strings_members m (e.sortedMembers_perm.mem_iff.1 hm)

theorem read?_toValue (e : OrderEvent) : read? e.toValue.text = some e :=
  (read?_of_holds e.holds_toValue).trans (ofMembers?_eq_some_iff.2 e.describe_sortedMembers)

theorem read?_text (e : OrderEvent) : read? e.text = some e :=
  (read?_of_holds (holds_textOfMembers e.strings_members)).trans
    (ofMembers?_eq_some_iff.2 e.describe_members)

end OrderEvent

/-- A body from which a consumer reads the event. -/
def Body.Carries (b : Body) (e : OrderEvent) : Prop := b.text?.bind OrderEvent.read? = some e

namespace OrderEvent

variable {ms : List (String × Value)} {e : OrderEvent}

/-- The body that is made of the event as a value carries the event. -/
theorem encode_toValue (e : OrderEvent) : ∃ body, Body.encode e.toValue = .ok body ∧
    body.Carries e :=
  ⟨_, rfl, by rw [Body.Carries, Body.text?_toUTF8, Option.bind_some, read?_toValue]⟩

/-- The body that is made of the event's text carries the event. -/
theorem encode_text (e : OrderEvent) : ∃ body, Body.encode (.string e.text) = .ok body ∧
    body.Carries e :=
  ⟨_, rfl, by rw [Body.Carries, Body.text?_toUTF8, Option.bind_some, read?_text]⟩

theorem member?_toValue {name : String} {v : Value} (h : (name, v) ∈ e.members) :
    e.toValue.member? name = some v :=
  Table.mem_entries_iff.1 (e.sortedMembers_perm.mem_iff.2 h)

theorem ofValue?_object : ofValue? (.object ms) = some e ↔ Describe ms e := ofMembers?_eq_some_iff

/-- Whatever is written for an event reads back as the event, and its UUIDs are written in canonical
form. How the members of an object are written makes no difference to the event that is read from
it, as a value or as a text. -/
theorem survives_wire (e : OrderEvent) :
    (ofValue? e.toValue = some e ∧
      (∃ body, Body.encode e.toValue = .ok body ∧ body.Carries e) ∧ read? e.text = some e ∧
      ∃ body, Body.encode (.string e.text) = .ok body ∧ body.Carries e) ∧
    (e.toValue.member? "event_id" = some (.string e.eventId.text) ∧
      e.toValue.member? "order_id" = some (.string e.orderId.text) ∧
      Holds e.toValue.text e.sortedMembers ∧ Holds e.text e.members ∧
      Uuid.Canonical e.eventId.text.toList ∧ Uuid.Canonical e.orderId.text.toList) ∧
    ∀ ms ns, Rewritten e.kind ms ns →
      (ofValue? (.object ms) = some e ↔ ofValue? (.object ns) = some e) ∧
      ∀ text, Holds text ns → (read? text = some e ↔ ofValue? (.object ms) = some e) := by
  refine ⟨⟨ofValue?_object.2 e.describe_sortedMembers, e.encode_toValue, e.read?_text,
      e.encode_text⟩,
    ⟨member?_toValue (by simp [members]), member?_toValue (by simp [members]), e.holds_toValue,
      holds_textOfMembers e.strings_members, e.eventId.canonical_text, e.orderId.canonical_text⟩,
    fun ms ns h => ⟨?_, fun text holds => ?_⟩⟩
  · rw [ofValue?_object, ofValue?_object]
    exact h.describe
  · rw [read?_of_holds holds, ofMembers?_eq_some_iff, ofValue?_object]
    exact h.describe.symm

/-- An event read from members in another order, with another spelling and with a member more. -/
theorem survives_wire_respelt :
    ofValue? (.object [("note", .null), ("event_id", .string "0000000000000000000000000000000B"),
      ("type", .string "delivered"), ("order_id", .string (Uuid.text ⟨12, by decide⟩)),
      ("delivered_at", .string "noon")])
      = some ⟨.delivered, ⟨11, by decide⟩, ⟨12, by decide⟩, "noon"⟩ := by
  let e : OrderEvent := ⟨.delivered, ⟨11, by decide⟩, ⟨12, by decide⟩, "noon"⟩
  have written : e.eventId.Spelling e.eventId.text.toList :=
    Uuid.read?_eq_some_iff.1 e.eventId.read?_text
  have row : e.eventId.Spelling "0000000000000000000000000000000B".toList :=
    Uuid.read?_eq_some_iff.1 (by decide)
  have fresh : "note" ∉ e.kind.memberNames := by decide
  have rewritten : Rewritten e.kind e.members _ :=
    .trans (.order (.swap _ _ _)) (.trans (.spelling _ (.inl rfl) written row)
      (.unknown .null _ fresh))
  exact ((survives_wire e).2.2 _ _ rewritten).1.1 (ofValue?_object.2 e.describe_members)

end OrderEvent

end Courier
