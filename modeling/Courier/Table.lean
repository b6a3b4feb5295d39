/-!
# Tables: finite maps from names

A table is the list of its entries in strictly ascending order of names, so two tables with the
same content are equal and every listing of a table is in name order. Names are compared by code
point, which is the order of their UTF-8 bytes. The view of a table is `Table.get?`; the entry
points are `Table.get?_insert`, `Table.get?_ofList` (the last write of a name wins) and
`Table.ext_get?`.
-/

namespace Courier

/-- A finite map from names: its entries, in strictly ascending order of names. -/
structure Table (α : Type) where
  entries : List (String × α)
  sorted : entries.Pairwise fun a b => a.1 < b.1

namespace Table

variable {α : Type}

/-- The table without entries. -/
def empty : Table α := ⟨[], .nil⟩

instance : EmptyCollection (Table α) := ⟨empty⟩

instance : Inhabited (Table α) := ⟨empty⟩

/-- Writes a value at a name into ascending entries, replacing what stood there. -/
def put (name : String) (value : α) : List (String × α) → List (String × α)
  | [] => [(name, value)]
  | e :: rest =>
    if name < e.1 then (name, value) :: e :: rest
    else if e.1 < name then e :: put name value rest
    else (name, value) :: rest

theorem mem_put {name : String} {value : α} {l : List (String × α)} {e : String × α}
    (h : e ∈ put name value l) : e = (name, value) ∨ e ∈ l := by
  induction l with
  | nil => simpa [put] using h
  | cons d rest ih =>
    unfold put at h
    split at h
    · simpa using h
    · split at h
      · rcases List.mem_cons.1 h with h | h
        · exact .inr (h ▸ List.mem_cons_self)
        · exact (ih h).imp_right (List.mem_cons_of_mem _)
      · exact (List.mem_cons.1 h).imp_right (List.mem_cons_of_mem _)

/-- Two names of which neither comes first are the same name. -/
theorem name_eq_of_not_lt {a b : String} (h : ¬ a < b) (h' : ¬ b < a) : a = b :=
  String.le_antisymm (String.not_lt.1 h') (String.not_lt.1 h)

theorem sorted_put {name : String} {value : α} {l : List (String × α)}
    (h : l.Pairwise fun a b => a.1 < b.1) :
    (put name value l).Pairwise fun a b => a.1 < b.1 := by
  induction l with
  | nil => simp [put]
  | cons d rest ih =>
    obtain ⟨hd, hrest⟩ := List.pairwise_cons.1 h
    unfold put
    split
    next hlt =>
      refine List.pairwise_cons.2 ⟨fun e he => ?_, h⟩
      rcases List.mem_cons.1 he with rfl | he
      · exact hlt
      · exact String.lt_trans hlt (hd e he)
    next hlt =>
      split
      next hgt =>
        refine List.pairwise_cons.2 ⟨fun e he => ?_, ih hrest⟩
        rcases mem_put he with rfl | he
        · exact hgt
        · exact hd e he
      next hgt =>
        refine List.pairwise_cons.2 ⟨fun e he => ?_, hrest⟩
        rw [name_eq_of_not_lt hlt hgt]
        exact hd e he

/-- The table with `value` at `name`, in place of what stood there. -/
def insert (t : Table α) (name : String) (value : α) : Table α :=
  ⟨put name value t.entries, sorted_put t.sorted⟩

/-- The value of the first entry with a name. -/
def find? (name : String) : List (String × α) → Option α
  | [] => none
  | e :: rest => if e.1 = name then some e.2 else find? name rest

/-- The value at a name. -/
def get? (t : Table α) (name : String) : Option α := find? name t.entries

/-- Whether a name has a value. -/
def contains (t : Table α) (name : String) : Bool := (t.get? name).isSome

/-- The table filled by writing the pairs from first to last. -/
def ofList (pairs : List (String × α)) : Table α :=
  pairs.foldl (fun t e => t.insert e.1 e.2) ∅

@[simp] theorem get?_empty (name : String) : (∅ : Table α).get? name = none := rfl

theorem find?_eq_none {name : String} {l : List (String × α)} (h : ∀ e ∈ l, e.1 ≠ name) :
    find? name l = none := by
  induction l with
  | nil => rfl
  | cons d rest ih =>
    rw [find?, if_neg (h d List.mem_cons_self), ih fun e he => h e (List.mem_cons_of_mem _ he)]

theorem find?_put {l : List (String × α)} (h : l.Pairwise fun a b => a.1 < b.1) (name : String)
    (value : α) (key : String) :
    find? key (put name value l) = if name = key then some value else find? key l := by
  induction l with
  | nil => rfl
  | cons d rest ih =>
    obtain ⟨hd, hrest⟩ := List.pairwise_cons.1 h
    unfold put
    split
    · rfl
    next hlt =>
      split
      next hgt =>
        rw [find?, ih hrest, find?]
        by_cases hk : d.1 = key
        · rw [if_pos hk, if_pos hk, if_neg]
          exact fun hn => String.lt_irrefl name (by rwa [hk, ← hn] at hgt)
        · rw [if_neg hk, if_neg hk]
      next hgt =>
        have hn := name_eq_of_not_lt hlt hgt
        simp only [find?, hn]
        split <;> rfl

theorem get?_insert (t : Table α) (name : String) (value : α) (key : String) :
    (t.insert name value).get? key = if name = key then some value else t.get? key :=
  find?_put t.sorted name value key

/-- What is written at a name by a list of writes: the last of them. -/
def lastWrite (pairs : List (String × α)) (key : String) : Option α :=
  (pairs.reverse.find? fun e => e.1 = key).map (·.2)

theorem get?_foldl_insert (pairs : List (String × α)) (t : Table α) (key : String) :
    (pairs.foldl (fun t e => t.insert e.1 e.2) t).get? key
      = (lastWrite pairs key).or (t.get? key) := by
  induction pairs generalizing t with
  | nil => simp [lastWrite]
  | cons e rest ih =>
    rw [List.foldl_cons, ih, get?_insert]
    simp only [lastWrite, List.reverse_cons, List.find?_append, List.find?_singleton]
    by_cases hk : e.1 = key <;>
      cases rest.reverse.find? (fun d => decide (d.1 = key)) <;> simp [hk]

/-- A table filled from a list holds the last write of each name. -/
theorem get?_ofList (pairs : List (String × α)) (key : String) :
    (ofList pairs).get? key = lastWrite pairs key := by
  simp [ofList, get?_foldl_insert]

/-- A name that is written at most once holds the only value written for it. -/
theorem lastWrite_eq_find? {pairs : List (String × α)} {key : String}
    (h : (pairs.countP fun e => e.1 = key) ≤ 1) : lastWrite pairs key = find? key pairs := by
  induction pairs with
  | nil => rfl
  | cons e rest ih =>
    rw [lastWrite, List.reverse_cons, List.find?_append, find?]
    by_cases he : e.1 = key
    · rw [List.countP_cons_of_pos (by simpa using he)] at h
      have none_left : (rest.countP fun d => d.1 = key) = 0 := by omega
      have absent : rest.reverse.find? (fun d => decide (d.1 = key)) = none := by
        rw [List.find?_eq_none]
        intro d hd
        exact List.countP_eq_zero.1 none_left d (List.mem_reverse.1 hd)
      rw [absent, if_pos he]
      simp [he]
    · rw [List.countP_cons_of_neg (by simpa using he)] at h
      rw [if_neg he, ← ih h, lastWrite, List.find?_singleton, if_neg (by simpa using he),
        Option.or_none]

/-- A table has each of its names once. -/
theorem nodup_names (t : Table α) : (t.entries.map (·.1)).Nodup :=
  List.pairwise_map.2 (t.sorted.imp fun {a b} (h : a.1 < b.1) same => by
    rw [same] at h
    exact String.lt_irrefl _ h)

theorem mem_entries_iff {t : Table α} {name : String} {value : α} :
    (name, value) ∈ t.entries ↔ t.get? name = some value := by
  obtain ⟨l, h⟩ := t
  show _ ∈ l ↔ find? name l = some value
  induction l with
  | nil => simp [find?]
  | cons d rest ih =>
    obtain ⟨hd, hrest⟩ := List.pairwise_cons.1 h
    rw [List.mem_cons, find?, ih hrest]
    by_cases hk : d.1 = name
    · have hnone : find? name rest = none := by
        apply find?_eq_none
        intro e he hne
        have later := hd e he
        rw [hk, hne] at later
        exact String.lt_irrefl name later
      rw [if_pos hk, hnone]
      simp [Prod.ext_iff, hk, eq_comm]
    · rw [if_neg hk]
      simp [Prod.ext_iff, Ne.symm hk]

/-- Tables that answer every look-up alike are equal. -/
theorem ext_get? {s t : Table α} (h : ∀ name, s.get? name = t.get? name) : s = t := by
  have key : ∀ l m : List (String × α), (l.Pairwise fun a b => a.1 < b.1) →
      (m.Pairwise fun a b => a.1 < b.1) → (∀ e, e ∈ l ↔ e ∈ m) → l = m := by
    intro l m hl hm hmem
    refine List.Perm.eq_of_pairwise ?_ hl hm ?_
    · intro a b _ _ hab hba
      exact absurd hba (String.lt_asymm hab)
    · have nodup {l : List (String × α)} (h : l.Pairwise fun a b => a.1 < b.1) : l.Nodup :=
        h.imp fun {a b} hab he => by subst he; exact String.lt_irrefl _ hab
      exact (List.perm_ext_iff_of_nodup (nodup hl) (nodup hm)).2 hmem
  obtain ⟨l, hl⟩ := s
  obtain ⟨m, hm⟩ := t
  have : l = m := key l m hl hm fun e => by
    have hs : e ∈ l ↔ find? e.1 l = some e.2 := mem_entries_iff (t := ⟨l, hl⟩)
    have ht : e ∈ m ↔ find? e.1 m = some e.2 := mem_entries_iff (t := ⟨m, hm⟩)
    rw [hs, ht]
    exact iff_of_eq (congrArg (· = some e.2) (h e.1))
  subst this
  rfl

end Table

end Courier
