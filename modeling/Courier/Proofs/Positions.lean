import Courier.Table

/-!
# First and last items

`FirstOf P l x` and `LastOf P l x`: of the items of `l` that have the property `P`, the first or the
last is `x`. A search finds the first (`find?_eq_some_iff_firstOf`), and a table filled from writes
holds the last write of each name (`Table.get?_ofList_eq_some_iff`).
-/

namespace Courier

variable {α β : Type} {P Q : α → Prop} {l : List α} {a x y : α}

/-- The first item of a list that has a property. -/
def FirstOf (P : α → Prop) (l : List α) (x : α) : Prop :=
  ∃ before after, l = before ++ x :: after ∧ P x ∧ ∀ y ∈ before, ¬ P y

/-- The last item of a list that has a property. -/
def LastOf (P : α → Prop) (l : List α) (x : α) : Prop :=
  ∃ before after, l = before ++ x :: after ∧ P x ∧ ∀ y ∈ after, ¬ P y

theorem FirstOf.mem (h : FirstOf P l x) : x ∈ l := by
  obtain ⟨before, after, rfl, -⟩ := h
  simp

theorem FirstOf.holds (h : FirstOf P l x) : P x := by
  obtain ⟨before, after, -, hx, -⟩ := h
  exact hx

theorem firstOf_cons : FirstOf P (a :: l) x ↔ P a ∧ x = a ∨ ¬ P a ∧ FirstOf P l x := by
  constructor
  · rintro ⟨before, after, hl, hx, hb⟩
    cases before with
    | nil =>
      obtain ⟨rfl, -⟩ := List.cons.inj hl
      exact .inl ⟨hx, rfl⟩
    | cons b before =>
      obtain ⟨rfl, rfl⟩ := List.cons.inj hl
      exact .inr ⟨hb a List.mem_cons_self, before, after, rfl, hx,
        fun y hy => hb y (List.mem_cons_of_mem _ hy)⟩
  · rintro (⟨ha, rfl⟩ | ⟨ha, before, after, rfl, hx, hb⟩)
    · exact ⟨[], l, rfl, ha, fun y hy => absurd hy List.not_mem_nil⟩
    · refine ⟨a :: before, after, rfl, hx, fun y hy => ?_⟩
      obtain rfl | hy := List.mem_cons.1 hy
      · exact ha
      · exact hb y hy

theorem find?_eq_some_iff_firstOf {p : α → Bool} (h : ∀ x, p x = true ↔ P x) :
    l.find? p = some x ↔ FirstOf P l x := by
  rw [List.find?_eq_some_iff_append]
  constructor
  · rintro ⟨hx, before, after, hl, hb⟩
    refine ⟨before, after, hl, (h x).1 hx, fun y hy hP => ?_⟩
    simpa [(h y).2 hP] using hb y hy
  · rintro ⟨before, after, hl, hx, hb⟩
    refine ⟨(h x).2 hx, before, after, hl, fun y hy => ?_⟩
    simpa using mt (h y).1 (hb y hy)

/-- A search that reads items of one form finds what the first of them says. -/
theorem findSome?_eq_some_iff_firstOf {γ : Type} {f : α → Option β} {form : γ → α} {g : γ → β}
    (h : ∀ x y, f x = some y ↔ ∃ z, x = form z ∧ g z = y) {y : β} :
    l.findSome? f = some y ↔
      ∃ z, FirstOf (fun x => ∃ z, x = form z) l (form z) ∧ g z = y := by
  rw [List.findSome?_eq_some_iff]
  constructor
  · rintro ⟨before, x, after, rfl, hx, hb⟩
    obtain ⟨z, rfl, hz⟩ := (h x y).1 hx
    refine ⟨z, ⟨before, after, rfl, ⟨z, rfl⟩, fun b hmem => ?_⟩, hz⟩
    rintro ⟨z', rfl⟩
    exact absurd ((hb _ hmem).symm.trans ((h _ _).2 ⟨z', rfl, rfl⟩)) nofun
  · rintro ⟨z, ⟨before, after, rfl, -, hb⟩, hz⟩
    refine ⟨before, form z, after, rfl, (h _ _).2 ⟨z, rfl, hz⟩, fun b hmem => ?_⟩
    refine Option.eq_none_iff_forall_ne_some.2 fun y' hy' => ?_
    obtain ⟨z', hz', -⟩ := (h b y').1 hy'
    exact hb b hmem ⟨z', hz'⟩

theorem exists_firstOf_iff : (∃ x, FirstOf P l x) ↔ ∃ x ∈ l, P x := by
  classical
  constructor
  · rintro ⟨x, h⟩
    exact ⟨x, h.mem, h.holds⟩
  · rintro ⟨x, hx, hP⟩
    obtain ⟨y, hy⟩ := Option.isSome_iff_exists.1
      (List.find?_isSome.2 ⟨x, hx, decide_eq_true hP⟩ : (l.find? fun x => decide (P x)).isSome)
    exact ⟨y, (find?_eq_some_iff_firstOf fun x => decide_eq_true_iff).1 hy⟩

theorem FirstOf.unique (hx : FirstOf P l x) (hy : FirstOf P l y) : x = y := by
  classical
  have found {z : α} : FirstOf P l z → l.find? (fun x => decide (P x)) = some z :=
    (find?_eq_some_iff_firstOf fun x => decide_eq_true_iff).2
  exact Option.some.inj ((found hx).symm.trans (found hy))

/-- The last item is the first one from behind. -/
theorem lastOf_iff_reverse : LastOf P l x ↔ FirstOf P l.reverse x := by
  constructor
  · rintro ⟨before, after, rfl, hx, hb⟩
    exact ⟨after.reverse, before.reverse, by simp, hx, fun y hy => hb y (List.mem_reverse.1 hy)⟩
  · rintro ⟨before, after, hl, hx, hb⟩
    refine ⟨after.reverse, before.reverse, ?_, hx, fun y hy => hb y (List.mem_reverse.1 hy)⟩
    rw [← List.reverse_reverse l, hl]
    simp

theorem LastOf.mem (h : LastOf P l x) : x ∈ l :=
  List.mem_reverse.1 (lastOf_iff_reverse.1 h).mem

theorem LastOf.holds (h : LastOf P l x) : P x := (lastOf_iff_reverse.1 h).holds

theorem lastOf_concat : LastOf P (l ++ [a]) x ↔ P a ∧ x = a ∨ ¬ P a ∧ LastOf P l x := by
  simp only [lastOf_iff_reverse, List.reverse_append, List.reverse_singleton, List.singleton_append,
    firstOf_cons]

theorem LastOf.unique (hx : LastOf P l x) (hy : LastOf P l y) : x = y :=
  (lastOf_iff_reverse.1 hx).unique (lastOf_iff_reverse.1 hy)

theorem exists_lastOf_iff : (∃ x, LastOf P l x) ↔ ∃ x ∈ l, P x := by
  simp only [lastOf_iff_reverse, exists_firstOf_iff, List.mem_reverse]

theorem FirstOf.congr (h : FirstOf P l x) (same : ∀ y ∈ l, P y ↔ Q y) : FirstOf Q l x := by
  obtain ⟨before, after, rfl, hx, hb⟩ := h
  exact ⟨before, after, rfl, (same x (by simp)).1 hx,
    fun y hy hQ => hb y hy ((same y (List.mem_append_left _ hy)).2 hQ)⟩

theorem lastOf_congr (same : ∀ y ∈ l, P y ↔ Q y) : LastOf P l x ↔ LastOf Q l x := by
  rw [lastOf_iff_reverse, lastOf_iff_reverse]
  have same' : ∀ y ∈ l.reverse, P y ↔ Q y := fun y hy => same y (List.mem_reverse.1 hy)
  exact ⟨fun h => h.congr same', fun h => h.congr fun y hy => (same' y hy).symm⟩

theorem firstOf_filterMap {R : β → Prop} {f : α → Option β} {y : β} :
    FirstOf R (l.filterMap f) y ↔
      ∃ x, FirstOf (fun x => ∃ y, f x = some y ∧ R y) l x ∧ f x = some y := by
  induction l with
  | nil => exact ⟨fun h => absurd h.mem List.not_mem_nil,
      fun ⟨x, h, _⟩ => absurd h.mem List.not_mem_nil⟩
  | cons a l ih =>
    cases ha : f a with
    | none => simp [List.filterMap_cons_none ha, ih, firstOf_cons, ha]
    | some b =>
      rw [List.filterMap_cons_some ha, firstOf_cons, ih]
      by_cases hb : R b
      · simp [firstOf_cons, ha, hb, eq_comm]
      · simp [firstOf_cons, ha, hb]

theorem lastOf_filterMap {R : β → Prop} {f : α → Option β} {y : β} :
    LastOf R (l.filterMap f) y ↔
      ∃ x, LastOf (fun x => ∃ y, f x = some y ∧ R y) l x ∧ f x = some y := by
  simp only [lastOf_iff_reverse, ← List.filterMap_reverse, firstOf_filterMap]

/-- A filter that drops only items that map to nothing is not noticed. -/
theorem filterMap_filter_of_none {f : α → Option β} {keep : α → Bool}
    (h : ∀ x, keep x = false → f x = none) : (l.filter keep).filterMap f = l.filterMap f := by
  rw [List.filterMap_filter]
  refine congrArg (List.filterMap · l) (funext fun x => ?_)
  cases hx : keep x with
  | true => rfl
  | false => exact (h x hx).symm

/-- In an ascending list the first item is the least. -/
theorem firstOf_iff_of_sorted {lt : α → α → Prop} (asymm : ∀ x y, lt x y → ¬ lt y x)
    (sorted : l.Pairwise lt) : FirstOf P l x ↔ x ∈ l ∧ P x ∧ ∀ y ∈ l, P y → y = x ∨ lt x y := by
  constructor
  · intro h
    obtain ⟨before, after, rfl, hx, hb⟩ := id h
    refine ⟨h.mem, hx, fun y hy hP => ?_⟩
    obtain hy | hy := List.mem_append.1 hy
    · exact absurd hP (hb y hy)
    · exact (List.mem_cons.1 hy).imp_right fun hy =>
        (List.pairwise_cons.1 (List.pairwise_append.1 sorted).2.1).1 y hy
  · rintro ⟨hmem, hx, least⟩
    obtain ⟨before, after, rfl⟩ := List.append_of_mem hmem
    refine ⟨before, after, rfl, hx, fun y hy hP => ?_⟩
    have hyx : lt y x := (List.pairwise_append.1 sorted).2.2 y hy x List.mem_cons_self
    obtain rfl | hxy := least y (List.mem_append_left _ hy) hP
    · exact asymm y y hyx hyx
    · exact asymm x y hxy hyx

/-- A key that occurs once occurs last where it occurs. -/
theorem lastOf_iff_mem {key : α → β} {b : β} (h : (l.map key).Nodup) :
    LastOf (fun x => key x = b) l x ↔ x ∈ l ∧ key x = b := by
  constructor
  · exact fun hx => ⟨hx.mem, hx.holds⟩
  · rintro ⟨hmem, rfl⟩
    obtain ⟨before, after, rfl⟩ := List.append_of_mem hmem
    refine ⟨before, after, rfl, rfl, fun y hy hk => ?_⟩
    rw [List.map_append, List.map_cons, List.nodup_append, List.nodup_cons] at h
    exact h.2.1.1 (hk ▸ List.mem_map_of_mem hy)

/-- A table filled from writes holds the last write of each name. -/
theorem Table.get?_ofList_eq_some_iff {writes : List (String × α)} {name : String} {v : α} :
    (ofList writes).get? name = some v ↔ LastOf (fun w => w.1 = name) writes (name, v) := by
  have found {w : String × α} : writes.reverse.find? (fun w => decide (w.1 = name)) = some w ↔
      LastOf (fun w => w.1 = name) writes w := by
    rw [lastOf_iff_reverse, find?_eq_some_iff_firstOf fun w => decide_eq_true_iff]
  rw [get?_ofList, lastWrite, Option.map_eq_some_iff]
  constructor
  · rintro ⟨⟨key, w⟩, hw, rfl⟩
    obtain rfl : key = name := (found.1 hw).holds
    exact found.1 hw
  · exact fun h => ⟨_, found.2 h, rfl⟩

end Courier
