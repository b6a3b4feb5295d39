import Courier.Proofs.ReserveOwnership
import Mathlib.Data.List.Pairwise

/-!
# The life of a channel

What the reserve and the broker know of one channel is a `ChannelView`: its place in the reserve,
whether it is connected, and what the broker has received on it. Whatever happens in a reserve, the
view of each channel takes one `ChannelView.Step` (`act_view`), and the steps keep it lawful
(`ChannelView.Lawful.step`): a channel is opened, put in confirm mode if the settings say so, then
published on, and at last closed at most once, with the place that it is in saying which of these
have happened. `lawful` is the entry point.
-/

namespace Courier

namespace Link

variable (l : Link) (j k : ChannelKey)

@[simp] theorem isConnected_send (e : ChannelEvent) :
    (l.send j e).isConnected k = l.isConnected k := rfl

@[simp] theorem isConnected_settle (verdict : Verdict) (which : Delivery → Bool) :
    (l.settle verdict which).isConnected k = l.isConnected k := rfl

@[simp] theorem received_settle (verdict : Verdict) (which : Delivery → Bool) :
    (l.settle verdict which).received k = l.received k := rfl

@[simp] theorem received_modifyChannel (f : Channel → Channel) :
    (l.modifyChannel j f).received k = l.received k := rfl

theorem received_send (e : ChannelEvent) :
    (l.send j e).received k = l.received k ++ if j = k then [e] else [] := by
  unfold received send
  rw [List.filterMap_append]
  split
  next h => simp [h]
  next h => simp [h]

/-- A change of a channel that does not end it. -/
theorem isConnected_modifyChannel {f : Channel → Channel} (h : ∀ c, (f c).connected = c.connected) :
    (l.modifyChannel j f).isConnected k = l.isConnected k := by
  unfold isConnected modifyChannel
  rw [List.getElem?_modify]
  cases l.channels[k]? with
  | none => rfl
  | some c =>
    by_cases hj : j = k
    · simp [hj, h]
    · simp [hj]

@[simp] theorem isConnected_endChannel (fault : LinkFault) :
    (l.endChannel j fault).isConnected k = (l.isConnected k && decide (j ≠ k)) := by
  unfold endChannel
  rw [isConnected_settle]
  unfold isConnected modifyChannel
  rw [List.getElem?_modify]
  cases l.channels[k]? with
  | none => rfl
  | some c =>
    by_cases hj : j = k
    · simp [hj]
    · simp [hj]

@[simp] theorem received_endChannel (fault : LinkFault) :
    (l.endChannel j fault).received k = l.received k := rfl

@[simp] theorem isConnected_closeChannel (text : String) :
    (l.closeChannel j text).isConnected k = (l.isConnected k && decide (j ≠ k)) := by
  unfold closeChannel
  split
  · rw [isConnected_endChannel, isConnected_send]
  next h =>
    by_cases hj : j = k
    · subst hj
      simpa using h
    · simp [hj]

theorem received_closeChannel (text : String) : (l.closeChannel j text).received k =
    l.received k ++ if j = k ∧ l.isConnected j = true then [.closed 200 text] else [] := by
  unfold closeChannel
  split
  next h => simp [received_send, h]
  next h => simp [h]

@[simp] theorem isConnected_loseChannel :
    (l.loseChannel j).isConnected k = (l.isConnected k && decide (j ≠ k)) := by
  unfold loseChannel
  split
  · rw [isConnected_endChannel]
  next h =>
    by_cases hj : j = k
    · subst hj
      simpa using h
    · simp [hj]

@[simp] theorem received_loseChannel : (l.loseChannel j).received k = l.received k := by
  unfold loseChannel
  split <;> rfl

@[simp] theorem received_disconnect : l.disconnect.received k = l.received k := by
  unfold disconnect
  split
  · simp [received, settle]
  · rfl

/-- Closing an open connection ends every channel. -/
theorem isConnected_disconnect (h : l.up = true) : l.disconnect.isConnected k = false := by
  unfold disconnect
  rw [if_pos h, isConnected_settle]
  unfold isConnected
  rw [List.getElem?_map]
  cases l.channels[k]? <;> rfl

/-- A channel that is not connected stays so when the connection is closed. -/
theorem isConnected_of_disconnect (h : l.disconnect.isConnected k = true) :
    l.isConnected k = true := by
  unfold disconnect at h
  split at h
  · unfold isConnected at h
    simp only [settle, List.getElem?_map] at h
    cases hk : l.channels[k]? <;> simp [hk] at h
  · exact h

/-- Only a channel that has been opened is connected. -/
theorem lt_of_isConnected {l : Link} {k : ChannelKey} (h : l.isConnected k = true) :
    k < l.channels.length := by
  unfold isConnected at h
  cases hk : l.channels[k]? with
  | none => simp [hk] at h
  | some c => exact (List.getElem?_eq_some_iff.1 hk).1

/-- The channel that is opened is connected, and nothing has been received on it but that. -/
theorem opened_of_openChannel {l l' : Link} {j : ChannelKey} (h : l.openChannel = .ok (l', j))
    (k : ChannelKey) : l'.isConnected k = (l.isConnected k || decide (j = k)) ∧
      l'.received k = l.received k ++ if j = k then [.opened] else [] := by
  obtain ⟨rfl, -⟩ := openChannel_eq_ok h
  unfold openChannel at h
  split at h
  · split at h
    next number _ =>
      cases h
      refine ⟨?_, received_send _ _ _ _⟩
      rw [isConnected_send]
      unfold isConnected
      rw [List.getElem?_append]
      split
      next hk => simp [Nat.ne_of_gt hk]
      next hk =>
        rw [List.getElem?_eq_none (Nat.le_of_not_lt hk), List.getElem?_singleton]
        by_cases hl : l.channels.length = k
        · simp [hl]
        · have hn : l.channels.length < k := Nat.lt_of_le_of_ne (Nat.le_of_not_lt hk) hl
          simp [hl, Nat.sub_ne_zero_of_lt hn]
    · cases h
  · cases h

/-- A channel is put in confirm mode if and only if it is connected. -/
theorem selectConfirms_eq_ok {l l' : Link} {j : ChannelKey} (h : l.selectConfirms j = .ok l')
    (k : ChannelKey) : l.isConnected j = true ∧ l'.isConnected k = l.isConnected k ∧
      l'.received k = l.received k ++ if j = k then [.confirmSelect false] else [] := by
  unfold selectConfirms at h
  split at h
  next hj =>
    cases h
    refine ⟨hj, ?_, received_send _ _ _ _⟩
    rw [isConnected_send]
    exact isConnected_modifyChannel l j k fun _ => rfl
  next => cases h

theorem exists_selectConfirms {l : Link} {k : ChannelKey} (h : l.isConnected k = true) :
    ∃ l', l.selectConfirms k = .ok l' := by
  unfold selectConfirms
  rw [if_pos h]
  exact ⟨_, rfl⟩

/-- A publish is received if and only if the channel is connected. -/
theorem publish_eq_ok {l l' : Link} {j : ChannelKey} {sender : Owner} {m : Message}
    (h : l.publish j sender m = .ok l') (k : ChannelKey) :
    l.isConnected j = true ∧ l'.isConnected k = l.isConnected k ∧
      l'.received k = l.received k ++ if j = k then [.published {} m] else [] := by
  unfold publish at h
  cases hc : l.channels[j]? with
  | none => simp [hc] at h
  | some c =>
    simp only [hc] at h
    split at h
    next connected =>
      cases h
      refine ⟨by simp [isConnected, hc, connected], ?_, ?_⟩
      · rw [isConnected_send]
        split
        · exact isConnected_modifyChannel l j k fun _ => rfl
        · rfl
      · rw [received_send]
        split <;> rfl
    next => cases h

end Link

/-- Where a channel of a reserve is. -/
inductive Place where
  | unopened
  | opening
  | leased
  | idle
  | surplus
  | closed
  | discarded
  | abandoned
  /-- It was opened, and let go before it was ready. -/
  | dropped
deriving DecidableEq

/-- The places of which a reserve keeps a list. -/
def Place.listed : List Place :=
  [.idle, .leased, .opening, .surplus, .closed, .discarded, .abandoned]

/-- What the reserve and the broker know of a channel. -/
structure ChannelView where
  place : Place
  connected : Bool
  received : List ChannelEvent

namespace ChannelView

/-- What is sent when a channel is let go. -/
def farewell (connected : Bool) : List ChannelEvent := if connected then [.closed 200 "OK"] else []

/-- What can happen to one channel. -/
inductive Step (confirms : Bool) : ChannelView → ChannelView → Prop where
  | stay (v : ChannelView) : Step confirms v v
  /-- The broker ends it, or the connection is closed. -/
  | ended (p : Place) (es : List ChannelEvent) : Step confirms ⟨p, true, es⟩ ⟨p, false, es⟩
  | opened (es : List ChannelEvent) : Step confirms ⟨.unopened, false, es⟩
      ⟨if confirms then .opening else .leased, true, es ++ [.opened]⟩
  | readied (es : List ChannelEvent) :
      Step confirms ⟨.opening, true, es⟩ ⟨.leased, true, es ++ [.confirmSelect false]⟩
  | dropped (connected : Bool) (es : List ChannelEvent) :
      Step confirms ⟨.opening, connected, es⟩ ⟨.dropped, false, es ++ farewell connected⟩
  | reused (es : List ChannelEvent) : Step confirms ⟨.idle, true, es⟩ ⟨.leased, true, es⟩
  | published (m : Message) (es : List ChannelEvent) :
      Step confirms ⟨.leased, true, es⟩ ⟨.leased, true, es ++ [.published {} m]⟩
  | kept (es : List ChannelEvent) : Step confirms ⟨.leased, true, es⟩ ⟨.idle, true, es⟩
  | spared (es : List ChannelEvent) : Step confirms ⟨.leased, true, es⟩ ⟨.surplus, true, es⟩
  /-- It is found disconnected. -/
  | discarded {p : Place} (hp : p = .leased ∨ p = .idle ∨ p = .surplus) (es : List ChannelEvent) :
      Step confirms ⟨p, false, es⟩ ⟨.discarded, false, es⟩
  | closed (es : List ChannelEvent) : Step confirms ⟨.surplus, true, es⟩
      ⟨.closed, false, es ++ [.closed 200 ChannelReserve.surplusText]⟩
  | abandoned (connected : Bool) (es : List ChannelEvent) :
      Step confirms ⟨.leased, connected, es⟩ ⟨.abandoned, false, es ++ farewell connected⟩

/-- What the broker has received when a channel is ready, and some messages after that. -/
def history (confirms : Bool) (messages : List Message) : List ChannelEvent :=
  .opened :: (if confirms then [.confirmSelect false] else []) ++ messages.map (.published {})

/-- The views that a channel can have. -/
inductive Lawful (confirms : Bool) : ChannelView → Prop where
  | unopened : Lawful confirms ⟨.unopened, false, []⟩
  | opening (hc : confirms = true) (connected : Bool) :
      Lawful confirms ⟨.opening, connected, [.opened]⟩
  | dropped (hc : confirms = true) (connected : Bool) :
      Lawful confirms ⟨.dropped, false, [.opened] ++ farewell connected⟩
  | ready {p : Place} (hp : p = .leased ∨ p = .idle ∨ p = .surplus) (connected : Bool)
      (messages : List Message) : Lawful confirms ⟨p, connected, history confirms messages⟩
  | discarded (messages : List Message) :
      Lawful confirms ⟨.discarded, false, history confirms messages⟩
  | closed (messages : List Message) : Lawful confirms
      ⟨.closed, false, history confirms messages ++ [.closed 200 ChannelReserve.surplusText]⟩
  | abandoned (connected : Bool) (messages : List Message) :
      Lawful confirms ⟨.abandoned, false, history confirms messages ++ farewell connected⟩

theorem history_concat (confirms : Bool) (messages : List Message) (m : Message) :
    history confirms messages ++ [.published {} m] = history confirms (messages ++ [m]) := by
  simp [history]

theorem Lawful.step {confirms : Bool} {v w : ChannelView} (h : v.Lawful confirms)
    (s : v.Step confirms w) : w.Lawful confirms := by
  cases s with
  | stay => exact h
  | ended p es =>
    cases h with
    | opening hc => exact .opening hc false
    | ready hp _ messages => exact .ready hp false messages
  | opened es =>
    cases h with
    | unopened =>
      cases confirms with
      | true => exact .opening rfl true
      | false => exact .ready (.inl rfl) true []
    | ready hp => simp at hp
  | readied es =>
    cases h with
    | opening hc =>
      subst hc
      exact .ready (.inl rfl) true []
    | ready hp => simp at hp
  | dropped connected es =>
    cases h with
    | opening hc => exact .dropped hc connected
    | ready hp => simp at hp
  | reused es =>
    cases h with
    | ready _ _ messages => exact .ready (.inl rfl) true messages
  | published m es =>
    cases h with
    | ready hp _ messages =>
      rw [history_concat]
      exact .ready hp true (messages ++ [m])
  | kept es =>
    cases h with
    | ready _ _ messages => exact .ready (.inr (.inl rfl)) true messages
  | spared es =>
    cases h with
    | ready _ _ messages => exact .ready (.inr (.inr rfl)) true messages
  | discarded hp es =>
    cases h with
    | ready _ _ messages => exact .discarded messages
    | _ => simp at hp
  | closed es =>
    cases h with
    | ready _ _ messages => exact .closed messages
  | abandoned connected es =>
    cases h with
    | ready _ _ messages => exact .abandoned connected messages

end ChannelView

namespace ChannelReserve

/-- The channels in a place that is listed. -/
def members (r : ChannelReserve) : Place → List ChannelKey
  | .idle => r.idle
  | .leased => r.leased
  | .opening => r.opening
  | .surplus => r.surplus
  | .closed => r.closed
  | .discarded => r.discarded
  | .abandoned => r.abandoned
  | .dropped | .unopened => []

theorem listed_of_mem {r : ChannelReserve} {k : ChannelKey} {p : Place} (h : k ∈ r.members p) :
    p ∈ Place.listed := by
  cases p with
  | dropped => cases h
  | unopened => cases h
  | _ => simp [Place.listed]

/-- Where a channel is. -/
def place (r : ChannelReserve) (k : ChannelKey) : Place :=
  (Place.listed.find? fun p => k ∈ r.members p).getD
    (if k < r.link.channels.length then .dropped else .unopened)

/-- What is known of a channel. -/
def view (r : ChannelReserve) (k : ChannelKey) : ChannelView :=
  ⟨r.place k, r.link.isConnected k, r.link.received k⟩

theorem places_eq_flatMap (r : ChannelReserve) : r.places = Place.listed.flatMap r.members := by
  simp [places, Place.listed, members]

theorem mem_places {r : ChannelReserve} {k : ChannelKey} :
    k ∈ r.places ↔ ∃ p, k ∈ r.members p := by
  rw [places_eq_flatMap, List.mem_flatMap]
  constructor
  · rintro ⟨p, -, hk⟩
    exact ⟨p, hk⟩
  · rintro ⟨p, hk⟩
    exact ⟨p, listed_of_mem hk, hk⟩

/-- What puts a channel in the same places leaves it where it is. -/
theorem place_congr {r s : ChannelReserve} {k : ChannelKey}
    (hm : ∀ p, k ∈ s.members p ↔ k ∈ r.members p)
    (hl : k < s.link.channels.length ↔ k < r.link.channels.length) : s.place k = r.place k := by
  simp only [place, hm, hl]

theorem mem_members_of_place {r : ChannelReserve} {k : ChannelKey} {p : Place}
    (h : r.place k = p) (hp : p ∈ Place.listed) : k ∈ r.members p := by
  unfold place at h
  cases hf : Place.listed.find? fun p => k ∈ r.members p with
  | some q =>
    rw [hf] at h
    have hq := List.find?_some hf
    obtain rfl : q = p := h
    exact of_decide_eq_true hq
  | none =>
    rw [hf] at h
    subst h
    simp only [Option.getD_none] at hp
    split at hp <;> simp [Place.listed] at hp

variable {settings : ReserveSettings} {r s : ChannelReserve} {k : ChannelKey}

/-- A channel is in the one place in which it is listed. -/
theorem Sound.place_of_mem (h : Sound settings r) {p : Place} (hk : k ∈ r.members p) :
    r.place k = p := by
  have hn := h.nodup
  rw [places_eq_flatMap, List.nodup_flatMap] at hn
  unfold place
  cases hf : Place.listed.find? fun p => k ∈ r.members p with
  | none =>
    have absent := List.find?_eq_none.1 hf p (listed_of_mem hk)
    exact absurd hk (by simpa using absent)
  | some q =>
    have hq : k ∈ r.members q := by simpa using List.find?_some hf
    have symm : Std.Symm (Function.onFun List.Disjoint r.members) :=
      ⟨fun _ _ hd _ hp hq => hd hq hp⟩
    by_contra hne
    exact hn.2.forall (List.mem_of_find?_eq_some hf) (listed_of_mem hk) hne hq hk

theorem Sound.lt_of_mem (h : Sound settings r) {p : Place} (hk : k ∈ r.members p) :
    k < r.link.channels.length :=
  List.mem_range.1 (h.places.subset (mem_places.2 ⟨p, hk⟩))

theorem Sound.nodup_members (h : Sound settings r) (p : Place) : (r.members p).Nodup := by
  have hn := h.nodup
  rw [places_eq_flatMap, List.nodup_flatMap] at hn
  by_cases hp : p ∈ Place.listed
  · exact hn.1 p hp
  · have empty : r.members p = [] :=
      List.eq_nil_iff_forall_not_mem.2 fun _ hk => hp (listed_of_mem hk)
    rw [empty]
    exact .nil

theorem place_of_absent (hm : ∀ p, k ∉ r.members p) (hl : k < r.link.channels.length) :
    r.place k = .dropped := by
  have absent : Place.listed.find? (fun p => k ∈ r.members p) = none :=
    List.find?_eq_none.2 fun p _ => by simpa using hm p
  simp [place, absent, hl]

theorem Sound.place_of_le (h : Sound settings r) (hk : r.link.channels.length ≤ k) :
    r.place k = .unopened := by
  have absent : Place.listed.find? (fun p => k ∈ r.members p) = none :=
    List.find?_eq_none.2 fun p _ hm =>
      Nat.not_lt_of_le hk (h.lt_of_mem (of_decide_eq_true hm))
  simp [place, absent, Nat.not_lt_of_le hk]

/-- A link on which the same has been received and no other channel is connected. -/
theorem view_step_link {l : Link} (hp : s.place k = r.place k) (hl : s.link = l)
    (hc : l.isConnected k = true → r.link.isConnected k = true)
    (hr : l.received k = r.link.received k) :
    (r.view k).Step settings.confirms (s.view k) := by
  unfold view
  rw [hp, hl, hr]
  cases h : l.isConnected k with
  | true =>
    rw [hc h]
    exact .stay _
  | false =>
    cases r.link.isConnected k with
    | true => exact .ended _ _
    | false => exact .stay _

/-- An idle channel stays where it is, or is handed out if it is connected, or is set aside if it is
not. -/
theorem mem_request_of_mem_idle (hk : k ∈ r.idle) : k ∈ r.request.1.idle ∨
    (r.link.isConnected k = true ∧ k ∈ r.request.1.leased) ∨
    (r.link.isConnected k = false ∧ k ∈ r.request.1.discarded) := by
  rcases r.idle_cases with ⟨newer, j, older, hi, dead, hj⟩ | dead
  · rw [request_served hi dead hj]
    rw [hi, List.mem_append, List.mem_cons] at hk
    rcases hk with above | rfl | below
    · exact .inr (.inr ⟨dead k above, List.mem_append_left _ (List.mem_reverse.2 above)⟩)
    · exact .inr (.inl ⟨hj, List.mem_cons_self⟩)
    · exact .inl below
  · rw [request_unserved dead]
    exact .inr (.inr ⟨dead k hk, List.mem_append_left _ (List.mem_reverse.2 hk)⟩)

/-- A request moves only idle channels. -/
theorem mem_members_request (hk : k ∉ r.idle) (p : Place) :
    k ∈ r.request.1.members p ↔ k ∈ r.members p := by
  rcases r.idle_cases with ⟨newer, j, older, hi, dead, hj⟩ | dead
  · rw [request_served hi dead hj]
    rw [hi, List.mem_append, List.mem_cons, not_or, not_or] at hk
    cases p <;> simp [members, hi, hk]
  · rw [request_unserved dead]
    cases p <;> simp [members, hk]

theorem view_request (h : Sound settings r) (k : ChannelKey) :
    (r.view k).Step settings.confirms (r.request.1.view k) := by
  have hs := h.turn (turn_request r)
  by_cases hk : k ∈ r.idle
  · have from_idle : r.place k = .idle := h.place_of_mem hk
    obtain hi | ⟨connected, hl⟩ | ⟨connected, hd⟩ := mem_request_of_mem_idle hk
    · have to_idle : r.request.1.place k = .idle := hs.place_of_mem hi
      exact view_step_link (to_idle.trans from_idle.symm) link_request id rfl
    · have to_leased : r.request.1.place k = .leased := hs.place_of_mem hl
      unfold view
      rw [from_idle, to_leased, link_request, connected]
      exact .reused _
    · have to_discarded : r.request.1.place k = .discarded := hs.place_of_mem hd
      unfold view
      rw [from_idle, to_discarded, link_request, connected]
      exact .discarded (.inr (.inl rfl)) _
  · refine view_step_link (place_congr (mem_members_request hk) ?_) link_request id rfl
    rw [link_request]

theorem view_openFor (h : Sound settings r) (k : ChannelKey) :
    (r.view k).Step settings.confirms (r.openFor.1.view k) := by
  obtain ⟨fresh, turn⟩ := turn_openFor r
  have hs := h.turn turn
  clear turn
  cases ho : r.link.openChannel with
  | error fault =>
    simp only [openFor, ho]
    exact .stay _
  | ok opened =>
    obtain ⟨link, j⟩ := opened
    obtain ⟨connected, received⟩ := Link.opened_of_openChannel ho k
    obtain ⟨rfl, length⟩ := Link.openChannel_eq_ok ho
    simp only [openFor, ho, h.settings_eq] at hs ⊢
    by_cases hk : r.link.channels.length = k
    · have from_unopened := h.place_of_le (Nat.le_of_eq hk)
      have closed : r.link.isConnected k = false := by
        rw [Bool.eq_false_iff]
        intro hc
        exact absurd (Link.lt_of_isConnected hc) (hk ▸ Nat.lt_irrefl _)
      have arrived : (r.view k).Step settings.confirms
          ⟨if settings.confirms then .opening else .leased, link.isConnected k,
            link.received k⟩ := by
        unfold view
        rw [from_unopened, closed, connected, received, if_pos hk, decide_eq_true hk, Bool.or_true]
        exact .opened _
      cases hc : settings.confirms with
      | true =>
        simp only [hc, if_true] at arrived hs ⊢
        have to_opening := hs.place_of_mem (p := .opening) (k := k) (hk ▸ List.mem_cons_self)
        unfold view at arrived ⊢
        rw [to_opening]
        exact arrived
      | false =>
        simp only [hc, Bool.false_eq_true, if_false] at arrived hs ⊢
        have to_leased := hs.place_of_mem (p := .leased) (k := k) (hk ▸ List.mem_cons_self)
        unfold view at arrived ⊢
        rw [to_leased]
        exact arrived
    · have hk' : k ≠ r.link.channels.length := Ne.symm hk
      rw [decide_eq_false hk, Bool.or_false] at connected
      rw [if_neg hk, List.append_nil] at received
      have bound : k < link.channels.length ↔ k < r.link.channels.length := by
        rw [length, Nat.lt_succ_iff_lt_or_eq, or_iff_left hk']
      split
      · refine view_step_link (place_congr (fun p => ?_) bound) rfl (connected ▸ id) received
        cases p <;> simp [members, hk']
      · refine view_step_link (place_congr (fun p => ?_) bound) rfl (connected ▸ id) received
        cases p <;> simp [members, hk']

/-- A channel that is let go before it is ready is nowhere. -/
theorem place_drop (h : Sound settings r) {j : ChannelKey} (hj : j ∈ r.opening) :
    place { r with opening := r.opening.erase j, link := r.link.dropChannel j } j = .dropped := by
  have from_opening := h.place_of_mem (p := .opening) hj
  refine place_of_absent (fun p hp => ?_) ?_
  · by_cases opening : p = .opening
    · subst opening
      exact (h.nodup_members .opening).not_mem_erase hp
    · have unmoved : j ∈ r.members p := by cases p <;> first | exact absurd rfl opening | exact hp
      exact opening ((h.place_of_mem unmoved).symm.trans from_opening)
  · rw [Link.length_dropChannel]
    exact h.lt_of_mem (p := .opening) hj

/-- A channel that is being made ready is let go. -/
theorem view_drop (h : Sound settings r) {j : ChannelKey} (hj : j ∈ r.opening) (k : ChannelKey) :
    (r.view k).Step settings.confirms
      (view { r with opening := r.opening.erase j, link := r.link.dropChannel j } k) := by
  have connected := Link.isConnected_closeChannel r.link j k "OK"
  have received := Link.received_closeChannel r.link j k "OK"
  by_cases hk : j = k
  · subst hk
    unfold view
    rw [h.place_of_mem (p := .opening) hj, place_drop h hj]
    simp only [Link.dropChannel, connected, received, ne_eq, not_true, decide_false, Bool.and_false,
      true_and]
    exact .dropped _ _
  · rw [decide_eq_true hk, Bool.and_true] at connected
    rw [if_neg fun hc => hk hc.1, List.append_nil] at received
    refine view_step_link (place_congr (fun p => ?_) ?_) rfl (connected ▸ id) received
    · cases p <;> simp [members, List.mem_erase_of_ne (Ne.symm hk)]
    · rw [Link.length_dropChannel]

/-- A channel is moved from one place to another, and other channels are left as they are. -/
theorem view_move (h : Sound settings r) (hs : Sound settings s) {j : ChannelKey} {p q : Place}
    {c : Bool} {e : List ChannelEvent} (hp : j ∈ r.members p) (hq : j ∈ s.members q)
    (hm : ∀ k p, k ≠ j → (k ∈ s.members p ↔ k ∈ r.members p))
    (hl : s.link.channels.length = r.link.channels.length)
    (hc : ∀ k, s.link.isConnected k = if j = k then c else r.link.isConnected k)
    (hr : ∀ k, s.link.received k = r.link.received k ++ if j = k then e else [])
    (step : ChannelView.Step settings.confirms ⟨p, r.link.isConnected j, r.link.received j⟩
      ⟨q, c, r.link.received j ++ e⟩) (k : ChannelKey) :
    (r.view k).Step settings.confirms (s.view k) := by
  have hck := hc k
  have hrk := hr k
  by_cases hk : j = k
  · subst hk
    rw [if_pos rfl] at hck hrk
    unfold view
    rw [h.place_of_mem hp, hs.place_of_mem hq, hck, hrk]
    exact step
  · rw [if_neg hk] at hck hrk
    rw [List.append_nil] at hrk
    refine view_step_link (place_congr (fun p => hm k p (Ne.symm hk)) ?_) rfl (hck ▸ id) hrk
    rw [hl]

/-- A channel is moved while the link stays as it is. -/
theorem view_shift (h : Sound settings r) (hs : Sound settings s) {j : ChannelKey} {p q : Place}
    (hp : j ∈ r.members p) (hq : j ∈ s.members q)
    (hm : ∀ k p, k ≠ j → (k ∈ s.members p ↔ k ∈ r.members p)) (hl : s.link = r.link)
    (step : ChannelView.Step settings.confirms ⟨p, r.link.isConnected j, r.link.received j⟩
      ⟨q, r.link.isConnected j, r.link.received j⟩) (k : ChannelKey) :
    (r.view k).Step settings.confirms (s.view k) := by
  refine view_move h hs hp hq hm (by rw [hl]) (c := r.link.isConnected j) (e := [])
    (fun k => ?_) (fun k => ?_) ?_ k
  · rw [hl]
    split
    next hk => rw [hk]
    next => rfl
  · rw [hl, ite_self, List.append_nil]
  · rw [List.append_nil]
    exact step

theorem view_prepare (h : Sound settings r) {j : ChannelKey} (hj : j ∈ r.opening)
    (k : ChannelKey) : (r.view k).Step settings.confirms ((r.prepare j).1.view k) := by
  have hs := h.turn (turn_prepare hj)
  cases ho : r.link.selectConfirms j with
  | error fault =>
    simp only [prepare, ho]
    exact view_drop h hj k
  | ok link =>
    simp only [prepare, ho] at hs ⊢
    have selected := Link.selectConfirms_eq_ok ho
    refine view_move h hs (p := .opening) (q := .leased) hj List.mem_cons_self (fun k p hk => ?_)
      (Link.length_selectConfirms ho) (c := true) (fun k => ?_)
      (fun k => (selected k).2.2) ?_ k
    · cases p <;> simp [members, hk, List.mem_erase_of_ne hk]
    · rw [(selected k).2.1]
      split
      next hk => rw [← hk, (selected j).1]
      next => rfl
    · rw [(selected j).1]
      exact .readied _

theorem view_release (h : Sound settings r) {j : ChannelKey} (hj : j ∈ r.leased) (k : ChannelKey) :
    (r.view k).Step settings.confirms ((r.release j).view k) := by
  have hs := h.turn (turn_release hj)
  rcases r.release_cases j with ⟨lost, e⟩ | ⟨connected, -, e⟩ | ⟨connected, -, e⟩
  · rw [e] at hs ⊢
    refine view_shift h hs (p := .leased) (q := .discarded) hj List.mem_cons_self (fun k p hk => ?_)
      rfl (lost ▸ .discarded (.inl rfl) _) k
    cases p <;> simp [members, hk, List.mem_erase_of_ne hk]
  · rw [e] at hs ⊢
    refine view_shift h hs (p := .leased) (q := .idle) hj List.mem_cons_self (fun k p hk => ?_)
      rfl (connected ▸ .kept _) k
    cases p <;> simp [members, hk, List.mem_erase_of_ne hk]
  · rw [e] at hs ⊢
    refine view_shift h hs (p := .leased) (q := .surplus) hj List.mem_cons_self (fun k p hk => ?_)
      rfl (connected ▸ .spared _) k
    cases p <;> simp [members, hk, List.mem_erase_of_ne hk]

/-- A channel is closed by the client. -/
theorem view_close (h : Sound settings r) (hs : Sound settings s) {j : ChannelKey} {p q : Place}
    {text : String} (hp : j ∈ r.members p) (hq : j ∈ s.members q)
    (hm : ∀ k p, k ≠ j → (k ∈ s.members p ↔ k ∈ r.members p))
    (hl : s.link = r.link.closeChannel j text)
    (step : ChannelView.Step settings.confirms ⟨p, r.link.isConnected j, r.link.received j⟩
      ⟨q, false, r.link.received j ++ if r.link.isConnected j then [.closed 200 text] else []⟩)
    (k : ChannelKey) : (r.view k).Step settings.confirms (s.view k) := by
  refine view_move h hs hp hq hm (by rw [hl, Link.length_closeChannel]) (fun k => ?_) (fun k => ?_)
    step k
  · rw [hl, Link.isConnected_closeChannel]
    split
    next hk => simp [hk]
    next hk => simp [hk]
  · rw [hl, Link.received_closeChannel]
    by_cases hk : j = k
    · simp [hk]
    · simp [hk]

theorem view_abandon (h : Sound settings r) {j : ChannelKey} (hj : j ∈ r.leased) (k : ChannelKey) :
    (r.view k).Step settings.confirms ((r.abandon j).view k) := by
  have hs := h.turn (turn_abandon hj)
  refine view_close h hs (p := .leased) (q := .abandoned) hj List.mem_cons_self (fun k p hk => ?_)
    rfl (.abandoned _ _) k
  cases p <;> simp [abandon, members, hk, List.mem_erase_of_ne hk]

theorem view_releaseInPlace (h : Sound settings r) {j : ChannelKey} (hj : j ∈ r.leased)
    (k : ChannelKey) : (r.view k).Step settings.confirms ((r.releaseInPlace j).view k) := by
  unfold releaseInPlace
  split
  · exact view_abandon h hj k
  · exact view_release h hj k

theorem view_closeSurplus (h : Sound settings r) {j : ChannelKey} (hj : j ∈ r.surplus)
    (k : ChannelKey) : (r.view k).Step settings.confirms ((r.closeSurplus j).view k) := by
  have hs := h.turn (turn_closeSurplus hj)
  simp only [closeSurplus] at hs ⊢
  split
  next connected =>
    rw [if_pos connected] at hs
    refine view_close h hs (p := .surplus) (q := .closed) hj List.mem_cons_self (fun k p hk => ?_)
      rfl ?_ k
    · cases p <;> simp [members, hk, List.mem_erase_of_ne hk]
    · rw [if_pos connected, connected]
      exact .closed _
  next lost =>
    rw [if_neg lost] at hs
    rw [Bool.not_eq_true] at lost
    refine view_shift h hs (p := .surplus) (q := .discarded) hj List.mem_cons_self
      (fun k p hk => ?_) rfl (lost ▸ .discarded (.inr (.inr rfl)) _) k
    cases p <;> simp [members, hk, List.mem_erase_of_ne hk]

theorem view_publish (h : Sound settings r) {j : ChannelKey} (hj : j ∈ r.leased) {sender : Owner}
    {m : Message} {l : Link} (hl : r.link.publish j sender m = .ok l) (k : ChannelKey) :
    (r.view k).Step settings.confirms (view { r with link := l } k) := by
  have hs := h.turn (turn_link (Link.length_publish hl))
  have published := Link.publish_eq_ok hl
  refine view_move h hs (p := .leased) (q := .leased) hj hj (fun _ _ _ => ?_)
    (Link.length_publish hl) (c := true) (fun k => ?_) (fun k => (published k).2.2) ?_ k
  · exact Iff.rfl
  · rw [(published k).2.1]
    split
    next hk => rw [← hk, (published j).1]
    next => rfl
  · rw [(published j).1]
    exact .published m _

/-- A change of the link that is received on no channel and connects none. -/
theorem view_link {l : Link} (hn : l.channels.length = r.link.channels.length)
    (hc : l.isConnected k = true → r.link.isConnected k = true)
    (hr : l.received k = r.link.received k) :
    (r.view k).Step settings.confirms (view { r with link := l } k) := by
  refine view_step_link (place_congr (fun p => ?_) (by rw [hn])) rfl hc hr
  cases p <;> exact Iff.rfl

theorem view_loseChannel (j : ChannelKey) :
    (r.view k).Step settings.confirms (view { r with link := r.link.loseChannel j } k) := by
  refine view_link (Link.length_loseChannel _ _) ?_ (Link.received_loseChannel _ _ _)
  rw [Link.isConnected_loseChannel, Bool.and_eq_true]
  exact And.left

theorem view_disconnect :
    (r.view k).Step settings.confirms (view { r with link := r.link.disconnect } k) :=
  view_link (Link.length_disconnect _) (Link.isConnected_of_disconnect _ _)
    (Link.received_disconnect _ _)

/-- An action that is guarded does what it does, or nothing. -/
theorem view_guard {p : Prop} [Decidable p]
    (h : p → (r.view k).Step settings.confirms (s.view k)) :
    (r.view k).Step settings.confirms ((if p then s else r).view k) :=
  of_guard (P := fun s => (r.view k).Step settings.confirms (s.view k)) (.stay _) h

/-- Whatever happens in a reserve, each channel takes a step. -/
theorem act_view (h : Sound settings r) (a : Action) (k : ChannelKey) :
    (r.view k).Step settings.confirms ((r.act a).view k) := by
  cases a with
  | request => exact view_request h k
  | openFor => exact view_guard fun _ => view_openFor h k
  | prepare j => exact view_guard fun hj => view_prepare h hj k
  | withdraw j =>
    cases j with
    | none => exact view_guard fun _ => .stay _
    | some j => exact view_guard fun hj => view_drop h hj k
  | release j => exact view_guard fun hj => view_release h hj k
  | releaseInPlace j => exact view_guard fun hj => view_releaseInPlace h hj k
  | abandon j => exact view_guard fun hj => view_abandon h hj k
  | closeSurplus j => exact view_guard fun hj => view_closeSurplus h hj k
  | publish j sender m =>
    refine view_guard fun hj => ?_
    split
    next l hl => exact view_publish h hj hl k
    next => exact .stay _
  | loseChannel j => exact view_loseChannel j
  | disconnect => exact view_disconnect

/-- In every reachable reserve, every channel is where its events have brought it. -/
theorem lawful (h : Reachable settings r) (k : ChannelKey) :
    (r.view k).Lawful settings.confirms := by
  induction h with
  | start channelMax mode => exact .unopened
  | act a hr ih => exact ih.step (act_view (sound hr) a k)

end ChannelReserve

end Courier
