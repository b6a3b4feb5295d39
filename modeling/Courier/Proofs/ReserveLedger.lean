import Courier.Proofs.ChannelLife

/-!
# No channel of a reserve is lost

A channel has been prepared when the broker has received that it is opened and, if the settings say
so, put in confirm mode. `prepared_perm` is the ledger: the prepared channels are those that are
leased, idle, waiting to be closed for want of room, closed for that, found disconnected, or let go
by their holders. In an `Orderly` run every holder gives its channel back, where work can go on in
the background, and no channel is let go.
-/

namespace Courier

namespace ChannelEvent

/-- Whether the broker is asked to confirm publishes. -/
def isConfirmSelect : ChannelEvent → Bool
  | .confirmSelect _ => true
  | _ => false

/-- Whether the client closes the channel. -/
def isClose : ChannelEvent → Bool
  | .closed _ _ => true
  | _ => false

end ChannelEvent

/-- The places of channels that have been made ready. -/
def Place.prepared : List Place := [.leased, .idle, .surplus, .closed, .discarded, .abandoned]

namespace ChannelView

/-- Whether a channel has been opened and made ready, by what the broker has received on it. -/
def isReady (confirms : Bool) (received : List ChannelEvent) : Bool :=
  if confirms then received.any ChannelEvent.isConfirmSelect else !received.isEmpty

theorem isReady_history (confirms : Bool) (messages : List Message) (more : List ChannelEvent) :
    isReady confirms (history confirms messages ++ more) = true := by
  cases confirms <;> simp [isReady, history, ChannelEvent.isConfirmSelect]

theorem isClose_of_mem_history {confirms : Bool} {messages : List Message} {e : ChannelEvent}
    (h : e ∈ history confirms messages) : e.isClose = false := by
  simp only [history, List.cons_append, List.mem_cons, List.mem_append, List.mem_map] at h
  obtain rfl | h | ⟨m, -, rfl⟩ := h
  · rfl
  · split at h
    · rw [List.mem_singleton.1 h]
      rfl
    · cases h
  · rfl

variable {confirms : Bool} {v w : ChannelView}

theorem Lawful.isReady_iff (h : v.Lawful confirms) :
    isReady confirms v.received = true ↔ v.place ∈ Place.prepared := by
  cases h with
  | unopened => cases confirms <;> simp [isReady, Place.prepared]
  | opening hc => simp [hc, isReady, Place.prepared, ChannelEvent.isConfirmSelect]
  | dropped hc connected =>
    cases connected <;>
      simp [hc, isReady, Place.prepared, farewell, ChannelEvent.isConfirmSelect]
  | ready hp connected messages =>
    have ready := isReady_history confirms messages []
    rw [List.append_nil] at ready
    obtain rfl | rfl | rfl := hp <;> simp [ready, Place.prepared]
  | discarded messages =>
    have ready := isReady_history confirms messages []
    rw [List.append_nil] at ready
    simp [ready, Place.prepared]
  | closed messages => simp [isReady_history, Place.prepared]
  | abandoned connected messages => simp [isReady_history, Place.prepared]

/-- A channel that is leased, idle or surplus has not been closed. -/
theorem Lawful.open_of_kept (h : v.Lawful confirms)
    (hp : v.place = .leased ∨ v.place = .idle ∨ v.place = .surplus) :
    ∀ e ∈ v.received, e.isClose = false := by
  cases h with
  | ready hp connected messages => exact fun e he => isClose_of_mem_history he
  | _ => simp at hp

/-- A channel that was set aside is not connected, and the client has not closed it. -/
theorem Lawful.lost_of_discarded (h : v.Lawful confirms) (hp : v.place = .discarded) :
    v.connected = false ∧ ∀ e ∈ v.received, e.isClose = false := by
  cases h with
  | ready hq => obtain rfl | rfl | rfl := hq <;> cases hp
  | discarded messages => exact ⟨rfl, fun e he => isClose_of_mem_history he⟩
  | _ => cases hp

/-- A channel that was closed for want of room is not connected, and that was the last that the
broker received on it. -/
theorem Lawful.closed_of_closed (h : v.Lawful confirms) (hp : v.place = .closed) :
    v.connected = false ∧ ∃ messages,
      v.received = history confirms messages ++ [.closed 200 "pool is full"] := by
  cases h with
  | ready hq => obtain rfl | rfl | rfl := hq <;> cases hp
  | closed messages => exact ⟨rfl, messages, rfl⟩
  | _ => cases hp

/-- A channel that is leased or idle is not closed, unless its holder lets it go. -/
theorem Step.open_of_kept (h : v.Step confirms w) (hv : v.Lawful confirms)
    (hp : v.place = .leased ∨ v.place = .idle) (hw : w.place ≠ .abandoned) :
    ∀ e ∈ w.received, e.isClose = false := by
  have before := hv.open_of_kept (hp.imp_right .inl)
  cases h with
  | stay => exact before
  | ended => exact before
  | reused => exact before
  | published m es =>
    intro e he
    obtain he | he := List.mem_append.1 he
    · exact before e he
    · rw [List.mem_singleton.1 he]
      rfl
  | kept => exact before
  | spared => exact before
  | discarded => exact before
  | abandoned => exact absurd rfl hw
  | _ => simp at hp

/-- A channel that has been made ready stays so. -/
theorem Step.stays_prepared (h : v.Step confirms w) (hp : v.place ∈ Place.prepared) :
    w.place ∈ Place.prepared := by
  cases h with
  | stay => exact hp
  | ended => exact hp
  | opened => simp [Place.prepared] at hp
  | dropped => simp [Place.prepared] at hp
  | _ => simp [Place.prepared]

/-- A channel that was let go before it was ready never comes back. -/
theorem Step.stays_dropped (h : v.Step confirms w) (hp : v.place = .dropped) :
    w.place = .dropped := by
  cases h with
  | stay => exact hp
  | ended => exact hp
  | discarded hq => obtain rfl | rfl | rfl := hq <;> cases hp
  | _ => cases hp

end ChannelView

namespace ChannelReserve

variable {settings : ReserveSettings} {r s : ChannelReserve} {k : ChannelKey}

/-- The channels that have been opened and made ready. -/
def prepared (r : ChannelReserve) : List ChannelKey :=
  (List.range r.link.channels.length).filter fun k =>
    ChannelView.isReady r.settings.confirms (r.link.received k)

/-- A channel in a place of those that have been made ready is listed there. -/
theorem mem_members_of_prepared (hk : r.place k ∈ Place.prepared) : k ∈ r.members (r.place k) :=
  have listed : Place.prepared ⊆ Place.listed := by decide
  mem_members_of_place rfl (listed hk)

theorem mem_prepared_iff (h : Reachable settings r) :
    k ∈ r.prepared ↔ r.place k ∈ Place.prepared := by
  have ready := (lawful h k).isReady_iff
  rw [← (sound h).settings_eq] at ready
  rw [prepared, List.mem_filter, List.mem_range]
  refine ⟨fun hk => ready.1 hk.2, fun hk => ⟨?_, ready.2 hk⟩⟩
  exact (sound h).lt_of_mem (mem_members_of_prepared hk)

/-- No channel is in two places that are listed apart. -/
theorem Sound.nodup_flatMap (h : Sound settings r) {places : List Place} (hp : places.Nodup) :
    (places.flatMap r.members).Nodup := by
  refine List.nodup_flatMap.2 ⟨fun p _ => h.nodup_members p, hp.imp fun hne k hk hk' => ?_⟩
  exact hne ((h.place_of_mem hk).symm.trans (h.place_of_mem hk'))

/-- The ledger: what has been prepared is in one of six places. -/
theorem prepared_perm (h : Reachable settings r) : r.prepared.Perm
    (r.leased ++ r.idle ++ r.surplus ++ r.closed ++ r.discarded ++ r.abandoned) := by
  have flat : r.leased ++ r.idle ++ r.surplus ++ r.closed ++ r.discarded ++ r.abandoned =
      Place.prepared.flatMap r.members := by
    simp [Place.prepared, members]
  rw [flat]
  refine (List.perm_ext_iff_of_nodup (List.nodup_range.filter _)
    ((sound h).nodup_flatMap (by decide))).2 fun k => ?_
  rw [← prepared, mem_prepared_iff h, List.mem_flatMap]
  constructor
  · intro hk
    exact ⟨_, hk, mem_members_of_prepared hk⟩
  · rintro ⟨p, hp, hk⟩
    rwa [(sound h).place_of_mem hk]

/-- Whether an action lets no channel go: where a channel comes back, work can go on in the
background. -/
def Action.isOrderly : Action → Bool
  | .releaseInPlace _ | .abandon _ => false
  | _ => true

/-- The reserves that orderly actions lead to from one without channels. -/
inductive Orderly (settings : ReserveSettings) : ChannelReserve → Prop where
  | start (channelMax : Nat) (mode : AnswerMode) :
      Orderly settings { link := { channelMax, mode }, settings }
  | act {r : ChannelReserve} (a : Action) (ha : a.isOrderly = true) :
      Orderly settings r → Orderly settings (r.act a)

theorem Orderly.reachable (h : Orderly settings r) : Reachable settings r := by
  induction h with
  | start channelMax mode => exact .start channelMax mode
  | act a _ _ ih => exact ih.act a

theorem Orderly.actAll (h : Orderly settings r) {actions : List Action}
    (ha : ∀ a ∈ actions, a.isOrderly = true) : Orderly settings (r.actAll actions) := by
  induction actions generalizing r with
  | nil => exact h
  | cons a rest ih =>
    rw [List.forall_mem_cons] at ha
    exact ih (h.act a ha.1) ha.2

theorem abandoned_release (r : ChannelReserve) (k : ChannelKey) :
    (r.release k).abandoned = r.abandoned := by
  rcases r.release_cases k with ⟨-, e⟩ | ⟨-, -, e⟩ | ⟨-, -, e⟩
  all_goals rw [e]

theorem abandoned_act (r : ChannelReserve) {a : Action} (ha : a.isOrderly = true) :
    (r.act a).abandoned = r.abandoned := by
  have guarded {s : ChannelReserve} {p : Prop} [Decidable p] (hs : s.abandoned = r.abandoned) :
      (if p then s else r).abandoned = r.abandoned :=
    of_guard (P := fun s => s.abandoned = r.abandoned) rfl fun _ => hs
  have other (ho : a.movesReady = false) : (r.act a).abandoned = r.abandoned :=
    (r.act_frame ho).2.2
  cases a with
  | request =>
    rcases r.idle_cases with ⟨newer, j, older, hi, dead, hj⟩ | dead
    · rw [act, request_served hi dead hj]
    · rw [act, request_unserved dead]
  | release k => exact guarded (abandoned_release r k)
  | closeSurplus k => exact guarded (r.closeSurplus_frame k).2.2.2
  | releaseInPlace k => cases ha
  | abandon k => cases ha
  | _ => exact other rfl

theorem abandoned_of_orderly (h : Orderly settings r) : r.abandoned = [] := by
  induction h with
  | start => rfl
  | act a ha _ ih => rw [abandoned_act _ ha, ih]

/-- The steps of a request that gets no channel: no idle channel is connected, none can be opened,
one is opened and has still to be made ready, it cannot be made ready, or the request is given
up. -/
inductive Unserved (r : ChannelReserve) : Action → Prop where
  | waits (h : r.request.2 = none) : Unserved r .request
  | unopened {fault : LinkFault} (h : r.openFor.2 = .error fault) : Unserved r .openFor
  | opened (hc : r.settings.confirms = true) : Unserved r .openFor
  | unready {k : ChannelKey} {fault : LinkFault} (h : (r.prepare k).2 = .error fault) :
      Unserved r (.prepare k)
  | withdrawn (k : Option ChannelKey) : Unserved r (.withdraw k)

/-- What a step takes from the idle channels and adds to the leased ones: nothing but idle channels
that are not connected. -/
structure Spares (r s : ChannelReserve) : Prop where
  leased : s.leased = r.leased
  idle : s.idle.Sublist r.idle
  connected : ∀ k ∈ r.idle, r.link.isConnected k = true → k ∈ s.idle

theorem spares_of_eq (hl : s.leased = r.leased) (hi : s.idle = r.idle) : Spares r s :=
  ⟨hl, hi ▸ List.Sublist.refl _, fun _ hk _ => hi ▸ hk⟩

theorem Unserved.spares {a : Action} (h : r.Unserved a) : Spares r (r.act a) := by
  have guarded {s : ChannelReserve} {p : Prop} [Decidable p] (hs : Spares r s) :
      Spares r (if p then s else r) :=
    of_guard (P := Spares r) (spares_of_eq rfl rfl) fun _ => hs
  cases h with
  | waits h =>
    have dead := request_eq_none_iff.1 h
    rw [act, request_unserved dead]
    refine ⟨rfl, List.nil_sublist _, fun k hk hc => ?_⟩
    rw [dead k hk] at hc
    cases hc
  | unopened h =>
    refine guarded ?_
    cases ho : r.link.openChannel with
    | ok opened => simp [openFor, ho] at h
    | error fault =>
      simp only [openFor, ho]
      exact spares_of_eq rfl rfl
  | opened hc =>
    refine guarded ?_
    cases ho : r.link.openChannel with
    | ok opened =>
      simp only [openFor, ho, hc, if_true]
      exact spares_of_eq rfl rfl
    | error fault =>
      simp only [openFor, ho]
      exact spares_of_eq rfl rfl
  | @unready k fault h =>
    refine guarded ?_
    cases hs : r.link.selectConfirms k with
    | ok l => simp [prepare, hs] at h
    | error fault =>
      simp only [prepare, hs]
      exact spares_of_eq rfl rfl
  | withdrawn k => cases k <;> exact guarded (spares_of_eq rfl rfl)

/-- A channel that could not be made ready is let go for good. -/
theorem place_of_unready (h : Reachable settings r) {fault : LinkFault} (hk : k ∈ r.opening)
    (hf : (r.prepare k).2 = .error fault) (actions : List Action) :
    ((r.act (.prepare k)).actAll actions).place k = .dropped := by
  have dropped : (r.act (.prepare k)).place k = .dropped := by
    simp only [act, if_pos hk]
    cases hs : r.link.selectConfirms k with
    | ok l => simp [prepare, hs] at hf
    | error fault =>
      simp only [prepare, hs]
      exact place_drop (sound h) hk
  have reached : Reachable settings (r.act (.prepare k)) := h.act _
  generalize r.act (.prepare k) = s at dropped reached
  induction actions generalizing s with
  | nil => exact dropped
  | cons a rest ih =>
    have step := act_view (sound reached) a k
    exact ih (s.act a) (step.stays_dropped dropped) (reached.act a)

/-- Closes the channels that there was no room for. -/
def closeAll (r : ChannelReserve) : ChannelReserve := r.actAll (r.surplus.map .closeSurplus)

theorem closeSurplus_act (r : ChannelReserve) (k : ChannelKey) :
    (r.act (.closeSurplus k)).surplus = r.surplus.erase k ∧
      (r.act (.closeSurplus k)).leased = r.leased ∧ (r.act (.closeSurplus k)).idle = r.idle := by
  rw [act]
  split
  · obtain ⟨surplus, leased, idle, -⟩ := r.closeSurplus_frame k
    exact ⟨surplus, leased, idle⟩
  next hk => exact ⟨(List.erase_of_not_mem hk).symm, rfl, rfl⟩

theorem closeSurplus_actAll (ks : List ChannelKey) (r : ChannelReserve) :
    (r.actAll (ks.map .closeSurplus)).surplus = r.surplus.diff ks ∧
      (r.actAll (ks.map .closeSurplus)).leased = r.leased ∧
      (r.actAll (ks.map .closeSurplus)).idle = r.idle := by
  induction ks generalizing r with
  | nil => exact ⟨(List.diff_nil _).symm, rfl, rfl⟩
  | cons k rest ih =>
    obtain ⟨surplus, leased, idle⟩ := ih (r.act (.closeSurplus k))
    obtain ⟨surplus', leased', idle'⟩ := closeSurplus_act r k
    refine ⟨?_, leased.trans leased', idle.trans idle'⟩
    rw [List.diff_cons, ← surplus']
    exact surplus

/-- The background closes every channel that there was no room for, and no other. -/
theorem closeAll_spec (r : ChannelReserve) :
    r.closeAll.surplus = [] ∧ r.closeAll.leased = r.leased ∧ r.closeAll.idle = r.idle := by
  have none_left (ks : List ChannelKey) : ks.diff ks = [] := by
    induction ks with
    | nil => rfl
    | cons k rest ih => rw [List.diff_cons, List.erase_cons_head, ih]
  obtain ⟨surplus, leased, idle⟩ := closeSurplus_actAll r.surplus r
  exact ⟨surplus.trans (none_left _), leased, idle⟩

theorem Orderly.closeAll (h : Orderly settings r) : Orderly settings r.closeAll := by
  refine h.actAll fun a ha => ?_
  obtain ⟨k, -, rfl⟩ := List.mem_map.1 ha
  rfl

theorem not_mem_of_isClose {es : List ChannelEvent} (h : ∀ e ∈ es, e.isClose = false) (code : Nat)
    (text : String) : .closed code text ∉ es := by
  intro he
  cases h _ he

theorem ledger (h : Orderly settings r) :
    r.prepared.Perm (r.leased ++ r.idle ++ r.surplus ++ r.closed ++ r.discarded) := by
  have perm := prepared_perm h.reachable
  rwa [abandoned_of_orderly h, List.append_nil] at perm

/-- Of the prepared channels, those connected are leased or idle, once there is no surplus. -/
theorem connected_perm (h : Orderly settings r) (hs : r.surplus = []) :
    (r.prepared.filter r.link.isConnected).Perm
      (r.leased.filter r.link.isConnected ++ r.idle.filter r.link.isConnected) := by
  have perm := (ledger h).filter r.link.isConnected
  have closed : r.closed.filter r.link.isConnected = [] := by
    refine List.filter_eq_nil_iff.2 fun k hk => ?_
    have place := (sound h.reachable).place_of_mem (p := .closed) hk
    have lost : r.link.isConnected k = false := ((lawful h.reachable k).closed_of_closed place).1
    rw [lost]
    exact Bool.false_ne_true
  have discarded : r.discarded.filter r.link.isConnected = [] := by
    refine List.filter_eq_nil_iff.2 fun k hk => ?_
    have place := (sound h.reachable).place_of_mem (p := .discarded) hk
    have lost : r.link.isConnected k = false := ((lawful h.reachable k).lost_of_discarded place).1
    rw [lost]
    exact Bool.false_ne_true
  simpa only [hs, List.filter_append, closed, discarded, List.append_nil, List.filter_nil]
    using perm

/-- Every channel that was opened and made ready has exactly one place: it is leased, idle, closed
for want of room, or set aside because it was found disconnected; or it is surplus, until the
background closes it. Requests that fail lease nothing and cost no idle channel that is connected,
and what could not be made ready is never handed out or kept. So the prepared channels that are
connected are the leased ones and the idle ones, as far as those are connected. -/
theorem no_channel_is_lost (h : Orderly settings r) :
    (r.prepared.Nodup ∧
      r.prepared.Perm (r.leased ++ r.idle ++ r.surplus ++ r.closed ++ r.discarded)) ∧
    (∀ k ∈ r.closed, ∃ es, r.link.received k = es ++ [.closed 200 "pool is full"] ∧
      ∀ code text, .closed code text ∉ es) ∧
    (∀ k ∈ r.discarded, r.link.isConnected k = false ∧
      ∀ code text, .closed code text ∉ r.link.received k) ∧
    (∀ k, k ∈ r.leased ∨ k ∈ r.idle → ∀ a : Action, a.isOrderly = true →
      ∀ code text, .closed code text ∉ (r.act a).link.received k) ∧
    (∀ a, r.Unserved a → (r.act a).leased = r.leased ∧ (r.act a).idle.Sublist r.idle ∧
      ∀ k ∈ r.idle, r.link.isConnected k = true → k ∈ (r.act a).idle) ∧
    (∀ k fault, k ∈ r.opening → (r.prepare k).2 = .error fault → ∀ actions,
      k ∉ ((r.act (.prepare k)).actAll actions).leased ∧
      k ∉ ((r.act (.prepare k)).actAll actions).idle) ∧
    r.closeAll.surplus = [] ∧ r.closeAll.leased = r.leased ∧ r.closeAll.idle = r.idle ∧
    r.closeAll.prepared.Perm
      (r.leased ++ r.idle ++ r.closeAll.closed ++ r.closeAll.discarded) ∧
    (r.closeAll.prepared.filter r.closeAll.link.isConnected).Perm
      (r.leased.filter r.closeAll.link.isConnected ++
        r.idle.filter r.closeAll.link.isConnected) := by
  have hs := sound h.reachable
  have law := lawful h.reachable
  obtain ⟨surplus, leased, idle⟩ := closeAll_spec r
  refine ⟨⟨List.nodup_range.filter _, ledger h⟩, ?_, ?_, ?_, ?_, ?_, surplus, leased, idle, ?_, ?_⟩
  · intro k hk
    obtain ⟨-, messages, received⟩ := (law k).closed_of_closed (hs.place_of_mem (p := .closed) hk)
    exact ⟨_, received, not_mem_of_isClose fun _ => ChannelView.isClose_of_mem_history⟩
  · intro k hk
    obtain ⟨lost, unclosed⟩ := (law k).lost_of_discarded (hs.place_of_mem (p := .discarded) hk)
    exact ⟨lost, not_mem_of_isClose unclosed⟩
  · intro k hk a ha
    have kept : r.place k = .leased ∨ r.place k = .idle :=
      hk.imp (hs.place_of_mem (p := .leased)) (hs.place_of_mem (p := .idle))
    have stays : (r.act a).place k ≠ .abandoned := by
      intro hp
      have mem := mem_members_of_place hp (by decide)
      simp only [members, abandoned_of_orderly (h.act a ha), List.not_mem_nil] at mem
    exact not_mem_of_isClose ((act_view hs a k).open_of_kept (law k) kept stays)
  · intro a ha
    obtain ⟨leased, idle, connected⟩ := ha.spares
    exact ⟨leased, idle, connected⟩
  · intro k fault hk hf actions
    have dropped := place_of_unready h.reachable hk hf actions
    have hs' := sound (reachable_actAll (h.reachable.act (.prepare k)) actions)
    refine ⟨fun hl => ?_, fun hi => ?_⟩
    · cases dropped.symm.trans (hs'.place_of_mem (p := .leased) hl)
    · cases dropped.symm.trans (hs'.place_of_mem (p := .idle) hi)
  · have perm := ledger h.closeAll
    rwa [surplus, leased, idle, List.append_nil] at perm
  · have perm := connected_perm h.closeAll surplus
    rwa [leased, idle] at perm

/-- Three channels are opened, and one of them is lost before it is ready; the other two come back
where there is room for one. -/
def crowdedRun : List Action :=
  [.request, .request, .request, .openFor, .openFor, .openFor, .loseChannel 2, .prepare 0,
    .prepare 1, .prepare 2, .release 0, .release 1]

theorem no_channel_is_lost_crowdedRun :
    let r := actAll { link := { channelMax := 4 }, settings := { maxIdle := 1 } } crowdedRun
    r.closeAll.closed = [1] ∧ r.closeAll.prepared.Perm [0, 1] := by
  intro r
  have orderly : Orderly { maxIdle := 1 } r :=
    (Orderly.start 4 .ack).actAll (by decide)
  obtain ⟨-, -, -, -, -, -, -, -, -, ledger, -⟩ := no_channel_is_lost orderly
  exact ⟨rfl, ledger⟩

end ChannelReserve

end Courier
