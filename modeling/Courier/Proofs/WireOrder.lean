import Courier.Proofs.TrafficCustody

/-!
# What the broker receives on a channel

On every channel that is handed out to a call or a lease, the broker receives that it is opened, put
in confirm mode if the settings say so, published on, and closed at most once. The channel is closed
for want of room, in the background; only one that is given back where no background work can run,
with a lease or with a call that is given up in its publish, is let go instead (`wire_order`).
-/

namespace Courier

variable {α : Type}

namespace ChannelView

variable {confirms : Bool} {v : ChannelView}

/-- What the broker has received on a channel that has been made ready. -/
theorem Lawful.received_of_prepared (h : v.Lawful confirms) (hp : v.place ∈ Place.prepared) :
    ∃ messages closing, v.received = history confirms messages ++ closing ∧
      (closing = [] ∨ closing = [.closed 200 "pool is full"] ∨
        v.place = .abandoned ∧ closing = [.closed 200 "OK"]) := by
  cases h with
  | unopened => simp [Place.prepared] at hp
  | opening => simp [Place.prepared] at hp
  | dropped => simp [Place.prepared] at hp
  | ready _ _ messages => exact ⟨messages, [], (List.append_nil _).symm, .inl rfl⟩
  | discarded messages => exact ⟨messages, [], (List.append_nil _).symm, .inl rfl⟩
  | closed messages => exact ⟨messages, _, rfl, .inr (.inl rfl)⟩
  | abandoned connected messages =>
    refine ⟨messages, farewell connected, rfl, ?_⟩
    cases connected with
    | true => exact .inr (.inr ⟨rfl, rfl⟩)
    | false => exact .inl rfl

end ChannelView

/-- A channel that is taken back in place is let go if it has to be closed for want of room. -/
theorem ChannelReserve.mem_abandoned_of_releaseInPlace {r : ChannelReserve} {j k : ChannelKey}
    (hk : k ∈ (r.releaseInPlace j).abandoned) :
    k ∈ r.abandoned ∨ k = j ∧ r.settings.maxIdle ≤ r.idle.length := by
  unfold releaseInPlace at hk
  split at hk
  next full =>
    rw [Bool.and_eq_true, decide_eq_true_eq] at full
    obtain rfl | old := List.mem_cons.1 hk
    · exact .inr ⟨rfl, full.2⟩
    · exact .inl old
  next =>
    rw [abandoned_release] at hk
    exact .inl hk

namespace Traffic

variable {settings : ReserveSettings} {t : Traffic α}

/-- A channel is let go only if it is given back where no background work can run, with a lease or
with a call that is given up in its publish, and there is no room for it. -/
theorem abandoned_act (h : Reachable settings t) {a : Action α} {k : ChannelKey}
    (hk : k ∈ (t.act a).reserve.abandoned) : k ∈ t.reserve.abandoned ∨
      ((∃ lease, a = .leaseReleaseInPlace lease ∧ t.lease? lease = some k) ∨
        ∃ n m, a = .cancelInPlace n ∧ t.calls[n]? = some (.publishing m k)) ∧
      settings.maxIdle ≤ t.reserve.idle.length := by
  by_cases hp : a.isInPlace
  · have full := (sound h).settings_eq
    cases a with
    | leaseReleaseInPlace lease =>
      simp only [act] at hk
      split at hk
      next j hj =>
        obtain old | ⟨rfl, room⟩ := ChannelReserve.mem_abandoned_of_releaseInPlace hk
        · exact .inl old
        · exact .inr ⟨.inl ⟨lease, rfl, hj⟩, full ▸ room⟩
      next => exact .inl hk
    | cancelInPlace n =>
      simp only [act, cancelInPlace] at hk
      split at hk
      next m j hc =>
        obtain old | ⟨rfl, room⟩ := ChannelReserve.mem_abandoned_of_releaseInPlace hk
        · exact .inl old
        · exact .inr ⟨.inr ⟨n, m, rfl, hc⟩, full ▸ room⟩
      next => exact .inl hk
    | _ => cases hp
  · rw [(act_evolves h a).abandoned hp] at hk
    exact .inl hk

/-- On a channel that was handed out, the broker receives that it is opened; then that it is put in
confirm mode, once, if the settings say so; then messages; then at most that it is closed, for want
of room. Where a lease is given back, or a call given up in its publish, without a background to
close the channel in, and there is no room for it, the channel is let go: then that is the last that
the broker receives on it. -/
theorem wire_order (h : Reachable settings t) :
    (∀ owner k, (owner, .acquired k) ∈ t.log →
      ∃ (messages : List Message) (closing : List ChannelEvent),
      t.link.received k = .opened :: (if settings.confirms then [.confirmSelect false] else []) ++
        messages.map (.published { mandatory := false, immediate := false }) ++ closing ∧
      (closing = [] ∨ closing = [.closed 200 "pool is full"] ∨
        k ∈ t.reserve.abandoned ∧ closing = [.closed 200 "OK"])) ∧
    ∀ a k, k ∈ (t.act a).reserve.abandoned → k ∈ t.reserve.abandoned ∨
      ((∃ lease, a = .leaseReleaseInPlace lease ∧ t.lease? lease = some k) ∨
        ∃ n m, a = .cancelInPlace n ∧ t.calls[n]? = some (.publishing m k)) ∧
      settings.maxIdle ≤ t.reserve.idle.length := by
  refine ⟨fun owner k hk => ?_, fun a k => abandoned_act h⟩
  obtain ⟨messages, closing, received, closes⟩ :=
    (lawful h k).received_of_prepared (prepared_of_acquired h hk)
  refine ⟨messages, closing, received, closes.imp_right (Or.imp_right ?_)⟩
  rintro ⟨place, rfl⟩
  exact ⟨ChannelReserve.mem_members_of_place place (by decide), rfl⟩

/-- A channel is leased and given back without a background to close it in, where none are kept. -/
def forlornRun : List (Action Unit) := [.lease, .openFor 0, .prepare 0, .leaseReleaseInPlace 0]

/-- Not every channel that is closed is closed for want of room: a lease can be given back where
nothing can be done in the background. -/
theorem not_only_closed_for_room : ¬ ∀ (settings : ReserveSettings) (t : Traffic Unit),
    Reachable settings t → ∀ owner k, (owner, .acquired k) ∈ t.log →
      ∃ (messages : List Message) (closing : List ChannelEvent), t.link.received k =
        .opened :: (if settings.confirms then [.confirmSelect false] else []) ++
          messages.map (.published { mandatory := false, immediate := false }) ++ closing ∧
        (closing = [] ∨ closing = [.closed 200 "pool is full"]) := by
  intro h
  let t : Traffic Unit :=
    actAll { reserve := { link := { channelMax := 4 }, settings := { maxIdle := 0 } } } forlornRun
  have reachable : Reachable { maxIdle := 0 } t := reachable_actAll (.start 4 .ack) forlornRun
  have acquired : (Owner.lessee, Event.acquired 0) ∈ t.log := .head _
  have received : t.link.received 0 = [.opened, .confirmSelect false, .closed 200 "OK"] := rfl
  obtain ⟨messages, closing, shape, closes⟩ := h _ t reachable .lessee 0 acquired
  have last : .closed 200 "OK" ∈ t.link.received 0 := by
    rw [received]
    simp
  rw [shape] at last
  obtain sent | ended := List.mem_append.1 last
  · cases ChannelView.isClose_of_mem_history sent
  · obtain rfl | rfl := closes <;> simp at ended

/-- A channel is leased, published on, kept and leased again, and in the end closed for want of
room, since another one came back before it. -/
def pooledRun : List (Action Unit) :=
  [.lease, .openFor 0, .prepare 0, .leasePublish 0 ⟨"", "a", ∅, .empty⟩, .leaseRelease 0, .lease,
    .lease, .openFor 0, .prepare 0, .leaseRelease 2, .leaseRelease 1, .closeSurplus 0]

theorem wire_order_pooledRun :
    let t := actAll { reserve := { link := { channelMax := 4 }, settings := { maxIdle := 1 } } }
      pooledRun
    (Owner.lessee, Event.acquired 0) ∈ t.log ∧
      ∃ (messages : List Message) (closing : List ChannelEvent),
        t.link.received 0 = .opened :: [.confirmSelect false] ++
          messages.map (.published { mandatory := false, immediate := false }) ++ closing := by
  intro t
  have reachable : Reachable { maxIdle := 1 } t := reachable_actAll (.start 4 .ack) pooledRun
  have acquired : (Owner.lessee, Event.acquired 0) ∈ t.log := .head _
  obtain ⟨messages, closing, shape, -⟩ := (wire_order reachable).1 .lessee 0 acquired
  exact ⟨acquired, messages, closing, shape⟩

end Traffic

end Courier
