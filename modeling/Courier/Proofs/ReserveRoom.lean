import Courier.Proofs.IdleStack
import Courier.Proofs.ReserveLedger

/-!
# What takes up the room of a reserve

A channel that comes back connected is kept as long as there are fewer idle channels than the
settings allow. An idle channel that has ended is not noticed until a request comes across it, so
those that are dead count among them as well as those that are connected (`mem_release_iff`). A
channel that the broker has seen closed for want of room has come back once to a reserve that was
full in this sense (`exists_release_of_closed`).
-/

namespace Courier

namespace ChannelView

variable {confirms : Bool} {v w : ChannelView}

/-- Only what is closed for want of room is told so: a channel that is let go is closed with another
text. -/
theorem Lawful.place_of_mem_received (h : v.Lawful confirms)
    (hc : .closed 200 ChannelReserve.surplusText ∈ v.received) : v.place = .closed := by
  have parting {connected : Bool} :
      .closed 200 ChannelReserve.surplusText ∉ farewell connected := by
    cases connected <;> simp [farewell, ChannelReserve.surplusText]
  cases h with
  | unopened => cases hc
  | opening => simp at hc
  | dropped _ connected =>
    rcases List.mem_append.1 hc with sent | left
    · simp at sent
    · exact absurd left parting
  | ready _ _ messages => cases isClose_of_mem_history hc
  | discarded messages => cases isClose_of_mem_history hc
  | closed messages => rfl
  | abandoned connected messages =>
    rcases List.mem_append.1 hc with sent | left
    · cases isClose_of_mem_history sent
    · exact absurd left parting

/-- A channel that is closed for want of room has been waiting for that. -/
theorem Step.surplus_of_closed (h : v.Step confirms w) (hw : w.place = .closed) :
    v.place = .surplus ∨ v.place = .closed := by
  cases h with
  | stay => exact .inr hw
  | ended => exact .inr hw
  | opened => cases confirms <;> cases hw
  | closed => exact .inl rfl
  | _ => cases hw

end ChannelView

namespace ChannelReserve

variable {settings : ReserveSettings} {r : ChannelReserve} {k : ChannelKey}

/-- The idle channels that have ended. -/
def dead (r : ChannelReserve) : List ChannelKey := r.idle.filter fun k => !r.link.isConnected k

theorem length_live_add_length_dead (r : ChannelReserve) :
    r.live.length + r.dead.length = r.idle.length :=
  (List.length_eq_length_filter_add r.link.isConnected).symm

/-- A channel comes back connected and finds no room. -/
def TurnsAway (r : ChannelReserve) (k : ChannelKey) : Prop :=
  k ∈ r.leased ∧ r.link.isConnected k = true ∧ r.settings.maxIdle ≤ r.idle.length

/-- In a reserve that is within its bound, a channel is turned away if the bound is met. -/
theorem TurnsAway.full (h : Sound settings r) (ht : r.TurnsAway k) :
    r.live.length + r.dead.length = settings.maxIdle := by
  have full := ht.2.2
  rw [h.settings_eq] at full
  rw [length_live_add_length_dead]
  exact Nat.le_antisymm h.idle full

/-- A channel that comes back connected is kept while the idle channels, connected or not, are fewer
than the bound, and is otherwise to be closed. -/
theorem mem_release_iff (h : Sound settings r) (leased : k ∈ r.leased)
    (connected : r.link.isConnected k = true) :
    (k ∈ (r.act (.release k)).idle ↔ r.live.length + r.dead.length < settings.maxIdle) ∧
    (k ∈ (r.act (.release k)).surplus ↔ r.live.length + r.dead.length = settings.maxIdle) := by
  obtain ⟨fresh, turn⟩ := act_turn r (.release k)
  have after := h.turn turn
  have apart (idle : k ∈ (r.act (.release k)).idle) : k ∉ (r.act (.release k)).surplus := by
    intro surplus
    cases (after.place_of_mem (p := .idle) idle).symm.trans
      (after.place_of_mem (p := .surplus) surplus)
  have bound := h.idle
  rw [length_live_add_length_dead]
  by_cases room : r.idle.length < settings.maxIdle
  · have kept : k ∈ (r.act (.release k)).idle := by
      rw [act_release_of_keeps ⟨leased, connected, h.settings_eq.symm ▸ room⟩]
      exact List.mem_cons_self
    exact ⟨iff_of_true kept room, iff_of_false (apart kept) (Nat.ne_of_lt room)⟩
  · have full : r.settings.maxIdle ≤ r.idle.length := h.settings_eq.symm ▸ Nat.le_of_not_lt room
    have spared : k ∈ (r.act (.release k)).surplus := by
      rw [act, if_pos leased, release_spared connected full]
      exact List.mem_cons_self
    refine ⟨iff_of_false (fun idle => apart idle spared) room, iff_of_true spared ?_⟩
    omega

/-! ## Runs -/

theorem mem_surplus_release {j : ChannelKey} (leased : j ∈ r.leased)
    (hk : k ∈ (r.release j).surplus) : k ∈ r.surplus ∨ k = j ∧ r.TurnsAway k := by
  rcases r.release_cases j with ⟨-, e⟩ | ⟨-, -, e⟩ | ⟨connected, full, e⟩
  · rw [e] at hk
    exact .inl hk
  · rw [e] at hk
    exact .inl hk
  · rw [e, List.mem_cons] at hk
    rcases hk with rfl | hk
    · exact .inr ⟨rfl, leased, connected, full⟩
    · exact .inl hk

/-- Only a channel that is turned away becomes surplus. -/
theorem mem_surplus_act {a : Action} (hk : k ∈ (r.act a).surplus) :
    k ∈ r.surplus ∨ a = .release k ∧ r.TurnsAway k := by
  have other (ho : a.movesReady = false) : k ∈ r.surplus := (r.act_frame ho).2.1 ▸ hk
  cases a with
  | request =>
    rcases r.idle_cases with ⟨newer, j, older, hi, dead, hj⟩ | dead
    · rw [act, request_served hi dead hj] at hk
      exact .inl hk
    · rw [act, request_unserved dead] at hk
      exact .inl hk
  | release j =>
    rw [act] at hk
    split at hk
    next leased =>
      rcases mem_surplus_release leased hk with before | ⟨rfl, turned⟩
      · exact .inl before
      · exact .inr ⟨rfl, turned⟩
    next => exact .inl hk
  | releaseInPlace j =>
    rw [act] at hk
    split at hk
    next leased =>
      unfold releaseInPlace at hk
      split at hk
      next => exact .inl hk
      next room =>
        rcases mem_surplus_release leased hk with before | ⟨rfl, -, connected, full⟩
        · exact .inl before
        · rw [connected, decide_eq_true full] at room
          exact absurd rfl room
    next => exact .inl hk
  | abandon j =>
    rw [act] at hk
    split at hk <;> exact .inl hk
  | closeSurplus j =>
    rw [act] at hk
    split at hk
    · rw [(r.closeSurplus_frame j).1] at hk
      exact .inl (List.mem_of_mem_erase hk)
    · exact .inl hk
  | _ => exact .inl (other rfl)

/-- A channel is to be closed for want of room, or has been. -/
def Spared (r : ChannelReserve) (k : ChannelKey) : Prop :=
  r.place k = .surplus ∨ r.place k = .closed

theorem spared_act (h : Sound settings r) {a : Action} (hk : (r.act a).Spared k) :
    r.Spared k ∨ a = .release k ∧ r.TurnsAway k := by
  rcases hk with surplus | closed
  · rcases mem_surplus_act (mem_members_of_place surplus (by decide)) with before | turned
    · exact .inl (.inl (h.place_of_mem (p := .surplus) before))
    · exact .inr turned
  · exact .inl ((act_view h a k).surplus_of_closed closed)

theorem spared_actAll (h : Reachable settings r) {actions : List Action}
    (hk : (r.actAll actions).Spared k) : r.Spared k ∨ ∃ before after,
      actions = before ++ .release k :: after ∧ (r.actAll before).TurnsAway k := by
  induction actions generalizing r with
  | nil => exact .inl hk
  | cons a rest ih =>
    rcases ih (h.act a) hk with spared | ⟨before, after, rfl, turned⟩
    · rcases spared_act (sound h) spared with spared | ⟨rfl, turned⟩
      · exact .inl spared
      · exact .inr ⟨[], rest, rfl, turned⟩
    · exact .inr ⟨a :: before, after, rfl, turned⟩

/-- A channel that the broker has seen closed for want of room was turned away before that. -/
theorem exists_release_of_closed {channelMax : Nat} {mode : AnswerMode} {actions : List Action}
    (hc : .closed 200 "pool is full" ∈
      (actAll { link := { channelMax, mode }, settings } actions).link.received k) :
    ∃ before after, actions = before ++ .release k :: after ∧
      (actAll { link := { channelMax, mode }, settings } before).TurnsAway k := by
  have start : Reachable settings { link := { channelMax, mode }, settings } :=
    .start channelMax mode
  have closed := (lawful (reachable_actAll start actions) k).place_of_mem_received hc
  rcases spared_actAll start (.inr closed) with spared | turned
  · rcases spared with surplus | closed
    · cases mem_members_of_place surplus (by decide)
    · cases mem_members_of_place closed (by decide)
  · exact turned

/-- A channel that comes back connected is kept while there are fewer idle channels than the bound,
where those that have ended unnoticed count like the others, and turned away when there are as many.
What the broker sees closed for want of room is a channel that came back, leased and still
connected, when the connected idle channels and the dead ones together were as many as are kept; so
it was the connected ones alone if none was dead. -/
theorem closes_when_live_and_dead_fill (settings : ReserveSettings) :
    (∀ r k, Reachable settings r → k ∈ r.leased → r.link.isConnected k = true →
      (k ∈ (r.act (.release k)).idle ↔ r.live.length + r.dead.length < settings.maxIdle) ∧
      (k ∈ (r.act (.release k)).surplus ↔ r.live.length + r.dead.length = settings.maxIdle)) ∧
    ∀ channelMax mode actions k, .closed 200 "pool is full" ∈
        (actAll { link := { channelMax, mode }, settings } actions).link.received k →
      ∃ before after, actions = before ++ .release k :: after ∧
        let r := actAll { link := { channelMax, mode }, settings } before
        k ∈ r.leased ∧ r.link.isConnected k = true ∧
          r.live.length + r.dead.length = settings.maxIdle := by
  refine ⟨fun r k h => mem_release_iff (sound h), fun channelMax mode actions k hc => ?_⟩
  obtain ⟨before, after, split, turned⟩ := exists_release_of_closed hc
  have reached := reachable_actAll (.start channelMax mode : Reachable settings _) before
  exact ⟨before, after, split, turned.1, turned.2.1, turned.full (sound reached)⟩

/-- Two channels are leased where one is kept, and the one that comes back first is lost while it is
idle. -/
def lostIdleRun : List Action :=
  [.request, .openFor, .prepare 0, .request, .openFor, .prepare 1, .release 0, .loseChannel 0]

/-- The other one then comes back, and is closed. -/
theorem closed_lostIdleRun : .closed 200 "pool is full" ∈
    (actAll { link := { channelMax := 4 }, settings := { maxIdle := 1 } }
      (lostIdleRun ++ [.release 1, .closeSurplus 1])).link.received 1 := by
  have received : (actAll { link := { channelMax := 4 }, settings := { maxIdle := 1 } }
      (lostIdleRun ++ [.release 1, .closeSurplus 1])).link.received 1 =
        [.opened, .confirmSelect false, .closed 200 "pool is full"] := rfl
  rw [received]
  simp

theorem closes_when_live_and_dead_fill_lostIdleRun :
    let start : ChannelReserve := { link := { channelMax := 4 }, settings := { maxIdle := 1 } }
    ∃ before after, lostIdleRun ++ [.release 1, .closeSurplus 1] = before ++ .release 1 :: after ∧
      1 ∈ (start.actAll before).leased ∧ (start.actAll before).link.isConnected 1 = true ∧
      (start.actAll before).live.length + (start.actAll before).dead.length = 1 :=
  (closes_when_live_and_dead_fill { maxIdle := 1 }).2 4 .ack _ 1 closed_lostIdleRun

/-- Not only real surplus is closed: a dead channel takes up the room of a live one. -/
theorem not_only_surplus_is_closed : ¬ ∀ (settings : ReserveSettings) (r : ChannelReserve) k,
    Reachable settings r → k ∈ r.leased → r.link.isConnected k = true →
    .closed 200 "pool is full" ∈ (r.actAll [.release k, .closeSurplus k]).link.received k →
    r.live.length = settings.maxIdle := by
  intro h
  let r : ChannelReserve :=
    actAll { link := { channelMax := 4 }, settings := { maxIdle := 1 } } lostIdleRun
  have reached : Reachable { maxIdle := 1 } r := reachable_actAll (.start 4 .ack) lostIdleRun
  have none_live : r.live.length = 0 := rfl
  have full := h { maxIdle := 1 } r 1 reached (.head _) rfl closed_lostIdleRun
  rw [none_live] at full
  cases full

end ChannelReserve

end Courier
