import Courier.ChannelReserve
import Courier.Proofs.Positions
import Mathlib.Data.List.Nodup
import Mathlib.Data.List.Perm.Subperm
import Mathlib.Data.List.TakeWhile

/-!
# Who has a channel of a reserve

A request is served as `request_served` says or has to wait as `request_unserved` says, and
`release_cases` is what becomes of a channel that comes back.

`ChannelReserve.places` lists the channels of a reserve place after place. An action moves channels
from one place to another, lets some go, or adds the channel that it opens (`act_turn`), so no
channel is in two places (`sound`): it is idle once, or leased once, or neither. The bound on the
idle channels is checked where one is added.
-/

namespace Courier

open scoped List

namespace Link

@[simp] theorem length_modifyChannel (l : Link) (k : ChannelKey) (f : Channel → Channel) :
    (l.modifyChannel k f).channels.length = l.channels.length := by
  simp [modifyChannel]

@[simp] theorem length_send (l : Link) (k : ChannelKey) (e : ChannelEvent) :
    (l.send k e).channels.length = l.channels.length := rfl

@[simp] theorem length_endChannel (l : Link) (k : ChannelKey) (fault : LinkFault) :
    (l.endChannel k fault).channels.length = l.channels.length :=
  length_modifyChannel l k _

@[simp] theorem length_closeChannel (l : Link) (k : ChannelKey) (text : String) :
    (l.closeChannel k text).channels.length = l.channels.length := by
  unfold closeChannel
  split
  · rw [length_endChannel, length_send]
  · rfl

@[simp] theorem length_dropChannel (l : Link) (k : ChannelKey) :
    (l.dropChannel k).channels.length = l.channels.length :=
  length_closeChannel l k _

@[simp] theorem length_loseChannel (l : Link) (k : ChannelKey) :
    (l.loseChannel k).channels.length = l.channels.length := by
  unfold loseChannel
  split
  · rw [length_endChannel]
  · rfl

@[simp] theorem length_disconnect (l : Link) :
    l.disconnect.channels.length = l.channels.length := by
  unfold disconnect
  split
  · simp [settle]
  · rfl

theorem length_selectConfirms {l l' : Link} {k : ChannelKey} (h : l.selectConfirms k = .ok l') :
    l'.channels.length = l.channels.length := by
  unfold selectConfirms at h
  split at h
  · cases h
    simp
  · cases h

theorem length_publish {l l' : Link} {k : ChannelKey} {sender : Owner} {m : Message}
    (h : l.publish k sender m = .ok l') : l'.channels.length = l.channels.length := by
  unfold publish at h
  cases hk : l.channels[k]? with
  | none => simp [hk] at h
  | some c =>
    simp only [hk] at h
    split at h
    · cases h
      simp only [length_send]
      split
      · exact length_modifyChannel l k _
      · rfl
    · cases h

/-- The channel that is opened is the next one. -/
theorem openChannel_eq_ok {l l' : Link} {k : ChannelKey} (h : l.openChannel = .ok (l', k)) :
    k = l.channels.length ∧ l'.channels.length = l.channels.length + 1 := by
  unfold openChannel at h
  split at h
  · split at h
    · cases h
      simp
    · cases h
  · cases h

end Link

namespace ChannelReserve

/-! ## Requests and releases -/

section

variable {r : ChannelReserve} {k : ChannelKey}

/-- Among the idle channels there is a first that is connected, or all of them are dead. -/
theorem idle_cases (r : ChannelReserve) :
    (∃ newer k older, r.idle = newer ++ k :: older ∧
      (∀ j ∈ newer, r.link.isConnected j = false) ∧ r.link.isConnected k = true) ∨
    ∀ j ∈ r.idle, r.link.isConnected j = false := by
  by_cases h : ∃ j ∈ r.idle, r.link.isConnected j = true
  · obtain ⟨k, newer, older, hi, hk, dead⟩ := exists_firstOf_iff.2 h
    exact .inl ⟨newer, k, older, hi, fun j hj => Bool.eq_false_iff.2 (dead j hj), hk⟩
  · refine .inr fun j hj => ?_
    rw [Bool.eq_false_iff]
    intro hc
    exact h ⟨j, hj, hc⟩

/-- A request that finds a connected channel takes it, sets the dead ones above it aside, and leaves
the rest where it is. -/
theorem request_served {newer older : List ChannelKey} (hi : r.idle = newer ++ k :: older)
    (dead : ∀ j ∈ newer, r.link.isConnected j = false) (hk : r.link.isConnected k = true) :
    r.request = ({ r with
      idle := older
      leased := k :: r.leased
      discarded := newer.reverse ++ r.discarded }, some k) := by
  have skipped : ∀ j ∈ newer, (!r.link.isConnected j) = true := by
    intro j hj
    rw [dead j hj]
    rfl
  have above : (r.idle.takeWhile fun k => !r.link.isConnected k) = newer := by
    rw [hi, List.takeWhile_append_of_pos skipped, List.takeWhile_cons_of_neg (by simp [hk]),
      List.append_nil]
  have below : (r.idle.dropWhile fun k => !r.link.isConnected k) = k :: older := by
    rw [hi, List.dropWhile_append_of_pos skipped, List.dropWhile_cons_of_neg (by simp [hk])]
  simp only [request, above, below]

/-- A request that finds no connected channel sets all aside and waits for one to be opened. -/
theorem request_unserved (dead : ∀ j ∈ r.idle, r.link.isConnected j = false) :
    r.request = ({ r with
      idle := []
      waiting := r.waiting + 1
      discarded := r.idle.reverse ++ r.discarded }, none) := by
  have skipped : ∀ j ∈ r.idle, (!r.link.isConnected j) = true := by
    intro j hj
    rw [dead j hj]
    rfl
  have above : (r.idle.takeWhile fun k => !r.link.isConnected k) = r.idle :=
    List.takeWhile_eq_self_iff.2 skipped
  have below : (r.idle.dropWhile fun k => !r.link.isConnected k) = [] :=
    List.dropWhile_eq_nil_iff.2 skipped
  simp only [request, above, below]

/-- A channel that comes back dead is set aside. -/
theorem release_lost (hk : r.link.isConnected k = false) :
    r.release k = { r with leased := r.leased.erase k, discarded := k :: r.discarded } := by
  simp only [release, hk, Bool.not_false, if_true]

/-- A connected channel that finds room is kept. -/
theorem release_kept (hk : r.link.isConnected k = true)
    (room : r.idle.length < r.settings.maxIdle) :
    r.release k = { r with leased := r.leased.erase k, idle := k :: r.idle } := by
  simp only [release, hk, Bool.not_true, Bool.false_eq_true, if_false, if_pos room]

/-- A connected channel that finds no room is to be closed. -/
theorem release_spared (hk : r.link.isConnected k = true)
    (full : r.settings.maxIdle ≤ r.idle.length) :
    r.release k = { r with leased := r.leased.erase k, surplus := k :: r.surplus } := by
  simp only [release, hk, Bool.not_true, Bool.false_eq_true, if_false,
    if_neg (Nat.not_lt_of_le full)]

/-- What happens to a channel that comes back. -/
theorem release_cases (r : ChannelReserve) (k : ChannelKey) :
    (r.link.isConnected k = false ∧
      r.release k = { r with leased := r.leased.erase k, discarded := k :: r.discarded }) ∨
    (r.link.isConnected k = true ∧ r.idle.length < r.settings.maxIdle ∧
      r.release k = { r with leased := r.leased.erase k, idle := k :: r.idle }) ∨
    (r.link.isConnected k = true ∧ r.settings.maxIdle ≤ r.idle.length ∧
      r.release k = { r with leased := r.leased.erase k, surplus := k :: r.surplus }) := by
  cases hk : r.link.isConnected k with
  | false => exact .inl ⟨rfl, release_lost hk⟩
  | true =>
    by_cases room : r.idle.length < r.settings.maxIdle
    · exact .inr (.inl ⟨rfl, room, release_kept hk room⟩)
    · have full := Nat.le_of_not_lt room
      exact .inr (.inr ⟨rfl, full, release_spared hk full⟩)

/-- Opening a channel concerns only the channels that are in use. -/
theorem openFor_frame (r : ChannelReserve) : r.openFor.1.idle = r.idle ∧
    r.openFor.1.surplus = r.surplus ∧ r.openFor.1.abandoned = r.abandoned := by
  simp only [openFor]
  split
  · split <;> exact ⟨rfl, rfl, rfl⟩
  · exact ⟨rfl, rfl, rfl⟩

/-- So does making one ready. -/
theorem prepare_frame (r : ChannelReserve) (k : ChannelKey) : (r.prepare k).1.idle = r.idle ∧
    (r.prepare k).1.surplus = r.surplus ∧ (r.prepare k).1.abandoned = r.abandoned := by
  simp only [prepare]
  split <;> exact ⟨rfl, rfl, rfl⟩

/-- Closing a surplus channel concerns no other channel that can be used. -/
theorem closeSurplus_frame (r : ChannelReserve) (k : ChannelKey) :
    (r.closeSurplus k).surplus = r.surplus.erase k ∧ (r.closeSurplus k).leased = r.leased ∧
      (r.closeSurplus k).idle = r.idle ∧ (r.closeSurplus k).abandoned = r.abandoned := by
  simp only [closeSurplus]
  split <;> exact ⟨rfl, rfl, rfl, rfl⟩

@[simp] theorem link_request : r.request.1.link = r.link := by
  rcases r.idle_cases with ⟨newer, j, older, hi, dead, hj⟩ | dead
  · rw [request_served hi dead hj]
  · rw [request_unserved dead]

@[simp] theorem link_release (r : ChannelReserve) (k : ChannelKey) :
    (r.release k).link = r.link := by
  rcases r.release_cases k with ⟨-, e⟩ | ⟨-, -, e⟩ | ⟨-, -, e⟩
  all_goals rw [e]

@[simp] theorem leased_release (r : ChannelReserve) (k : ChannelKey) :
    (r.release k).leased = r.leased.erase k := by
  rcases r.release_cases k with ⟨-, e⟩ | ⟨-, -, e⟩ | ⟨-, -, e⟩
  all_goals rw [e]

/-- An action that is guarded does what it does, or nothing. -/
theorem of_guard {P : ChannelReserve → Prop} {r s : ChannelReserve} {p : Prop} [Decidable p]
    (hr : P r) (hs : p → P s) : P (if p then s else r) := by
  split
  next hp => exact hs hp
  next => exact hr

/-- Whether an action moves channels that have been made ready from one place to another. -/
def Action.movesReady : Action → Bool
  | .request | .release _ | .releaseInPlace _ | .abandon _ | .closeSurplus _ => true
  | _ => false

/-- Other actions concern only channels that are in use. -/
theorem act_frame (r : ChannelReserve) {a : Action} (ha : a.movesReady = false) :
    (r.act a).idle = r.idle ∧ (r.act a).surplus = r.surplus ∧
      (r.act a).abandoned = r.abandoned := by
  have guarded {s : ChannelReserve} {p : Prop} [Decidable p] (hs : s.idle = r.idle ∧
      s.surplus = r.surplus ∧ s.abandoned = r.abandoned) :
      (if p then s else r).idle = r.idle ∧ (if p then s else r).surplus = r.surplus ∧
        (if p then s else r).abandoned = r.abandoned :=
    of_guard (P := fun s => s.idle = r.idle ∧ s.surplus = r.surplus ∧ s.abandoned = r.abandoned)
      ⟨rfl, rfl, rfl⟩ fun _ => hs
  cases a with
  | openFor => exact guarded r.openFor_frame
  | prepare k => exact guarded (r.prepare_frame k)
  | withdraw k => cases k <;> exact guarded ⟨rfl, rfl, rfl⟩
  | publish k sender m =>
    apply guarded
    split <;> exact ⟨rfl, rfl, rfl⟩
  | loseChannel k => exact ⟨rfl, rfl, rfl⟩
  | disconnect => exact ⟨rfl, rfl, rfl⟩
  | _ => cases ha

end

/-! ## Turns -/

/-- The channels of a reserve, place after place. -/
def places (r : ChannelReserve) : List ChannelKey :=
  r.idle ++ r.leased ++ r.opening ++ r.surplus ++ r.closed ++ r.discarded ++ r.abandoned

/-- What an action does to a reserve, with the channels that it opens. -/
structure Turn (r s : ChannelReserve) (fresh : List ChannelKey) : Prop where
  settings_eq : s.settings = r.settings
  idle : s.idle.length ≤ max r.idle.length r.settings.maxIdle
  places : s.places <+~ fresh ++ r.places
  opened : List.range s.link.channels.length = List.range r.link.channels.length ++ fresh

/-- A reserve in which no channel is in two places. -/
structure Sound (settings : ReserveSettings) (r : ChannelReserve) : Prop where
  settings_eq : r.settings = settings
  idle : r.idle.length ≤ settings.maxIdle
  places : r.places <+~ List.range r.link.channels.length

theorem Sound.turn {settings : ReserveSettings} {r s : ChannelReserve} {fresh : List ChannelKey}
    (h : Sound settings r) (t : Turn r s fresh) : Sound settings s := by
  obtain ⟨hs, hi, hp, ho⟩ := t
  refine ⟨hs.trans h.settings_eq, ?_, ?_⟩
  · rw [h.settings_eq, Nat.max_eq_right h.idle] at hi
    exact hi
  · have hr : fresh ++ r.places <+~ fresh ++ List.range r.link.channels.length :=
      (List.subperm_append_left fresh).2 h.places
    rw [ho]
    exact (hp.trans hr).trans List.perm_append_comm.subperm

theorem count_places (r : ChannelReserve) (j : ChannelKey) : r.places.count j =
    r.idle.count j + r.leased.count j + r.opening.count j + r.surplus.count j + r.closed.count j +
      r.discarded.count j + r.abandoned.count j := by
  simp only [places, List.count_append]

/-- An action that opens no channel: each one is as often in some place as before. -/
theorem turn_of_count {r s : ChannelReserve} (hs : s.settings = r.settings)
    (hi : s.idle.length ≤ max r.idle.length r.settings.maxIdle)
    (ho : s.link.channels.length = r.link.channels.length)
    (hc : ∀ j, s.places.count j = r.places.count j) : Turn r s [] :=
  ⟨hs, hi, (List.perm_iff_count.2 hc).subperm, by rw [ho, List.append_nil]⟩

/-- An action on the link alone. -/
theorem turn_link {r : ChannelReserve} {l : Link}
    (h : l.channels.length = r.link.channels.length) : Turn r { r with link := l } [] :=
  turn_of_count rfl (Nat.le_max_left _ _) h fun _ => rfl

theorem turn_refl (r : ChannelReserve) : Turn r r [] := turn_link rfl

theorem count_erase_add {l : List ChannelKey} {k : ChannelKey} (h : k ∈ l) (j : ChannelKey) :
    (l.erase k).count j + (if k = j then 1 else 0) = l.count j := by
  have hp := (List.perm_cons_erase h).count_eq j
  rw [List.count_cons] at hp
  simpa [beq_iff_eq] using hp.symm

theorem turn_request (r : ChannelReserve) : Turn r r.request.1 [] := by
  rcases r.idle_cases with ⟨newer, k, older, hi, dead, hk⟩ | dead
  · rw [request_served hi dead hk]
    have fewer : older.length ≤ r.idle.length := by
      rw [hi, List.length_append, List.length_cons]
      omega
    refine turn_of_count rfl (Nat.le_trans fewer (Nat.le_max_left _ _)) rfl fun j => ?_
    simp only [count_places, hi, List.count_append, List.count_reverse, List.count_cons]
    omega
  · rw [request_unserved dead]
    refine turn_of_count rfl (Nat.zero_le _) rfl fun j => ?_
    simp only [count_places, List.count_append, List.count_reverse, List.count_nil]
    omega

/-- A channel is opened, and is leased or still to be made ready. -/
theorem turn_openFor (r : ChannelReserve) : ∃ fresh, Turn r r.openFor.1 fresh := by
  cases ho : r.link.openChannel with
  | error fault =>
    simp only [openFor, ho]
    exact ⟨[], turn_of_count rfl (Nat.le_max_left _ _) rfl fun _ => rfl⟩
  | ok opened =>
    obtain ⟨link, k⟩ := opened
    obtain ⟨rfl, hl⟩ := Link.openChannel_eq_ok ho
    refine ⟨[r.link.channels.length], ?_⟩
    have hr : List.range link.channels.length
        = List.range r.link.channels.length ++ [r.link.channels.length] := by
      rw [hl, List.range_succ]
    simp only [openFor, ho]
    split
    · refine ⟨rfl, Nat.le_max_left _ _, List.subperm_iff_count.2 fun j => ?_, hr⟩
      simp only [List.count_append, count_places, List.count_cons, List.count_nil]
      omega
    · refine ⟨rfl, Nat.le_max_left _ _, List.subperm_iff_count.2 fun j => ?_, hr⟩
      simp only [List.count_append, count_places, List.count_cons, List.count_nil]
      omega

/-- A channel that is being made ready is let go. -/
theorem turn_withdraw (r : ChannelReserve) (k : ChannelKey) :
    Turn r { r with opening := r.opening.erase k, link := r.link.dropChannel k } [] := by
  have sub : r.opening.erase k <+ r.opening := List.erase_sublist
  refine ⟨rfl, Nat.le_max_left _ _, List.subperm_iff_count.2 fun j => ?_, ?_⟩
  · have fewer := sub.count_le j
    simp only [List.nil_append, count_places]
    omega
  · simp only [Link.length_dropChannel, List.append_nil]

theorem turn_prepare {r : ChannelReserve} {k : ChannelKey} (h : k ∈ r.opening) :
    Turn r (r.prepare k).1 [] := by
  cases hs : r.link.selectConfirms k with
  | error fault =>
    simp only [prepare, hs]
    exact turn_withdraw r k
  | ok link =>
    simp only [prepare, hs]
    refine turn_of_count rfl (Nat.le_max_left _ _) (Link.length_selectConfirms hs) fun j => ?_
    simp only [count_places, ← count_erase_add h j, List.count_cons, beq_iff_eq]
    omega

theorem turn_release {r : ChannelReserve} {k : ChannelKey} (h : k ∈ r.leased) :
    Turn r (r.release k) [] := by
  have moved (j : ChannelKey) : (r.release k).places.count j = r.places.count j := by
    rcases r.release_cases k with ⟨-, e⟩ | ⟨-, -, e⟩ | ⟨-, -, e⟩
    all_goals
      simp only [e, count_places, ← count_erase_add h j, List.count_cons, beq_iff_eq]
      omega
  rcases r.release_cases k with ⟨-, e⟩ | ⟨-, room, e⟩ | ⟨-, -, e⟩
  · rw [e] at moved ⊢
    exact turn_of_count rfl (Nat.le_max_left _ _) rfl moved
  · rw [e] at moved ⊢
    exact turn_of_count rfl (Nat.le_trans room (Nat.le_max_right _ _)) rfl moved
  · rw [e] at moved ⊢
    exact turn_of_count rfl (Nat.le_max_left _ _) rfl moved

theorem turn_abandon {r : ChannelReserve} {k : ChannelKey} (h : k ∈ r.leased) :
    Turn r (r.abandon k) [] := by
  refine turn_of_count rfl (Nat.le_max_left _ _) (Link.length_dropChannel _ _) fun j => ?_
  simp only [abandon, count_places, ← count_erase_add h j, List.count_cons, beq_iff_eq]
  omega

theorem turn_releaseInPlace {r : ChannelReserve} {k : ChannelKey} (h : k ∈ r.leased) :
    Turn r (r.releaseInPlace k) [] := by
  unfold releaseInPlace
  split
  · exact turn_abandon h
  · exact turn_release h

theorem turn_closeSurplus {r : ChannelReserve} {k : ChannelKey} (h : k ∈ r.surplus) :
    Turn r (r.closeSurplus k) [] := by
  simp only [closeSurplus]
  split
  · refine turn_of_count rfl (Nat.le_max_left _ _) (Link.length_closeChannel _ _ _) fun j => ?_
    simp only [count_places, ← count_erase_add h j, List.count_cons, beq_iff_eq]
    omega
  · refine turn_of_count rfl (Nat.le_max_left _ _) rfl fun j => ?_
    simp only [count_places, ← count_erase_add h j, List.count_cons, beq_iff_eq]
    omega

theorem turn_guard {r s : ChannelReserve} {p : Prop} [Decidable p]
    (h : p → ∃ fresh, Turn r s fresh) : ∃ fresh, Turn r (if p then s else r) fresh :=
  of_guard (P := fun s => ∃ fresh, Turn r s fresh) ⟨[], turn_refl r⟩ h

/-- Every action takes its turn. -/
theorem act_turn (r : ChannelReserve) (a : Action) : ∃ fresh, Turn r (r.act a) fresh := by
  cases a with
  | request => exact ⟨[], turn_request r⟩
  | openFor => exact turn_guard fun _ => turn_openFor r
  | prepare k => exact turn_guard fun h => ⟨[], turn_prepare h⟩
  | withdraw k =>
    cases k with
    | none =>
      exact turn_guard fun _ => ⟨[], turn_of_count rfl (Nat.le_max_left _ _) rfl fun _ => rfl⟩
    | some k => exact turn_guard fun _ => ⟨[], turn_withdraw r k⟩
  | release k => exact turn_guard fun h => ⟨[], turn_release h⟩
  | releaseInPlace k => exact turn_guard fun h => ⟨[], turn_releaseInPlace h⟩
  | abandon k => exact turn_guard fun h => ⟨[], turn_abandon h⟩
  | closeSurplus k => exact turn_guard fun h => ⟨[], turn_closeSurplus h⟩
  | publish k sender m =>
    refine turn_guard fun _ => ⟨[], ?_⟩
    split
    next l h => exact turn_link (Link.length_publish h)
    next => exact turn_refl r
  | loseChannel k => exact ⟨[], turn_link (Link.length_loseChannel _ _)⟩
  | disconnect => exact ⟨[], turn_link (Link.length_disconnect _)⟩

theorem sound {settings : ReserveSettings} {r : ChannelReserve} (h : Reachable settings r) :
    Sound settings r := by
  induction h with
  | start channelMax mode => exact ⟨rfl, Nat.zero_le _, List.nil_subperm⟩
  | act a _ ih =>
    obtain ⟨fresh, t⟩ := act_turn _ a
    exact ih.turn t

/-- No channel is in two places, or twice in one. -/
theorem Sound.nodup {settings : ReserveSettings} {r : ChannelReserve} (h : Sound settings r) :
    r.places.Nodup := by
  obtain ⟨l, hp, hs⟩ := h.places
  exact hp.nodup_iff.1 (hs.nodup List.nodup_range)

/-- A request that is served at once gets an idle channel that is connected. -/
theorem isConnected_of_request {r : ChannelReserve} {k : ChannelKey} (h : r.request.2 = some k) :
    r.link.isConnected k = true ∧ k ∈ r.idle ∧ r.request.1.leased = k :: r.leased := by
  rcases r.idle_cases with ⟨newer, j, older, hi, dead, hj⟩ | dead
  · rw [request_served hi dead hj] at h ⊢
    obtain rfl := Option.some.inj h
    refine ⟨hj, ?_, rfl⟩
    rw [hi]
    exact List.mem_append_right _ List.mem_cons_self
  · rw [request_unserved dead] at h
    cases h

/-- A request has to wait if and only if no idle channel is connected. -/
theorem request_eq_none_iff {r : ChannelReserve} :
    r.request.2 = none ↔ ∀ k ∈ r.idle, r.link.isConnected k = false := by
  rcases r.idle_cases with ⟨newer, j, older, hi, dead, hj⟩ | dead
  · refine iff_of_false ?_ fun all => ?_
    · rw [request_served hi dead hj]
      exact Option.some_ne_none j
    · have lost := all j (hi ▸ List.mem_append_right _ List.mem_cons_self)
      rw [hj] at lost
      cases lost
  · refine iff_of_true ?_ dead
    rw [request_unserved dead]

/-- The idle channels and the leased ones are distinct, each and together. -/
theorem apart_of_nodup {r : ChannelReserve} (h : r.places.Nodup) :
    r.idle.Nodup ∧ r.leased.Nodup ∧ ∀ k ∈ r.idle, k ∉ r.leased := by
  have hn : (r.idle ++ r.leased).Nodup := by
    simp only [places, List.append_assoc] at h
    rw [← List.append_assoc] at h
    exact h.of_append_left
  obtain ⟨idle, leased, apart⟩ := List.nodup_append.1 hn
  refine ⟨idle, leased, ?_⟩
  intro k hi hl
  exact apart k hi k hl rfl

/-- In every reachable state the idle channels are within the bound and distinct, none of them is
leased, and no channel is leased twice. A channel is handed out again whenever an idle one is
connected; it was idle, leased to nobody, and connected when it was taken. -/
theorem channels_have_one_place {settings : ReserveSettings} {r : ChannelReserve}
    (h : Reachable settings r) :
    r.idle.length ≤ settings.maxIdle ∧ r.idle.Nodup ∧ (∀ k ∈ r.idle, k ∉ r.leased) ∧
    r.leased.Nodup ∧ (r.request.2 = none ↔ ∀ k ∈ r.idle, r.link.isConnected k = false) ∧
    ∀ k, r.request.2 = some k → r.link.isConnected k = true ∧ k ∈ r.idle ∧ k ∉ r.leased ∧
      r.request.1.leased = k :: r.leased ∧ k ∉ r.request.1.idle := by
  have hs := sound h
  obtain ⟨idle, leased, apart⟩ := apart_of_nodup hs.nodup
  refine ⟨hs.idle, idle, apart, leased, request_eq_none_iff, ?_⟩
  intro k hk
  obtain ⟨connected, hi, hl⟩ := isConnected_of_request hk
  obtain ⟨-, -, apart'⟩ := apart_of_nodup (hs.turn (turn_request r)).nodup
  refine ⟨connected, hi, apart k hi, hl, ?_⟩
  intro hi'
  apply apart' k hi'
  rw [hl]
  exact List.mem_cons_self

/-- Two channels are opened and come back where there is room for one: the second is closed. -/
def reuseRun : ChannelReserve :=
  actAll { link := { channelMax := 2 }, settings := { maxIdle := 1 } }
    [.request, .openFor, .prepare 0, .request, .openFor, .prepare 1, .release 0, .release 1,
      .closeSurplus 1]

theorem channels_have_one_place_reuseRun : reuseRun.request.2 = some 0 ∧
    reuseRun.link.isConnected 0 = true ∧ 0 ∉ reuseRun.request.1.idle := by
  have hr : reuseRun.request.2 = some 0 := by decide
  have h := channels_have_one_place (reachable_actAll (.start 2 .ack) _ : Reachable _ reuseRun)
  obtain ⟨connected, -, -, -, gone⟩ := h.2.2.2.2.2 0 hr
  exact ⟨hr, connected, gone⟩

end ChannelReserve

end Courier
