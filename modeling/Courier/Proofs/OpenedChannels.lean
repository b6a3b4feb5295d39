import Courier.Proofs.TrafficCustody

/-!
# How many channels are opened

A channel is opened only for a request that finds no idle one, and as long as no channel is lost, a
request that finds none means that every channel is leased or about to be. So the channels ever
opened are never more than were wanted at one time (`Lossless`), and where that many may be kept,
none is closed for want of room. Calls made in turn want one channel at a time
(`Traffic.Alone.demand_le`), so they share a single one.
-/

namespace Courier

variable {α : Type}

open scoped List

namespace ChannelView

variable {confirms : Bool} {v : ChannelView}

/-- A channel that is connected has not been closed. -/
theorem Lawful.open_of_connected (h : v.Lawful confirms) (hc : v.connected = true) :
    ∀ e ∈ v.received, e.isClose = false := by
  cases h with
  | opening _ connected =>
    intro e he
    rw [List.mem_singleton.1 he]
    rfl
  | ready hp connected messages => exact fun e he => isClose_of_mem_history he
  | _ => cases hc

theorem Lawful.received_of_unopened (h : v.Lawful confirms) (hp : v.place = .unopened) :
    v.received = [] := by
  cases h with
  | unopened => rfl
  | ready hq => obtain rfl | rfl | rfl := hq <;> cases hp
  | _ => cases hp

end ChannelView

namespace ChannelReserve

/-- A reserve that has lost no channel: each one opened is idle, leased or about to be leased, and
with those still to be opened there are at most `m`. -/
structure Lossless (m : Nat) (r : ChannelReserve) : Prop where
  connected : ∀ k, k < r.link.channels.length → r.link.isConnected k = true
  opened : r.link.channels.length = r.idle.length + r.leased.length + r.opening.length
  bound : r.link.channels.length + r.waiting ≤ m

section

variable {settings : ReserveSettings} {m : Nat} {r s : ChannelReserve} {k : ChannelKey}

/-- There is no channel in any other place. -/
theorem Lossless.nowhere_else (h : r.Lossless m) (hs : Sound settings r) :
    r.surplus = [] ∧ r.closed = [] ∧ r.discarded = [] ∧ r.abandoned = [] := by
  have total := hs.places.length_le
  have opened := h.opened
  simp only [places, List.length_append, List.length_range] at total
  simp only [← List.length_eq_zero_iff]
  omega

theorem Lossless.idle_connected (h : r.Lossless m) (hs : Sound settings r) :
    ∀ k ∈ r.idle, r.link.isConnected k = true :=
  fun k hk => h.connected k (hs.lt_of_mem (p := .idle) hk)

/-- A request is served with the first idle channel, and waits only if all channels are in use. -/
theorem Lossless.request_eq (h : r.Lossless m) (hs : Sound settings r) : r.request =
    match r.idle with
    | k :: rest => ({ r with idle := rest, leased := k :: r.leased }, some k)
    | [] => ({ r with waiting := r.waiting + 1 }, none) := by
  have connected := h.idle_connected hs
  unfold request
  cases hi : r.idle with
  | nil => simp
  | cons k rest =>
    have head : r.link.isConnected k = true := connected k (hi ▸ List.mem_cons_self)
    simp [head]

theorem Lossless.request_none (h : r.Lossless m) (hs : Sound settings r)
    (hr : r.request = (s, none)) (hd : r.leased.length + r.opening.length + r.waiting < m) :
    s.Lossless m := by
  have eq := h.request_eq hs
  rw [hr] at eq
  split at eq
  next => simp at eq
  next hi =>
    cases eq
    have opened := h.opened
    rw [hi, List.length_nil, Nat.zero_add] at opened
    refine ⟨h.connected, h.opened, ?_⟩
    show r.link.channels.length + (r.waiting + 1) ≤ m
    omega

theorem Lossless.request_some (h : r.Lossless m) (hs : Sound settings r)
    (hr : r.request = (s, some k)) : s.Lossless m := by
  have eq := h.request_eq hs
  rw [hr] at eq
  split at eq
  next j rest hi =>
    cases eq
    have opened := h.opened
    rw [hi, List.length_cons] at opened
    refine ⟨h.connected, ?_, h.bound⟩
    show r.link.channels.length = rest.length + (r.leased.length + 1) + r.opening.length
    omega
  next => simp at eq

theorem Lossless.openFor (h : r.Lossless m) (hw : 0 < r.waiting) (hr : r.openFor = (s, .ok k)) :
    s.Lossless m := by
  have opened := h.opened
  have bound := h.bound
  cases ho : r.link.openChannel with
  | error fault => simp [ChannelReserve.openFor, ho] at hr
  | ok channel =>
    obtain ⟨l, j⟩ := channel
    obtain ⟨rfl, length⟩ := Link.openChannel_eq_ok ho
    have connected (k : ChannelKey) (hk : k < l.channels.length) : l.isConnected k = true := by
      rw [(Link.opened_of_openChannel ho k).1, Bool.or_eq_true, decide_eq_true_eq]
      rw [length, Nat.lt_succ_iff_lt_or_eq] at hk
      exact hk.imp (h.connected k) Eq.symm
    simp only [ChannelReserve.openFor, ho, Prod.mk.injEq, Except.ok.injEq] at hr
    obtain ⟨rfl, -⟩ := hr
    split
    · refine ⟨connected, ?_, ?_⟩
      · simp only [length, List.length_cons]
        omega
      · simp only [length]
        omega
    · refine ⟨connected, ?_, ?_⟩
      · simp only [length, List.length_cons]
        omega
      · simp only [length]
        omega

theorem Lossless.prepare (h : r.Lossless m) (hk : k ∈ r.opening)
    (hr : r.prepare k = (s, .ok ())) : s.Lossless m := by
  have opened := h.opened
  have taken := List.length_erase_add_one hk
  cases hs : r.link.selectConfirms k with
  | error fault => simp [ChannelReserve.prepare, hs] at hr
  | ok l =>
    have length := Link.length_selectConfirms hs
    simp only [ChannelReserve.prepare, hs, Prod.mk.injEq] at hr
    obtain ⟨rfl, -⟩ := hr
    refine ⟨fun j hj => ?_, ?_, ?_⟩
    · rw [(Link.selectConfirms_eq_ok hs j).2.1]
      exact h.connected j (length ▸ hj)
    · simp only [length, List.length_cons]
      omega
    · simp only [length]
      exact h.bound

/-- There is room for every channel that comes back. -/
theorem Lossless.room (h : r.Lossless m) (hm : m ≤ r.settings.maxIdle) (hk : k ∈ r.leased) :
    r.idle.length < r.settings.maxIdle := by
  have opened := h.opened
  have bound := h.bound
  have some_leased := List.length_pos_of_mem hk
  omega

theorem Lossless.release (h : r.Lossless m) (hs : Sound settings r) (hm : m ≤ settings.maxIdle)
    (hk : k ∈ r.leased) : (r.release k).Lossless m := by
  have room := h.room (hs.settings_eq ▸ hm) hk
  have connected := h.connected k (hs.lt_of_mem (p := .leased) hk)
  have taken := List.length_erase_add_one hk
  have opened := h.opened
  rw [release_kept connected room]
  refine ⟨h.connected, ?_, h.bound⟩
  simp only [List.length_cons]
  omega

/-- It makes no difference whether it comes back where background work can run. -/
theorem Lossless.releaseInPlace (h : r.Lossless m) (hs : Sound settings r)
    (hm : m ≤ settings.maxIdle) (hk : k ∈ r.leased) : r.releaseInPlace k = r.release k := by
  have room := h.room (hs.settings_eq ▸ hm) hk
  unfold ChannelReserve.releaseInPlace
  rw [if_neg]
  simp [room]

theorem Lossless.link (h : r.Lossless m) {l : Link}
    (hn : l.channels.length = r.link.channels.length)
    (hc : ∀ k, r.link.isConnected k = true → l.isConnected k = true) :
    Lossless m { r with link := l } :=
  ⟨fun k hk => hc k (h.connected k (hn ▸ hk)), hn.trans h.opened, hn ▸ h.bound⟩

theorem Lossless.publish (h : r.Lossless m) {sender : Owner} {message : Message} {l : Link}
    (hp : r.link.publish k sender message = .ok l) : Lossless m { r with link := l } :=
  h.link (Link.length_publish hp) fun j hj => (Link.publish_eq_ok hp j).2.1.trans hj

theorem Lossless.foldl_release {held : List ChannelKey} (h : r.Lossless m)
    (hs : Sound settings r) (hm : m ≤ settings.maxIdle) {ks : List ChannelKey}
    (hl : r.leased ~ ks ++ held) : (ks.foldl ChannelReserve.release r).Lossless m := by
  induction ks generalizing r with
  | nil => exact h
  | cons k rest ih =>
    have leased : k ∈ r.leased := hl.mem_iff.2 List.mem_cons_self
    have remaining : (r.release k).leased ~ rest ++ held := by
      have erased := hl.erase k
      rwa [List.cons_append, List.erase_cons_head, ← leased_release] at erased
    exact ih (h.release hs hm leased) (hs.turn (turn_release leased)) remaining

end

end ChannelReserve

/-- Whether a request has failed. -/
def Event.isUnavailable : Event α → Bool
  | .unavailable _ => true
  | _ => false

namespace Traffic

/-- The channels that are leased or asked for. -/
def demand (t : Traffic α) : Nat := t.reserve.leased.length + t.requests.length

/-- Whether an action neither takes channels away nor gives up a request. -/
def spares (t : Traffic α) : Action α → Bool
  | .loseChannel _ | .disconnect => false
  | .cancel n => !t.isAsking (.call n)
  | _ => true

/-- Whether no channel is lost in an action, and no request is given up or fails. -/
def isQuiet (t : Traffic α) (a : Action α) : Bool :=
  t.spares a && !(t.act a).log.any fun e => e.2.isUnavailable

/-- The traffic of runs in which every action is quiet and the demand is never more than `m`. -/
inductive Steady (settings : ReserveSettings) (m : Nat) : Traffic α → Prop where
  | start (channelMax : Nat) (mode : AnswerMode) :
      Steady settings m { reserve := { link := { channelMax, mode }, settings } }
  | act {t : Traffic α} (a : Action α) (hq : t.isQuiet a = true) (hd : (t.act a).demand ≤ m) :
      Steady settings m t → Steady settings m (t.act a)

/-- Whether an action asks for no lease, and makes a call only when no call before it has an
operation left to run. -/
def waitsForTurn (t : Traffic α) : Action α → Bool
  | .lease => false
  | .call _ => t.calls.all fun c => c.pending?.isNone
  | _ => true

/-- Whether an action is quiet and waits for its turn. -/
def isInTurn (t : Traffic α) (a : Action α) : Bool :=
  t.isQuiet a && t.waitsForTurn a

/-- The traffic of calls made one after another, and of nothing else. -/
inductive InTurn (settings : ReserveSettings) : Traffic α → Prop where
  | start (channelMax : Nat) (mode : AnswerMode) :
      InTurn settings { reserve := { link := { channelMax, mode }, settings } }
  | act {t : Traffic α} (a : Action α) (h : t.isInTurn a = true) :
      InTurn settings t → InTurn settings (t.act a)

variable {settings : ReserveSettings} {m : Nat} {t t' : Traffic α}

theorem Steady.reachable (h : Steady settings m t) : Reachable settings t := by
  induction h with
  | start channelMax mode => exact .start channelMax mode
  | act a _ _ _ ih => exact ih.act a

/-- The requests under way are those that wait and those whose channel is being made ready. -/
theorem Custody.length_requests (h : t.Custody) :
    t.requests.length = t.reserve.opening.length + t.reserve.waiting := by
  have split := List.length_eq_countP_add_countP (fun r => r.2.isSome) (l := t.requests)
  have flip : (t.requests.countP fun r => decide ¬r.2.isSome = true) =
      t.requests.countP fun r => r.2.isNone := by
    congr 1
    funext r
    cases r.2 <;> rfl
  rw [h.opening.length_eq, h.waiting, List.length_filterMap_eq_countP, ← flip]
  exact split

theorem Serves.lossless (h : t.Custody) (hs : ChannelReserve.Sound settings t.reserve)
    (hl : t.reserve.Lossless m) {a : Action α} {owner : Owner} {r : ChannelReserve}
    {requests : List (Owner × Option ChannelKey)} {k : ChannelKey}
    (serves : t.Serves a owner r requests (.ok k)) : r.Lossless m := by
  cases serves with
  | reused ha hr => exact hl.request_some hs hr
  | opened hi hr hc => exact hl.openFor (h.without (erase_perm hi)).possible hr
  | readied hi hr => exact hl.prepare (h.without (erase_perm hi)).mem_opening hr

theorem lossless_record {u : Traffic α} {owner : Owner} {events : List (Event α)}
    (hl : u.reserve.Lossless m) (hs : ChannelReserve.Sound settings u.reserve)
    (hm : m ≤ settings.maxIdle) (leased : u.reserve.leased ~ taken events ++ t.held)
    (balance : given events ++ u.held ~ taken events ++ t.held) :
    (u.record owner events).reserve.Lossless m := by
  rw [reserve_record]
  exact hl.foldl_release hs hm (leased.trans balance.symm)

theorem Change.lossless (h : t.Custody) (hs : ChannelReserve.Sound settings t.reserve)
    (hl : t.reserve.Lossless m) (hm : m ≤ settings.maxIdle) {a : Action α} (hc : t.Change a t')
    (kept : ∀ l, Relinks t.link a l → l.channels = t.link.channels)
    (cancelled : ∀ n, a = .cancel n → t.isAsking (.call n) = false)
    (served : ∀ owner cause, (owner, .unavailable cause) ∉ t'.log) (hd : t'.demand ≤ m) :
    t'.reserve.Lossless m := by
  cases hc with
  | nothing => exact hl
  | declared d => exact hl
  | arrived i =>
    obtain ⟨-, -, ungiven⟩ := start_idle (α := α) t.declarations t.converter i
    rw [reserve_record, ungiven]
    exact hl
  | @waits _ owner r ha hr =>
    refine hl.request_none hs hr ?_
    obtain ⟨leased, -, -⟩ := ChannelReserve.request_spec hr
    have requests := h.length_requests
    simp only [demand, leased, Option.toList_none, List.nil_append, List.length_append,
      List.length_singleton] at hd
    omega
  | opened hi hr hc => exact hl.openFor (h.without (erase_perm hi)).possible hr
  | @granted _ n job r requests k serves hc =>
    have trade := (Call.step_withChannel (α := α) job k).trade
    have answered := serves.served (p := False) h
    refine lossless_record (t := t) (serves.lossless h hs hl) (answered.evolves.sound hs) hm ?_
      (balance_put hc trade)
    rw [Call.taken_withChannel]
    exact answered.leased
  | @refused _ n job r requests fault serves hc =>
    refine absurd ?_ (served (.call n) (.link fault))
    simp [put, record]
  | leased serves => exact serves.lossless h hs hl
  | @unleased _ r requests fault serves =>
    refine absurd ?_ (served .lessee (.link fault))
    simp [record]
  | @moved _ n c c' events hc moves =>
    obtain ⟨untaken, trade⟩ := moves.trade
    refine lossless_record (t := t) hl hs hm ?_ (balance_put hc trade)
    rw [untaken]
    exact h.leased
  | @delivered _ n c c' events m k l hc delivers hp =>
    obtain ⟨holds, sends, untaken, trade⟩ := delivers.trade
    have sound := hs.turn (ChannelReserve.turn_link (Link.length_publish hp))
    refine lossless_record (t := t) (hl.publish hp) sound hm ?_ (balance_put hc trade)
    rw [untaken]
    exact h.leased
  | @withdrawn n job k hr hc =>
    have asked := cancelled n rfl
    rw [isAsking, List.any_eq_false] at asked
    exact absurd (beq_self_eq_true _) (asked _ hr)
  | @posted lease k m l hk hp => exact hl.publish hp
  | unposted => exact hl
  | @returned lease k hk =>
    refine lossless_record (t := t) (u := { t with leases := t.leases.set lease none }) hl hs hm
      h.leased (held_unlease hk)
  | @returnedInPlace _ owner k u parts =>
    have leased := parts.leased h
    show (u.reserve.releaseInPlace k).Lossless m
    rw [parts.frame.1, hl.releaseInPlace hs hm leased]
    exact hl.release hs hm leased
  | @closed k hk =>
    rw [(hl.nowhere_else hs).1] at hk
    cases hk
  | @relinked _ l relinks =>
    have same := kept l relinks
    refine hl.link (congrArg List.length same) fun k hk => ?_
    rwa [Link.isConnected, same]

theorem quiet_of_isQuiet {a : Action α} (h : t.isQuiet a = true) :
    (∀ l, Relinks t.link a l → l.channels = t.link.channels) ∧
    (∀ n, a = .cancel n → t.isAsking (.call n) = false) ∧
    ∀ owner cause, (owner, .unavailable cause) ∉ (t.act a).log := by
  rw [isQuiet, Bool.and_eq_true, Bool.not_eq_true', List.any_eq_false] at h
  obtain ⟨quiet, served⟩ := h
  refine ⟨fun l relinks => ?_, fun n hn => ?_, fun owner cause he => served _ he rfl⟩
  · cases relinks with
    | lost k => simp [spares] at quiet
    | disconnected => simp [spares] at quiet
    | mode mode => rfl
    | answered number tag ack multiple => rfl
  · subst hn
    simpa [spares] using quiet

theorem Steady.lossless (h : Steady settings m t) (hm : m ≤ settings.maxIdle) :
    t.reserve.Lossless m := by
  induction h with
  | start channelMax mode => exact ⟨nofun, rfl, Nat.zero_le _⟩
  | act a hq hd ht ih =>
    obtain ⟨kept, cancelled, served⟩ := quiet_of_isQuiet hq
    have custody := custody ht.reachable
    have change := act_change custody a
    exact change.lossless custody (sound ht.reachable) ih hm kept cancelled served hd

/-- There are no leases, and every call but the last has ended. -/
structure Alone (t : Traffic α) : Prop where
  leases : t.leases = []
  requests : ∀ r ∈ t.requests, r.1 ≠ .lessee
  done : ∀ n, n + 1 < t.calls.length → t.pending? n = none

theorem channel?_of_pending {c : Call α} (h : c.pending? = none ∨ c.pending? = some .acquire) :
    c.channel? = none := by
  cases c with
  | publishing m k => simp [Call.pending?] at h
  | confirming confirmation handle =>
    obtain ⟨m, k, progress⟩ := confirmation
    cases progress with
    | ended attempt => rfl
    | _ => simp [Call.pending?] at h
  | _ => rfl

theorem Alone.of_pending (h : t.Alone) {n : Nat} {operation : Operation}
    (hp : t.pending? n = some operation) : n + 1 = t.calls.length := by
  obtain ⟨c, hc, -⟩ := Option.bind_eq_some_iff.1 hp
  refine Nat.le_antisymm (List.getElem?_eq_some_iff.1 hc).1 (Nat.le_of_not_lt fun hn => ?_)
  rw [h.done n hn] at hp
  cases hp

/-- Only the last call can hold a channel. -/
theorem Alone.length_held (h : t.Alone) : t.held.length ≤ 1 := by
  rw [held, h.leases, List.filterMap_nil, List.append_nil]
  obtain hl | ⟨before, last, hl⟩ := List.eq_nil_or_concat t.calls
  · rw [hl]
    exact Nat.zero_le _
  · have none_held : before.filterMap Call.channel? = [] := by
      refine List.filterMap_eq_nil_iff.2 fun c hc => ?_
      obtain ⟨n, hn, rfl⟩ := List.getElem_of_mem hc
      have done := h.done n (by simp [hl, hn])
      rw [pending?, hl, List.concat_eq_append, List.getElem?_append_left hn,
        List.getElem?_eq_getElem hn] at done
      exact channel?_of_pending (.inl done)
    rw [hl, List.concat_eq_append, List.filterMap_append, none_held, List.nil_append]
    exact List.length_filterMap_le _ _

/-- One channel at a time is wanted: the last call holds it or asks for it. -/
theorem Alone.demand_le (h : t.Alone) (hc : t.Custody) : t.demand ≤ 1 := by
  rw [demand, hc.leased.length_eq]
  have by_last {request : Owner × Option ChannelKey} (hr : request ∈ t.requests) :
      ∃ n job, request.1 = .call n ∧ t.calls[n]? = some (.acquiring job) ∧
        n + 1 = t.calls.length := by
    obtain ⟨owner, k⟩ := request
    cases owner with
    | lessee => exact absurd rfl (h.requests _ hr)
    | call n =>
      obtain ⟨job, hn⟩ := hc.acquiring hr
      exact ⟨n, job, rfl, hn, h.of_pending (by rw [pending?, hn]; rfl)⟩
  cases hr : t.requests with
  | nil => exact h.length_held
  | cons request rest =>
    rw [← hr]
    obtain ⟨n, job, -, hn, last⟩ := by_last (hr ▸ List.mem_cons_self)
    have one : t.requests.length ≤ 1 := by
      have all_own : asks t.requests n = t.requests.length := by
        refine List.countP_eq_length.2 fun request hr => ?_
        obtain ⟨j, -, owner, -, last'⟩ := by_last hr
        rw [owner, Nat.succ.inj (last'.trans last.symm)]
        exact beq_self_eq_true _
      have limit := hc.asking n
      rw [all_own] at limit
      exact Nat.le_trans limit (by split <;> simp)
    have none_held : t.held = [] := by
      rw [held, h.leases, List.filterMap_nil, List.append_nil]
      refine List.filterMap_eq_nil_iff.2 fun c hc => channel?_of_pending ?_
      obtain ⟨j, hj, rfl⟩ := List.getElem_of_mem hc
      by_cases hlast : j + 1 < t.calls.length
      · have done := h.done j hlast
        rw [pending?, List.getElem?_eq_getElem hj] at done
        exact .inl done
      · obtain rfl : j = n := by omega
        rw [List.getElem?_eq_getElem hj] at hn
        rw [Option.some.inj hn]
        exact .inr rfl
    rw [none_held, List.length_nil, Nat.zero_add]
    exact one

theorem Serves.subset {a : Action α} {owner : Owner} {r : ChannelReserve}
    {requests : List (Owner × Option ChannelKey)} {answer : Except LinkFault ChannelKey}
    (hs : t.Serves a owner r requests answer) : requests ⊆ t.requests := by
  cases hs with
  | reused => exact List.Subset.refl _
  | _ => exact fun _ hr => List.mem_of_mem_eraseIdx hr

/-- A request is for a call, unless a lease is asked for. -/
theorem Serves.not_lessee (h : t.Alone) {a : Action α} (ha : t.waitsForTurn a = true)
    {r : ChannelReserve} {requests : List (Owner × Option ChannelKey)}
    {answer : Except LinkFault ChannelKey} (hs : t.Serves a .lessee r requests answer) :
    False := by
  cases hs with
  | reused asks =>
    obtain rfl : a = .lease := asks
    cases ha
  | opened hi => exact h.requests _ (List.mem_of_getElem? hi) rfl
  | unopened hi => exact h.requests _ (List.mem_of_getElem? hi) rfl
  | readied hi => exact h.requests _ (List.mem_of_getElem? hi) rfl
  | unready hi => exact h.requests _ (List.mem_of_getElem? hi) rfl

theorem Alone.put (h : t.Alone) {r : ChannelReserve} {requests : List (Owner × Option ChannelKey)}
    (sub : requests ⊆ t.requests) {n : Nat} {c c' : Call α} (events : List (Event α))
    (hc : t.calls[n]? = some c) (hp : c.pending? = none → c'.pending? = none) :
    Alone ({ t with reserve := r, requests }.put n c' events) := by
  refine ⟨h.leases, fun request hr => h.requests request (sub hr), fun j hj => ?_⟩
  have before := h.done j (by simpa [Traffic.put, record] using hj)
  by_cases hn : n = j
  · subst hn
    have hl := (List.getElem?_eq_some_iff.1 hc).1
    rw [pending?, hc] at before
    show ((t.calls.set n c')[n]?).bind _ = none
    rw [List.getElem?_set_self hl]
    exact hp before
  · rw [pending?_put _ _ _ _ hn]
    exact before

theorem Moves.pending {n : Nat} {c c' : Call α} {events : List (Event α)}
    (h : t.Moves n c c' events) (hp : c.pending? = none) : c'.pending? = none := by
  cases h with
  | handed confirmation | detached confirmation =>
    obtain ⟨m, k, progress⟩ := confirmation
    cases progress with
    | ended attempt => rfl
    | _ => cases hp
  | unpublished m hl => cases hp
  | unsent m handle hl => rfl
  | settled m k handle hv => rfl
  | _ => rfl

theorem Change.alone (h : t.Alone) {a : Action α} (hc : t.Change a t')
    (ha : t.waitsForTurn a = true) : t'.Alone := by
  cases hc with
  | nothing => exact h
  | declared d => exact ⟨h.leases, h.requests, h.done⟩
  | arrived i =>
    refine ⟨h.leases, h.requests, fun n hn => ?_⟩
    have earlier : n < t.calls.length := by simpa [record] using hn
    show ((t.calls ++ _)[n]?).bind _ = none
    rw [List.getElem?_append_left earlier, List.getElem?_eq_getElem earlier]
    have ended := List.all_eq_true.1 ha _ (List.getElem_mem earlier)
    exact Option.isNone_iff_eq_none.1 ended
  | @waits _ owner r asks hr =>
    refine ⟨h.leases, fun request hq => ?_, h.done⟩
    obtain hq | hq := List.mem_append.1 hq
    · exact h.requests request hq
    · rw [List.mem_singleton.1 hq]
      rintro rfl
      obtain rfl : a = .lease := asks
      cases ha
  | @opened _ i owner r k hi hr hc =>
    refine ⟨h.leases, fun request hq => ?_, h.done⟩
    obtain hq | rfl := List.mem_or_eq_of_mem_set hq
    · exact h.requests request hq
    · exact h.requests (owner, none) (List.mem_of_getElem? hi)
  | granted serves hc => exact h.put serves.subset _ hc (by simp [Call.pending?])
  | refused serves hc => exact h.put serves.subset _ hc (by simp [Call.pending?])
  | leased serves => exact (serves.not_lessee h ha).elim
  | unleased serves => exact (serves.not_lessee h ha).elim
  | moved hc moves => exact h.put (List.Subset.refl _) _ hc moves.pending
  | delivered hc delivers _ =>
    refine h.put (List.Subset.refl _) _ hc fun hp => ?_
    cases delivers <;> cases hp
  | withdrawn hr hc =>
    exact h.put (List.filter_sublist).subset _ hc (by simp [Call.pending?])
  | posted hk _ => exact ⟨h.leases, h.requests, h.done⟩
  | unposted => exact ⟨h.leases, h.requests, h.done⟩
  | returned hk => simp [lease?, h.leases] at hk
  | returnedInPlace parts =>
    cases parts with
    | lease hk => simp [lease?, h.leases] at hk
    | call hc =>
      have put : (t.put _ .cancelled []).Alone :=
        h.put (List.Subset.refl _) [] hc (by simp [Call.pending?])
      exact ⟨put.leases, put.requests, put.done⟩
  | closed => exact ⟨h.leases, h.requests, h.done⟩
  | relinked => exact ⟨h.leases, h.requests, h.done⟩

theorem isInTurn_iff {a : Action α} :
    t.isInTurn a = true ↔ t.isQuiet a = true ∧ t.waitsForTurn a = true :=
  Bool.and_eq_true_iff

theorem InTurn.steady (h : InTurn settings t) : Steady settings 1 t ∧ t.Alone := by
  induction h with
  | start channelMax mode => exact ⟨.start channelMax mode, rfl, nofun, nofun⟩
  | @act t a ha _ ih =>
    obtain ⟨steady, alone⟩ := ih
    obtain ⟨quiet, turn⟩ := isInTurn_iff.1 ha
    have reachable := steady.reachable
    have alone' := (act_change (custody reachable) a).alone alone turn
    exact ⟨steady.act a quiet (alone'.demand_le (custody (reachable.act a))), alone'⟩

/-- Nothing has been received on a channel that has not been opened. -/
theorem received_of_le (h : Reachable settings t) {k : ChannelKey}
    (hk : t.link.channels.length ≤ k) : t.link.received k = [] :=
  (lawful h k).received_of_unopened ((sound h).place_of_le hk)

/-- In a steady run no channel is closed. -/
theorem Steady.not_closed (h : Steady settings m t) (hm : m ≤ settings.maxIdle) (k : ChannelKey)
    (code : Nat) (text : String) : .closed code text ∉ t.link.received k := by
  intro he
  by_cases hk : k < t.link.channels.length
  · have connected := (h.lossless hm).connected k hk
    cases (lawful h.reachable k).open_of_connected connected _ he
  · rw [received_of_le h.reachable (Nat.le_of_not_lt hk)] at he
    cases he

/-- A channel that was handed out has been opened. -/
theorem lt_of_acquired (h : Reachable settings t) {owner : Owner} {k : ChannelKey}
    (hk : (owner, .acquired k) ∈ t.log) : k < t.link.channels.length :=
  (sound h).lt_of_mem (ChannelReserve.mem_members_of_prepared (prepared_of_acquired h hk))

/-- As long as no request fails or is given up and no channel is lost, no more channels are opened
than were leased or asked for at one time, and if that many may be kept, none is closed for want of
room. So calls made one after another all go over one channel, whether or not the broker has
answered those before. -/
theorem opened_channels_bounded (settings : ReserveSettings) :
    (∀ m, m ≤ settings.maxIdle → ∀ t : Traffic α, Steady settings m t → t.link.channels.length ≤ m ∧
      t.reserve.surplus = [] ∧ t.reserve.closed = [] ∧
      ∀ k code text, .closed code text ∉ t.link.received k) ∧
    (1 ≤ settings.maxIdle → ∀ t : Traffic α, InTurn settings t → t.link.channels.length ≤ 1 ∧
      (∀ owner k, (owner, .acquired k) ∈ t.log → k = 0) ∧
      ∀ k, k ≠ 0 → t.link.received k = []) := by
  have bounded {m : Nat} (hm : m ≤ settings.maxIdle) {t : Traffic α} (h : Steady settings m t) :
      t.link.channels.length ≤ m :=
    Nat.le_trans (Nat.le_add_right _ _) (h.lossless hm).bound
  refine ⟨fun m hm t h => ?_, fun hm t h => ?_⟩
  · obtain ⟨surplus, closed, -, -⟩ := (h.lossless hm).nowhere_else (sound h.reachable)
    exact ⟨bounded hm h, surplus, closed, h.not_closed hm⟩
  · have steady := h.steady.1
    have one := bounded hm steady
    refine ⟨one, fun owner k hk => ?_, fun k hk => ?_⟩
    · exact Nat.lt_one_iff.1 (Nat.lt_of_lt_of_le (lt_of_acquired steady.reachable hk) one)
    · exact received_of_le steady.reachable (Nat.le_trans one (Nat.pos_of_ne_zero hk))

/-- Whether actions in order are each in turn. -/
def areInTurn (t : Traffic α) : List (Action α) → Bool
  | [] => true
  | a :: rest => t.isInTurn a && (t.act a).areInTurn rest

theorem InTurn.actAll (h : InTurn settings t) {actions : List (Action α)}
    (ha : t.areInTurn actions = true) : InTurn settings (t.actAll actions) := by
  induction actions generalizing t with
  | nil => exact h
  | cons a rest ih =>
    obtain ⟨first, others⟩ := Bool.and_eq_true_iff.1 ha
    exact ih (h.act a first) others

/-- A method that sends a text to a queue. -/
def textMethod (returns : Returns) : Declaration :=
  { Declaration.ofMethod "send" with
    routingKey := some "a", parameters := [⟨"text", [.body]⟩], returns }

/-- Two calls one after the other, whose messages the broker leaves unanswered. -/
def twoCallsRun : List (Action Unit) :=
  [.declare (textMethod .nothing), .call ⟨"send", [("text", .string "x")]⟩, .request 0, .openFor 0,
    .prepare 0, .publish 0, .call ⟨"send", [("text", .string "y")]⟩, .request 1, .publish 1]

theorem opened_channels_bounded_twoCallsRun :
    let t := actAll { reserve := { link := { channelMax := 4, mode := .hold } } } twoCallsRun
    InTurn {} t ∧ t.link.deliveries.map Delivery.verdict = [none, none] ∧
      t.link.channels.length ≤ 1 := by
  intro t
  have inTurn : InTurn {} t := (InTurn.start 4 .hold).actAll (by decide +kernel)
  exact ⟨inTurn, rfl, ((opened_channels_bounded {}).2 (by decide) t inTurn).1⟩

end Traffic

end Courier
