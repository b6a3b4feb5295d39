import Courier.Proofs.CallSteps
import Courier.Proofs.ChannelAccounts
import Courier.Proofs.ReserveLedger
import Courier.Traffic
import Mathlib.Data.List.Perm.Basic

/-!
# What one action can do to the traffic of a link

`Traffic.Change` lists what an action makes of the traffic: what the reserve does for it, and which
step a call takes. `act_change` is the one place that goes through the actions. It needs to know
that the traffic keeps good `Custody`: the leased channels are those that calls and leases hold, the
requests under way are those that the reserve counts, and they are requests of calls that still
wait.
-/

namespace Courier

variable {α : Type}

open scoped List

namespace Traffic

/-- A call goes on to another state, with events. -/
def put (t : Traffic α) (n : Nat) (c : Call α) (events : List (Event α)) : Traffic α :=
  { t with calls := t.calls.set n c }.record (.call n) events

theorem step_of_get {t : Traffic α} {n : Nat} {c : Call α} (h : t.calls[n]? = some c)
    (f : Call α → Call α × List (Event α)) : t.step n f = t.put n (f c).1 (f c).2 := by
  unfold step put
  rw [h]

theorem step_of_none {t : Traffic α} {n : Nat} (h : t.calls[n]? = none)
    (f : Call α → Call α × List (Event α)) : t.step n f = t := by
  unfold step
  rw [h]

/-- A call that stays as it is, without events. -/
theorem put_self {t : Traffic α} {n : Nat} {c : Call α} (h : t.calls[n]? = some c) :
    t.put n c [] = t := by
  obtain ⟨hn, rfl⟩ := List.getElem?_eq_some_iff.1 h
  simp [put, record]

theorem put_put (t : Traffic α) (n : Nat) (c c' : Call α) (events events' : List (Event α)) :
    (t.put n c events).put n c' events' = t.put n c' (events ++ events') := by
  simp [put, record]

/-- The requests of a call. -/
def asks (requests : List (Owner × Option ChannelKey)) (n : Nat) : Nat :=
  requests.countP fun r => r.1 == .call n

/-- The channels that calls and leases hold. -/
def held (t : Traffic α) : List ChannelKey :=
  t.calls.filterMap Call.channel? ++ t.leases.filterMap id

/-- The reserve and the traffic agree on who has which channel and who waits for one. -/
structure Custody (t : Traffic α) : Prop where
  leased : t.reserve.leased ~ t.held
  opening : t.reserve.opening ~ t.requests.filterMap Prod.snd
  waiting : t.reserve.waiting = t.requests.countP fun r => r.2.isNone
  asking : ∀ n, asks t.requests n ≤ if t.pending? n = some .acquire then 1 else 0

/-- Whether an action makes a request: for a call that waits for a channel and has not asked for
one, or for a lease. -/
def MayAsk (t : Traffic α) (a : Action α) : Owner → Prop
  | .call n => a = .request n ∧ t.pending? n = some .acquire ∧ t.isAsking (.call n) = false
  | .lessee => a = .lease

/-- How a request ends, with what is left of the reserve and of the requests: it is served at once,
or by the channel that is opened for it when that is ready, or not at all. -/
inductive Serves (t : Traffic α) (a : Action α) : Owner → ChannelReserve →
    List (Owner × Option ChannelKey) → Except LinkFault ChannelKey → Prop where
  | reused {owner : Owner} {r : ChannelReserve} {k : ChannelKey} (ha : t.MayAsk a owner)
      (hr : t.reserve.request = (r, some k)) : Serves t a owner r t.requests (.ok k)
  | opened {i : Nat} {owner : Owner} {r : ChannelReserve} {k : ChannelKey}
      (hi : t.requests[i]? = some (owner, none)) (hr : t.reserve.openFor = (r, .ok k))
      (hc : t.reserve.settings.confirms = false) :
      Serves t a owner r (t.requests.eraseIdx i) (.ok k)
  | unopened {i : Nat} {owner : Owner} {r : ChannelReserve} {fault : LinkFault}
      (hi : t.requests[i]? = some (owner, none)) (hr : t.reserve.openFor = (r, .error fault)) :
      Serves t a owner r (t.requests.eraseIdx i) (.error fault)
  | readied {i : Nat} {owner : Owner} {r : ChannelReserve} {k : ChannelKey}
      (hi : t.requests[i]? = some (owner, some k)) (hr : t.reserve.prepare k = (r, .ok ())) :
      Serves t a owner r (t.requests.eraseIdx i) (.ok k)
  | unready {i : Nat} {owner : Owner} {r : ChannelReserve} {k : ChannelKey} {fault : LinkFault}
      (hi : t.requests[i]? = some (owner, some k)) (hr : t.reserve.prepare k = (r, .error fault)) :
      Serves t a owner r (t.requests.eraseIdx i) (.error fault)

/-- The steps of a call for which nothing is published and no channel is asked for. -/
inductive Moves (t : Traffic α) (n : Nat) : Call α → Call α → List (Event α) → Prop where
  | proceeded (i : Invocation) (answer : α) :
      Moves t n (.forwarding i) (.returned (.forwarded answer)) [.returned (.forwarded answer)]
  | handed (c : Confirmation) :
      Moves t n (.confirming c .due) (.confirming c (.returned true)) [.returned .confirming]
  | unpublished (m : Message) {k : ChannelKey} {fault : LinkFault}
      (hl : t.link.publish k (.call n) m = .error fault) :
      Moves t n (.publishing m k) (.returned (.failed (m.unpublished (.link fault))))
        [.attempted .publish k m (.failed (.link fault)), .released k,
          .returned (.failed (m.unpublished (.link fault)))]
  | unsent (m : Message) {k : ChannelKey} (handle : Handle) {fault : LinkFault}
      (hl : t.link.publish k (.call n) m = .error fault) :
      Moves t n (.confirming ⟨m, k, .spawned⟩ handle)
        (.confirming ⟨m, k, .ended (.failed (.link fault))⟩ handle)
        [.began .confirm k m, .attempted .confirm k m (.failed (.link fault)), .released k]
  | settled (m : Message) (k : ChannelKey) (handle : Handle) {verdict : Verdict}
      (hv : t.link.verdictFor? (.call n) = some (some verdict)) :
      Moves t n (.confirming ⟨m, k, .begun⟩ handle)
        (.confirming ⟨m, k, .ended (verdict.attempt (t.link.number k))⟩ handle)
        [.attempted .confirm k m (verdict.attempt (t.link.number k)), .released k]
  | forgotten (i : Invocation) : Moves t n (.forwarding i) .cancelled []
  | dismissed (job : Job) (ha : t.isAsking (.call n) = false) :
      Moves t n (.acquiring job) .cancelled []
  | abandoned (m : Message) (k : ChannelKey) :
      Moves t n (.publishing m k) .cancelled [.released k]
  | detached (c : Confirmation) (kept : Bool) :
      Moves t n (.confirming c (.returned kept)) (.confirming c (.returned false)) []

/-- The steps of a call with which its message goes out. -/
inductive Delivers (m : Message) (k : ChannelKey) : Call α → Call α → List (Event α) → Prop where
  | sent : Delivers m k (.publishing m k) (.returned .sent)
      [.attempted .publish k m .done, .released k, .returned .sent]
  | forsaken : Delivers m k (.publishing m k) .cancelled [.released k]
  | begun (handle : Handle) : Delivers m k (.confirming ⟨m, k, .spawned⟩ handle)
      (.confirming ⟨m, k, .begun⟩ handle) [.began .confirm k m]

/-- A holder parts with its channel where no background work can run, so that it can only be taken
back in place. -/
inductive PartsInPlace (t : Traffic α) : Action α → Owner → ChannelKey → Traffic α → Prop where
  | lease {lease : Nat} {k : ChannelKey} (hk : t.lease? lease = some k) :
      PartsInPlace t (.leaseReleaseInPlace lease) .lessee k
        { t with leases := t.leases.set lease none }
  | call {n : Nat} {m : Message} {k : ChannelKey} (hc : t.calls[n]? = some (.publishing m k)) :
      PartsInPlace t (.cancelInPlace n) (.call n) k { t with calls := t.calls.set n .cancelled }

/-- What happens to a link without the reserve and without its holders. -/
inductive Relinks (l : Link) : Action α → Link → Prop where
  | lost (k : ChannelKey) : Relinks l (.loseChannel k) (l.loseChannel k)
  | disconnected : Relinks l .disconnect l.disconnect
  | mode (mode : AnswerMode) : Relinks l (.setMode mode) { l with mode }
  | answered (number tag : Nat) (ack multiple : Bool) :
      Relinks l (.answer number tag ack multiple) (l.answer number tag ack multiple)

/-- What an action makes of the traffic. -/
inductive Change (t : Traffic α) : Action α → Traffic α → Prop where
  | nothing (a : Action α) : Change t a t
  | declared (d : Declaration) :
      Change t (.declare d) { t with declarations := t.declarations.declare d }
  | arrived (i : Invocation) : Change t (.call i)
      ({ t with calls := t.calls ++ [(Call.start t.declarations t.converter i).1] }.record
        (.call t.calls.length) (Call.start t.declarations t.converter i).2)
  | waits {a : Action α} {owner : Owner} {r : ChannelReserve} (ha : t.MayAsk a owner)
      (hr : t.reserve.request = (r, none)) :
      Change t a { t with reserve := r, requests := t.requests ++ [(owner, none)] }
  | opened {a : Action α} {i : Nat} {owner : Owner} {r : ChannelReserve} {k : ChannelKey}
      (hi : t.requests[i]? = some (owner, none)) (hr : t.reserve.openFor = (r, .ok k))
      (hc : t.reserve.settings.confirms = true) :
      Change t a { t with reserve := r, requests := t.requests.set i (owner, some k) }
  | granted {a : Action α} {n : Nat} {job : Job} {r : ChannelReserve}
      {requests : List (Owner × Option ChannelKey)} {k : ChannelKey}
      (hs : t.Serves a (.call n) r requests (.ok k)) (hc : t.calls[n]? = some (.acquiring job)) :
      Change t a ({ t with reserve := r, requests }.put n (Call.withChannel job k).1
        (Call.withChannel job k).2)
  | refused {a : Action α} {n : Nat} {job : Job} {r : ChannelReserve}
      {requests : List (Owner × Option ChannelKey)} {fault : LinkFault}
      (hs : t.Serves a (.call n) r requests (.error fault))
      (hc : t.calls[n]? = some (.acquiring job)) :
      Change t a ({ t with reserve := r, requests }.put n
        (.returned (.failed (job.unavailable (.link fault))))
        [.unavailable (.link fault), .returned (.failed (job.unavailable (.link fault)))])
  | leased {a : Action α} {r : ChannelReserve} {requests : List (Owner × Option ChannelKey)}
      {k : ChannelKey} (hs : t.Serves a .lessee r requests (.ok k)) :
      Change t a ({ t with reserve := r, requests, leases := t.leases ++ [some k] }.record .lessee
        [.acquired k])
  | unleased {a : Action α} {r : ChannelReserve} {requests : List (Owner × Option ChannelKey)}
      {fault : LinkFault} (hs : t.Serves a .lessee r requests (.error fault)) :
      Change t a ({ t with reserve := r, requests }.record .lessee [.unavailable (.link fault)])
  | moved {a : Action α} {n : Nat} {c c' : Call α} {events : List (Event α)}
      (hc : t.calls[n]? = some c) (hm : t.Moves n c c' events) : Change t a (t.put n c' events)
  | delivered {a : Action α} {n : Nat} {c c' : Call α} {events : List (Event α)} {m : Message}
      {k : ChannelKey} {l : Link} (hc : t.calls[n]? = some c) (hd : Delivers m k c c' events)
      (hl : t.link.publish k (.call n) m = .ok l) : Change t a ((t.withLink l).put n c' events)
  | withdrawn {n : Nat} {job : Job} {k : Option ChannelKey} (hr : (.call n, k) ∈ t.requests)
      (hc : t.calls[n]? = some (.acquiring job)) :
      Change t (.cancel n) ({ t with
        reserve := t.reserve.withdraw k
        requests := t.requests.filter fun r => r.1 != Owner.call n }.put n .cancelled [])
  | posted {lease : Nat} {k : ChannelKey} {m : Message} {l : Link}
      (hk : t.lease? lease = some k) (hl : t.link.publish k .lessee m = .ok l) :
      Change t (.leasePublish lease m)
        ((t.withLink l).record .lessee [.attempted .publish k m .done])
  | unposted {lease : Nat} {k : ChannelKey} {m : Message} {fault : LinkFault} :
      Change t (.leasePublish lease m)
        (t.record .lessee [.attempted .publish k m (.failed (.link fault))])
  | returned {lease : Nat} {k : ChannelKey} (hk : t.lease? lease = some k) :
      Change t (.leaseRelease lease)
        ({ t with leases := t.leases.set lease none }.record .lessee [.released k])
  | returnedInPlace {a : Action α} {owner : Owner} {k : ChannelKey} {u : Traffic α}
      (hp : t.PartsInPlace a owner k u) : Change t a (u.takeBackInPlace owner k)
  | closed {k : ChannelKey} (hk : k ∈ t.reserve.surplus) :
      Change t (.closeSurplus k) { t with reserve := t.reserve.closeSurplus k }
  | relinked {a : Action α} {l : Link} (hl : Relinks t.link a l) : Change t a (t.withLink l)

theorem asks_eq_zero_iff {t : Traffic α} {n : Nat} :
    asks t.requests n = 0 ↔ t.isAsking (.call n) = false := by
  unfold asks isAsking
  rw [List.countP_eq_zero, List.any_eq_false]

/-- A call with a request waits for a channel. -/
theorem Custody.acquiring {t : Traffic α} (h : t.Custody) {n : Nat} {k : Option ChannelKey}
    (hr : (.call n, k) ∈ t.requests) : ∃ job, t.calls[n]? = some (.acquiring job) := by
  have asked : 0 < asks t.requests n := List.countP_pos_iff.2 ⟨_, hr, by simp⟩
  have limit := h.asking n
  have pending : t.pending? n = some .acquire := by
    by_contra hp
    rw [if_neg hp] at limit
    omega
  obtain ⟨c, hc, hp⟩ := Option.bind_eq_some_iff.1 pending
  obtain ⟨job, rfl⟩ := Call.acquiring_of_pending hp
  exact ⟨job, hc⟩

/-- A transition of a call that is one of its moves, or nothing. -/
theorem change_step {t : Traffic α} {a : Action α} {n : Nat} {f : Call α → Call α × List (Event α)}
    (hf : ∀ c, t.calls[n]? = some c → f c = (c, []) ∨ t.Moves n c (f c).1 (f c).2) :
    t.Change a (t.step n f) := by
  cases h : t.calls[n]? with
  | none =>
    rw [step_of_none h]
    exact .nothing a
  | some c =>
    rw [step_of_get h]
    obtain stays | moves := hf c h
    · rw [stays, put_self h]
      exact .nothing a
    · exact .moved h moves

theorem MayAsk.acquiring {t : Traffic α} {a : Action α} {n : Nat} (h : t.MayAsk a (.call n)) :
    ∃ job, t.calls[n]? = some (.acquiring job) := by
  obtain ⟨c, hc, hp⟩ := Option.bind_eq_some_iff.1 h.2.1
  obtain ⟨job, rfl⟩ := Call.acquiring_of_pending hp
  exact ⟨job, hc⟩

theorem Serves.acquiring {t : Traffic α} (h : t.Custody) {a : Action α} {n : Nat}
    {r : ChannelReserve} {requests : List (Owner × Option ChannelKey)}
    {answer : Except LinkFault ChannelKey} (hs : t.Serves a (.call n) r requests answer) :
    ∃ job, t.calls[n]? = some (.acquiring job) := by
  cases hs with
  | reused ha => exact ha.acquiring
  | opened hi => exact h.acquiring (List.mem_of_getElem? hi)
  | unopened hi => exact h.acquiring (List.mem_of_getElem? hi)
  | readied hi => exact h.acquiring (List.mem_of_getElem? hi)
  | unready hi => exact h.acquiring (List.mem_of_getElem? hi)

theorem change_grant {t : Traffic α} (h : t.Custody) {a : Action α} {owner : Owner}
    {r : ChannelReserve} {requests : List (Owner × Option ChannelKey)} {k : ChannelKey}
    (hs : t.Serves a owner r requests (.ok k)) :
    t.Change a ({ t with reserve := r, requests }.grant owner k) := by
  cases owner with
  | lessee => exact .leased hs
  | call n =>
    obtain ⟨job, hc⟩ := hs.acquiring h
    rw [grant, step_of_get (t := { t with reserve := r, requests }) hc]
    exact .granted hs hc

theorem change_refuse {t : Traffic α} (h : t.Custody) {a : Action α} {owner : Owner}
    {r : ChannelReserve} {requests : List (Owner × Option ChannelKey)} {fault : LinkFault}
    (hs : t.Serves a owner r requests (.error fault)) :
    t.Change a ({ t with reserve := r, requests }.refuse owner fault) := by
  cases owner with
  | lessee => exact .unleased hs
  | call n =>
    obtain ⟨job, hc⟩ := hs.acquiring h
    rw [refuse, step_of_get (t := { t with reserve := r, requests }) hc]
    exact .refused hs hc

theorem change_ask {t : Traffic α} (h : t.Custody) {a : Action α} {owner : Owner}
    (ha : t.MayAsk a owner) : t.Change a (t.ask owner) := by
  unfold ask
  split
  next r k hr => exact change_grant h (.reused ha hr)
  next r hr => exact .waits ha hr

theorem change_openFor {t : Traffic α} (h : t.Custody) (i : Nat) :
    t.Change (.openFor i) (t.openFor i) := by
  have keeps : t.reserve.openFor.1.settings = t.reserve.settings := by
    obtain ⟨fresh, turn⟩ := t.reserve.turn_openFor
    exact turn.settings_eq
  unfold openFor
  split
  next owner hi =>
    split
    next r k hr =>
      rw [hr] at keeps
      split
      next hc => exact .opened hi hr (keeps ▸ hc)
      next hc => exact change_grant h (.opened hi hr (keeps ▸ Bool.eq_false_iff.2 hc))
    next r fault hr => exact change_refuse h (.unopened hi hr)
  next => exact .nothing _

theorem change_prepare {t : Traffic α} (h : t.Custody) (i : Nat) :
    t.Change (.prepare i) (t.prepare i) := by
  unfold prepare
  split
  next owner k hi =>
    split
    next r hr => exact change_grant h (.readied hi hr)
    next r fault hr => exact change_refuse h (.unready hi hr)
  next => exact .nothing _

theorem change_publish (t : Traffic α) (n : Nat) : t.Change (.publish n) (t.publish n) := by
  unfold publish
  split
  next m k hc =>
    split
    next l hl =>
      rw [step_of_get (t := t.withLink l) hc]
      exact .delivered hc .sent hl
    next fault hl =>
      rw [step_of_get hc]
      exact .moved hc (.unpublished m hl)
  next => exact .nothing _

theorem change_send (t : Traffic α) (n : Nat) : t.Change (.send n) (t.send n) := by
  unfold send
  split
  next m k handle hc =>
    split
    next l hl =>
      rw [step_of_get (t := t.withLink l) hc]
      exact .delivered hc (.begun handle) hl
    next fault hl =>
      have hn : n < t.calls.length := (List.getElem?_eq_some_iff.1 hc).1
      have begun : (t.put n (.confirming ⟨m, k, .begun⟩ handle) [.began .confirm k m]).calls[n]? =
          some (.confirming ⟨m, k, .begun⟩ handle) := List.getElem?_set_self hn
      rw [step_of_get hc]
      simp only [Call.begin]
      rw [step_of_get begun, put_put]
      exact .moved hc (.unsent m handle hl)
  next => exact .nothing _

theorem change_forsake (t : Traffic α) (n : Nat) : t.Change (.forsake n) (t.forsake n) := by
  unfold forsake
  split
  next m k hc =>
    split
    next l hl =>
      rw [step_of_get (t := t.withLink l) hc]
      exact .delivered hc .forsaken hl
    next fault hl =>
      rw [step_of_get hc]
      exact .moved hc (.abandoned m k)
  next => exact .nothing _

theorem change_settle (t : Traffic α) (n : Nat) : t.Change (.settle n) (t.settle n) := by
  unfold settle
  split
  next m k handle verdict hc hv =>
    rw [step_of_get hc]
    exact .moved hc (.settled m k handle hv)
  next => exact .nothing _

theorem change_cancel {t : Traffic α} (h : t.Custody) (n : Nat) :
    t.Change (.cancel n) (t.cancel n) := by
  unfold cancel
  cases hr : t.requests.find? fun r => r.1 == Owner.call n with
  | none =>
    have unasked : t.isAsking (.call n) = false := by
      rw [isAsking, List.any_eq_false]
      exact List.find?_eq_none.1 hr
    refine change_step fun c _ => ?_
    cases c with
    | forwarding i => exact .inr (.forgotten i)
    | acquiring job => exact .inr (.dismissed job unasked)
    | publishing m k => exact .inr (.abandoned m k)
    | _ => exact .inl rfl
  | some request =>
    obtain ⟨owner, k⟩ := request
    obtain rfl : owner = .call n := by simpa using List.find?_some hr
    have hm := List.mem_of_find?_eq_some hr
    obtain ⟨job, hc⟩ := h.acquiring hm
    simp only
    rw [step_of_get (t := { t with
      reserve := t.reserve.withdraw k
      requests := t.requests.filter fun r => r.1 != Owner.call n }) hc]
    exact .withdrawn hm hc

/-- Every action makes such a change. -/
theorem act_change {t : Traffic α} (h : t.Custody) (a : Action α) : t.Change a (t.act a) := by
  cases a with
  | declare d => exact .declared d
  | call i => exact .arrived i
  | proceed n answer =>
    refine change_step fun c _ => ?_
    cases c with
    | forwarding i => exact .inr (.proceeded i answer)
    | _ => exact .inl rfl
  | request n =>
    simp only [act]
    split
    next ha => exact change_ask h ⟨rfl, ha.1, by simpa using ha.2⟩
    next => exact .nothing _
  | openFor i => exact change_openFor h i
  | prepare i => exact change_prepare h i
  | publish n => exact change_publish t n
  | handOver n =>
    refine change_step fun c _ => ?_
    cases c with
    | confirming confirmation handle =>
      cases handle with
      | due => exact .inr (.handed confirmation)
      | returned kept => exact .inl rfl
    | _ => exact .inl rfl
  | send n => exact change_send t n
  | settle n => exact change_settle t n
  | cancel n => exact change_cancel h n
  | forsake n => exact change_forsake t n
  | cancelInPlace n =>
    simp only [act, cancelInPlace]
    split
    next m k hc => exact .returnedInPlace (.call hc)
    next => exact .nothing _
  | poll n =>
    refine change_step (f := fun c => (c.poll.1, [])) fun c _ => ?_
    cases c with
    | confirming confirmation handle =>
      obtain _ | _ | _ := handle
      · exact .inl rfl
      · exact .inl rfl
      · simp only [Call.poll]
        cases confirmation.outcome? with
        | none => exact .inl rfl
        | some outcome => exact .inr (.detached confirmation true)
    | _ => exact .inl rfl
  | detach n =>
    refine change_step (f := fun c => (c.detach, [])) fun c _ => ?_
    cases c with
    | confirming confirmation handle =>
      cases handle with
      | due => exact .inl rfl
      | returned kept => exact .inr (.detached confirmation kept)
    | _ => exact .inl rfl
  | lease => exact change_ask h rfl
  | leasePublish lease m =>
    simp only [act]
    split
    next k hk =>
      split
      next l hl => exact .posted hk hl
      next fault hl => exact .unposted
    next => exact .nothing _
  | leaseRelease lease =>
    simp only [act]
    split
    next k hk => exact .returned hk
    next => exact .nothing _
  | leaseReleaseInPlace lease =>
    simp only [act]
    split
    next k hk => exact .returnedInPlace (.lease hk)
    next => exact .nothing _
  | closeSurplus k =>
    simp only [act]
    split
    next hk => exact .closed hk
    next => exact .nothing _
  | loseChannel k => exact .relinked (.lost k)
  | disconnect => exact .relinked .disconnected
  | setMode mode => exact .relinked (.mode mode)
  | answer number tag ack multiple => exact .relinked (.answered number tag ack multiple)

end Traffic

end Courier
