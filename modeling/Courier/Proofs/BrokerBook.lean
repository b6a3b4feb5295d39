import Courier.Proofs.LinkPages
import Courier.Proofs.TrafficCustody

/-!
# The broker's book

An action publishes one message at most, on a channel that is leased; otherwise the link changes in
one of a few ways, and calls go on without anything being published (`Traffic.Happens`). So in all
reachable traffic every page of the link is in order (`booked`).
-/

namespace Courier

variable {α : Type}

namespace ChannelView

/-- A leased channel has been put in confirm mode if the settings say so. -/
theorem Lawful.any_isConfirmSelect {confirms : Bool} {v : ChannelView} (h : v.Lawful confirms)
    (hp : v.place = .leased) : v.received.any ChannelEvent.isConfirmSelect = confirms := by
  cases h with
  | ready hq connected messages =>
    cases confirms <;> simp [history, ChannelEvent.isConfirmSelect]
  | _ => cases hp

end ChannelView

namespace ChannelReserve

variable {r s : ChannelReserve} {k : ChannelKey}

theorem link_of_request {answer : Option ChannelKey} (h : r.request = (s, answer)) :
    s.link = r.link := by
  rw [← link_request (r := r), h]

theorem openChannel_of_openFor (h : r.openFor = (s, .ok k)) :
    r.link.openChannel = .ok (s.link, k) := by
  cases ho : r.link.openChannel with
  | error fault => simp [openFor, ho] at h
  | ok opened =>
    obtain ⟨l, j⟩ := opened
    simp only [openFor, ho, Prod.mk.injEq, Except.ok.injEq] at h
    obtain ⟨rfl, rfl⟩ := h
    split <;> rfl

theorem selectConfirms_of_prepare (h : r.prepare k = (s, .ok ())) :
    r.link.selectConfirms k = .ok s.link := by
  cases hs : r.link.selectConfirms k with
  | error fault => simp [prepare, hs] at h
  | ok l =>
    simp only [prepare, hs, Prod.mk.injEq] at h
    obtain ⟨rfl, -⟩ := h
    rfl

theorem link_foldl_release (ks : List ChannelKey) (r : ChannelReserve) :
    (ks.foldl release r).link = r.link := by
  induction ks generalizing r with
  | nil => rfl
  | cons k rest ih => exact (ih (r.release k)).trans (r.link_release k)

end ChannelReserve

namespace Traffic

variable {settings : ReserveSettings} {t t' : Traffic α}

/-- Events of calls and leases leave the link as it is. -/
theorem link_record (t : Traffic α) (owner : Owner) (events : List (Event α)) :
    (t.record owner events).link = t.link := by
  rw [link, reserve_record, ChannelReserve.link_foldl_release]
  rfl

theorem Serves.link {a : Action α} {owner : Owner} {r : ChannelReserve}
    {requests : List (Owner × Option ChannelKey)} {answer : Except LinkFault ChannelKey}
    (h : t.Serves a owner r requests answer) : t.link.Passes a r.link := by
  cases h with
  | reused ha hr =>
    have same := ChannelReserve.link_of_request hr
    show Link.Passes _ a r.link
    rw [same]
    exact .same a
  | opened hi hr hc => exact .opened (ChannelReserve.openChannel_of_openFor hr)
  | unopened hi hr =>
    rw [ChannelReserve.openFor_eq_error hr]
    exact .same a
  | readied hi hr => exact .selected (ChannelReserve.selectConfirms_of_prepare hr)
  | unready hi hr =>
    rw [ChannelReserve.prepare_eq_error hr]
    exact .closed _ _

/-- How a call goes on when nothing is published. -/
inductive Goes (t : Traffic α) (n : Nat) : Call α → Call α → Prop where
  | stays (c : Call α) : Goes t n c c
  | granted (job : Job) (k : ChannelKey) : Goes t n (.acquiring job) (Call.withChannel job k).1
  | refused (job : Job) (fault : LinkFault) :
      Goes t n (.acquiring job) (.returned (.failed (job.unavailable (.link fault))))
  | withdrawn (job : Job) : Goes t n (.acquiring job) .cancelled
  | moved {c c' : Call α} {events : List (Event α)} (hm : t.Moves n c c' events) : Goes t n c c'

/-- What an action makes of the link and of the calls: nothing is published; or one message is, on a
channel that is leased, with which only the call that sends it goes on. -/
inductive Happens (t : Traffic α) (a : Action α) (t' : Traffic α) : Prop where
  | passes (hl : t.link.Passes a t'.link)
      (hc : ∀ n c, t.calls[n]? = some c → ∃ c', t'.calls[n]? = some c' ∧ t.Goes n c c')
  | publishes {k : ChannelKey} {sender : Owner} {m : Message} {channel : Channel}
      (hk : k ∈ t.reserve.leased) (hl : t.link.Published t'.link k sender m channel)
      (hc : ∀ n c, t.calls[n]? = some c → ∃ c', t'.calls[n]? = some c' ∧
        if sender = .call n then ∃ events, Delivers m k c c' events else c' = c)
      (hs : ∀ n, sender = .call n → n < t.calls.length)

/-- No call goes on. -/
theorem happens_alone {a : Action α} (hl : t.link.Passes a t'.link) (same : t'.calls = t.calls) :
    t.Happens a t' :=
  .passes hl fun _ c hc => ⟨c, same ▸ hc, .stays c⟩

/-- One call goes on. -/
theorem happens_replace {a : Action α} {n : Nat} {c c' : Call α} (hl : t.link.Passes a t'.link)
    (replaced : t'.calls = t.calls.set n c') (hc : t.calls[n]? = some c) (goes : t.Goes n c c') :
    t.Happens a t' := by
  refine .passes hl fun j d hd => ?_
  rw [replaced]
  by_cases hj : n = j
  · subst hj
    obtain rfl := Option.some.inj (hc.symm.trans hd)
    exact ⟨c', List.getElem?_set_self (List.getElem?_eq_some_iff.1 hc).1, goes⟩
  · exact ⟨d, (List.getElem?_set_ne hj).trans hd, .stays d⟩

/-- One call goes on, with events. -/
theorem happens_put {a : Action α} {u : Traffic α} {n : Nat} {c c' : Call α}
    {events : List (Event α)} (hl : t.link.Passes a u.link) (same : u.calls = t.calls)
    (hc : t.calls[n]? = some c) (goes : t.Goes n c c') : t.Happens a (u.put n c' events) := by
  refine happens_replace ?_ (congrArg (List.set · n c') same) hc goes
  rw [put, link_record]
  exact hl

/-- What the holder of the leases is told is no concern of the calls. -/
theorem happens_record {a : Action α} {u : Traffic α} {events : List (Event α)}
    (hl : t.link.Passes a u.link) (same : u.calls = t.calls) :
    t.Happens a (u.record .lessee events) := by
  refine happens_alone ?_ same
  rw [link_record]
  exact hl

theorem happens_delivered (h : t.Custody) {a : Action α} {n : Nat} {c c' : Call α}
    {events : List (Event α)} {m : Message} {k : ChannelKey} {l : Link} (hc : t.calls[n]? = some c)
    (delivers : Delivers m k c c' events) (hl : t.link.publish k (.call n) m = .ok l) :
    t.Happens a ((t.withLink l).put n c' events) := by
  obtain ⟨holds, -, -, -⟩ := delivers.trade
  obtain ⟨channel, published⟩ := Link.exists_published hl
  have sent : t.link.Published ((t.withLink l).put n c' events).link k (.call n) m channel := by
    rw [put, link_record]
    exact published
  have length := (List.getElem?_eq_some_iff.1 hc).1
  refine .publishes (h.leased_of_call hc holds) sent (fun j d hd => ?_)
    fun j hj => Owner.call.inj hj ▸ length
  show ∃ d', (t.calls.set n c')[j]? = some d' ∧ _
  by_cases hj : n = j
  · subst hj
    obtain rfl := Option.some.inj (hc.symm.trans hd)
    refine ⟨c', List.getElem?_set_self length, ?_⟩
    rw [if_pos rfl]
    exact ⟨events, delivers⟩
  · refine ⟨d, (List.getElem?_set_ne hj).trans hd, ?_⟩
    rw [if_neg (by simpa using hj)]

theorem happens_posted (h : t.Custody) {a : Action α} {lease : Nat} {m : Message} {k : ChannelKey}
    {l : Link} {events : List (Event α)} (hk : t.lease? lease = some k)
    (hl : t.link.publish k .lessee m = .ok l) :
    t.Happens a ((t.withLink l).record .lessee events) := by
  obtain ⟨channel, published⟩ := Link.exists_published hl
  have sent : t.link.Published ((t.withLink l).record .lessee events).link k .lessee m channel := by
    rw [link_record]
    exact published
  refine .publishes (h.leased_of_lease hk) sent (fun n c hc => ⟨c, hc, ?_⟩) (by simp)
  rw [if_neg (by simp)]

theorem passes_releaseInPlace (r : ChannelReserve) (k : ChannelKey) (a : Action α) :
    r.link.Passes a (r.releaseInPlace k).link := by
  unfold ChannelReserve.releaseInPlace
  split
  · exact .closed k _
  · rw [ChannelReserve.link_release]
    exact .same a

theorem passes_closeSurplus (r : ChannelReserve) (k : ChannelKey) (a : Action α) :
    r.link.Passes a (r.closeSurplus k).link := by
  simp only [ChannelReserve.closeSurplus]
  split
  · exact .closed k _
  · exact .same a

theorem Change.happens (h : t.Custody) {a : Action α} (hc : t.Change a t') : t.Happens a t' := by
  cases hc with
  | nothing => exact happens_alone (.same a) rfl
  | declared d => exact happens_alone (.same _) rfl
  | arrived i =>
    refine .passes ?_ fun n c hc => ⟨c, ?_, .stays c⟩
    · rw [link_record]
      exact .same _
    · exact (List.getElem?_append_left (List.getElem?_eq_some_iff.1 hc).1).trans hc
  | @waits _ owner r ha hr =>
    refine happens_alone ?_ rfl
    have same := ChannelReserve.link_of_request hr
    show t.link.Passes a r.link
    rw [same]
    exact .same a
  | opened hi hr hc => exact happens_alone (.opened (ChannelReserve.openChannel_of_openFor hr)) rfl
  | @granted _ n job r requests k serves hc => exact happens_put serves.link rfl hc (.granted job k)
  | @refused _ n job r requests fault serves hc =>
    exact happens_put serves.link rfl hc (.refused job fault)
  | leased serves => exact happens_record serves.link rfl
  | unleased serves => exact happens_record serves.link rfl
  | moved hc moves => exact happens_put (.same a) rfl hc (.moved moves)
  | delivered hc delivers hl => exact happens_delivered h hc delivers hl
  | @withdrawn n job k hr hc =>
    refine happens_put ?_ rfl hc (.withdrawn job)
    cases k with
    | none => exact .same _
    | some k => exact .closed k _
  | posted hk hl => exact happens_posted h hk hl
  | unposted => exact happens_record (.same _) rfl
  | returned hk => exact happens_record (.same _) rfl
  | @returnedInPlace _ _ k _ parts =>
    cases parts with
    | lease => exact happens_alone (passes_releaseInPlace t.reserve k _) rfl
    | @call n m _ hc =>
      exact happens_replace (passes_releaseInPlace t.reserve k _) rfl hc (.moved (.abandoned m k))
  | @closed k hk => exact happens_alone (passes_closeSurplus t.reserve k _) rfl
  | relinked hl =>
    refine happens_alone ?_ rfl
    cases hl with
    | lost k => exact .lost k
    | disconnected => exact .disconnected
    | mode mode => exact .mode mode
    | answered number tag ack multiple => exact .answered number tag ack multiple

/-- A channel that is leased is in confirm mode if the settings say so. -/
theorem tuned_of_leased (h : Reachable settings t) (hb : t.link.Booked settings.confirms)
    {k : ChannelKey} (hk : k ∈ t.reserve.leased) {c : Channel} (hc : t.link.channels[k]? = some c)
    (connected : c.connected = true) : c.confirming = settings.confirms := by
  have place := (sound h).place_of_mem (p := .leased) hk
  rw [(hb.pages k).tuned c hc connected]
  exact (lawful h k).any_isConfirmSelect place

theorem start_booked (confirms : Bool) (channelMax : Nat) (mode : AnswerMode) :
    Link.Booked confirms { channelMax, mode } :=
  ⟨fun _ => ⟨nofun, rfl, nofun, fun _ => ⟨rfl, rfl⟩, nofun, nofun⟩, nofun⟩

/-- The broker's book is in order. -/
theorem booked (h : Reachable settings t) : t.link.Booked settings.confirms := by
  induction h with
  | start channelMax mode => exact start_booked _ channelMax mode
  | @act t a ht ih =>
    obtain ⟨passes, -⟩ | @⟨k, sender, m, c, leased, published, -⟩ :=
      (act_change (custody ht) a).happens (custody ht)
    · have steps (k : ChannelKey) := passes.page k (ih.pages k)
      refine ⟨fun k => (ih.pages k).step (steps k), ?_⟩
      exact ih.distinct.of_pages steps fun k c => passes.fresh k
    · have tuned : c.confirming = settings.confirms :=
        tuned_of_leased ht ih leased published.found published.connected
      have steps (j : ChannelKey) := Link.page_publish j published tuned
      refine ⟨fun k => (ih.pages k).step (steps k), ?_⟩
      exact ih.distinct.of_pages steps fun k c => published.fresh

end Traffic

end Courier
