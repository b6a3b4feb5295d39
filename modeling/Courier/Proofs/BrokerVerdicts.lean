import Courier.Proofs.CallDeliveries
import Courier.Proofs.OpenedChannels
import Courier.Proofs.ReferenceMessages
import Courier.Proofs.VerdictIndifference

/-!
# The verdict reaches the right handle

A confirmed call sends one message, which the broker tells from all others by its channel and its
tag (`Traffic.Paired`), and its handle settles with the verdict on that message
(`Traffic.FollowsVerdict`); a call that does not wait returns whatever the verdict
(`Traffic.IgnoresVerdict`). So `verdict_reaches_handle`.
-/

namespace Courier

variable {α : Type}

namespace ChannelView

theorem confirmSelect_mem_history {confirms : Bool} (messages : List Message) :
    .confirmSelect false ∈ history confirms messages ↔ confirms = true := by
  cases confirms <;> simp [history]

theorem confirmSelect_notMem_farewell (connected : Bool) :
    .confirmSelect false ∉ farewell connected := by
  cases connected <;> simp [farewell]

/-- A channel on which the broker has received a message is in confirm mode if that is asked for. -/
theorem Lawful.confirmSelect_iff {confirms : Bool} {v : ChannelView} (h : v.Lawful confirms)
    {e : ChannelEvent} (he : e ∈ v.received) {m : Message} (hm : e.message? = some m) :
    .confirmSelect false ∈ v.received ↔ confirms = true := by
  cases h with
  | unopened => cases he
  | opening hc connected =>
    rw [List.mem_singleton.1 he] at hm
    cases hm
  | dropped hc connected =>
    obtain rfl | closing := List.mem_cons.1 he
    · cases hm
    · cases connected with
      | false => cases closing
      | true =>
        rw [List.mem_singleton.1 closing] at hm
        cases hm
  | ready _ _ messages => exact confirmSelect_mem_history messages
  | discarded messages => exact confirmSelect_mem_history messages
  | closed messages => simp [confirmSelect_mem_history]
  | abandoned connected messages =>
    simp [confirmSelect_mem_history, confirmSelect_notMem_farewell]

end ChannelView

namespace Link

variable {confirms : Bool} {l : Link} {k : ChannelKey} {d : Delivery}

theorem sentBy_settle (l : Link) (verdict : Verdict) (which : Delivery → Bool) (owner : Owner) :
    (l.settle verdict which).sentBy owner =
      (l.sentBy owner).map (Delivery.judged verdict which) :=
  filter_map_of_same (f := Delivery.judged verdict which) (fun d => by simp) l.deliveries

/-- A delivery that waits for its verdict can be answered. -/
theorem Booked.isAnswered_of_pending (h : l.Booked confirms) (hd : d ∈ l.deliveries)
    (pending : d.verdict = none) {tag : Nat} {multiple : Bool}
    (covered : if multiple then tag = 0 ∨ d.tag ≤ tag else d.tag = tag) :
    l.isAnswered (l.number d.channel) tag multiple d = true := by
  have on : d ∈ l.deliveriesOn d.channel := List.mem_filter.2 ⟨hd, beq_self_eq_true _⟩
  obtain ⟨c, hc, connected⟩ := (h.pages d.channel).pending d on pending
  have found : l.channels[d.channel]? = some c := hc
  have number : l.number d.channel = c.number := by
    rw [Link.number, found]
    rfl
  cases multiple <;> simpa [isAnswered, pending, found, connected, number] using covered

theorem exists_publish (h : l.isConnected k = true) (sender : Owner) (m : Message) :
    ∃ l', l.publish k sender m = .ok l' := by
  obtain ⟨c, hc, connected⟩ := exists_of_isConnected h
  unfold publish
  simp only [hc, connected, if_true]
  exact ⟨_, rfl⟩

end Link

/-- What the handle of a confirmed publish settles with by the verdict on its message. -/
def Verdict.outcome (m : Message) (channel : Nat) : Verdict → Except Failure Unit
  | .ack => .ok ()
  | .nack | .notRequested => .error (m.unpublished (.notAcknowledged channel))
  | .lost fault => .error (m.unpublished (.link fault))

namespace Traffic

variable {settings : ReserveSettings} {confirms : Bool} {l : Link} {t : Traffic α} {n : Nat}
  {job : Job} {c : Call α} {ds : List Delivery}

/-- What the handle of a call's confirmed publish settles with, once it does. -/
def outcome? (t : Traffic α) (n : Nat) : Option (Except Failure Unit) :=
  match t.calls[n]? with
  | some (.confirming confirmation _) => confirmation.outcome?
  | _ => none

theorem outcome?_of_get {confirmation : Confirmation} {handle : Handle}
    (hc : t.calls[n]? = some (.confirming confirmation handle)) :
    t.outcome? n = confirmation.outcome? := by
  unfold outcome?
  rw [hc]

theorem outcome?_eq_some {outcome : Except Failure Unit} (h : t.outcome? n = some outcome) :
    ∃ confirmation handle, t.calls[n]? = some (.confirming confirmation handle) ∧
      confirmation.outcome? = some outcome := by
  unfold outcome? at h
  split at h
  next confirmation handle hc => exact ⟨confirmation, handle, hc, h⟩
  next => cases h

/-- A confirmed publish goes on, with the same message over the same channel; once it has ended, it
stays as it is. -/
structure Continues (c c' : Confirmation) : Prop where
  message : c'.message = c.message
  channel : c'.channel = c.channel
  ended : ∀ attempt, c.progress = .ended attempt → c'.progress = .ended attempt

theorem confirming_act (h : Reachable settings t) {confirmation : Confirmation} {handle : Handle}
    (hc : t.calls[n]? = some (.confirming confirmation handle)) (a : Action α) :
    ∃ confirmation' handle', (t.act a).calls[n]? = some (.confirming confirmation' handle') ∧
      Continues confirmation confirmation' := by
  obtain ⟨-, goes⟩ | ⟨-, -, delivers, -⟩ := (act_change (custody h) a).happens (custody h)
  · obtain ⟨c', hc', goes⟩ := goes n _ hc
    cases goes with
    | stays => exact ⟨_, _, hc', rfl, rfl, fun _ => id⟩
    | moved moves =>
      cases moves with
      | unsent => exact ⟨_, _, hc', rfl, rfl, nofun⟩
      | settled => exact ⟨_, _, hc', rfl, rfl, nofun⟩
      | handed | detached => exact ⟨_, _, hc', rfl, rfl, fun _ => id⟩
  · obtain ⟨c', hc', delivers⟩ := delivers n _ hc
    split at delivers
    · obtain ⟨events, delivers⟩ := delivers
      cases delivers
      exact ⟨_, _, hc', rfl, rfl, nofun⟩
    · exact ⟨_, _, delivers ▸ hc', rfl, rfl, fun _ => id⟩

theorem confirming_actAll (h : Reachable settings t) {confirmation : Confirmation} {handle : Handle}
    (hc : t.calls[n]? = some (.confirming confirmation handle)) (actions : List (Action α)) :
    ∃ confirmation' handle', (t.actAll actions).calls[n]? =
      some (.confirming confirmation' handle') ∧ Continues confirmation confirmation' := by
  induction actions generalizing t confirmation handle with
  | nil => exact ⟨_, _, hc, rfl, rfl, fun _ => id⟩
  | cons a rest ih =>
    obtain ⟨next, handle', hc', first⟩ := confirming_act h hc a
    obtain ⟨last, handle'', hl, others⟩ := ih (h.act a) hc'
    exact ⟨last, handle'', hl, others.message.trans first.message,
      others.channel.trans first.channel, fun attempt ha => others.ended _ (first.ended _ ha)⟩

/-- A confirmed publish that has not ended has its channel, which is not for anyone else to take. -/
theorem leased_of_unsettled (h : Reachable settings t) {confirmation : Confirmation}
    {handle : Handle} (hc : t.calls[n]? = some (.confirming confirmation handle))
    (unsettled : confirmation.outcome? = none) :
    confirmation.channel ∈ t.reserve.leased ∧ confirmation.channel ∉ t.reserve.idle := by
  have holds : (Call.confirming confirmation handle : Call α).channel? =
      some confirmation.channel := by
    obtain ⟨m, k, progress⟩ := confirmation
    cases progress with
    | ended attempt => cases attempt <;> cases unsettled
    | _ => rfl
  have leased := (custody h).leased_of_call hc holds
  refine ⟨leased, fun idle => ?_⟩
  have first := (sound h).place_of_mem (p := .leased) leased
  have second := (sound h).place_of_mem (p := .idle) idle
  cases first.symm.trans second

/-- An outcome is final. -/
theorem outcome?_actAll (h : Reachable settings t) {outcome : Except Failure Unit}
    (settled : t.outcome? n = some outcome) (actions : List (Action α)) :
    (t.actAll actions).outcome? n = some outcome := by
  obtain ⟨⟨m, k, progress⟩, handle, hc, ho⟩ := outcome?_eq_some settled
  obtain ⟨⟨m', k', progress'⟩, handle', hc', rfl, rfl, ended⟩ := confirming_actAll h hc actions
  rw [outcome?_of_get hc', ← ho]
  cases progress with
  | ended attempt =>
    obtain rfl := ended attempt rfl
    rfl
  | _ => cases ho

/-- A confirmed publish that has a verdict ends with it. -/
theorem outcome?_settle {m : Message} {k : ChannelKey} {handle : Handle}
    (hc : t.calls[n]? = some (.confirming ⟨m, k, .begun⟩ handle)) {verdict : Option Verdict}
    (hv : t.link.verdictFor? (.call n) = some verdict) : (t.act (.settle n)).outcome? n =
      verdict.map fun v => v.outcome m (t.link.number k) := by
  show (t.settle n).outcome? n = _
  unfold settle
  rw [hc, hv]
  cases verdict with
  | none => exact outcome?_of_get hc
  | some v =>
    have found : (t.step n (·.confirm (v.attempt (t.link.number k)))).calls[n]? =
        some (.confirming ⟨m, k, .ended (v.attempt (t.link.number k))⟩ handle) := by
      rw [step_of_get hc]
      exact List.getElem?_set_self (List.getElem?_eq_some_iff.1 hc).1
    refine (outcome?_of_get found).trans ?_
    cases v <;> rfl

/-- A call whose confirmed publish is not under way has no verdict to learn. -/
theorem settle_idle {c : Call α} (hc : t.calls[n]? = some c)
    (idle : ∀ m k handle, c ≠ .confirming ⟨m, k, .begun⟩ handle) : t.act (.settle n) = t := by
  show t.settle n = t
  unfold settle
  rw [hc]
  split
  next m k handle _ found _ => exact absurd (Option.some.inj found) (idle m k handle)
  next => rfl

/-- Once a confirmed call has sent its message, the verdict on it is what the handle learns. -/
theorem Account.outcome_sent (account : Account confirms t.link job c (t.link.sentBy (.call n)))
    (hc : t.calls[n]? = some c) (hr : job.returns = .confirmation) {d : Delivery}
    (hd : d ∈ t.link.sentBy (.call n)) : ∃ m, job.message = .ok m ∧
      (t.act (.settle n)).outcome? n =
        d.verdict.map fun v => v.outcome m (t.link.number d.channel) := by
  generalize hs : t.link.sentBy (.call n) = ds at account hd
  cases account with
  | sent hr' => cases hr.symm.trans hr'
  | forsaken hr' => cases hr.symm.trans hr'
  | begun hm _ carries handle =>
    obtain rfl := List.mem_singleton.1 hd
    refine ⟨_, hm, ?_⟩
    rw [carries.channel]
    refine outcome?_settle hc ?_
    rw [Link.verdictFor?_eq, hs]
    rfl
  | @ended m hm _ k _ carries verdict hv handle =>
    obtain rfl := List.mem_singleton.1 hd
    refine ⟨m, hm, ?_⟩
    have idle : t.act (.settle n) = t := by
      refine settle_idle hc fun m k handle => ?_
      simp
    rw [idle, outcome?_of_get hc, hv, carries.channel]
    cases verdict <;> rfl
  | _ => cases hd

/-- A confirmed call that has sent nothing learns of no verdict. -/
theorem Account.outcome_unsent (account : Account confirms t.link job c [])
    (hc : t.calls[n]? = some c) : (t.act (.settle n)).outcome? n ≠ some (.ok ()) := by
  have idle : t.act (.settle n) = t := by
    refine settle_idle hc fun m k handle => ?_
    rintro rfl
    cases account
  rw [idle]
  intro ho
  obtain ⟨confirmation, handle, hc', ho⟩ := outcome?_eq_some ho
  obtain rfl := Option.some.inj (hc.symm.trans hc')
  cases account <;> cases ho

theorem Account.length_le (account : Account confirms l job c ds) : ds.length ≤ 1 := by
  cases account <;> simp

theorem Account.eq_singleton (account : Account confirms l job c ds) {d : Delivery} (hd : d ∈ ds) :
    ds = [d] :=
  eq_singleton_of_mem account.length_le hd

theorem Account.carries (account : Account confirms l job c ds) (hr : job.returns = .confirmation)
    {d : Delivery} (hd : d ∈ ds) : ∃ m handle progress, job.message = .ok m ∧
      c = .confirming ⟨m, d.channel, progress⟩ handle ∧ l.Carries confirms m d.channel d := by
  cases account with
  | sent hr' => cases hr.symm.trans hr'
  | forsaken hr' => cases hr.symm.trans hr'
  | begun hm _ carries handle =>
    obtain rfl := List.mem_singleton.1 hd
    obtain rfl := carries.channel
    exact ⟨_, _, _, hm, rfl, carries⟩
  | ended hm _ carries hv handle =>
    obtain rfl := List.mem_singleton.1 hd
    obtain rfl := carries.channel
    exact ⟨_, _, _, hm, rfl, carries⟩
  | _ => cases hd

/-- What a call has sent is told of what happens, since the call sends nothing more. -/
theorem Account.told_act (h : Reachable settings t) (hc : t.calls[n]? = some c)
    (account : Account settings.confirms t.link job c (t.link.sentBy (.call n))) {d : Delivery}
    (hd : d ∈ t.link.sentBy (.call n)) (a : Action α) :
    ∃ d', (t.act a).link.sentBy (.call n) = [d'] ∧ t.link.Told a d d' := by
  obtain ⟨c', hc', after⟩ := account.act h hc a
  obtain ⟨f, sent, told⟩ | ⟨k, channel, -, -, sent⟩ := sentBy_act h a (.call n)
  · refine ⟨f d, ?_, told d⟩
    rw [sent, account.eq_singleton hd]
    rfl
  · have two := after.length_le
    rw [sent, account.eq_singleton hd] at two
    exact absurd two (by simp)

theorem sentBy_answer (t : Traffic α) (owner : Owner) (number tag : Nat) (ack multiple : Bool) :
    (t.act (.answer number tag ack multiple)).link.sentBy owner = (t.link.sentBy owner).map
      (Delivery.judged (if ack then .ack else .nack) (t.link.isAnswered number tag multiple)) :=
  Link.sentBy_settle _ _ _ _

theorem sentBy_send {m : Message} {k : ChannelKey} {handle : Handle}
    (hc : t.calls[n]? = some (.confirming ⟨m, k, .spawned⟩ handle))
    (connected : t.link.isConnected k = true) : ∃ channel, (t.act (.send n)).link.sentBy (.call n) =
      t.link.sentBy (.call n) ++ [t.link.posted channel k (.call n)] := by
  obtain ⟨l, hl⟩ := Link.exists_publish connected (.call n) m
  obtain ⟨channel, published⟩ := Link.exists_published hl
  have sent : (t.act (.send n)).link = l := by
    show (t.send n).link = l
    unfold send
    rw [hc]
    simp only [hl]
    rw [step_of_get (t := t.withLink l) hc, put, link_record]
    rfl
  refine ⟨channel, ?_⟩
  rw [sent, Link.sentBy_published published, if_pos rfl]

/-- How the broker's answers are paired with what a call sends. -/
structure Paired (confirms : Bool) (s : Traffic α) (n : Nat) (job : Job) : Prop where
  /-- The call sends one message at most. -/
  once : (s.link.sentBy (.call n)).length ≤ 1
  /-- In confirm mode, the tag says which of the messages on its channel is the call's. -/
  message : confirms = true → ∀ d ∈ s.link.sentBy (.call n), ∃ m i, job.message = .ok m ∧
    d.tag = i + 1 ∧ (s.link.messages d.channel)[i]? = some m
  /-- The message goes out if the call's channel is connected. -/
  sends : ∀ m k handle, s.calls[n]? = some (.confirming ⟨m, k, .spawned⟩ handle) →
    s.link.isConnected k = true →
    ∃ d, (s.act (.send n)).link.sentBy (.call n) = [d] ∧ d.channel = k
  /-- As the message goes out, the broker answers it at once or not. -/
  sent : s.link.sentBy (.call n) = [] → ∀ a, ∀ d ∈ (s.act a).link.sentBy (.call n),
    d.verdict = if confirms then s.link.mode.verdict? else some .notRequested
  /-- Later, it is answered or lost, once, or stays as it is. -/
  told : ∀ d ∈ s.link.sentBy (.call n), ∀ a,
    ∃ d', (s.act a).link.sentBy (.call n) = [d'] ∧ s.link.Told a d d'
  /-- An answer that covers its tag, on the number of its channel, is the verdict on it. -/
  answered : ∀ d ∈ s.link.sentBy (.call n), d.verdict = none → ∀ tag ack multiple,
    (if multiple then tag = 0 ∨ d.tag ≤ tag else d.tag = tag) →
    (s.act (.answer (s.link.number d.channel) tag ack multiple)).link.sentBy (.call n) =
      [{ d with verdict := some (if ack then .ack else .nack) }]
  /-- An answer to what someone else has sent is none to the call. -/
  apart : confirms = true → ∀ d ∈ s.link.deliveries, d.sender ≠ .call n → d.verdict = none →
    ∀ ack, (s.act (.answer (s.link.number d.channel) d.tag ack false)).link.sentBy (.call n) =
      s.link.sentBy (.call n)

theorem Account.paired (h : Reachable settings t) (hc : t.calls[n]? = some c)
    (account : Account settings.confirms t.link job c (t.link.sentBy (.call n)))
    (hr : job.returns = .confirmation) : Paired settings.confirms t n job := by
  have book := booked h
  refine ⟨account.length_le, fun hm d hd => ?_, fun m k handle hn connected => ?_,
    fun nothing a d hd => ?_, fun d hd a => account.told_act h hc hd a,
    fun d hd pending tag ack multiple covered => ?_, fun hm d hd other pending ack => ?_⟩
  · obtain ⟨m, -, -, message, -, carries⟩ := account.carries hr hd
    obtain ⟨i, tag, received⟩ := carries.message hm
    exact ⟨m, i, message, tag, received⟩
  · obtain rfl := Option.some.inj (hc.symm.trans hn)
    obtain ⟨channel, sent⟩ := sentBy_send hc connected
    refine ⟨t.link.posted channel k (.call n), ?_, Link.posted_channel _ _ _⟩
    generalize t.link.sentBy (.call n) = ds at account sent
    cases account
    exact sent
  · obtain ⟨f, sent, -⟩ | ⟨k, channel, tuned, -, sent⟩ := sentBy_act h a (.call n)
    · rw [sent, nothing] at hd
      cases hd
    · rw [sent, nothing] at hd
      rw [List.mem_singleton.1 hd, Link.posted, tuned]
      split <;> rfl
  · have concerned := book.isAnswered_of_pending (List.mem_filter.1 hd).1 pending covered
    rw [sentBy_answer, account.eq_singleton hd, List.map_singleton, Delivery.judged, concerned,
      pending]
    rfl
  · have concerned : t.link.isAnswered (t.link.number d.channel) d.tag false d = true :=
      book.isAnswered_of_pending hd pending rfl
    rw [hm] at book
    rw [sentBy_answer]
    refine (List.map_congr_left fun e he => ?_).trans (List.map_id _)
    obtain ⟨sent, sender⟩ := List.mem_filter.1 he
    refine Delivery.judged_of_not _ _ _ (Bool.eq_false_iff.2 fun answered => other ?_)
    rw [book.eq_of_isAnswered hd sent concerned answered]
    simpa using sender

/-- A channel with a message on it is in confirm mode if the settings say so. -/
theorem confirmSelect_iff (h : Reachable settings t) {d : Delivery} (hd : d ∈ t.link.deliveries) :
    .confirmSelect false ∈ t.link.received d.channel ↔ settings.confirms = true := by
  have on : d ∈ t.link.deliveriesOn d.channel := List.mem_filter.2 ⟨hd, beq_self_eq_true _⟩
  have counted := ((booked h).pages d.channel).messages
  have some_sent : 0 < ((t.link.received d.channel).filterMap ChannelEvent.message?).length :=
    counted ▸ List.length_pos_of_mem on
  obtain ⟨m, hm⟩ := List.exists_mem_of_length_pos some_sent
  obtain ⟨e, he, message⟩ := List.mem_filterMap.1 hm
  exact (lawful h d.channel).confirmSelect_iff he message

/-- A publish that does not wait for the broker succeeds on a channel that is connected. -/
theorem publish_returns {m : Message} {k : ChannelKey}
    (hc : t.calls[n]? = some (.publishing m k)) (connected : t.link.isConnected k = true) :
    (t.act (.publish n)).calls[n]? = some (.returned .sent) := by
  obtain ⟨l, hl⟩ := Link.exists_publish connected (.call n) m
  show (t.publish n).calls[n]? = _
  unfold publish
  rw [hc]
  simp only [hl]
  rw [step_of_get (t := t.withLink l) hc]
  exact List.getElem?_set_self (List.getElem?_eq_some_iff.1 hc).1

/-- How the handle of a confirmed call stands to the broker's verdict on what the call sends. -/
structure FollowsVerdict (s : Traffic α) (n : Nat) (job : Job) : Prop where
  /-- The handle settles well if and only if the broker has acknowledged the call's message. -/
  ok_iff : (s.act (.settle n)).outcome? n = some (.ok ()) ↔
    ∃ d ∈ s.link.sentBy (.call n), d.verdict = some .ack
  /-- It settles with a failure that names the channel if the broker has refused the message, or if
  the channel was never put in confirm mode. -/
  refused : ∀ d ∈ s.link.sentBy (.call n),
    d.verdict = some .nack ∨ .confirmSelect false ∉ s.link.received d.channel →
    (s.act (.settle n)).outcome? n = some (.error (.publish job.envelope.exchange
      job.envelope.routingKey (.notAcknowledged (s.link.number d.channel))))
  /-- It does not settle before there is a verdict. -/
  waits : ∀ d ∈ s.link.sentBy (.call n), d.verdict = none → (s.act (.settle n)).outcome? n = none
  /-- It settles once. -/
  final : ∀ outcome, s.outcome? n = some outcome → ∀ rest,
    (s.actAll rest).outcome? n = some outcome
  /-- Until it settles, the call's channel is leased and not idle. -/
  holds : ∀ confirmation handle, s.calls[n]? = some (.confirming confirmation handle) →
    (∀ d ∈ s.link.sentBy (.call n), d.channel = confirmation.channel) ∧
    ∀ rest, (s.actAll rest).outcome? n = none →
      confirmation.channel ∈ (s.actAll rest).reserve.leased ∧
      confirmation.channel ∉ (s.actAll rest).reserve.idle

/-- How a call that does not wait for the broker stands to the verdict on what it sends. -/
structure IgnoresVerdict (s : Traffic α) (n : Nat) : Prop where
  /-- Its message goes out, and it returns, however the broker answers then or later. -/
  sends : ∀ m k, s.calls[n]? = some (.publishing m k) → s.link.isConnected k = true →
    ∀ mode rest, (((s.act (.setMode mode)).act (.publish n)).actAll rest).calls[n]? =
      some (.returned .sent)
  /-- It is over with its message, unless the caller has given it up then. -/
  done : ∀ d ∈ s.link.sentBy (.call n), s.Heedless (.call n) ∧
    (s.calls[n]? = some (.returned .sent) ∨ s.calls[n]? = some .cancelled)

/-- The handle settles well if and only if the broker has acknowledged the call's message. -/
theorem Account.outcome_ok_iff
    (account : Account confirms t.link job c (t.link.sentBy (.call n))) (hc : t.calls[n]? = some c)
    (hr : job.returns = .confirmation) : (t.act (.settle n)).outcome? n = some (.ok ()) ↔
      ∃ d ∈ t.link.sentBy (.call n), d.verdict = some .ack := by
  constructor
  · intro ho
    cases hs : t.link.sentBy (.call n) with
    | nil =>
      rw [hs] at account
      exact absurd ho (account.outcome_unsent hc)
    | cons d rest =>
      have hd : d ∈ t.link.sentBy (.call n) := hs ▸ List.mem_cons_self
      obtain ⟨m, -, learnt⟩ := account.outcome_sent hc hr hd
      rw [learnt] at ho
      refine ⟨d, List.mem_cons_self, ?_⟩
      cases hv : d.verdict with
      | none => simp [hv] at ho
      | some verdict => cases verdict <;> simp [hv, Verdict.outcome] at ho ⊢
  · rintro ⟨d, hd, hv⟩
    obtain ⟨m, -, learnt⟩ := account.outcome_sent hc hr hd
    rw [learnt, hv]
    rfl

/-- What is sent on a channel that was never put in confirm mode is not acknowledged. -/
theorem notRequested_of_unasked (h : Reachable settings t) {d : Delivery}
    (hd : d ∈ t.link.deliveries) (unasked : .confirmSelect false ∉ t.link.received d.channel) :
    d.verdict = some .notRequested := by
  rw [confirmSelect_iff h hd, Bool.not_eq_true] at unasked
  have on : d ∈ t.link.deliveriesOn d.channel := List.mem_filter.2 ⟨hd, beq_self_eq_true _⟩
  exact (((booked h).pages d.channel).asked d on).2 unasked

theorem Account.followsVerdict (h : Reachable settings t) (hc : t.calls[n]? = some c)
    (account : Account settings.confirms t.link job c (t.link.sentBy (.call n)))
    (hr : job.returns = .confirmation) : t.FollowsVerdict n job := by
  refine ⟨account.outcome_ok_iff hc hr, fun d hd refused => ?_, fun d hd pending => ?_,
    fun outcome ho rest => outcome?_actAll h ho rest,
    fun confirmation handle hn => ⟨fun d hd => ?_, fun rest unsettled => ?_⟩⟩
  · obtain ⟨m, message, learnt⟩ := account.outcome_sent hc hr hd
    obtain ⟨body, -, rfl⟩ := Job.message_eq_ok.1 message
    rw [learnt]
    obtain nack | unasked := refused
    · rw [nack]
      rfl
    · rw [notRequested_of_unasked h (List.mem_filter.1 hd).1 unasked]
      rfl
  · obtain ⟨m, -, learnt⟩ := account.outcome_sent hc hr hd
    rw [learnt, pending]
    rfl
  · obtain ⟨m, handle', progress, -, rfl, -⟩ := account.carries hr hd
    obtain ⟨rfl, -⟩ := Call.confirming.inj (Option.some.inj (hc.symm.trans hn))
    rfl
  · obtain ⟨later, handle', hl, continues⟩ := confirming_actAll h hn rest
    rw [← continues.channel]
    rw [outcome?_of_get hl] at unsettled
    exact leased_of_unsettled (reachable_actAll h rest) hl unsettled

theorem Account.ignoresVerdict (h : Reachable settings t) (hc : t.calls[n]? = some c)
    (account : Account settings.confirms t.link job c (t.link.sentBy (.call n)))
    (hr : job.returns = .nothing) : t.IgnoresVerdict n := by
  refine ⟨fun m k hn connected mode rest => ?_, fun d hd => ?_⟩
  · have reached := h.act (.setMode mode)
    have returned : ((t.act (.setMode mode)).act (.publish n)).calls[n]? =
        some (.returned .sent) := publish_returns hn connected
    exact isOver_actAll (reached.act _) returned rfl rest
  · have ended : c = .returned .sent ∨ c = .cancelled := by
      generalize t.link.sentBy (.call n) = ds at account hd
      cases account with
      | sent => exact .inl rfl
      | forsaken => exact .inr rfl
      | begun _ hr' => cases hr.symm.trans hr'
      | ended _ hr' => cases hr.symm.trans hr'
      | _ => cases hd
    obtain rfl | rfl := ended
    · exact ⟨⟨_, hc, rfl⟩, .inl hc⟩
    · exact ⟨⟨_, hc, rfl⟩, .inr hc⟩

/-- Whatever calls and leases there are, whichever channels they share and however the broker
answers what is published: the handle of a confirmed call settles with the verdict on the call's own
message, and until then the call keeps its channel. A call that does not wait returns whatever the
verdict. And no call is any different with other verdicts on what the calls that are over, and the
leases, have sent. -/
theorem verdict_reaches_handle (h : Reachable settings t) {i : Invocation} {d : Declaration}
    (hd : t.declarations.get? i.method = some d) (hj : d.job i.arguments t.converter = .ok job)
    (actions : List (Action α)) :
    let n := t.calls.length
    let s := (t.act (.call i)).actAll actions
    (d.returns = .confirmation → Paired settings.confirms s n job ∧ s.FollowsVerdict n job) ∧
    (d.returns = .nothing → s.IgnoresVerdict n) ∧
    ∀ l, s.link.Alike s.Heedless l → ∀ rest,
      ((s.withLink l).actAll rest).calls = (s.actAll rest).calls ∧
      ((s.withLink l).actAll rest).log = (s.actAll rest).log := by
  intro n s
  have reached : Reachable settings s := reachable_actAll (h.act (.call i)) actions
  obtain ⟨c, hc, account⟩ := account h hd hj actions
  have returns : job.returns = d.returns := by
    obtain ⟨e, properties, -, rfl⟩ := Declaration.job_eq_ok.1 hj
    rfl
  refine ⟨fun hr => ?_, fun hr => ?_, fun l alike rest => ?_⟩
  · exact ⟨account.paired reached hc (returns.trans hr),
      account.followsVerdict reached hc (returns.trans hr)⟩
  · exact account.ignoresVerdict reached hc (returns.trans hr)
  · have both : s.Alike s.Heedless (s.withLink l) := .intro (.intro alike)
    have after := both.actAll reached (fun _ => id) rest
    exact ⟨after.calls, after.log⟩

/-- A call that does not wait leaves its message unanswered on a channel that comes back. -/
def unansweredRun : List (Action Unit) :=
  [.declare (textMethod .nothing), .call ⟨"send", [("text", .string "x")]⟩, .request 0, .openFor 0,
    .prepare 0, .publish 0, .declare (textMethod .confirmation)]

/-- A confirmed call sends its message over the same channel; the broker refuses the first message
and acknowledges the second. -/
def refusedFirst : List (Action Unit) :=
  [.request 1, .send 1, .answer 1 1 false false, .answer 1 2 true false]

theorem verdict_reaches_handle_refusedFirst :
    let t := actAll { reserve := { link := { channelMax := 4, mode := .hold } } } unansweredRun
    let s := (t.act (.call ⟨"send", [("text", .string "y")]⟩)).actAll refusedFirst
    s.link.deliveries.map (fun d => (d.channel, d.verdict)) = [(0, some .nack), (0, some .ack)] ∧
      (s.act (.settle 1)).outcome? 1 = some (.ok ()) := by
  intro t s
  have reachable : Reachable {} t := reachable_actAll (.start 4 .hold) unansweredRun
  obtain ⟨-, follows⟩ := (verdict_reaches_handle (i := ⟨"send", [("text", .string "y")]⟩) reachable
    rfl rfl refusedFirst).1 rfl
  exact ⟨rfl, follows.ok_iff.2 ⟨_, .head _, rfl⟩⟩

end Traffic

end Courier
