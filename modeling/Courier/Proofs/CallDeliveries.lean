import Courier.Proofs.BrokerBook

/-!
# What a call has sent

An `Account` says how a call stands to what it has sent: nothing as long as its publish has not
begun, and one delivery from then on, whose verdict is what a confirmed publish ends with. Whatever
happens in the traffic, the account stays in order (`account`).
-/

namespace Courier

variable {α : Type}

open scoped List

namespace Link

variable {confirms : Bool} {l l' : Link} {k : ChannelKey} {m : Message} {d : Delivery}

/-- A delivery of a message on a channel: in confirm mode its tag says which of the messages that
the broker has received on the channel it is. -/
structure Carries (confirms : Bool) (l : Link) (m : Message) (k : ChannelKey) (d : Delivery) :
    Prop where
  channel : d.channel = k
  opened : k < l.channels.length
  message : confirms = true → ∃ i, d.tag = i + 1 ∧ (l.messages k)[i]? = some m

theorem number_step (hp : (l.page k).Step confirms (l'.page k)) (hk : k < l.channels.length) :
    l'.number k = l.number k := by
  have hc : (l.page k).channel = some l.channels[k] := List.getElem?_eq_getElem hk
  obtain ⟨c', hc', number⟩ := hp.number hc
  have found : l'.channels[k]? = some c' := hc'
  rw [Link.number, Link.number, found, List.getElem?_eq_getElem hk]
  exact number

theorem Carries.step (h : l.Carries confirms m k d) (hp : (l.page k).Step confirms (l'.page k))
    {a : Traffic.Action α} {d' : Delivery} (told : l.Told a d d') : l'.Carries confirms m k d' := by
  obtain ⟨c, hc⟩ : ∃ c, (l.page k).channel = some c :=
    ⟨_, List.getElem?_eq_getElem h.opened⟩
  obtain ⟨c', hc', -⟩ := hp.number hc
  have opened : k < l'.channels.length := (List.getElem?_eq_some_iff.1 hc').1
  have channel : d'.channel = k := by
    cases told <;> exact h.channel
  have tag : d'.tag = d.tag := by
    cases told <;> rfl
  refine ⟨channel, opened, fun hm => ?_⟩
  obtain ⟨i, hi, message⟩ := h.message hm
  refine ⟨i, tag.trans hi, ?_⟩
  obtain ⟨later, longer⟩ : l.messages k <+: l'.messages k := hp.received.filterMap _
  rw [← longer, List.getElem?_append_left (List.getElem?_eq_some_iff.1 message).1]
  exact message

/-- A verdict is given once. -/
theorem Told.verdict {a : Traffic.Action α} {d' : Delivery} (told : l.Told a d d')
    {verdict : Verdict} (hv : d.verdict = some verdict) : d'.verdict = some verdict := by
  cases told with
  | kept => exact hv
  | answered ha h =>
    obtain ⟨pending, -⟩ := of_isAnswered h
    cases pending.symm.trans hv
  | lost pending fault => cases pending.symm.trans hv

theorem sentBy_told {f : Delivery → Delivery} {a : Traffic.Action α}
    (deliveries : l'.deliveries = l.deliveries.map f) (told : ∀ d, l.Told a d (f d))
    (owner : Owner) : l'.sentBy owner = (l.sentBy owner).map f := by
  unfold sentBy
  rw [deliveries]
  exact filter_map_of_same (fun d => by rw [(told d).sender]) l.deliveries

theorem sentBy_published {sender : Owner} {c : Channel} (h : l.Published l' k sender m c)
    (owner : Owner) : l'.sentBy owner =
      l.sentBy owner ++ if sender = owner then [l.posted c k sender] else [] := by
  unfold sentBy
  rw [h.deliveries, List.filter_append]
  congr 1
  by_cases ho : sender = owner <;> simp [posted_sender, ho]

theorem carries_posted {sender : Owner} {c : Channel} (h : l.Published l' k sender m c)
    (hf : (l.page k).Filed confirms) (tuned : c.confirming = confirms) :
    l'.Carries confirms m k (l.posted c k sender) := by
  have opened : k < l'.channels.length := by
    have before := (List.getElem?_eq_some_iff.1 h.found).1
    rw [h.channels]
    split
    · rw [List.length_modify]
      exact before
    · exact before
  refine ⟨posted_channel k c sender, opened, ?_⟩
  rintro rfl
  have counted : (l.messages k).length = c.tagged := by
    have tags := congrArg List.length (hf.tags rfl c h.found)
    rw [List.length_map, List.length_range'] at tags
    exact hf.messages.trans tags
  have received : l'.messages k = l.messages k ++ [m] := by
    unfold messages
    rw [h.received, if_pos rfl, List.filterMap_append]
    rfl
  refine ⟨c.tagged, ?_, ?_⟩
  · rw [posted, if_pos tuned]
  · rw [received, ← counted, List.getElem?_concat_length]

end Link

namespace Traffic

/-- How a call with a job stands to what it has sent. -/
inductive Account (confirms : Bool) (l : Link) (job : Job) : Call α → List Delivery → Prop where
  | acquiring : Account confirms l job (.acquiring job) []
  | publishing {m : Message} (hm : job.message = .ok m) (hr : job.returns = .nothing)
      (k : ChannelKey) : Account confirms l job (.publishing m k) []
  | sent (hr : job.returns = .nothing) (d : Delivery) :
      Account confirms l job (.returned .sent) [d]
  | forsaken (hr : job.returns = .nothing) (d : Delivery) : Account confirms l job .cancelled [d]
  | failed (failure : Failure) : Account confirms l job (.returned (.failed failure)) []
  | cancelled : Account confirms l job .cancelled []
  | spawned {m : Message} (hm : job.message = .ok m) (hr : job.returns = .confirmation)
      (k : ChannelKey) (handle : Handle) :
      Account confirms l job (.confirming ⟨m, k, .spawned⟩ handle) []
  | begun {m : Message} (hm : job.message = .ok m) (hr : job.returns = .confirmation)
      {k : ChannelKey} {d : Delivery} (hd : l.Carries confirms m k d) (handle : Handle) :
      Account confirms l job (.confirming ⟨m, k, .begun⟩ handle) [d]
  | ended {m : Message} (hm : job.message = .ok m) (hr : job.returns = .confirmation)
      {k : ChannelKey} {d : Delivery} (hd : l.Carries confirms m k d) {verdict : Verdict}
      (hv : d.verdict = some verdict) (handle : Handle) : Account confirms l job
        (.confirming ⟨m, k, .ended (verdict.attempt (l.number k))⟩ handle) [d]
  | unsent {m : Message} (hm : job.message = .ok m) (hr : job.returns = .confirmation)
      (k : ChannelKey) (fault : LinkFault) (handle : Handle) :
      Account confirms l job (.confirming ⟨m, k, .ended (.failed (.link fault))⟩ handle) []

variable {confirms : Bool} {l l' : Link} {job : Job} {c c' : Call α} {ds : List Delivery}

/-- What happens to the link keeps the account of a call that stays as it is. -/
theorem Account.told (h : Account confirms l job c ds)
    (hp : ∀ k, (l.page k).Step confirms (l'.page k)) {f : Delivery → Delivery}
    {a : Traffic.Action α} (told : ∀ d, l.Told a d (f d)) :
    Account confirms l' job c (ds.map f) := by
  cases h with
  | acquiring => exact .acquiring
  | publishing hm hr k => exact .publishing hm hr k
  | sent hr d => exact .sent hr (f d)
  | forsaken hr d => exact .forsaken hr (f d)
  | failed failure => exact .failed failure
  | cancelled => exact .cancelled
  | spawned hm hr k handle => exact .spawned hm hr k handle
  | begun hm hr hd handle => exact .begun hm hr (hd.step (hp _) (told _)) handle
  | @ended m hm hr k d hd verdict hv handle =>
    have kept := (told d).verdict hv
    rw [← Link.number_step (hp k) hd.opened]
    exact .ended hm hr (hd.step (hp k) (told d)) kept handle
  | unsent hm hr k fault handle => exact .unsent hm hr k fault handle

/-- The handle of a confirmed publish has no part in its account. -/
theorem Account.handle {confirmation : Confirmation} {handle : Handle}
    (h : Account confirms l job (.confirming confirmation handle : Call α) ds) (handle' : Handle) :
    Account confirms l job (.confirming confirmation handle' : Call α) ds := by
  cases h with
  | spawned hm hr k => exact .spawned hm hr k handle'
  | begun hm hr hd => exact .begun hm hr hd handle'
  | ended hm hr hd hv => exact .ended hm hr hd hv handle'
  | unsent hm hr k fault => exact .unsent hm hr k fault handle'

variable {settings : ReserveSettings} {t t' : Traffic α} {n : Nat}

/-- A call that goes on without publishing keeps its account. -/
theorem Account.goes (h : Account confirms t.link job c (t.link.sentBy (.call n)))
    (goes : t.Goes n c c') : Account confirms t.link job c' (t.link.sentBy (.call n)) := by
  generalize hs : t.link.sentBy (.call n) = ds at h
  cases goes with
  | stays => exact h
  | granted job' k =>
    cases h
    unfold Call.withChannel
    cases hm : job.message with
    | error failure => exact .failed failure
    | ok m =>
      cases hr : job.returns with
      | nothing => exact .publishing hm hr k
      | confirmation => exact .spawned hm hr k .due
  | refused job' fault =>
    cases h
    exact .failed _
  | withdrawn job' =>
    cases h
    exact .cancelled
  | moved moves =>
    cases moves with
    | proceeded i answer => cases h
    | unpublished m hl =>
      cases h
      exact .failed _
    | unsent m handle hl =>
      cases h with
      | spawned hm hr => exact .unsent hm hr _ _ handle
    | @settled m k handle verdict hv =>
      cases h with
      | begun hm hr hd =>
        rw [Link.verdictFor?_eq, hs] at hv
        have known : _ = some verdict := Option.some.inj hv
        exact .ended hm hr hd known handle
    | forgotten i => cases h
    | dismissed job' ha =>
      cases h
      exact .cancelled
    | abandoned m k =>
      cases h
      exact .cancelled
    | handed | detached => exact h.handle _

/-- Whatever happens, the account of a call stays in order. -/
theorem Account.act (h : Reachable settings t)
    (account : Account settings.confirms t.link job c (t.link.sentBy (.call n)))
    (hc : t.calls[n]? = some c) (a : Action α) : ∃ c', (t.act a).calls[n]? = some c' ∧
      Account settings.confirms (t.act a).link job c' ((t.act a).link.sentBy (.call n)) := by
  have book := booked h
  obtain ⟨passes, goes⟩ | @⟨k, sender, m, channel, leased, published, delivers⟩ :=
    (act_change (custody h) a).happens (custody h)
  · obtain ⟨f, deliveries, told⟩ := passes.told
    obtain ⟨c', hc', goes⟩ := goes n c hc
    refine ⟨c', hc', ?_⟩
    rw [Link.sentBy_told deliveries told]
    exact (account.goes goes).told (fun k => passes.page k (book.pages k)) told
  · have tuned := tuned_of_leased h book leased published.found published.connected
    have steps (j : ChannelKey) := Link.page_publish j published tuned
    obtain ⟨c', hc', delivers⟩ := delivers n c hc
    refine ⟨c', hc', ?_⟩
    have kept := account.told (a := a) steps (f := id) fun _ => .kept
    rw [List.map_id] at kept
    rw [Link.sentBy_published published]
    split at delivers
    next own =>
      obtain ⟨events, delivers⟩ := delivers
      have carries := Link.carries_posted published (book.pages k) tuned
      rw [if_pos own]
      generalize t.link.sentBy (.call n) = ds at kept
      cases delivers with
      | sent =>
        cases kept with
        | publishing hm hr => exact .sent hr _
      | forsaken =>
        cases kept with
        | publishing hm hr => exact .forsaken hr _
      | begun handle =>
        cases kept with
        | spawned hm hr => exact .begun hm hr carries handle
    next other =>
      subst delivers
      rw [if_neg other, List.append_nil]
      exact kept

/-- What an owner has sent, after an action: each delivery is told what the action makes of it, or a
message of the owner goes out, on a channel that is in confirm mode if the settings say so. -/
theorem sentBy_act (h : Reachable settings t) (a : Action α) (owner : Owner) :
    (∃ f, (t.act a).link.sentBy owner = (t.link.sentBy owner).map f ∧ ∀ d, t.link.Told a d (f d)) ∨
    ∃ k channel, channel.confirming = settings.confirms ∧
      (∀ n, owner = .call n → n < t.calls.length) ∧
      (t.act a).link.sentBy owner = t.link.sentBy owner ++ [t.link.posted channel k owner] := by
  obtain ⟨passes, -⟩ | @⟨k, sender, m, channel, leased, published, -, known⟩ :=
    (act_change (custody h) a).happens (custody h)
  · obtain ⟨f, deliveries, told⟩ := passes.told
    exact .inl ⟨f, Link.sentBy_told deliveries told owner, told⟩
  · have sent := Link.sentBy_published published owner
    split at sent
    next own =>
      subst own
      have tuned := tuned_of_leased h (booked h) leased published.found published.connected
      exact .inr ⟨k, channel, tuned, known, sent⟩
    next =>
      refine .inl ⟨id, ?_, fun _ => .kept⟩
      rw [sent, List.append_nil, List.map_id]

theorem length_calls_act (h : Reachable settings t) (a : Action α) :
    t.calls.length ≤ (t.act a).calls.length := by
  refine Nat.le_of_not_lt fun shorter => ?_
  have last := List.getElem?_eq_getElem shorter
  obtain ⟨c', hc'⟩ : ∃ c', (t.act a).calls[(t.act a).calls.length]? = some c' := by
    obtain ⟨-, goes⟩ | ⟨-, -, delivers, -⟩ := (act_change (custody h) a).happens (custody h)
    · obtain ⟨c', hc', -⟩ := goes _ _ last
      exact ⟨c', hc'⟩
    · obtain ⟨c', hc', -⟩ := delivers _ _ last
      exact ⟨c', hc'⟩
  exact Nat.lt_irrefl _ (List.getElem?_eq_some_iff.1 hc').1

/-- A call that has not arrived has sent nothing. -/
theorem sentBy_of_le (h : Reachable settings t) {n : Nat} (hn : t.calls.length ≤ n) :
    t.link.sentBy (.call n) = [] := by
  induction h with
  | start => rfl
  | @act t a ht ih =>
    have absent : t.calls.length ≤ n := Nat.le_trans (length_calls_act ht a) hn
    obtain ⟨f, sent, -⟩ | ⟨k, channel, -, known, -⟩ := sentBy_act ht a (.call n)
    · rw [sent, ih absent]
      rfl
    · exact absurd (known n rfl) (Nat.not_lt_of_le absent)

/-- The account of a call is in order from its arrival on. -/
theorem account (h : Reachable settings t) {i : Invocation} {d : Declaration}
    (hd : t.declarations.get? i.method = some d) (hj : d.job i.arguments t.converter = .ok job)
    (actions : List (Action α)) :
    let s := (t.act (.call i)).actAll actions
    ∃ c, s.calls[t.calls.length]? = some c ∧
      Account settings.confirms s.link job c (s.link.sentBy (.call t.calls.length)) := by
  have arrived : (t.act (.call i)).calls[t.calls.length]? = some (.acquiring job) := by
    have started : Call.start (α := α) t.declarations t.converter i = (.acquiring job, []) := by
      simp only [Call.start, hd, hj]
    show (t.calls ++ [(Call.start t.declarations t.converter i).1])[t.calls.length]? = _
    rw [started]
    exact List.getElem?_concat_length
  have nothing : (t.act (.call i)).link.sentBy (.call t.calls.length) = [] := by
    have same : (t.act (.call i)).link = t.link := link_record _ _ _
    rw [same]
    exact sentBy_of_le h (Nat.le_refl _)
  have start : ∃ c, (t.act (.call i)).calls[t.calls.length]? = some c ∧
      Account settings.confirms (t.act (.call i)).link job c
        ((t.act (.call i)).link.sentBy (.call t.calls.length)) :=
    ⟨_, arrived, nothing ▸ .acquiring⟩
  have reached := h.act (.call i)
  generalize t.act (.call i) = s, t.calls.length = n at start reached
  induction actions generalizing s with
  | nil => exact start
  | cons a rest ih =>
    obtain ⟨c, hc, kept⟩ := start
    exact ih (s.act a) (kept.act reached hc a) (reached.act a)

end Traffic

end Courier
