import Courier.Proofs.ReserveLedger
import Courier.Traffic

/-!
# The pages of a link

A `Page` is what there is to know of one channel: the channel itself, what the broker has received
on it, and the deliveries made on it, with their verdicts. Whatever happens on a link, every page
takes one `Page.Step`, and the steps keep it filed (`Page.Filed`): the tags of a channel in confirm
mode count the messages received on it, and a delivery that waits for its verdict is on a channel
that is connected. As no two connected channels have the same number (`Link.Distinct`), an answer to
one tag concerns one delivery at most (`Link.Booked.length_answered_le`).
-/

namespace Courier

variable {α : Type}

open scoped List

theorem filter_map_of_same {α : Type} {f : α → α} {p : α → Bool} (hp : ∀ a, p (f a) = p a)
    (l : List α) : (l.map f).filter p = (l.filter p).map f := by
  have same : p ∘ f = p := funext hp
  rw [List.filter_map, same]

theorem eq_singleton_of_mem {α : Type} {l : List α} (h : l.length ≤ 1) {a : α} (ha : a ∈ l) :
    l = [a] := by
  obtain ⟨b, rfl⟩ := List.length_eq_one_iff.1 (Nat.le_antisymm h (List.length_pos_of_mem ha))
  rw [List.mem_singleton.1 ha]

/-- The message that a broker receives with an event. -/
def ChannelEvent.message? : ChannelEvent → Option Message
  | .published _ m => some m
  | _ => none

/-- A delivery once a verdict has been given on those that a condition picks out. -/
def Delivery.judged (verdict : Verdict) (which : Delivery → Bool) (d : Delivery) : Delivery :=
  if d.verdict.isNone && which d then { d with verdict := some verdict } else d

/-- A channel that has ended. -/
def Channel.ended (c : Channel) : Channel := { c with connected := false, confirming := false }

/-- What there is to know of a channel. -/
structure Page where
  channel : Option Channel
  received : List ChannelEvent
  deliveries : List Delivery

namespace Link

/-- The deliveries on a channel. -/
def deliveriesOn (l : Link) (k : ChannelKey) : List Delivery :=
  l.deliveries.filter fun d => d.channel == k

/-- What an owner has sent. -/
def sentBy (l : Link) (owner : Owner) : List Delivery :=
  l.deliveries.filter fun d => d.sender = owner

/-- The first thing that an owner has sent is what its verdict is about. -/
theorem verdictFor?_eq (l : Link) (owner : Owner) :
    l.verdictFor? owner = (l.sentBy owner).head?.map Delivery.verdict := by
  rw [verdictFor?, sentBy, List.head?_filter]

/-- The messages received on a channel, in order. -/
def messages (l : Link) (k : ChannelKey) : List Message :=
  (l.received k).filterMap ChannelEvent.message?

/-- What there is to know of a channel. -/
def page (l : Link) (k : ChannelKey) : Page := ⟨l.channels[k]?, l.received k, l.deliveriesOn k⟩

end Link

namespace Delivery

variable (verdict : Verdict) (which : Delivery → Bool) (d : Delivery)

@[simp] theorem judged_channel : (d.judged verdict which).channel = d.channel := by
  unfold judged
  split <;> rfl

@[simp] theorem judged_sender : (d.judged verdict which).sender = d.sender := by
  unfold judged
  split <;> rfl

@[simp] theorem judged_tag : (d.judged verdict which).tag = d.tag := by
  unfold judged
  split <;> rfl

/-- A verdict is given once. -/
theorem judged_of_isSome (h : d.verdict ≠ none) : d.judged verdict which = d := by
  rw [judged, if_neg]
  simp [h]

theorem judged_of_not (h : which d = false) : d.judged verdict which = d := by
  simp [judged, h]

end Delivery

namespace Page

/-- What can happen to one channel and to the deliveries on it. -/
inductive Step (confirms : Bool) : Page → Page → Prop where
  | stay (p : Page) : Step confirms p p
  | opened (number : Nat) (es : List ChannelEvent) (ds : List Delivery) :
      Step confirms ⟨none, es, ds⟩ ⟨some { number }, es ++ [.opened], ds⟩
  | selected (c : Channel) (es : List ChannelEvent) (ds : List Delivery) :
      Step confirms ⟨some c, es, ds⟩
        ⟨some { c with confirming := true }, es ++ [.confirmSelect false], ds⟩
  | tagged {c : Channel} (hc : c.connected = true) (hm : confirms = true)
      (es : List ChannelEvent) (ds : List Delivery) (k : ChannelKey) (sender : Owner) (m : Message)
      (mode : AnswerMode) :
      Step confirms ⟨some c, es, ds⟩ ⟨some { c with tagged := c.tagged + 1 },
        es ++ [.published {} m], ds ++ [⟨k, sender, c.tagged + 1, mode.verdict?⟩]⟩
  | untagged (c : Channel) (hm : confirms = false) (es : List ChannelEvent) (ds : List Delivery)
      (k : ChannelKey) (sender : Owner) (m : Message) :
      Step confirms ⟨some c, es, ds⟩
        ⟨some c, es ++ [.published {} m], ds ++ [⟨k, sender, 0, some .notRequested⟩]⟩
  | answered (ack : Bool) (which : Delivery → Bool) (c : Option Channel) (es : List ChannelEvent)
      (ds : List Delivery) : Step confirms ⟨c, es, ds⟩
        ⟨c, es, ds.map (Delivery.judged (if ack then .ack else .nack) which)⟩
  | ended (fault : LinkFault) (c : Channel) (es : List ChannelEvent) {closing : List ChannelEvent}
      (hc : closing.filterMap ChannelEvent.message? = []) (ds : List Delivery) :
      Step confirms ⟨some c, es, ds⟩ ⟨some c.ended, es ++ closing,
        ds.map (Delivery.judged (.lost fault) fun _ => true)⟩

/-- A channel ends without anything being sent on it. -/
theorem Step.lost {confirms : Bool} {c : Channel} {es : List ChannelEvent} {ds : List Delivery}
    (fault : LinkFault) : Step confirms ⟨some c, es, ds⟩
      ⟨some c.ended, es, ds.map (Delivery.judged (.lost fault) fun _ => true)⟩ := by
  have none_sent : ([] : List ChannelEvent).filterMap ChannelEvent.message? = [] := rfl
  have step : Step confirms _ _ := .ended fault c es none_sent ds
  rwa [List.append_nil] at step

/-- What a page says is in order. -/
structure Filed (confirms : Bool) (p : Page) : Prop where
  /-- A channel is in confirm mode if that has been asked for. -/
  tuned : ∀ c ∈ p.channel, c.connected = true →
    c.confirming = p.received.any ChannelEvent.isConfirmSelect
  messages : (p.received.filterMap ChannelEvent.message?).length = p.deliveries.length
  /-- The tags count the deliveries. -/
  tags : confirms = true → ∀ c ∈ p.channel,
    p.deliveries.map Delivery.tag = List.range' 1 c.tagged
  absent : p.channel = none → p.received = [] ∧ p.deliveries = []
  asked : ∀ d ∈ p.deliveries, d.verdict = some .notRequested ↔ confirms = false
  pending : ∀ d ∈ p.deliveries, d.verdict = none → ∃ c ∈ p.channel, c.connected = true

variable {confirms : Bool} {p q : Page}

/-- A channel keeps its number, and once it has ended it stays so. -/
theorem Step.channel (s : p.Step confirms q) {c' : Channel} (hc : q.channel = some c') :
    p.channel = none ∨ ∃ c, p.channel = some c ∧ c'.number = c.number ∧
      (c'.connected = true → c.connected = true) := by
  cases s with
  | stay => exact .inr ⟨c', hc, rfl, id⟩
  | opened => exact .inl rfl
  | answered => exact .inr ⟨c', hc, rfl, id⟩
  | ended fault c es hc' ds =>
    cases hc
    exact .inr ⟨c, rfl, rfl, nofun⟩
  | _ =>
    cases hc
    exact .inr ⟨_, rfl, rfl, id⟩

theorem Step.number (s : p.Step confirms q) {c : Channel} (hc : p.channel = some c) :
    ∃ c', q.channel = some c' ∧ c'.number = c.number := by
  cases s with
  | stay => exact ⟨c, hc, rfl⟩
  | opened => cases hc
  | answered => exact ⟨c, hc, rfl⟩
  | _ =>
    cases hc
    exact ⟨_, rfl, rfl⟩

/-- What has been received stays received. -/
theorem Step.received (s : p.Step confirms q) : p.received <+: q.received := by
  cases s with
  | stay => exact List.prefix_refl _
  | answered => exact List.prefix_refl _
  | _ => exact List.prefix_append _ _

theorem AnswerMode.verdict?_ne (mode : AnswerMode) : mode.verdict? ≠ some .notRequested := by
  cases mode <;> simp [AnswerMode.verdict?]

theorem asked_judged {verdict : Verdict} (hv : verdict ≠ .notRequested) (which : Delivery → Bool)
    (d : Delivery) : (d.judged verdict which).verdict = some .notRequested ↔
      d.verdict = some .notRequested := by
  unfold Delivery.judged
  split
  next h =>
    rw [Bool.and_eq_true, Option.isNone_iff_eq_none] at h
    simp [h.1, hv]
  next => exact Iff.rfl

theorem map_tag_judged (verdict : Verdict) (which : Delivery → Bool) (ds : List Delivery) :
    (ds.map (Delivery.judged verdict which)).map Delivery.tag = ds.map Delivery.tag := by
  rw [List.map_map]
  exact List.map_congr_left fun d _ => Delivery.judged_tag verdict which d

section

variable {c : Option Channel} {es : List ChannelEvent} {ds : List Delivery}

theorem Filed.asked_map (h : Filed confirms ⟨c, es, ds⟩) {verdict : Verdict}
    (hv : verdict ≠ .notRequested) (which : Delivery → Bool) :
    ∀ d ∈ ds.map (Delivery.judged verdict which),
      d.verdict = some .notRequested ↔ confirms = false := by
  intro d hd
  obtain ⟨e, he, rfl⟩ := List.mem_map.1 hd
  rw [asked_judged hv]
  exact h.asked e he

theorem Filed.asked_concat (h : Filed confirms ⟨c, es, ds⟩) {d : Delivery}
    (hd : d.verdict = some .notRequested ↔ confirms = false) :
    ∀ e ∈ ds ++ [d], e.verdict = some .notRequested ↔ confirms = false := by
  intro e he
  obtain he | he := List.mem_append.1 he
  · exact h.asked e he
  · exact List.mem_singleton.1 he ▸ hd

theorem Filed.messages_append (h : Filed confirms ⟨c, es, ds⟩) {new : List ChannelEvent}
    {sent : List Delivery} (hs : (new.filterMap ChannelEvent.message?).length = sent.length) :
    ((es ++ new).filterMap ChannelEvent.message?).length = (ds ++ sent).length := by
  rw [List.filterMap_append, List.length_append, List.length_append, hs]
  exact congrArg (· + sent.length) h.messages

theorem Filed.selected {c : Channel} (h : Filed confirms ⟨some c, es, ds⟩) :
    Filed confirms ⟨some { c with confirming := true }, es ++ [.confirmSelect false], ds⟩ := by
  refine ⟨fun d hd _ => ?_, ?_, fun hm d hd => ?_, by simp, h.asked, fun d hd hv => ?_⟩
  · cases hd
    simp [ChannelEvent.isConfirmSelect]
  · have counted : ((es ++ [ChannelEvent.confirmSelect false]).filterMap
        ChannelEvent.message?).length = (ds ++ []).length := h.messages_append rfl
    rwa [List.append_nil] at counted
  · cases hd
    exact h.tags hm c rfl
  · obtain ⟨c', hc, connected⟩ := h.pending d hd hv
    cases hc
    exact ⟨_, rfl, connected⟩

theorem Filed.tagged {c : Channel} (h : Filed true ⟨some c, es, ds⟩) (hc : c.connected = true)
    (k : ChannelKey) (sender : Owner) (m : Message) (mode : AnswerMode) :
    Filed true ⟨some { c with tagged := c.tagged + 1 }, es ++ [.published {} m],
      ds ++ [⟨k, sender, c.tagged + 1, mode.verdict?⟩]⟩ := by
  refine ⟨fun d hd _ => ?_, h.messages_append rfl, fun _ d hd => ?_, by simp,
    h.asked_concat (by simp [AnswerMode.verdict?_ne]), fun _ _ _ => ⟨_, rfl, hc⟩⟩
  · cases hd
    have tuned := h.tuned c rfl hc
    simpa [ChannelEvent.isConfirmSelect] using tuned
  · cases hd
    have tags := h.tags rfl c rfl
    simp only at tags
    rw [List.map_append, tags, List.range'_concat]
    simp [Nat.add_comm]

theorem Filed.untagged {c : Channel} (h : Filed false ⟨some c, es, ds⟩) (k : ChannelKey)
    (sender : Owner) (m : Message) : Filed false ⟨some c, es ++ [.published {} m],
      ds ++ [⟨k, sender, 0, some .notRequested⟩]⟩ := by
  refine ⟨fun d hd connected => ?_, h.messages_append rfl, by simp, by simp,
    h.asked_concat (by simp), fun d hd hv => ?_⟩
  · cases hd
    have tuned := h.tuned c rfl connected
    simpa [ChannelEvent.isConfirmSelect] using tuned
  · obtain hd | hd := List.mem_append.1 hd
    · exact h.pending d hd hv
    · rw [List.mem_singleton.1 hd] at hv
      cases hv

theorem Filed.answered (h : Filed confirms ⟨c, es, ds⟩) (ack : Bool) (which : Delivery → Bool) :
    Filed confirms ⟨c, es, ds.map (Delivery.judged (if ack then .ack else .nack) which)⟩ := by
  have hv : (if ack then Verdict.ack else .nack) ≠ .notRequested := by cases ack <;> simp
  refine ⟨h.tuned, ?_, fun hm d hd => ?_, fun hn => ?_, h.asked_map hv which, fun d hd hn => ?_⟩
  · rw [List.length_map]
    exact h.messages
  · rw [map_tag_judged]
    exact h.tags hm d hd
  · obtain ⟨received, deliveries⟩ := h.absent hn
    simp only at received deliveries
    rw [received, deliveries]
    exact ⟨rfl, rfl⟩
  · obtain ⟨e, he, rfl⟩ := List.mem_map.1 hd
    refine h.pending e he (by_contra fun hs => ?_)
    rw [Delivery.judged_of_isSome _ _ _ hs] at hn
    exact hs hn

theorem Filed.ended {c : Channel} (h : Filed confirms ⟨some c, es, ds⟩) (fault : LinkFault)
    {closing : List ChannelEvent} (hc : closing.filterMap ChannelEvent.message? = []) :
    Filed confirms ⟨some c.ended, es ++ closing,
      ds.map (Delivery.judged (.lost fault) fun _ => true)⟩ := by
  have hv : Verdict.lost fault ≠ .notRequested := by simp
  refine ⟨fun d hd connected => ?_, ?_, fun hm d hd => ?_, by simp, h.asked_map hv _,
    fun d hd hn => ?_⟩
  · cases hd
    cases connected
  · rw [List.filterMap_append, hc, List.append_nil, List.length_map]
    exact h.messages
  · cases hd
    rw [map_tag_judged]
    exact h.tags hm c rfl
  · obtain ⟨e, he, rfl⟩ := List.mem_map.1 hd
    unfold Delivery.judged at hn
    split at hn
    · cases hn
    next hs => simp [hn] at hs

end

theorem Filed.step (h : p.Filed confirms) (s : p.Step confirms q) : q.Filed confirms := by
  cases s with
  | stay => exact h
  | opened number es ds =>
    obtain ⟨rfl, rfl⟩ := h.absent rfl
    exact ⟨by simp [ChannelEvent.isConfirmSelect], rfl, by simp, by simp, by simp, by simp⟩
  | selected => exact h.selected
  | tagged hc hm es ds k sender m mode =>
    subst hm
    exact h.tagged hc k sender m mode
  | untagged c hm es ds k sender m =>
    subst hm
    exact h.untagged k sender m
  | answered ack which => exact h.answered ack which
  | ended fault c es hc => exact h.ended fault hc

end Page

namespace Link

/-- What an action makes of a link, if nothing is published. -/
inductive Passes (l : Link) : Traffic.Action α → Link → Prop where
  | same (a : Traffic.Action α) : Passes l a l
  | opened {a : Traffic.Action α} {l' : Link} {k : ChannelKey} (h : l.openChannel = .ok (l', k)) :
      Passes l a l'
  | selected {a : Traffic.Action α} {l' : Link} {k : ChannelKey} (h : l.selectConfirms k = .ok l') :
      Passes l a l'
  | closed {a : Traffic.Action α} (k : ChannelKey) (text : String) :
      Passes l a (l.closeChannel k text)
  | lost {a : Traffic.Action α} (k : ChannelKey) : Passes l a (l.loseChannel k)
  | disconnected {a : Traffic.Action α} : Passes l a l.disconnect
  | mode {a : Traffic.Action α} (mode : AnswerMode) : Passes l a { l with mode }
  | answered (number tag : Nat) (ack multiple : Bool) :
      Passes l (.answer number tag ack multiple) (l.answer number tag ack multiple)

variable {confirms : Bool} {l l' : Link} (k : ChannelKey)

theorem deliveriesOn_settle (verdict : Verdict) (which : Delivery → Bool) :
    (l.settle verdict which).deliveriesOn k =
      (l.deliveriesOn k).map (Delivery.judged verdict which) :=
  filter_map_of_same (f := Delivery.judged verdict which) (fun d => by simp) l.deliveries

theorem page_settle (verdict : Verdict) (which : Delivery → Bool) :
    (l.settle verdict which).page k = ⟨l.channels[k]?, l.received k,
      (l.deliveriesOn k).map (Delivery.judged verdict which)⟩ := by
  unfold page
  rw [deliveriesOn_settle]
  rfl

theorem page_send (j : ChannelKey) (e : ChannelEvent) : (l.send j e).page k =
    ⟨l.channels[k]?, l.received k ++ if j = k then [e] else [], l.deliveriesOn k⟩ := by
  unfold page
  rw [received_send]
  rfl

theorem channels_modifyChannel (j : ChannelKey) (f : Channel → Channel) :
    (l.modifyChannel j f).channels[k]? =
      if j = k then l.channels[k]?.map f else l.channels[k]? := by
  unfold modifyChannel
  rw [List.getElem?_modify]
  by_cases hj : j = k
  · simp [hj]
  · simp [hj]

/-- The deliveries on a channel are judged by whether they are the ones that are concerned. -/
theorem map_judged_on (verdict : Verdict) (j : ChannelKey) :
    (l.deliveriesOn k).map (Delivery.judged verdict fun d => d.channel == j) =
      if j = k then (l.deliveriesOn k).map (Delivery.judged verdict fun _ => true)
      else l.deliveriesOn k := by
  have on (d : Delivery) (hd : d ∈ l.deliveriesOn k) : d.channel = k := by
    simpa using (List.mem_filter.1 hd).2
  by_cases hj : j = k
  · rw [if_pos hj]
    refine List.map_congr_left fun d hd => ?_
    simp [Delivery.judged, on d hd, hj]
  · rw [if_neg hj]
    have untouched (d : Delivery) (hd : d ∈ l.deliveriesOn k) :
        d.judged verdict (fun d => d.channel == j) = id d :=
      Delivery.judged_of_not _ _ _ (by simpa [on d hd] using Ne.symm hj)
    exact (List.map_congr_left untouched).trans (List.map_id _)

theorem page_endChannel (j : ChannelKey) (fault : LinkFault) : (l.endChannel j fault).page k =
    if j = k then ⟨l.channels[k]?.map Channel.ended, l.received k,
      (l.deliveriesOn k).map (Delivery.judged (.lost fault) fun _ => true)⟩
    else l.page k := by
  unfold endChannel
  rw [page_settle, channels_modifyChannel]
  show Page.mk _ _ ((l.deliveriesOn k).map _) = _
  rw [map_judged_on]
  split
  · rfl
  · rfl

theorem page_openChannel {j : ChannelKey} (h : l.openChannel = .ok (l', j)) :
    (l.page k).Step confirms (l'.page k) := by
  obtain ⟨rfl, -⟩ := openChannel_eq_ok h
  unfold openChannel at h
  split at h
  · split at h
    next number _ =>
      cases h
      rw [page_send]
      show Page.Step confirms _ ⟨(l.channels ++ [({ number } : Channel)])[k]?,
        l.received k ++ _, l.deliveriesOn k⟩
      obtain hk | rfl | hk := Nat.lt_trichotomy k l.channels.length
      · rw [List.getElem?_append_left hk, if_neg (Nat.ne_of_gt hk), List.append_nil]
        exact .stay _
      · unfold page
        rw [List.getElem?_concat_length, if_pos rfl, List.getElem?_eq_none (Nat.le_refl _)]
        exact .opened number _ _
      · have beyond : (l.channels ++ [({ number } : Channel)]).length ≤ k := by
          rw [List.length_append]
          exact hk
        unfold page
        rw [List.getElem?_eq_none beyond, if_neg (Nat.ne_of_lt hk), List.append_nil,
          List.getElem?_eq_none (Nat.le_of_lt hk)]
        exact .stay _
    · cases h
  · cases h

/-- A channel that is connected. -/
theorem exists_of_isConnected {j : ChannelKey} (h : l.isConnected j = true) :
    ∃ c, l.channels[j]? = some c ∧ c.connected = true := by
  unfold isConnected at h
  simpa [Option.any_eq_true] using h

theorem page_selectConfirms {j : ChannelKey} (h : l.selectConfirms j = .ok l') :
    (l.page k).Step confirms (l'.page k) := by
  unfold selectConfirms at h
  split at h
  next hj =>
    cases h
    obtain ⟨c, hc, -⟩ := exists_of_isConnected hj
    rw [page_send, channels_modifyChannel]
    by_cases hk : j = k
    · subst hk
      simp only [if_true]
      unfold page
      rw [hc]
      exact .selected c _ _
    · simp only [if_neg hk, List.append_nil]
      exact .stay _
  next => cases h

/-- What a publish adds to the deliveries. -/
def posted (l : Link) (c : Channel) (k : ChannelKey) (sender : Owner) : Delivery :=
  if c.confirming then ⟨k, sender, c.tagged + 1, l.mode.verdict?⟩
  else ⟨k, sender, 0, some .notRequested⟩

/-- What a publish does to a link. -/
structure Published (l l' : Link) (k : ChannelKey) (sender : Owner) (m : Message) (c : Channel) :
    Prop where
  found : l.channels[k]? = some c
  connected : c.connected = true
  channels : l'.channels = if c.confirming then
    l.channels.modify k (fun c => { c with tagged := c.tagged + 1 }) else l.channels
  deliveries : l'.deliveries = l.deliveries ++ [l.posted c k sender]
  received : ∀ j, l'.received j = l.received j ++ if k = j then [.published {} m] else []

theorem exists_published {k : ChannelKey} {sender : Owner} {m : Message}
    (h : l.publish k sender m = .ok l') : ∃ c, l.Published l' k sender m c := by
  have received (j : ChannelKey) := (publish_eq_ok h j).2.2
  unfold publish at h
  cases hc : l.channels[k]? with
  | none => simp [hc] at h
  | some c =>
    simp only [hc] at h
    split at h
    next connected =>
      cases h
      refine ⟨c, hc, connected, ?_, ?_, received⟩
      · cases c.confirming <;> rfl
      · unfold posted
        cases c.confirming <;> rfl
    next => cases h

theorem posted_channel (c : Channel) (sender : Owner) : (l.posted c k sender).channel = k := by
  unfold posted
  split <;> rfl

theorem posted_sender (c : Channel) (sender : Owner) : (l.posted c k sender).sender = sender := by
  unfold posted
  split <;> rfl

theorem page_publish {j : ChannelKey} {c : Channel} {sender : Owner} {m : Message}
    (h : l.Published l' j sender m c) (tuned : c.confirming = confirms) :
    (l.page k).Step confirms (l'.page k) := by
  have deliveries : l'.deliveriesOn k =
      l.deliveriesOn k ++ if j = k then [l.posted c j sender] else [] := by
    unfold deliveriesOn
    rw [h.deliveries, List.filter_append]
    congr 1
    by_cases hj : j = k <;> simp [posted_channel, hj]
  unfold page
  rw [deliveries, h.received, h.channels, tuned]
  by_cases hj : j = k
  · subst hj
    rw [if_pos rfl, if_pos rfl, posted, tuned]
    cases confirms with
    | true =>
      simp only [if_true, List.getElem?_modify, h.found]
      exact .tagged h.connected rfl _ _ _ _ _ _
    | false =>
      simp only [Bool.false_eq_true, if_false, h.found]
      exact .untagged c rfl _ _ _ _ _
  · have kept : (if confirms then l.channels.modify j fun c => { c with tagged := c.tagged + 1 }
        else l.channels)[k]? = l.channels[k]? := by
      split
      · rw [List.getElem?_modify]
        simp [hj]
      · rfl
    rw [kept, if_neg hj, if_neg hj, List.append_nil, List.append_nil]
    exact .stay _

theorem page_closeChannel (j : ChannelKey) (text : String) :
    (l.page k).Step confirms ((l.closeChannel j text).page k) := by
  unfold closeChannel
  split
  next hj =>
    obtain ⟨c, hc, -⟩ := exists_of_isConnected hj
    rw [page_endChannel, page_send]
    split
    next hk =>
      subst hk
      rw [received_send, if_pos rfl]
      unfold page
      show Page.Step confirms _ ⟨(l.channels[j]?).map _, _, (l.deliveriesOn j).map _⟩
      rw [hc]
      exact .ended _ c _ rfl _
    next =>
      rw [List.append_nil]
      exact .stay _
  next => exact .stay _

theorem page_loseChannel (j : ChannelKey) :
    (l.page k).Step confirms ((l.loseChannel j).page k) := by
  unfold loseChannel
  split
  next hj =>
    obtain ⟨c, hc, -⟩ := exists_of_isConnected hj
    rw [page_endChannel]
    split
    next hk =>
      subst hk
      unfold page
      rw [hc]
      exact .lost _
    next => exact .stay _
  next => exact .stay _

theorem page_disconnect (h : (l.page k).Filed confirms) :
    (l.page k).Step confirms (l.disconnect.page k) := by
  cases hu : l.up with
  | false =>
    have same : l.disconnect = l := by simp [disconnect, hu]
    rw [same]
    exact .stay _
  | true =>
    have channels : l.disconnect.channels[k]? = l.channels[k]?.map Channel.ended := by
      unfold disconnect
      rw [if_pos hu]
      exact List.getElem?_map
    have deliveries : l.disconnect.deliveriesOn k = (l.deliveriesOn k).map
        (Delivery.judged (.lost .invalidConnectionState) fun _ => true) := by
      unfold disconnect
      rw [if_pos hu]
      exact deliveriesOn_settle k _ _
    unfold page at h ⊢
    rw [channels, received_disconnect, deliveries]
    cases hc : l.channels[k]? with
    | none =>
      rw [hc] at h
      obtain ⟨-, none_sent⟩ := h.absent rfl
      simp only at none_sent
      rw [none_sent]
      exact .stay _
    | some c => exact .lost _

theorem Passes.page (h : (l.page k).Filed confirms) {a : Traffic.Action α} (hl : l.Passes a l') :
    (l.page k).Step confirms (l'.page k) := by
  cases hl with
  | same => exact .stay _
  | opened ho => exact page_openChannel k ho
  | selected hs => exact page_selectConfirms k hs
  | closed j text => exact page_closeChannel k j text
  | lost j => exact page_loseChannel k j
  | disconnected => exact page_disconnect k h
  | mode mode => exact .stay _
  | answered number tag ack multiple =>
    rw [answer, page_settle]
    exact .answered ack _ _ _ _

/-- What an action makes of a delivery: it is answered, or lost, or stays as it is. -/
inductive Told (l : Link) (a : Traffic.Action α) (d : Delivery) : Delivery → Prop where
  | kept : Told l a d d
  | answered {number tag : Nat} {ack multiple : Bool} (ha : a = .answer number tag ack multiple)
      (h : l.isAnswered number tag multiple d = true) :
      Told l a d { d with verdict := some (if ack then .ack else .nack) }
  | lost (hv : d.verdict = none) (fault : LinkFault) :
      Told l a d { d with verdict := some (.lost fault) }

theorem told_lost {a : Traffic.Action α} (fault : LinkFault) (which : Delivery → Bool)
    (d : Delivery) : Told l a d (d.judged (.lost fault) which) := by
  unfold Delivery.judged
  split
  next h =>
    rw [Bool.and_eq_true, Option.isNone_iff_eq_none] at h
    exact .lost h.1 fault
  next => exact .kept

/-- What becomes of the deliveries when nothing is published. -/
theorem Passes.told {a : Traffic.Action α} (hl : l.Passes a l') :
    ∃ f, l'.deliveries = l.deliveries.map f ∧ ∀ d, l.Told a d (f d) := by
  have unchanged {l' : Link} (same : l'.deliveries = l.deliveries) :
      ∃ f, l'.deliveries = l.deliveries.map f ∧ ∀ d, l.Told a d (f d) :=
    ⟨id, same.trans (List.map_id _).symm, fun _ => .kept⟩
  cases hl with
  | same => exact unchanged rfl
  | opened ho =>
    refine unchanged ?_
    unfold openChannel at ho
    split at ho
    · split at ho
      · cases ho
        rfl
      · cases ho
    · cases ho
  | selected hs =>
    refine unchanged ?_
    unfold selectConfirms at hs
    split at hs <;> cases hs
    rfl
  | closed j text =>
    unfold closeChannel
    split
    · exact ⟨_, rfl, told_lost _ _⟩
    · exact unchanged rfl
  | lost j =>
    unfold loseChannel
    split
    · exact ⟨_, rfl, told_lost _ _⟩
    · exact unchanged rfl
  | disconnected =>
    unfold disconnect
    split
    · exact ⟨_, rfl, told_lost _ _⟩
    · exact unchanged rfl
  | mode mode => exact unchanged rfl
  | answered number tag ack multiple =>
    refine ⟨_, rfl, fun d => ?_⟩
    show Told l _ d (d.judged _ (l.isAnswered number tag multiple))
    unfold Delivery.judged
    split
    next h =>
      rw [Bool.and_eq_true] at h
      exact .answered rfl h.2
    next => exact .kept

theorem Told.sender {a : Traffic.Action α} {d d' : Delivery} (h : l.Told a d d') :
    d'.sender = d.sender := by
  cases h <;> rfl

/-- A channel that is opened gets a number that no connected channel has. -/
theorem Passes.fresh {a : Traffic.Action α} (hl : l.Passes a l') {c : Channel}
    (hc : l'.channels[k]? = some c) (hn : l.channels[k]? = none) :
    k = l.channels.length ∧ l.inUse c.number = false := by
  have opened : l'.channels.length ≠ l.channels.length := by
    intro length
    rw [List.getElem?_eq_none_iff, ← length, ← List.getElem?_eq_none_iff, hc] at hn
    cases hn
  cases hl with
  | same => exact absurd rfl opened
  | selected hs => exact absurd (length_selectConfirms hs) opened
  | closed j text => exact absurd (length_closeChannel l j text) opened
  | lost j => exact absurd (length_loseChannel l j) opened
  | disconnected => exact absurd (length_disconnect l) opened
  | mode mode => exact absurd rfl opened
  | answered => exact absurd rfl opened
  | @opened _ _ j ho =>
    unfold openChannel at ho
    split at ho
    · split at ho
      next number free =>
        cases ho
        have bound : k < l.channels.length + 1 := by
          simpa [send] using (List.getElem?_eq_some_iff.1 hc).1
        have last : k = l.channels.length :=
          Nat.le_antisymm (Nat.le_of_lt_succ bound) (List.getElem?_eq_none_iff.1 hn)
        subst last
        obtain rfl : { number } = c := by simpa [send] using hc
        refine ⟨rfl, ?_⟩
        simpa using List.find?_some free
      · cases ho
    · cases ho

/-- No two connected channels have the same number. -/
def Distinct (l : Link) : Prop :=
  ∀ (j k : ChannelKey) (c d : Channel), l.channels[j]? = some c → l.channels[k]? = some d →
    c.connected = true → d.connected = true → c.number = d.number → j = k

theorem Distinct.of_pages (h : l.Distinct)
    (hp : ∀ k, (l.page k).Step confirms (l'.page k))
    (fresh : ∀ k c, l'.channels[k]? = some c → l.channels[k]? = none →
      k = l.channels.length ∧ l.inUse c.number = false) : l'.Distinct := by
  -- A connected channel is new, with a number of its own, or has been connected before.
  have origin {k : ChannelKey} {c : Channel} (hc : l'.channels[k]? = some c)
      (connected : c.connected = true) : (k = l.channels.length ∧ l.inUse c.number = false) ∨
        ∃ d, l.channels[k]? = some d ∧ d.connected = true ∧ c.number = d.number := by
    obtain new | ⟨d, hd, number, before⟩ := (hp k).channel hc
    · exact .inl (fresh k c hc new)
    · exact .inr ⟨d, hd, before connected, number⟩
  have used {k : ChannelKey} {d : Channel} (hd : l.channels[k]? = some d)
      (connected : d.connected = true) : l.inUse d.number = true :=
    List.any_eq_true.2 ⟨d, List.mem_of_getElem? hd, by simp [connected]⟩
  intro j k c d hc hd cc cd number
  obtain ⟨hj, unused⟩ | ⟨c', hc', cc', nc⟩ := origin hc cc <;>
    obtain ⟨hk, unused'⟩ | ⟨d', hd', cd', nd⟩ := origin hd cd
  · exact hj.trans hk.symm
  · rw [number, nd, used hd' cd'] at unused
    cases unused
  · rw [← number, nc, used hc' cc'] at unused'
    cases unused'
  · exact h j k c' d' hc' hd' cc' cd' (nc.symm.trans (number.trans nd))

theorem Published.fresh {k : ChannelKey} {sender : Owner} {m : Message} {c : Channel}
    (h : l.Published l' k sender m c) {j : ChannelKey} {d : Channel}
    (hd : l'.channels[j]? = some d) (hn : l.channels[j]? = none) :
    j = l.channels.length ∧ l.inUse d.number = false := by
  have length : l'.channels.length = l.channels.length := by
    rw [h.channels]
    split <;> simp
  rw [List.getElem?_eq_none_iff, ← length, ← List.getElem?_eq_none_iff, hd] at hn
  cases hn

/-- A link of which every page is in order, and no two connected channels have one number. -/
structure Booked (confirms : Bool) (l : Link) : Prop where
  pages : ∀ k, (l.page k).Filed confirms
  distinct : l.Distinct

/-- In confirm mode, two deliveries on one channel have different tags. -/
theorem tag_ne (hf : (l.page k).Filed true) {d d' : Delivery} (sub : [d, d'] <+ l.deliveries)
    (hd : d.channel = k) (hd' : d'.channel = k) : d.tag ≠ d'.tag := by
  have on : [d, d'] <+ l.deliveriesOn k := by
    have kept := sub.filter fun d => d.channel == k
    rwa [List.filter_eq_self.2 (by simp [hd, hd'])] at kept
  cases hc : l.channels[k]? with
  | none =>
    obtain ⟨-, none_sent⟩ := hf.absent hc
    rw [show l.deliveriesOn k = [] from none_sent] at on
    cases on
  | some c =>
    have tags := hf.tags rfl c hc
    have nodup := (on.map Delivery.tag).nodup (tags ▸ List.nodup_range')
    simpa using nodup

theorem of_isAnswered {number tag : Nat} {multiple : Bool} {d : Delivery}
    (h : l.isAnswered number tag multiple d = true) : d.verdict = none ∧
      (if multiple then tag = 0 ∨ d.tag ≤ tag else d.tag = tag) ∧
      ∃ c, l.channels[d.channel]? = some c ∧ c.connected = true ∧ c.number = number := by
  simp only [isAnswered, Bool.and_eq_true, Option.isNone_iff_eq_none, Option.any_eq_true,
    beq_iff_eq] at h
  obtain ⟨⟨pending, covered⟩, c, hc, connected, same⟩ := h
  refine ⟨pending, ?_, c, hc, connected, same⟩
  cases multiple <;> simpa using covered

/-- A single answer settles one delivery at most. -/
theorem Booked.length_answered_le (h : l.Booked true) (number tag : Nat) :
    (l.deliveries.filter (l.isAnswered number tag false)).length ≤ 1 := by
  have sub : l.deliveries.filter (l.isAnswered number tag false) <+ l.deliveries :=
    List.filter_sublist
  have answered (d : Delivery) (hd : d ∈ l.deliveries.filter (l.isAnswered number tag false)) :=
    of_isAnswered (List.mem_filter.1 hd).2
  generalize l.deliveries.filter (l.isAnswered number tag false) = ds at sub answered
  match ds with
  | [] => exact Nat.zero_le _
  | [_] => exact Nat.le_refl _
  | d :: d' :: rest =>
    obtain ⟨-, tag_d, c, hc, connected, number_d⟩ := answered d (by simp)
    obtain ⟨-, tag_d', c', hc', connected', number_d'⟩ := answered d' (by simp)
    have same : d.channel = d'.channel :=
      h.distinct _ _ c c' hc hc' connected connected' (number_d.trans number_d'.symm)
    have pair : [d, d'] <+ l.deliveries := (by simp : [d, d'] <+ d :: d' :: rest).trans sub
    exact absurd (tag_d.trans tag_d'.symm) (tag_ne _ (h.pages d'.channel) pair same rfl)

theorem Booked.eq_of_isAnswered (h : l.Booked true) {number tag : Nat} {d d' : Delivery}
    (hd : d ∈ l.deliveries) (hd' : d' ∈ l.deliveries)
    (answered : l.isAnswered number tag false d = true)
    (answered' : l.isAnswered number tag false d' = true) : d = d' := by
  have only := eq_singleton_of_mem (h.length_answered_le number tag)
    (List.mem_filter.2 ⟨hd, answered⟩)
  have other := List.mem_filter.2 ⟨hd', answered'⟩
  rw [only] at other
  exact (List.mem_singleton.1 other).symm

end Link

end Courier
