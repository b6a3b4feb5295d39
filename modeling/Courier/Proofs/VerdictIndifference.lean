import Courier.Proofs.BrokerBook

/-!
# Verdicts that nobody waits for

Nothing that a link, a reserve or the traffic does depends on the verdicts on what some owners have
sent, as long as none of them is a confirmed call: traffic that is alike but for such verdicts stays
so under every action (`Traffic.Alike.act`), and its calls are the same.
-/

namespace Courier

variable {α : Type}

open scoped List

/-- Deliveries that are the same, but for the verdict if the sender is spare. -/
def Delivery.Alike (spare : Owner → Prop) (d d' : Delivery) : Prop :=
  d' = d ∨ spare d.sender ∧ ∃ verdict, d' = { d with verdict }

variable {spare : Owner → Prop}

theorem Delivery.Alike.judged {d d' : Delivery} (h : d.Alike spare d') (verdict : Verdict)
    (which : Delivery → Bool) : (d.judged verdict which).Alike spare (d'.judged verdict which) := by
  obtain rfl | ⟨hs, other, rfl⟩ := h
  · exact .inl rfl
  · refine .inr ⟨?_, ?_⟩
    · rw [judged_sender]
      exact hs
    · unfold Delivery.judged
      split <;> split <;> exact ⟨_, rfl⟩

/-- How the ends of two runs of one operation compare. -/
inductive BothEnd {ε α : Type} (R : α → α → Prop) : Except ε α → Except ε α → Prop where
  | error (e : ε) : BothEnd R (.error e) (.error e)
  | ok {a b : α} (h : R a b) : BothEnd R (.ok a) (.ok b)

/-- How two states with their answers compare: the answers are the same. -/
structure BothAnswer {σ α : Type} (R : σ → σ → Prop) (a b : σ × α) : Prop where
  state : R a.1 b.1
  answer : b.2 = a.2

namespace Link

/-- Links that are the same, but for verdicts on what spare owners have sent. -/
inductive Alike (spare : Owner → Prop) (l : Link) : Link → Prop where
  | intro (ds : List Delivery) (h : List.Forall₂ (Delivery.Alike spare) l.deliveries ds) :
      Alike spare l { l with deliveries := ds }

variable {l l' : Link}

theorem Alike.isConnected (h : l.Alike spare l') (k : ChannelKey) :
    l'.isConnected k = l.isConnected k := by
  obtain ⟨ds, -⟩ := h
  rfl

theorem Alike.number (h : l.Alike spare l') (k : ChannelKey) : l'.number k = l.number k := by
  obtain ⟨ds, -⟩ := h
  rfl

/-- What anyone else has sent is the same. -/
theorem Alike.sentBy (h : l.Alike spare l') {owner : Owner} (ho : ¬spare owner) :
    l'.sentBy owner = l.sentBy owner := by
  obtain ⟨ds, deliveries⟩ := h
  unfold Link.sentBy
  simp only
  generalize l.deliveries = before at deliveries
  induction deliveries with
  | nil => rfl
  | @cons d d' _ _ alike _ ih =>
    obtain rfl | ⟨hs, verdict, rfl⟩ := alike
    · rw [List.filter_cons, List.filter_cons, ih]
    · have other : d.sender ≠ owner := fun e => ho (e ▸ hs)
      rw [List.filter_cons_of_neg (by simpa using other),
        List.filter_cons_of_neg (by simpa using other), ih]

theorem Alike.settle (h : l.Alike spare l') (verdict : Verdict) (which : Delivery → Bool) :
    (l.settle verdict which).Alike spare (l'.settle verdict which) := by
  obtain ⟨ds, deliveries⟩ := h
  refine .intro (ds.map (Delivery.judged verdict which)) ?_
  show List.Forall₂ _ (l.deliveries.map (Delivery.judged verdict which)) _
  rw [List.forall₂_map_left_iff, List.forall₂_map_right_iff]
  exact deliveries.imp fun d d' alike => alike.judged verdict which

theorem Alike.send (h : l.Alike spare l') (k : ChannelKey) (e : ChannelEvent) :
    (l.send k e).Alike spare (l'.send k e) := by
  obtain ⟨ds, deliveries⟩ := h
  exact .intro ds deliveries

theorem Alike.modifyChannel (h : l.Alike spare l') (k : ChannelKey) (f : Channel → Channel) :
    (l.modifyChannel k f).Alike spare (l'.modifyChannel k f) := by
  obtain ⟨ds, deliveries⟩ := h
  exact .intro ds deliveries

theorem Alike.endChannel (h : l.Alike spare l') (k : ChannelKey) (fault : LinkFault) :
    (l.endChannel k fault).Alike spare (l'.endChannel k fault) :=
  (h.modifyChannel k _).settle _ _

theorem Alike.closeChannel (h : l.Alike spare l') (k : ChannelKey) (text : String) :
    (l.closeChannel k text).Alike spare (l'.closeChannel k text) := by
  unfold Link.closeChannel
  rw [h.isConnected]
  split
  · exact (h.send k _).endChannel k _
  · exact h

theorem Alike.loseChannel (h : l.Alike spare l') (k : ChannelKey) :
    (l.loseChannel k).Alike spare (l'.loseChannel k) := by
  unfold Link.loseChannel
  rw [h.isConnected]
  split
  · exact h.endChannel k _
  · exact h

theorem Alike.disconnect (h : l.Alike spare l') : l.disconnect.Alike spare l'.disconnect := by
  obtain ⟨ds, deliveries⟩ := h
  unfold Link.disconnect
  split
  · refine Alike.settle ?_ (.lost .invalidConnectionState) _
    exact .intro ds deliveries
  · exact .intro ds deliveries

theorem Alike.setMode (h : l.Alike spare l') (mode : AnswerMode) :
    Alike spare { l with mode } { l' with mode } := by
  obtain ⟨ds, deliveries⟩ := h
  exact .intro ds deliveries

theorem Alike.answer (h : l.Alike spare l') (number tag : Nat) (ack multiple : Bool) :
    (l.answer number tag ack multiple).Alike spare (l'.answer number tag ack multiple) := by
  have concerned : l'.isAnswered number tag multiple = l.isAnswered number tag multiple := by
    obtain ⟨ds, -⟩ := h
    rfl
  unfold Link.answer
  rw [concerned]
  exact h.settle _ _

theorem Alike.openChannel (h : l.Alike spare l') :
    BothEnd (BothAnswer (Alike spare)) l.openChannel l'.openChannel := by
  obtain ⟨ds, deliveries⟩ := h
  have free : nextNumber? { l with deliveries := ds } = l.nextNumber? := rfl
  unfold Link.openChannel
  rw [free]
  split
  · split
    next number _ => exact .ok ⟨.intro ds deliveries, rfl⟩
    next => exact .error _
  · exact .error _

theorem Alike.selectConfirms (h : l.Alike spare l') (k : ChannelKey) :
    BothEnd (Alike spare) (l.selectConfirms k) (l'.selectConfirms k) := by
  unfold Link.selectConfirms
  rw [h.isConnected]
  split
  · exact .ok ((h.modifyChannel k _).send k _)
  · exact .error _

theorem Alike.publish (h : l.Alike spare l') (k : ChannelKey) (sender : Owner) (m : Message) :
    BothEnd (Alike spare) (l.publish k sender m) (l'.publish k sender m) := by
  obtain ⟨ds, deliveries⟩ := h
  have posted (d : Delivery) :
      List.Forall₂ (Delivery.Alike spare) (l.deliveries ++ [d]) (ds ++ [d]) :=
    List.rel_append deliveries (.cons (.inl rfl) .nil)
  unfold Link.publish
  cases l.channels[k]? with
  | none => exact .error _
  | some c =>
    simp only
    split
    · refine .ok ?_
      cases c.confirming with
      | true => exact .intro _ (posted _)
      | false => exact .intro _ (posted _)
    · exact .error _

end Link

namespace ChannelReserve

/-- Reserves that are the same, but for verdicts on what spare owners have sent. -/
inductive Alike (spare : Owner → Prop) (r : ChannelReserve) : ChannelReserve → Prop where
  | intro {l : Link} (h : r.link.Alike spare l) : Alike spare r { r with link := l }

variable {r r' : ChannelReserve}

theorem Alike.settings (h : r.Alike spare r') : r'.settings = r.settings := by
  obtain @⟨l, -⟩ := h
  rfl

theorem Alike.surplus (h : r.Alike spare r') : r'.surplus = r.surplus := by
  obtain @⟨l, -⟩ := h
  rfl

theorem Alike.request (h : r.Alike spare r') : BothAnswer (Alike spare) r.request r'.request := by
  obtain @⟨l, h⟩ := h
  unfold ChannelReserve.request
  simp only [h.isConnected]
  split
  · exact ⟨.intro h, rfl⟩
  · exact ⟨.intro h, rfl⟩

theorem Alike.openFor (h : r.Alike spare r') : BothAnswer (Alike spare) r.openFor r'.openFor := by
  obtain @⟨l, h⟩ := h
  have opens := h.openChannel
  simp only [ChannelReserve.openFor]
  generalize r.link.openChannel = a, l.openChannel = b at opens
  cases opens with
  | error fault => exact ⟨.intro h, rfl⟩
  | @ok a b same =>
    obtain ⟨links, answer⟩ := same
    simp only [answer]
    split
    · exact ⟨.intro links, rfl⟩
    · exact ⟨.intro links, rfl⟩

theorem Alike.prepare (h : r.Alike spare r') (k : ChannelKey) :
    BothAnswer (Alike spare) (r.prepare k) (r'.prepare k) := by
  obtain @⟨l, h⟩ := h
  have selects := h.selectConfirms k
  simp only [ChannelReserve.prepare]
  generalize r.link.selectConfirms k = a, l.selectConfirms k = b at selects
  cases selects with
  | error fault => exact ⟨.intro (h.closeChannel k _), rfl⟩
  | ok links => exact ⟨.intro links, rfl⟩

theorem Alike.withdraw (h : r.Alike spare r') (k : Option ChannelKey) :
    (r.withdraw k).Alike spare (r'.withdraw k) := by
  obtain @⟨l, h⟩ := h
  cases k with
  | none => exact .intro h
  | some k => exact .intro (h.closeChannel k _)

theorem Alike.release (h : r.Alike spare r') (k : ChannelKey) :
    (r.release k).Alike spare (r'.release k) := by
  obtain @⟨l, h⟩ := h
  simp only [ChannelReserve.release, h.isConnected]
  split
  · exact .intro h
  · split
    · exact .intro h
    · exact .intro h

theorem Alike.closeSurplus (h : r.Alike spare r') (k : ChannelKey) :
    (r.closeSurplus k).Alike spare (r'.closeSurplus k) := by
  obtain @⟨l, h⟩ := h
  simp only [ChannelReserve.closeSurplus, h.isConnected]
  split
  · exact .intro (h.closeChannel k _)
  · exact .intro h

theorem Alike.releaseInPlace (h : r.Alike spare r') (k : ChannelKey) :
    (r.releaseInPlace k).Alike spare (r'.releaseInPlace k) := by
  have back := h.release k
  obtain @⟨l, h⟩ := h
  simp only [ChannelReserve.releaseInPlace, h.isConnected]
  split
  · exact .intro (h.closeChannel k _)
  · exact back

end ChannelReserve

/-- Whether a call has come to its end. -/
def Call.isOver : Call α → Bool
  | .returned _ | .cancelled | .crashed => true
  | _ => false

namespace Traffic

/-- Whether no verdict concerns an owner any more: whoever holds the leases is told of none, and a
call has ended. -/
def Heedless (t : Traffic α) : Owner → Prop
  | .call n => ∃ c, t.calls[n]? = some c ∧ c.isOver = true
  | .lessee => True

/-- Traffic that is the same, but for verdicts on what spare owners have sent. -/
inductive Alike (spare : Owner → Prop) (t : Traffic α) : Traffic α → Prop where
  | intro {r : ChannelReserve} (h : t.reserve.Alike spare r) : Alike spare t { t with reserve := r }

variable {t t' : Traffic α}

theorem Alike.link (h : t.Alike spare t') : t.link.Alike spare t'.link := by
  obtain @⟨r, ⟨h⟩⟩ := h
  exact h

theorem Alike.withLink (h : t.Alike spare t') {l l' : Link} (hl : l.Alike spare l') :
    (t.withLink l).Alike spare (t'.withLink l') := by
  obtain @⟨r, ⟨h⟩⟩ := h
  exact .intro (.intro hl)

theorem Alike.record (h : t.Alike spare t') (owner : Owner) (events : List (Event α)) :
    (t.record owner events).Alike spare (t'.record owner events) := by
  obtain @⟨r, h⟩ := h
  have released : (t.record owner events).reserve.Alike spare
      (record { t with reserve := r } owner events).reserve := by
    rw [reserve_record, reserve_record]
    generalize given events = ks, t.reserve = r₀ at h
    induction ks generalizing r₀ r with
    | nil => exact h
    | cons k rest ih => exact ih _ (h.release k)
  exact .intro released

theorem Alike.step (h : t.Alike spare t') (n : Nat) (f : Call α → Call α × List (Event α)) :
    (t.step n f).Alike spare (t'.step n f) := by
  obtain @⟨r, h⟩ := h
  unfold Traffic.step
  simp only
  split
  next c _ =>
    refine record (t := { t with calls := t.calls.set n (f c).1 }) ?_ _ _
    exact .intro h
  next => exact .intro h

theorem Alike.grant (h : t.Alike spare t') (owner : Owner) (k : ChannelKey) :
    (t.grant owner k).Alike spare (t'.grant owner k) := by
  cases owner with
  | call n => exact h.step n _
  | lessee =>
    obtain @⟨r, h⟩ := h
    exact record (t := { t with leases := t.leases ++ [some k] }) (.intro h) _ _

theorem Alike.refuse (h : t.Alike spare t') (owner : Owner) (fault : LinkFault) :
    (t.refuse owner fault).Alike spare (t'.refuse owner fault) := by
  cases owner with
  | call n => exact h.step n _
  | lessee => exact h.record _ _

theorem Alike.ask (h : t.Alike spare t') (owner : Owner) :
    (t.ask owner).Alike spare (t'.ask owner) := by
  obtain @⟨r, h⟩ := h
  have requests := h.request
  unfold Traffic.ask
  simp only
  generalize t.reserve.request = a, r.request = b at requests
  obtain ⟨s, answer⟩ := a
  obtain ⟨s', answer'⟩ := b
  obtain ⟨states, rfl⟩ := requests
  cases answer' with
  | some k => exact grant (t := { t with reserve := s }) (.intro states) owner k
  | none => exact .intro states

theorem Alike.openFor (h : t.Alike spare t') (i : Nat) :
    (t.openFor i).Alike spare (t'.openFor i) := by
  obtain @⟨r, h⟩ := h
  have opens := h.openFor
  unfold Traffic.openFor
  simp only
  split
  next owner _ =>
    generalize t.reserve.openFor = a, r.openFor = b at opens
    obtain ⟨s, answer⟩ := a
    obtain ⟨s', answer'⟩ := b
    obtain ⟨states, rfl⟩ := opens
    have served : Alike spare { t with reserve := s, requests := t.requests.eraseIdx i }
        { t with reserve := s', requests := t.requests.eraseIdx i } := .intro states
    cases answer' with
    | error fault => exact served.refuse owner fault
    | ok k =>
      have settings := states.settings
      simp only at settings
      simp only [settings]
      split
      · exact .intro states
      · exact served.grant owner k
  next => exact .intro h

theorem Alike.prepare (h : t.Alike spare t') (i : Nat) :
    (t.prepare i).Alike spare (t'.prepare i) := by
  obtain @⟨r, h⟩ := h
  unfold Traffic.prepare
  simp only
  split
  next owner k _ =>
    have prepares := h.prepare k
    generalize t.reserve.prepare k = a, r.prepare k = b at prepares
    obtain ⟨s, answer⟩ := a
    obtain ⟨s', answer'⟩ := b
    obtain ⟨states, rfl⟩ := prepares
    have served : Alike spare { t with reserve := s, requests := t.requests.eraseIdx i }
        { t with reserve := s', requests := t.requests.eraseIdx i } := .intro states
    cases answer' with
    | error fault => exact served.refuse owner fault
    | ok _ => exact served.grant owner k
  next => exact .intro h

theorem Alike.calls (h : t.Alike spare t') : t'.calls = t.calls := by
  obtain @⟨r, -⟩ := h
  rfl

theorem Alike.log (h : t.Alike spare t') : t'.log = t.log := by
  obtain @⟨r, -⟩ := h
  rfl

theorem Alike.lease? (h : t.Alike spare t') (lease : Nat) : t'.lease? lease = t.lease? lease := by
  obtain @⟨r, -⟩ := h
  rfl

/-- A message goes out in both or in neither. -/
theorem Alike.publishes (h : t.Alike spare t') (k : ChannelKey) (sender : Owner) (m : Message) :
    (∃ fault, t.link.publish k sender m = .error fault ∧
      t'.link.publish k sender m = .error fault) ∨
    ∃ l l', t.link.publish k sender m = .ok l ∧ t'.link.publish k sender m = .ok l' ∧
      (t.withLink l).Alike spare (t'.withLink l') := by
  have publishes := h.link.publish k sender m
  generalize t.link.publish k sender m = a, t'.link.publish k sender m = b at publishes
  cases publishes with
  | error fault => exact .inl ⟨fault, rfl, rfl⟩
  | ok links => exact .inr ⟨_, _, rfl, rfl, h.withLink links⟩

theorem Alike.publish (h : t.Alike spare t') (n : Nat) :
    (t.publish n).Alike spare (t'.publish n) := by
  unfold Traffic.publish
  rw [h.calls]
  split
  next m k _ =>
    obtain ⟨fault, e, e'⟩ | ⟨l, l', e, e', sent⟩ := h.publishes k (.call n) m
    · rw [e, e']
      exact h.step n _
    · rw [e, e']
      exact sent.step n _
  next => exact h

theorem Alike.send (h : t.Alike spare t') (n : Nat) : (t.send n).Alike spare (t'.send n) := by
  unfold Traffic.send
  rw [h.calls]
  split
  next m k handle _ =>
    obtain ⟨fault, e, e'⟩ | ⟨l, l', e, e', sent⟩ := h.publishes k (.call n) m
    · rw [e, e']
      exact (h.step n _).step n _
    · rw [e, e']
      exact sent.step n _
  next => exact h

theorem Alike.forsake (h : t.Alike spare t') (n : Nat) :
    (t.forsake n).Alike spare (t'.forsake n) := by
  unfold Traffic.forsake
  rw [h.calls]
  split
  next m k _ =>
    obtain ⟨fault, e, e'⟩ | ⟨l, l', e, e', sent⟩ := h.publishes k (.call n) m
    · rw [e, e']
      exact h.step n _
    · rw [e, e']
      exact sent.step n _
  next => exact h

theorem Alike.cancel (h : t.Alike spare t') (n : Nat) :
    (t.cancel n).Alike spare (t'.cancel n) := by
  refine step ?_ n _
  obtain @⟨r, h⟩ := h
  simp only
  split
  next k _ => exact .intro (h.withdraw k)
  next => exact .intro h

theorem Alike.cancelInPlace (h : t.Alike spare t') (n : Nat) :
    (t.cancelInPlace n).Alike spare (t'.cancelInPlace n) := by
  unfold Traffic.cancelInPlace
  rw [h.calls]
  obtain @⟨r, h⟩ := h
  split
  next m k _ => exact .intro (h.releaseInPlace k)
  next => exact .intro h

/-- A verdict is learnt in both or in neither, unless the call is over. -/
theorem Alike.settle (h : t.Alike spare t') (heedless : ∀ owner, spare owner → t.Heedless owner)
    (n : Nat) : (t.settle n).Alike spare (t'.settle n) := by
  by_cases hs : spare (.call n)
  · obtain ⟨c, hc, ended⟩ := heedless _ hs
    have idle (u : Traffic α) (hu : u.calls[n]? = some c) : u.settle n = u := by
      unfold Traffic.settle
      rw [hu]
      cases c <;> first | rfl | cases ended
    rw [idle t hc, idle t' (h.calls ▸ hc)]
    exact h
  · have verdict : t'.link.verdictFor? (.call n) = t.link.verdictFor? (.call n) := by
      rw [Link.verdictFor?_eq, Link.verdictFor?_eq, h.link.sentBy hs]
    unfold Traffic.settle
    rw [h.calls, verdict]
    split
    next k _ _ _ _ _ =>
      rw [h.link.number]
      exact h.step n _
    next => exact h

theorem Alike.leasePublish (h : t.Alike spare t') (lease : Nat) (m : Message) :
    (t.act (.leasePublish lease m)).Alike spare (t'.act (.leasePublish lease m)) := by
  simp only [Traffic.act, h.lease?]
  split
  next k _ =>
    obtain ⟨fault, e, e'⟩ | ⟨l, l', e, e', sent⟩ := h.publishes k .lessee m
    · rw [e, e']
      exact h.record _ _
    · rw [e, e']
      exact sent.record _ _
  next => exact h

/-- Whatever happens to both, they stay alike. -/
theorem Alike.act (h : t.Alike spare t') (heedless : ∀ owner, spare owner → t.Heedless owner)
    (a : Action α) : (t.act a).Alike spare (t'.act a) := by
  have alike := h
  obtain @⟨r, reserves⟩ := h
  cases a with
  | declare d => exact .intro reserves
  | call i =>
    let started := Call.start (α := α) t.declarations t.converter i
    exact record (t := { t with calls := t.calls ++ [started.1] }) (.intro reserves)
      (.call t.calls.length) started.2
  | proceed n answer => exact alike.step n _
  | request n =>
    simp only [Traffic.act]
    split
    next asks => exact (if_pos asks).symm ▸ alike.ask _
    next asks => exact (if_neg asks).symm ▸ alike
  | openFor i => exact alike.openFor i
  | prepare i => exact alike.prepare i
  | publish n => exact alike.publish n
  | handOver n => exact alike.step n _
  | send n => exact alike.send n
  | settle n => exact alike.settle heedless n
  | cancel n => exact alike.cancel n
  | forsake n => exact alike.forsake n
  | cancelInPlace n => exact alike.cancelInPlace n
  | poll n => exact alike.step n fun c => (c.poll.1, [])
  | detach n => exact alike.step n fun c => (c.detach, [])
  | lease => exact alike.ask .lessee
  | leasePublish lease m => exact alike.leasePublish lease m
  | leaseRelease lease =>
    simp only [Traffic.act, alike.lease?]
    split
    next k _ =>
      exact record (t := { t with leases := t.leases.set lease none }) (.intro reserves) _ _
    next => exact alike
  | leaseReleaseInPlace lease =>
    simp only [Traffic.act, alike.lease?]
    split
    next k _ => exact .intro (reserves.releaseInPlace k)
    next => exact alike
  | closeSurplus k =>
    simp only [Traffic.act, reserves.surplus]
    split
    · exact .intro (reserves.closeSurplus k)
    · exact alike
  | loseChannel k => exact alike.withLink (alike.link.loseChannel k)
  | disconnect => exact alike.withLink alike.link.disconnect
  | setMode mode => exact alike.withLink (alike.link.setMode mode)
  | answer number tag ack multiple =>
    exact alike.withLink (alike.link.answer number tag ack multiple)

theorem isOver_act {settings : ReserveSettings} (h : Reachable settings t) {n : Nat} {c : Call α}
    (hc : t.calls[n]? = some c) (ended : c.isOver = true) (a : Action α) :
    (t.act a).calls[n]? = some c := by
  obtain ⟨-, goes⟩ | ⟨-, -, delivers⟩ := (act_change (custody h) a).happens (custody h)
  · obtain ⟨c', hc', goes⟩ := goes n c hc
    cases goes with
    | stays => exact hc'
    | granted => cases ended
    | refused => cases ended
    | withdrawn => cases ended
    | moved moves => cases moves <;> cases ended
  · obtain ⟨c', hc', delivers⟩ := delivers n c hc
    split at delivers
    · obtain ⟨events, delivers⟩ := delivers
      cases delivers <;> cases ended
    · exact delivers ▸ hc'

/-- A call that is over stays as it is. -/
theorem isOver_actAll {settings : ReserveSettings} (h : Reachable settings t) {n : Nat} {c : Call α}
    (hc : t.calls[n]? = some c) (ended : c.isOver = true) (actions : List (Action α)) :
    (t.actAll actions).calls[n]? = some c := by
  induction actions generalizing t with
  | nil => exact hc
  | cons a rest ih => exact ih (h.act a) (isOver_act h hc ended a)

theorem Heedless.act {settings : ReserveSettings} (h : Reachable settings t) {owner : Owner}
    (heedless : t.Heedless owner) (a : Action α) : (t.act a).Heedless owner := by
  cases owner with
  | lessee => trivial
  | call n =>
    obtain ⟨c, hc, ended⟩ := heedless
    exact ⟨c, isOver_act h hc ended a, ended⟩

theorem Alike.actAll {settings : ReserveSettings} (hr : Reachable settings t)
    (h : t.Alike spare t') (heedless : ∀ owner, spare owner → t.Heedless owner)
    (actions : List (Action α)) : (t.actAll actions).Alike spare (t'.actAll actions) := by
  induction actions generalizing t t' with
  | nil => exact h
  | cons a rest ih =>
    exact ih (hr.act a) (h.act heedless a) fun owner ho => (heedless owner ho).act hr a

end Traffic

end Courier
