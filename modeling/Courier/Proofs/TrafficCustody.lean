import Courier.Proofs.TrafficSteps

/-!
# Who has a channel of the traffic

Every action keeps good custody (`Change.follows`), so in all reachable traffic the leased channels
are those that calls and leases hold (`custody`). What the reserve goes through is a sequence of
its own actions, interleaved with what the broker says (`ChannelReserve.Evolves`); so each channel
lives as it does in a reserve (`lawful`).
-/

namespace Courier

variable {α : Type}

open scoped List

/-- Links that differ in what the broker is to say or has said at most. -/
structure Link.Agrees (l l' : Link) : Prop where
  channels : l'.channels = l.channels
  wire : l'.wire = l.wire

namespace ChannelReserve

/-- What becomes of a reserve by orderly actions, by what the broker says and, if `p`, by channels
that come back where no background work can run. -/
inductive Evolves (p : Prop) (r : ChannelReserve) : ChannelReserve → Prop where
  | refl : Evolves p r r
  | act {s : ChannelReserve} (a : Action) (ha : a.isOrderly = true) :
      Evolves p r s → Evolves p r (s.act a)
  | inPlace {s : ChannelReserve} (hp : p) (k : ChannelKey) :
      Evolves p r s → Evolves p r (s.act (.releaseInPlace k))
  | told {s : ChannelReserve} {l : Link} (hl : s.link.Agrees l) :
      Evolves p r s → Evolves p r { s with link := l }

section

variable {p : Prop} {r s u : ChannelReserve} {settings : ReserveSettings}

theorem Evolves.trans (h : r.Evolves p s) (h' : s.Evolves p u) : r.Evolves p u := by
  induction h' with
  | refl => exact h
  | act a ha _ ih => exact ih.act a ha
  | inPlace hp k _ ih => exact ih.inPlace hp k
  | told hl _ ih => exact ih.told hl

/-- An action that is possible. -/
theorem Evolves.step (h : r.Evolves p s) {a : Action} (ha : a.isOrderly = true)
    (hu : s.act a = u) : r.Evolves p u :=
  hu ▸ h.act a ha

theorem view_told {s : ChannelReserve} {l : Link} (hl : s.link.Agrees l) (k : ChannelKey) :
    view { s with link := l } k = s.view k := by
  have connected : l.isConnected k = s.link.isConnected k := by
    unfold Link.isConnected
    rw [hl.channels]
  have received : l.received k = s.link.received k := by
    unfold Link.received
    rw [hl.wire]
  have place : ChannelReserve.place { s with link := l } k = s.place k := by
    refine place_congr (fun p => ?_) (by rw [hl.channels])
    cases p <;> exact Iff.rfl
  unfold view
  rw [place]
  simp only [connected, received]

theorem Evolves.sound (h : r.Evolves p s) (hr : Sound settings r) : Sound settings s := by
  induction h with
  | refl => exact hr
  | act a _ _ ih =>
    obtain ⟨fresh, turn⟩ := act_turn _ a
    exact ih.turn turn
  | inPlace _ k _ ih =>
    obtain ⟨fresh, turn⟩ := act_turn _ (.releaseInPlace k)
    exact ih.turn turn
  | told hl _ ih => exact ih.turn (turn_link (congrArg List.length hl.channels))

theorem Evolves.lawful (h : r.Evolves p s) (hr : Sound settings r) {k : ChannelKey}
    (hk : (r.view k).Lawful settings.confirms) : (s.view k).Lawful settings.confirms := by
  induction h with
  | refl => exact hk
  | act a _ hs ih => exact ih.step (act_view (hs.sound hr) a k)
  | inPlace _ j hs ih => exact ih.step (act_view (hs.sound hr) (.releaseInPlace j) k)
  | told hl _ ih => exact view_told hl k ▸ ih

theorem Evolves.prepared (h : r.Evolves p s) (hr : Sound settings r) {k : ChannelKey}
    (hk : r.place k ∈ Place.prepared) : s.place k ∈ Place.prepared := by
  induction h with
  | refl => exact hk
  | act a _ hs ih => exact (act_view (hs.sound hr) a k).stays_prepared ih
  | inPlace _ j hs ih => exact (act_view (hs.sound hr) (.releaseInPlace j) k).stays_prepared ih
  | @told s l hl _ ih =>
    have same : place { s with link := l } k = s.place k :=
      congrArg ChannelView.place (view_told hl k)
    rw [same]
    exact ih

theorem Evolves.abandoned (h : r.Evolves p s) (hp : ¬p) : s.abandoned = r.abandoned := by
  induction h with
  | refl => rfl
  | act a ha _ ih => rw [abandoned_act _ ha, ih]
  | inPlace hp' => exact absurd hp' hp
  | told _ _ ih => exact ih

end

/-- A release does not touch the requests. -/
theorem release_frame (r : ChannelReserve) (k : ChannelKey) :
    (r.release k).opening = r.opening ∧ (r.release k).waiting = r.waiting := by
  rcases r.release_cases k with ⟨-, e⟩ | ⟨-, -, e⟩ | ⟨-, -, e⟩
  all_goals
    rw [e]
    exact ⟨rfl, rfl⟩

/-- Channels that are leased come back one after the other. -/
theorem foldl_release {p : Prop} {held : List ChannelKey} (ks : List ChannelKey)
    {r : ChannelReserve} (h : r.leased ~ ks ++ held) : (ks.foldl release r).leased ~ held ∧
      r.Evolves p (ks.foldl release r) ∧ (ks.foldl release r).opening = r.opening ∧
      (ks.foldl release r).waiting = r.waiting := by
  induction ks generalizing r with
  | nil => exact ⟨h, .refl, rfl, rfl⟩
  | cons k rest ih =>
    have leased : k ∈ r.leased := h.mem_iff.2 List.mem_cons_self
    have remaining : (r.release k).leased ~ rest ++ held := by
      have erased := h.erase k
      rwa [List.cons_append, List.erase_cons_head, ← leased_release] at erased
    obtain ⟨hl, evolves, ho, hw⟩ := ih remaining
    obtain ⟨ho', hw'⟩ := r.release_frame k
    refine ⟨hl, ?_, ho.trans ho', hw.trans hw'⟩
    have step : r.Evolves p (r.release k) :=
      Evolves.refl.step (a := .release k) rfl (if_pos leased)
    exact step.trans evolves

/-- What a request does to the channels that are leased, and to those that wait. -/
theorem request_spec {r s : ChannelReserve} {answer : Option ChannelKey}
    (h : r.request = (s, answer)) : s.leased = answer.toList ++ r.leased ∧
      s.opening = r.opening ∧ s.waiting = r.waiting + if answer.isNone then 1 else 0 := by
  unfold request at h
  split at h <;> cases h <;> exact ⟨rfl, rfl, rfl⟩

theorem openFor_eq_ok {r s : ChannelReserve} {k : ChannelKey} (h : r.openFor = (s, .ok k)) :
    s.waiting = r.waiting - 1 ∧
      if r.settings.confirms then s.opening = k :: r.opening ∧ s.leased = r.leased
      else s.opening = r.opening ∧ s.leased = k :: r.leased := by
  cases ho : r.link.openChannel with
  | error fault => simp [openFor, ho] at h
  | ok opened =>
    obtain ⟨l, j⟩ := opened
    simp only [openFor, ho, Prod.mk.injEq, Except.ok.injEq] at h
    obtain ⟨rfl, rfl⟩ := h
    split <;> exact ⟨rfl, rfl, rfl⟩

theorem openFor_eq_error {r s : ChannelReserve} {fault : LinkFault}
    (h : r.openFor = (s, .error fault)) : s = { r with waiting := r.waiting - 1 } := by
  cases ho : r.link.openChannel with
  | ok opened => simp [openFor, ho] at h
  | error fault =>
    simp only [openFor, ho, Prod.mk.injEq] at h
    exact h.1.symm

theorem prepare_eq_ok {r s : ChannelReserve} {k : ChannelKey} (h : r.prepare k = (s, .ok ())) :
    s.opening = r.opening.erase k ∧ s.leased = k :: r.leased ∧ s.waiting = r.waiting := by
  cases hs : r.link.selectConfirms k with
  | error fault => simp [prepare, hs] at h
  | ok l =>
    simp only [prepare, hs, Prod.mk.injEq] at h
    obtain ⟨rfl, -⟩ := h
    exact ⟨rfl, rfl, rfl⟩

theorem prepare_eq_error {r s : ChannelReserve} {k : ChannelKey} {fault : LinkFault}
    (h : r.prepare k = (s, .error fault)) :
    s = { r with opening := r.opening.erase k, link := r.link.dropChannel k } := by
  cases hs : r.link.selectConfirms k with
  | ok l => simp [prepare, hs] at h
  | error fault =>
    simp only [prepare, hs, Prod.mk.injEq] at h
    exact h.1.symm

end ChannelReserve

/-- Who trades has what he took, less what he gave. -/
theorem Trade.perm {before after : Option ChannelKey}
    {taken given : List ChannelKey} (h : Trade before after taken given) :
    before.toList ++ taken ~ after.toList ++ given := by
  cases h <;> simp

namespace Traffic

theorem reserve_record (t : Traffic α) (owner : Owner) (events : List (Event α)) :
    (t.record owner events).reserve = (given events).foldl ChannelReserve.release t.reserve := by
  show events.foldl _ t.reserve = _
  generalize t.reserve = r
  induction events generalizing r with
  | nil => rfl
  | cons e rest ih =>
    rw [List.foldl_cons, ih]
    cases e <;> rfl

/-- Good custody after an action, what the reserve has gone through in it, and whose channels have
been acquired in it. -/
structure Follows (p : Prop) (t t' : Traffic α) : Prop where
  custody : t'.Custody
  evolves : t.reserve.Evolves p t'.reserve
  acquired : ∀ {owner k}, (owner, .acquired k) ∈ t'.log → (owner, .acquired k) ∈ t.log ∨
    ∃ r, t.reserve.Evolves p r ∧ k ∈ r.leased ∧ r.Evolves p t'.reserve

/-- The events of an owner account for the channels that it takes and gives. -/
theorem follows_record {p : Prop} {t u : Traffic α} {owner : Owner} {events : List (Event α)}
    (evolves : t.reserve.Evolves p u.reserve) (leased : u.reserve.leased ~ taken events ++ t.held)
    (balance : given events ++ u.held ~ taken events ++ t.held)
    (opening : u.reserve.opening ~ u.requests.filterMap Prod.snd)
    (waiting : u.reserve.waiting = u.requests.countP fun r => r.2.isNone)
    (asking : ∀ n, asks u.requests n ≤ if u.pending? n = some .acquire then 1 else 0)
    (log : u.log = t.log) : Follows p t (u.record owner events) := by
  obtain ⟨hl, later, ho, hw⟩ := ChannelReserve.foldl_release _ (leased.trans balance.symm)
  rw [← reserve_record u owner events] at hl later ho hw
  refine ⟨⟨hl, ho ▸ opening, hw.trans waiting, asking⟩, evolves.trans later, fun {o k} hk => ?_⟩
  have added : (u.record owner events).log = t.log ++ events.map fun e => (owner, e) :=
    congrArg (· ++ _) log
  rw [added, List.mem_append] at hk
  obtain hk | hk := hk
  · exact .inl hk
  · obtain ⟨e, he, heq⟩ := List.mem_map.1 hk
    obtain ⟨rfl, rfl⟩ := Prod.mk.inj heq
    have mem : k ∈ taken events := List.mem_filterMap.2 ⟨_, he, rfl⟩
    exact .inr ⟨u.reserve, evolves, leased.mem_iff.2 (List.mem_append_left _ mem), later⟩

theorem filterMap_cons_toList {α β : Type} (f : α → Option β) (a : α) (l : List α) :
    (a :: l).filterMap f = (f a).toList ++ l.filterMap f := by
  cases h : f a <;> simp [h]

/-- The held channels, before and after a call goes on. -/
theorem held_put {t : Traffic α} {n : Nat} {c : Call α} (h : t.calls[n]? = some c) (c' : Call α) :
    c.channel?.toList ++ held { t with calls := t.calls.set n c' } ~
      c'.channel?.toList ++ t.held := by
  obtain ⟨hn, rfl⟩ := List.getElem?_eq_some_iff.1 h
  have before := (List.getElem_cons_eraseIdx_perm hn).filterMap Call.channel?
  have after := (List.set_perm_cons_eraseIdx hn c').filterMap Call.channel?
  rw [filterMap_cons_toList] at before after
  refine List.perm_iff_count.2 fun k => ?_
  have hb := before.count_eq k
  have ha := after.count_eq k
  simp only [held, List.count_append] at hb ha ⊢
  omega

/-- The held channels, before and after a lease is given back. -/
theorem held_unlease {t : Traffic α} {lease : Nat} {k : ChannelKey} (h : t.lease? lease = some k) :
    k :: held { t with leases := t.leases.set lease none } ~ t.held := by
  obtain ⟨hl, hk⟩ := List.getElem?_eq_some_iff.1 (Option.join_eq_some_iff.1 h)
  have before := (List.getElem_cons_eraseIdx_perm hl).filterMap id
  have after := (List.set_perm_cons_eraseIdx hl none).filterMap id
  rw [filterMap_cons_toList] at before after
  refine List.perm_iff_count.2 fun j => ?_
  have hb := before.count_eq j
  have ha := after.count_eq j
  simp only [hk, held, id, Option.toList_some, Option.toList_none, List.singleton_append,
    List.nil_append, List.count_cons, List.count_append] at hb ha ⊢
  omega

/-- A call that goes on takes and gives the channels by which the held ones change. -/
theorem balance_put {t : Traffic α} {n : Nat} {c c' : Call α} {events : List (Event α)}
    (h : t.calls[n]? = some c)
    (trade : Trade c.channel? c'.channel? (taken events) (given events)) :
    given events ++ held { t with calls := t.calls.set n c' } ~ taken events ++ t.held := by
  refine List.perm_iff_count.2 fun k => ?_
  have hh := (held_put h c').count_eq k
  have ht := trade.perm.count_eq k
  simp only [List.count_append] at hh ht ⊢
  omega

theorem pending?_put (t : Traffic α) (n : Nat) (c : Call α) (events : List (Event α)) {j : Nat}
    (hj : n ≠ j) : (t.put n c events).pending? j = t.pending? j := by
  show ((t.calls.set n c)[j]?).bind _ = _
  rw [List.getElem?_set_ne hj]
  rfl

/-- A call without requests goes on. -/
theorem follows_put {p : Prop} {t : Traffic α} {r : ChannelReserve}
    {requests : List (Owner × Option ChannelKey)} {n : Nat} {c c' : Call α}
    {events : List (Event α)} (hc : t.calls[n]? = some c)
    (trade : Trade c.channel? c'.channel? (taken events) (given events))
    (evolves : t.reserve.Evolves p r) (leased : r.leased ~ taken events ++ t.held)
    (opening : r.opening ~ requests.filterMap Prod.snd)
    (waiting : r.waiting = requests.countP fun r => r.2.isNone)
    (asking : ∀ j, asks requests j ≤ if t.pending? j = some .acquire then 1 else 0)
    (unasked : asks requests n = 0) :
    Follows p t ({ t with reserve := r, requests }.put n c' events) := by
  refine follows_record (u := { t with reserve := r, requests, calls := t.calls.set n c' })
    evolves leased (balance_put hc trade) opening waiting (fun j => ?_) rfl
  by_cases hj : n = j
  · subst hj
    exact Nat.le_trans (Nat.le_of_eq unasked) (Nat.zero_le _)
  · have same := pending?_put { t with reserve := r, requests } n c' [] hj
    exact same ▸ asking j

theorem Custody.unasked {t : Traffic α} (h : t.Custody) {n : Nat} {c : Call α}
    (hc : t.calls[n]? = some c) (hp : c.pending? ≠ some .acquire) : asks t.requests n = 0 := by
  have limit := h.asking n
  rw [pending?, hc, Option.bind_some, if_neg hp] at limit
  exact Nat.le_zero.1 limit

/-- What an answered request leaves of the reserve and of the requests. -/
structure Served (p : Prop) (t : Traffic α) (owner : Owner) (r : ChannelReserve)
    (requests : List (Owner × Option ChannelKey)) (answer : List ChannelKey) : Prop where
  evolves : t.reserve.Evolves p r
  leased : r.leased ~ answer ++ t.held
  opening : r.opening ~ requests.filterMap Prod.snd
  waiting : r.waiting = requests.countP fun r => r.2.isNone
  asking : ∀ n, asks requests n ≤ if t.pending? n = some .acquire then 1 else 0
  unasked : ∀ n, owner = .call n → asks requests n = 0

/-- What is waited for and who waits, without a request that has been answered. -/
structure Without (t : Traffic α) (owner : Owner) (k : Option ChannelKey)
    (rest : List (Owner × Option ChannelKey)) : Prop where
  opening : t.reserve.opening ~ k.toList ++ rest.filterMap Prod.snd
  waiting : t.reserve.waiting = (rest.countP fun r => r.2.isNone) + if k.isNone then 1 else 0
  asking : ∀ n, asks rest n ≤ if t.pending? n = some .acquire then 1 else 0
  unasked : ∀ n, owner = .call n → asks rest n = 0

theorem Custody.without {t : Traffic α} (h : t.Custody) {owner : Owner} {k : Option ChannelKey}
    {rest : List (Owner × Option ChannelKey)} (hp : t.requests ~ (owner, k) :: rest) :
    t.Without owner k rest := by
  have asks_eq (n : Nat) :
      asks t.requests n = asks rest n + if owner = .call n then 1 else 0 := by
    have split := hp.countP_eq fun r => r.1 == Owner.call n
    rw [List.countP_cons] at split
    simpa [asks] using split
  refine ⟨?_, ?_, fun n => ?_, fun n hn => ?_⟩
  · have channels := h.opening.trans (hp.filterMap Prod.snd)
    rwa [filterMap_cons_toList] at channels
  · rw [h.waiting, hp.countP_eq, List.countP_cons]
  · exact Nat.le_trans (Nat.le.intro (asks_eq n).symm) (h.asking n)
  · have limit := h.asking n
    rw [asks_eq n, if_pos hn] at limit
    split at limit <;> omega

theorem erase_perm {requests : List (Owner × Option ChannelKey)} {i : Nat}
    {request : Owner × Option ChannelKey} (hi : requests[i]? = some request) :
    requests ~ request :: requests.eraseIdx i := by
  obtain ⟨hl, rfl⟩ := List.getElem?_eq_some_iff.1 hi
  exact (List.getElem_cons_eraseIdx_perm hl).symm

/-- A call has one request, so that is what is taken away with all of its requests. -/
theorem Custody.filter_perm {t : Traffic α} (h : t.Custody) {n : Nat} {k : Option ChannelKey}
    (hr : (.call n, k) ∈ t.requests) :
    t.requests ~ (.call n, k) :: t.requests.filter fun r => r.1 != Owner.call n := by
  have split := List.filter_append_perm (fun r => r.1 == Owner.call n) t.requests
  have mem : (.call n, k) ∈ t.requests.filter fun r => r.1 == Owner.call n :=
    List.mem_filter.2 ⟨hr, by simp⟩
  have limit := h.asking n
  rw [asks, List.countP_eq_length_filter] at limit
  generalize t.requests.filter (fun r => r.1 == Owner.call n) = own at split mem limit
  have single : own = [(.call n, k)] := by
    have short : own.length ≤ 1 := Nat.le_trans limit (by split <;> simp)
    match own, mem, short with
    | [request], mem, _ => rw [List.mem_singleton.1 mem]
  rw [single] at split
  exact split.symm

theorem evolves_openFor {p : Prop} {r s : ChannelReserve} {answer : Except LinkFault ChannelKey}
    (possible : 0 < r.waiting) (hr : r.openFor = (s, answer)) : r.Evolves p s := by
  refine ChannelReserve.Evolves.refl.step (a := .openFor) rfl ?_
  rw [ChannelReserve.act, if_pos possible, hr]

theorem evolves_prepare {p : Prop} {r s : ChannelReserve} {k : ChannelKey}
    {answer : Except LinkFault Unit} (possible : k ∈ r.opening) (hr : r.prepare k = (s, answer)) :
    r.Evolves p s := by
  refine ChannelReserve.Evolves.refl.step (a := .prepare k) rfl ?_
  rw [ChannelReserve.act, if_pos possible, hr]

/-- A request that waits can have its channel opened. -/
theorem Without.possible {t : Traffic α} {owner : Owner} {rest : List (Owner × Option ChannelKey)}
    (h : t.Without owner none rest) : 0 < t.reserve.waiting :=
  h.waiting ▸ Nat.succ_pos _

theorem Without.waiting_sub {t : Traffic α} {owner : Owner}
    {rest : List (Owner × Option ChannelKey)} (h : t.Without owner none rest) :
    t.reserve.waiting - 1 = rest.countP fun r => r.2.isNone := by
  rw [h.waiting]
  rfl

/-- A request whose channel has been opened can have it made ready. -/
theorem Without.mem_opening {t : Traffic α} {owner : Owner} {k : ChannelKey}
    {rest : List (Owner × Option ChannelKey)} (h : t.Without owner (some k) rest) :
    k ∈ t.reserve.opening :=
  h.opening.mem_iff.2 List.mem_cons_self

theorem Without.erase_opening {t : Traffic α} {owner : Owner} {k : ChannelKey}
    {rest : List (Owner × Option ChannelKey)} (h : t.Without owner (some k) rest) :
    t.reserve.opening.erase k ~ rest.filterMap Prod.snd := by
  have erased := h.opening.erase k
  rwa [Option.toList_some, List.singleton_append, List.erase_cons_head] at erased

theorem Serves.served {p : Prop} {t : Traffic α} (h : t.Custody) {a : Action α} {owner : Owner}
    {r : ChannelReserve} {requests : List (Owner × Option ChannelKey)}
    {answer : Except LinkFault ChannelKey} (hs : t.Serves a owner r requests answer) :
    t.Served p owner r requests answer.toOption.toList := by
  cases hs with
  | @reused _ _ k ha hr =>
    obtain ⟨hl, ho, hw⟩ := ChannelReserve.request_spec hr
    refine ⟨?_, ?_, ?_, ?_, h.asking, ?_⟩
    · exact ChannelReserve.Evolves.refl.step (a := .request) rfl (congrArg Prod.fst hr)
    · rw [hl]
      exact h.leased.append_left _
    · rw [ho]
      exact h.opening
    · rw [hw, h.waiting]
      rfl
    · rintro n rfl
      exact asks_eq_zero_iff.2 ha.2.2
  | @opened i _ _ k hi hr hc =>
    have without := h.without (erase_perm hi)
    obtain ⟨hw, opened⟩ := ChannelReserve.openFor_eq_ok hr
    rw [if_neg (Bool.eq_false_iff.1 hc)] at opened
    obtain ⟨ho, hl⟩ := opened
    refine ⟨evolves_openFor without.possible hr, ?_, ?_, hw.trans without.waiting_sub,
      without.asking, without.unasked⟩
    · rw [hl]
      exact h.leased.cons k
    · rw [ho]
      exact without.opening
  | @unopened i _ _ fault hi hr =>
    have without := h.without (erase_perm hi)
    have evolves : t.reserve.Evolves p r := evolves_openFor without.possible hr
    obtain rfl := ChannelReserve.openFor_eq_error hr
    exact ⟨evolves, h.leased, without.opening, without.waiting_sub, without.asking,
      without.unasked⟩
  | @readied i _ _ k hi hr =>
    have without := h.without (erase_perm hi)
    obtain ⟨ho, hl, hw⟩ := ChannelReserve.prepare_eq_ok hr
    refine ⟨evolves_prepare without.mem_opening hr, ?_, ?_, hw.trans without.waiting,
      without.asking, without.unasked⟩
    · rw [hl]
      exact h.leased.cons k
    · rw [ho]
      exact without.erase_opening
  | @unready i _ _ k fault hi hr =>
    have without := h.without (erase_perm hi)
    have evolves : t.reserve.Evolves p r := evolves_prepare without.mem_opening hr
    obtain rfl := ChannelReserve.prepare_eq_error hr
    exact ⟨evolves, h.leased, without.erase_opening, without.waiting, without.asking,
      without.unasked⟩

/-- A request is given up. -/
theorem Custody.withdrawn {p : Prop} {t : Traffic α} (h : t.Custody) {n : Nat}
    {k : Option ChannelKey} (hr : (.call n, k) ∈ t.requests) :
    t.Served p (.call n) (t.reserve.withdraw k)
      (t.requests.filter fun r => r.1 != Owner.call n) [] := by
  have without := h.without (h.filter_perm hr)
  cases k with
  | none =>
    refine ⟨?_, h.leased, without.opening, without.waiting_sub, without.asking, without.unasked⟩
    exact ChannelReserve.Evolves.refl.step (a := .withdraw none) rfl (if_pos without.possible)
  | some k =>
    refine ⟨?_, h.leased, without.erase_opening, without.waiting, without.asking, without.unasked⟩
    have opened := without.mem_opening
    exact ChannelReserve.Evolves.refl.step (a := .withdraw (some k)) rfl (if_pos opened)

/-- The channel of a request has been opened, and is still to be made ready. -/
theorem Custody.opened {p : Prop} {t : Traffic α} (h : t.Custody) {i : Nat} {owner : Owner}
    {r : ChannelReserve} {k : ChannelKey} (hi : t.requests[i]? = some (owner, none))
    (hr : t.reserve.openFor = (r, .ok k)) (hc : t.reserve.settings.confirms = true) :
    Follows p t { t with reserve := r, requests := t.requests.set i (owner, some k) } := by
  have without := h.without (erase_perm hi)
  obtain ⟨hw, opened⟩ := ChannelReserve.openFor_eq_ok hr
  rw [if_pos hc] at opened
  obtain ⟨ho, hl⟩ := opened
  obtain ⟨length, -⟩ := List.getElem?_eq_some_iff.1 hi
  have replaced := List.set_perm_cons_eraseIdx length (owner, some k)
  refine ⟨⟨?_, ?_, ?_, fun n => ?_⟩, evolves_openFor without.possible hr, .inl⟩
  · show r.leased ~ t.held
    rw [hl]
    exact h.leased
  · have channels := (replaced.filterMap Prod.snd).symm
    rw [filterMap_cons_toList] at channels
    show r.opening ~ _
    rw [ho]
    exact (without.opening.cons k).trans channels
  · show r.waiting = (t.requests.set i (owner, some k)).countP _
    rw [hw, without.waiting_sub, replaced.countP_eq, List.countP_cons]
    rfl
  · have same := ((erase_perm hi).countP_eq fun r => r.1 == Owner.call n).symm
    rw [List.countP_cons] at same
    show asks (t.requests.set i (owner, some k)) n ≤ _
    rw [asks, replaced.countP_eq, List.countP_cons]
    exact same ▸ h.asking n

theorem Moves.trade {t : Traffic α} {n : Nat} {c c' : Call α} {events : List (Event α)}
    (h : t.Moves n c c' events) :
    taken events = [] ∧ Trade c.channel? c'.channel? (taken events) (given events) := by
  cases h with
  | @unpublished m k fault hl => exact ⟨rfl, .give k⟩
  | @unsent m k handle fault hl => exact ⟨rfl, .give k⟩
  | settled m k handle hv => exact ⟨rfl, .give k⟩
  | abandoned m k => exact ⟨rfl, .give k⟩
  | handed confirmation | detached confirmation =>
    obtain ⟨m, k, progress⟩ := confirmation
    cases progress <;> exact ⟨rfl, .keep _⟩
  | _ => exact ⟨rfl, .keep none⟩

theorem Moves.unasked {t : Traffic α} (h : t.Custody) {n : Nat} {c c' : Call α}
    {events : List (Event α)} (hc : t.calls[n]? = some c) (hm : t.Moves n c c' events) :
    asks t.requests n = 0 := by
  cases hm with
  | dismissed job ha => exact asks_eq_zero_iff.2 ha
  | settled => exact h.unasked hc nofun
  | handed confirmation | detached confirmation =>
    obtain ⟨m, k, progress⟩ := confirmation
    cases progress <;> exact h.unasked hc nofun
  | _ => exact h.unasked hc nofun

theorem Delivers.trade {m : Message} {k : ChannelKey} {c c' : Call α} {events : List (Event α)}
    (h : Delivers m k c c' events) : c.channel? = some k ∧ c.pending? ≠ some .acquire ∧
      taken events = [] ∧ Trade c.channel? c'.channel? (taken events) (given events) := by
  cases h with
  | sent => exact ⟨rfl, nofun, rfl, .give k⟩
  | forsaken => exact ⟨rfl, nofun, rfl, .give k⟩
  | begun handle => exact ⟨rfl, nofun, rfl, .keep _⟩

/-- What a call or a lease holds is leased. -/
theorem Custody.leased_of_call {t : Traffic α} (h : t.Custody) {n : Nat} {c : Call α}
    {k : ChannelKey} (hc : t.calls[n]? = some c) (hk : c.channel? = some k) :
    k ∈ t.reserve.leased :=
  h.leased.mem_iff.2 <| List.mem_append_left _ <|
    List.mem_filterMap.2 ⟨c, List.mem_of_getElem? hc, hk⟩

theorem Custody.leased_of_lease {t : Traffic α} (h : t.Custody) {lease : Nat} {k : ChannelKey}
    (hk : t.lease? lease = some k) : k ∈ t.reserve.leased :=
  h.leased.mem_iff.2 <| List.mem_append_right _ <|
    List.mem_filterMap.2 ⟨some k, List.mem_of_getElem? (Option.join_eq_some_iff.1 hk), rfl⟩

theorem evolves_publish {p : Prop} {r : ChannelReserve} {k : ChannelKey} (h : k ∈ r.leased)
    {sender : Owner} {m : Message} {l : Link} (hl : r.link.publish k sender m = .ok l) :
    r.Evolves p { r with link := l } := by
  refine ChannelReserve.Evolves.refl.step (a := .publish k sender m) rfl ?_
  rw [ChannelReserve.act, if_pos h, hl]

theorem evolves_relinks {p : Prop} {r : ChannelReserve} {a : Action α} {l : Link}
    (h : Relinks r.link a l) : r.Evolves p { r with link := l } := by
  cases h with
  | lost k => exact ChannelReserve.Evolves.refl.act (.loseChannel k) rfl
  | disconnected => exact ChannelReserve.Evolves.refl.act .disconnect rfl
  | mode mode => exact .told ⟨rfl, rfl⟩ .refl
  | answered number tag ack multiple => exact .told ⟨rfl, rfl⟩ .refl

theorem start_idle (declarations : Declarations) (converter : Converter) (i : Invocation) :
    (Call.start (α := α) declarations converter i).1.channel? = none ∧
      taken (Call.start (α := α) declarations converter i).2 = [] ∧
      given (Call.start (α := α) declarations converter i).2 = [] := by
  let s : Session α := { declarations }
  exact (Session.Arrives.call (s := s) converter i).idle

/-- A call arrives, with which nothing is taken or given. -/
theorem Custody.arrived {p : Prop} {t : Traffic α} (h : t.Custody) (i : Invocation) :
    Follows p t ({ t with calls := t.calls ++ [(Call.start t.declarations t.converter i).1] }.record
      (.call t.calls.length) (Call.start t.declarations t.converter i).2) := by
  obtain ⟨idle, untaken, ungiven⟩ := start_idle (α := α) t.declarations t.converter i
  refine follows_record (u := { t with
    calls := t.calls ++ [(Call.start t.declarations t.converter i).1] })
    .refl ?_ ?_ h.opening h.waiting (fun n => ?_) rfl
  · rw [untaken]
    exact h.leased
  · have alone : [(Call.start (α := α) t.declarations t.converter i).1].filterMap Call.channel? =
        [] := by
      rw [filterMap_cons_toList, idle]
      rfl
    rw [untaken, ungiven, held, List.filterMap_append, alone, List.append_nil]
    exact .refl _
  · refine Nat.le_trans (h.asking n) ?_
    split
    next pending =>
      obtain ⟨c, hc, hp⟩ := Option.bind_eq_some_iff.1 pending
      have stays : pending? { t with
          calls := t.calls ++ [(Call.start t.declarations t.converter i).1] } n =
            some .acquire := by
        have length := (List.getElem?_eq_some_iff.1 hc).1
        show ((t.calls ++ _)[n]?).bind _ = _
        rw [List.getElem?_append_left length, hc]
        exact hp
      rw [if_pos stays]
    next => exact Nat.zero_le _

/-- A request is put on the list. -/
theorem Custody.waits {p : Prop} {t : Traffic α} (h : t.Custody) {a : Action α} {owner : Owner}
    {r : ChannelReserve} (ha : t.MayAsk a owner) (hr : t.reserve.request = (r, none)) :
    Follows p t { t with reserve := r, requests := t.requests ++ [(owner, none)] } := by
  obtain ⟨hl, ho, hw⟩ := ChannelReserve.request_spec hr
  refine ⟨⟨?_, ?_, ?_, fun n => ?_⟩, ?_, .inl⟩
  · show r.leased ~ t.held
    rw [hl]
    exact h.leased
  · show r.opening ~ (t.requests ++ [(owner, none)]).filterMap Prod.snd
    rw [ho, List.filterMap_append]
    simpa using h.opening
  · show r.waiting = (t.requests ++ [(owner, none)]).countP _
    rw [hw, h.waiting, List.countP_append]
    rfl
  · show asks (t.requests ++ [(owner, none)]) n ≤ if t.pending? n = some .acquire then 1 else 0
    rw [asks, List.countP_append, List.countP_singleton]
    by_cases hn : owner = .call n
    · subst hn
      have first := asks_eq_zero_iff.2 ha.2.2
      rw [asks] at first
      rw [first, if_pos ha.2.1]
      split <;> simp
    · rw [if_neg (by simpa using hn)]
      exact h.asking n
  · exact ChannelReserve.Evolves.refl.step (a := .request) rfl (congrArg Prod.fst hr)

/-- A surplus channel is closed. -/
theorem Custody.closed {p : Prop} {t : Traffic α} (h : t.Custody) {k : ChannelKey}
    (hk : k ∈ t.reserve.surplus) :
    Follows p t { t with reserve := t.reserve.closeSurplus k } := by
  have frame : (t.reserve.closeSurplus k).leased = t.reserve.leased ∧
      (t.reserve.closeSurplus k).opening = t.reserve.opening ∧
      (t.reserve.closeSurplus k).waiting = t.reserve.waiting := by
    simp only [ChannelReserve.closeSurplus]
    split <;> exact ⟨rfl, rfl, rfl⟩
  obtain ⟨hl, ho, hw⟩ := frame
  have evolves : t.reserve.Evolves p (t.reserve.closeSurplus k) :=
    ChannelReserve.Evolves.refl.step (a := .closeSurplus k) rfl (if_pos hk)
  exact ⟨⟨hl ▸ h.leased, ho ▸ h.opening, hw.trans h.waiting, h.asking⟩, evolves, .inl⟩

/-- One who parts with a channel has held it, and leaves the rest as it is. -/
theorem PartsInPlace.held {t u : Traffic α} {a : Action α} {owner : Owner} {k : ChannelKey}
    (h : t.PartsInPlace a owner k u) : k :: u.held ~ t.held := by
  cases h with
  | lease hk => exact held_unlease hk
  | call hc => exact held_put hc .cancelled

theorem PartsInPlace.leased {t u : Traffic α} (h : t.Custody) {a : Action α} {owner : Owner}
    {k : ChannelKey} (hp : t.PartsInPlace a owner k u) : k ∈ t.reserve.leased := by
  cases hp with
  | lease hk => exact h.leased_of_lease hk
  | call hc => exact h.leased_of_call hc rfl

theorem PartsInPlace.frame {t u : Traffic α} {a : Action α} {owner : Owner} {k : ChannelKey}
    (h : t.PartsInPlace a owner k u) :
    u.reserve = t.reserve ∧ u.requests = t.requests ∧ u.log = t.log := by
  cases h <;> exact ⟨rfl, rfl, rfl⟩

/-- One who parts with a channel has no request under way. -/
theorem PartsInPlace.asking {t u : Traffic α} (h : t.Custody) {a : Action α} {owner : Owner}
    {k : ChannelKey} (hp : t.PartsInPlace a owner k u) (j : Nat) :
    asks t.requests j ≤ if u.pending? j = some .acquire then 1 else 0 := by
  cases hp with
  | lease => exact h.asking j
  | @call n m k hc =>
    by_cases hj : n = j
    · subst hj
      exact Nat.le_trans (Nat.le_of_eq (h.unasked hc nofun)) (Nat.zero_le _)
    · have same : pending? { t with calls := t.calls.set n .cancelled } j = t.pending? j :=
        pending?_put t n .cancelled [] hj
      exact same ▸ h.asking j

/-- A channel is taken back in place. -/
theorem Custody.returnedInPlace {p : Prop} {t u : Traffic α} (h : t.Custody) (hp : p) {a : Action α}
    {owner : Owner} {k : ChannelKey} (parts : t.PartsInPlace a owner k u) :
    Follows p t (u.takeBackInPlace owner k) := by
  obtain ⟨reserve, requests, log⟩ := parts.frame
  have frame : (t.reserve.releaseInPlace k).leased = t.reserve.leased.erase k ∧
      (t.reserve.releaseInPlace k).opening = t.reserve.opening ∧
      (t.reserve.releaseInPlace k).waiting = t.reserve.waiting := by
    unfold ChannelReserve.releaseInPlace
    split
    · exact ⟨rfl, rfl, rfl⟩
    · obtain ⟨ho, hw⟩ := t.reserve.release_frame k
      exact ⟨ChannelReserve.leased_release _ _, ho, hw⟩
  obtain ⟨hl, ho, hw⟩ := frame
  have evolves : t.reserve.Evolves p (t.reserve.releaseInPlace k) := by
    have step := ChannelReserve.Evolves.refl.inPlace (r := t.reserve) hp k
    rwa [ChannelReserve.act, if_pos (parts.leased h)] at step
  have remaining := (h.leased.trans parts.held.symm).erase k
  rw [List.erase_cons_head] at remaining
  simp only [takeBackInPlace, reserve, log]
  refine ⟨⟨hl ▸ remaining, ?_, ?_, fun j => ?_⟩, evolves, fun {o j} hj => ?_⟩
  · exact requests ▸ ho ▸ h.opening
  · exact requests ▸ hw.trans h.waiting
  · exact requests ▸ parts.asking h j
  · obtain old | new := List.mem_append.1 hj
    · exact .inl old
    · cases List.mem_singleton.1 new

/-- Whether an action gives a channel back where no background work can run. -/
def Action.isInPlace : Action α → Prop
  | .leaseReleaseInPlace _ | .cancelInPlace _ => True
  | _ => False

theorem PartsInPlace.isInPlace {t u : Traffic α} {a : Action α} {owner : Owner} {k : ChannelKey}
    (h : t.PartsInPlace a owner k u) : a.isInPlace := by
  cases h <;> trivial

theorem Change.follows {t t' : Traffic α} (h : t.Custody) {a : Action α} (hc : t.Change a t') :
    Follows a.isInPlace t t' := by
  cases hc with
  | nothing => exact ⟨h, .refl, .inl⟩
  | declared d => exact ⟨⟨h.leased, h.opening, h.waiting, h.asking⟩, .refl, .inl⟩
  | arrived i => exact h.arrived i
  | waits ha hr => exact h.waits ha hr
  | opened hi hr hc => exact h.opened hi hr hc
  | @granted _ n job r requests k hs hc =>
    obtain ⟨evolves, leased, opening, waiting, asking, unasked⟩ := hs.served h
    have trade := (Call.step_withChannel (α := α) job k).trade
    refine follows_put hc trade evolves ?_ opening waiting asking (unasked n rfl)
    rw [Call.taken_withChannel]
    exact leased
  | @refused _ n job r requests fault hs hc =>
    obtain ⟨evolves, leased, opening, waiting, asking, unasked⟩ := hs.served h
    exact follows_put hc (.keep none) evolves leased opening waiting asking (unasked n rfl)
  | @leased _ r requests k hs =>
    obtain ⟨evolves, leased, opening, waiting, asking, unasked⟩ := hs.served h
    refine follows_record (u := { t with reserve := r, requests, leases := t.leases ++ [some k] })
      evolves leased ?_ opening waiting asking rfl
    have moved : t.held ++ [k] ~ k :: t.held := List.perm_append_comm
    have added : held { t with reserve := r, requests, leases := t.leases ++ [some k] } =
        t.held ++ [k] := by
      simp [held]
    rw [added]
    exact moved
  | @unleased _ r requests fault hs =>
    obtain ⟨evolves, leased, opening, waiting, asking, unasked⟩ := hs.served h
    exact follows_record (u := { t with reserve := r, requests }) evolves leased (.refl _)
      opening waiting asking rfl
  | @moved _ n c c' events hc hm =>
    obtain ⟨untaken, trade⟩ := hm.trade
    refine follows_put hc trade .refl ?_ h.opening h.waiting h.asking (hm.unasked h hc)
    rw [untaken]
    exact h.leased
  | @delivered _ n c c' events m k l hc hd hl =>
    obtain ⟨holds, sends, untaken, trade⟩ := hd.trade
    have evolves := evolves_publish (p := a.isInPlace) (h.leased_of_call hc holds) hl
    refine follows_put hc trade evolves ?_ h.opening h.waiting h.asking (h.unasked hc sends)
    rw [untaken]
    exact h.leased
  | @withdrawn n job k hr hc =>
    obtain ⟨evolves, leased, opening, waiting, asking, unasked⟩ := h.withdrawn hr
    exact follows_put hc (.keep none) evolves leased opening waiting asking (unasked n rfl)
  | @posted lease k m l hk hl =>
    have evolves := evolves_publish (p := False) (h.leased_of_lease hk) hl
    exact follows_record (u := t.withLink l) evolves h.leased (.refl _) h.opening h.waiting
      h.asking rfl
  | unposted =>
    exact follows_record .refl h.leased (.refl _) h.opening h.waiting h.asking rfl
  | @returned lease k hk =>
    exact follows_record (u := { t with leases := t.leases.set lease none }) .refl h.leased
      (held_unlease hk) h.opening h.waiting h.asking rfl
  | returnedInPlace parts => exact h.returnedInPlace parts.isInPlace parts
  | closed hk => exact h.closed hk
  | relinked hl =>
    exact ⟨⟨h.leased, h.opening, h.waiting, h.asking⟩, evolves_relinks hl, .inl⟩

variable {settings : ReserveSettings} {t : Traffic α}

theorem custody (h : Reachable settings t) : t.Custody := by
  induction h with
  | start channelMax mode => exact ⟨.nil, .nil, rfl, fun n => Nat.zero_le _⟩
  | act a _ ih => exact ((act_change ih a).follows ih).custody

/-- What the reserve goes through in a run is a run of its own. -/
theorem act_evolves (h : Reachable settings t) (a : Action α) :
    t.reserve.Evolves a.isInPlace (t.act a).reserve :=
  ((act_change (custody h) a).follows (custody h)).evolves

theorem sound (h : Reachable settings t) : ChannelReserve.Sound settings t.reserve := by
  induction h with
  | start channelMax mode => exact ChannelReserve.sound (.start channelMax mode)
  | act a ht ih => exact (act_evolves ht a).sound ih

/-- Every channel lives as it does in a reserve. -/
theorem lawful (h : Reachable settings t) (k : ChannelKey) :
    (t.reserve.view k).Lawful settings.confirms := by
  induction h with
  | start channelMax mode => exact .unopened
  | act a ht ih => exact (act_evolves ht a).lawful (sound ht) ih

/-- A channel that was handed out has been made ready. -/
theorem prepared_of_acquired (h : Reachable settings t) {owner : Owner} {k : ChannelKey}
    (hk : (owner, .acquired k) ∈ t.log) : t.reserve.place k ∈ Place.prepared := by
  induction h with
  | start => cases hk
  | @act t a ht ih =>
    have follows := (act_change (custody ht) a).follows (custody ht)
    obtain old | ⟨r, before, leased, after⟩ := follows.acquired hk
    · exact follows.evolves.prepared (sound ht) (ih old)
    · have hr := before.sound (sound ht)
      refine after.prepared hr ?_
      rw [hr.place_of_mem (p := .leased) leased]
      decide

end Traffic

end Courier
