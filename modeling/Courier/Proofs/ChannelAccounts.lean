import Courier.Proofs.CallSteps

/-!
# Every channel that goes out comes back once

An account of the channels of a session: each one handed out is either back or with exactly one
holder. `Session.act_exchange` says what one action can do to the account, `Session.accounted` that
it is in order in every reachable session, and `Session.released_of_ends` that whoever is done with
a channel gives it back in the same step.
-/

namespace Courier

variable {α : Type}

/-- What one action does to the channel of one holder: the channel before and after, and the
channels that the holder takes from the pool and gives back to it. -/
inductive Trade :
    Option ChannelKey → Option ChannelKey → List ChannelKey → List ChannelKey → Prop where
  | keep (held : Option ChannelKey) : Trade held held [] []
  | take (k : ChannelKey) : Trade none (some k) [k] []
  | give (k : ChannelKey) : Trade (some k) none [] [k]
  /-- The body is refused: the channel goes back as soon as it has come. -/
  | pass (k : ChannelKey) : Trade none none [k] [k]

theorem Call.Step.trade {c c' : Call α} {events : List (Event α)} (h : c.Step c' events) :
    Trade c.channel? c'.channel? (taken events) (given events) := by
  cases h with
  | unconverted hm k => exact .pass k
  | publishing hm hr k => exact .take k
  | confirming hm hr k => exact .take k
  | sent m k => exact .give k
  | unsent m k cause => exact .give k
  | crashed m k => exact .give k
  | ended m k attempt handle => exact .give k
  | endedReturning m k attempt => exact .give k
  | abandoned m k => exact .give k
  | handed confirmation | detached confirmation =>
    obtain ⟨m, k, progress⟩ := confirmation
    cases progress <;> exact .keep _
  | _ => exact .keep _

namespace Session

/-- What one action does to the account: one holder trades, and what it takes is new. -/
structure Exchange (s t : Session α) (holder : Holder) (taken given : List ChannelKey) : Prop where
  others : ∀ other, other ≠ holder → t.channelOf? other = s.channelOf? other
  own : Trade (s.channelOf? holder) (t.channelOf? holder) taken given
  granted : t.granted = s.granted ++ taken
  released : t.released = s.released ++ given
  fresh : List.range t.acquired = List.range s.acquired ++ taken

theorem granted_record (s : Session α) (owner : Owner) (events : List (Event α)) :
    (s.record owner events).granted = s.granted ++ taken events := by
  rw [granted, record, List.filterMap_append, List.filterMap_map]
  rfl

theorem released_record (s : Session α) (owner : Owner) (events : List (Event α)) :
    (s.record owner events).released = s.released ++ given events := by
  rw [released, record, List.filterMap_append, List.filterMap_map]
  rfl

/-- Nothing that concerns the account happens. -/
theorem exchange_none {s t : Session α} (owner : Owner) (events : List (Event α))
    (hc : ∀ holder, t.channelOf? holder = s.channelOf? holder) (ht : taken events = [])
    (hg : given events = []) (hl : t.log = (s.record owner events).log)
    (ha : t.acquired = s.acquired) : Exchange s t (.lease 0) [] [] where
  others other _ := hc other
  own := by rw [hc]; exact .keep _
  granted := by
    have h := granted_record s owner events
    rw [ht] at h
    simpa only [Session.granted, hl] using h
  released := by
    have h := released_record s owner events
    rw [hg] at h
    simpa only [Session.released, hl] using h
  fresh := by rw [ha, List.append_nil]

/-- A call takes a step. -/
theorem exchange_call {s : Session α} {n : Nat} {c c' : Call α} {events : List (Event α)}
    {acquired : Nat} (h : s.calls[n]? = some c) (hs : c.Step c' events)
    (hf : List.range acquired = List.range s.acquired ++ taken events) :
    Exchange s ({ s with calls := s.calls.set n c', acquired }.record (.call n) events) (.call n)
      (taken events) (given events) where
  others other ho := by
    cases other with
    | lease l => rfl
    | call m =>
      have hm : n ≠ m := fun e => ho (by rw [e])
      show ((s.calls.set n c')[m]?).bind _ = _
      rw [List.getElem?_set_ne hm]
      rfl
  own := by
    have hn : n < s.calls.length := (List.getElem?_eq_some_iff.1 h).1
    show Trade ((s.calls[n]?).bind _) (((s.calls.set n c')[n]?).bind _) _ _
    rw [h, List.getElem?_set_self hn]
    exact hs.trade
  granted := granted_record _ _ _
  released := released_record _ _ _
  fresh := hf

/-- A call that asks for nothing arrives. -/
theorem exchange_add {s : Session α} {c : Call α} {events : List (Event α)} (hc : c.channel? = none)
    (ht : taken events = []) (hg : given events = []) :
    Exchange s (s.add (c, events)) (.lease 0) [] [] := by
  refine exchange_none (.call s.calls.length) events ?_ ht hg rfl rfl
  intro holder
  cases holder with
  | lease l => rfl
  | call n =>
    show ((s.calls ++ [c])[n]?).bind _ = (s.calls[n]?).bind _
    rcases Nat.lt_trichotomy n s.calls.length with hn | hn | hn
    · rw [List.getElem?_append_left hn]
    · subst hn
      simp [hc]
    · rw [List.getElem?_eq_none (by simp; omega), List.getElem?_eq_none (by omega)]

/-- What an arriving call does concerns no channel. -/
theorem Arrives.idle {s : Session α} {a : Action α} {c : Call α} {events : List (Event α)}
    (h : s.Arrives a c events) : c.channel? = none ∧ taken events = [] ∧ given events = [] := by
  cases h with
  | call converter i =>
    unfold Call.start
    split
    · exact ⟨rfl, rfl, rfl⟩
    · split <;> exact ⟨rfl, rfl, rfl⟩
  | dispatch job => exact ⟨rfl, rfl, rfl⟩
  | refused failure => exact ⟨rfl, rfl, rfl⟩

/-- A lease is taken. -/
theorem exchange_lease (s : Session α) :
    Exchange s
      ({ s with acquired := s.acquired + 1, leases := s.leases ++ [some s.acquired] }.record .lessee
        [.acquired s.acquired]) (.lease s.leases.length) [s.acquired] [] where
  others other ho := by
    cases other with
    | call n => rfl
    | lease l =>
      have hl : l ≠ s.leases.length := fun e => ho (by rw [e])
      show ((s.leases ++ [some s.acquired])[l]?).join = (s.leases[l]?).join
      rcases Nat.lt_or_gt_of_ne hl with hl | hl
      · rw [List.getElem?_append_left hl]
      · rw [List.getElem?_eq_none (by simp; omega), List.getElem?_eq_none (by omega)]
  own := by
    have before : s.channelOf? (.lease s.leases.length) = none := by simp [channelOf?, lease?]
    rw [before]
    show Trade none (((s.leases ++ [some s.acquired])[s.leases.length]?).join) _ _
    rw [List.getElem?_concat_length]
    exact .take s.acquired
  granted := granted_record _ _ _
  released := released_record _ _ _
  fresh := List.range_succ

/-- A lease is given back. -/
theorem exchange_unlease {s : Session α} {l : Nat} {k : ChannelKey} (h : s.lease? l = some k) :
    Exchange s ({ s with leases := s.leases.set l none }.record .lessee [.released k]) (.lease l) []
      [k] where
  others other ho := by
    cases other with
    | call n => rfl
    | lease m =>
      have hm : l ≠ m := fun e => ho (by rw [e])
      show ((s.leases.set l none)[m]?).join = (s.leases[m]?).join
      rw [List.getElem?_set_ne hm]
  own := by
    have hl : l < s.leases.length :=
      (List.getElem?_eq_some_iff.1 (Option.join_eq_some_iff.1 h)).1
    show Trade (s.lease? l) (((s.leases.set l none)[l]?).join) _ _
    rw [h, List.getElem?_set_self hl]
    exact .give k
  granted := granted_record _ _ _
  released := released_record _ _ _
  fresh := (List.append_nil _).symm

/-- One action makes at most one holder trade. -/
theorem act_exchange (s : Session α) (a : Action α) :
    ∃ holder taken given, Exchange s (s.act a) holder taken given := by
  have change := s.act_change a
  have hl : s.log = (s.record .lessee []).log := by simp [record]
  generalize s.act a = t at change
  cases change with
  | nothing => exact ⟨_, _, _, exchange_none .lessee [] (fun _ => rfl) rfl rfl hl rfl⟩
  | declared d => exact ⟨_, _, _, exchange_none .lessee [] (fun _ => rfl) rfl rfl hl rfl⟩
  | arrived h =>
    obtain ⟨hc, ht, hg⟩ := h.idle
    exact ⟨_, _, _, exchange_add hc ht hg⟩
  | moved _ h hs hf => exact ⟨_, _, _, exchange_call h hs hf⟩
  | told _ ht hg => exact ⟨_, _, _, exchange_none .lessee _ (fun _ => rfl) ht hg rfl rfl⟩
  | leased => exact ⟨_, _, _, exchange_lease s⟩
  | unleased h => exact ⟨_, _, _, exchange_unlease h⟩

/-- The account of a session is in order: what was handed out is back, or it is with one holder. -/
structure Accounted (s : Session α) : Prop where
  granted : s.granted = List.range s.acquired
  released_nodup : s.released.Nodup
  placed : ∀ k, k < s.acquired ↔ k ∈ s.released ∨ ∃ holder, s.channelOf? holder = some k
  not_released : ∀ {holder k}, s.channelOf? holder = some k → k ∉ s.released
  one_holder : ∀ {holder other k}, s.channelOf? holder = some k → s.channelOf? other = some k →
    other = holder

theorem Accounted.lt_of_released {s : Session α} (h : s.Accounted) {k : ChannelKey}
    (hk : k ∈ s.released) : k < s.acquired :=
  (h.placed k).2 (.inl hk)

theorem Accounted.lt_of_held {s : Session α} (h : s.Accounted) {holder : Holder} {k : ChannelKey}
    (hk : s.channelOf? holder = some k) : k < s.acquired :=
  (h.placed k).2 (.inr ⟨holder, hk⟩)

theorem accounted_start : Accounted (α := α) {} where
  granted := rfl
  released_nodup := .nil
  placed k := by
    constructor
    · intro hk
      exact absurd hk (Nat.not_lt_zero k)
    · rintro (hk | ⟨holder, hk⟩)
      · exact absurd hk List.not_mem_nil
      · cases holder <;> simp [channelOf?, lease?] at hk
  not_released _ := List.not_mem_nil
  one_holder {holder other k} hk := by cases holder <;> simp [channelOf?, lease?] at hk

theorem acquired_of_fresh_nil {s t : Session α}
    (h : List.range t.acquired = List.range s.acquired ++ []) : t.acquired = s.acquired := by
  simpa using congrArg List.length h

theorem acquired_of_fresh_one {s t : Session α} {k : ChannelKey}
    (h : List.range t.acquired = List.range s.acquired ++ [k]) :
    k = s.acquired ∧ t.acquired = s.acquired + 1 := by
  have hn : t.acquired = s.acquired + 1 := by simpa using congrArg List.length h
  rw [hn, List.range_succ] at h
  exact ⟨by simpa using (List.append_cancel_left h).symm, hn⟩

/-- The next channel has not been given back, and nobody has it. -/
theorem Accounted.next_unused {s : Session α} (h : s.Accounted) :
    s.acquired ∉ s.released ∧ ∀ holder, s.channelOf? holder ≠ some s.acquired :=
  ⟨fun hk => Nat.lt_irrefl _ (h.lt_of_released hk),
    fun _ hk => Nat.lt_irrefl _ (h.lt_of_held hk)⟩

/-- An exchange leaves the account in order. -/
theorem Accounted.exchange {s t : Session α} (h : s.Accounted) {holder : Holder}
    {taken given : List ChannelKey} (e : Exchange s t holder taken given) : t.Accounted := by
  obtain ⟨others, own, hg, hr, hf⟩ := e
  obtain ⟨unreleased, unheld⟩ := h.next_unused
  rw [h.granted, ← hf] at hg
  generalize hs : s.channelOf? holder = before at own
  generalize ht : t.channelOf? holder = after at own
  -- In each case the holders are those of `s`, except that `holder` has `after`.
  have holds (other : Holder) (k : ChannelKey) : t.channelOf? other = some k ↔
      (other = holder ∧ after = some k) ∨ (other ≠ holder ∧ s.channelOf? other = some k) := by
    by_cases ho : other = holder
    · simp [ho, ht]
    · simp [ho, others other ho]
  cases own with
  | keep =>
    have same (other : Holder) : t.channelOf? other = s.channelOf? other := by
      by_cases ho : other = holder
      · rw [ho, hs, ht]
      · exact others other ho
    rw [List.append_nil] at hr
    refine ⟨hg, hr ▸ h.released_nodup, fun k => ?_, fun {other k} hk => ?_, fun {a b k} ha hb => ?_⟩
    · simp only [acquired_of_fresh_nil hf, hr, same, h.placed k]
    · rw [same] at hk
      rw [hr]
      exact h.not_released hk
    · rw [same] at ha hb
      exact h.one_holder ha hb
  | take k =>
    obtain ⟨rfl, hn⟩ := acquired_of_fresh_one hf
    rw [List.append_nil] at hr
    refine ⟨hg, hr ▸ h.released_nodup, fun j => ?_, fun {other j} hj => ?_, fun {a b j} ha hb => ?_⟩
    · rw [hn, hr, Nat.lt_succ_iff_lt_or_eq, h.placed j]
      grind
    · rw [hr]
      grind [h.not_released]
    · grind [h.one_holder]
  | give k =>
    have hk := h.not_released hs
    refine ⟨hg, ?_, fun j => ?_, fun {other j} hj => ?_, fun {a b j} ha hb => ?_⟩
    · rw [hr, List.nodup_append]
      grind [h.released_nodup]
    · rw [acquired_of_fresh_nil hf, hr, h.placed j]
      grind [h.one_holder]
    · rw [hr]
      grind [h.not_released, h.one_holder]
    · grind [h.one_holder]
  | pass k =>
    obtain ⟨rfl, hn⟩ := acquired_of_fresh_one hf
    refine ⟨hg, ?_, fun j => ?_, fun {other j} hj => ?_, fun {a b j} ha hb => ?_⟩
    · rw [hr, List.nodup_append]
      grind [h.released_nodup]
    · rw [hn, hr, Nat.lt_succ_iff_lt_or_eq, h.placed j]
      grind
    · rw [hr]
      grind [h.not_released]
    · grind [h.one_holder]

theorem accounted {s : Session α} (h : s.Reachable) : s.Accounted := by
  induction h with
  | start => exact accounted_start
  | act a _ ih =>
    obtain ⟨holder, taken, given, e⟩ := act_exchange _ a
    exact ih.exchange e

/-- The actions with which a holder is done with its channel: its publish ends, in whatever way, or
is given up; its confirmed publish ends, in whatever way; its lease is given back. -/
inductive Ends (s : Session α) : Action α → Holder → Prop where
  | publish {n : Nat} {m : Message} {k : ChannelKey} (attempt : Attempt)
      (h : s.calls[n]? = some (.publishing m k)) : Ends s (.publish n attempt) (.call n)
  | cancel {n : Nat} {m : Message} {k : ChannelKey} (h : s.calls[n]? = some (.publishing m k)) :
      Ends s (.cancel n) (.call n)
  | confirm {n : Nat} {m : Message} {k : ChannelKey} {handle : Handle} (attempt : Attempt)
      (h : s.calls[n]? = some (.confirming ⟨m, k, .begun⟩ handle)) :
      Ends s (.confirm n attempt) (.call n)
  | confirmReturning {n : Nat} {m : Message} {k : ChannelKey} (attempt : Attempt)
      (h : s.calls[n]? = some (.confirming ⟨m, k, .begun⟩ .due)) :
      Ends s (.confirmReturning n attempt) (.call n)
  | release {l : Nat} {k : ChannelKey} (h : s.lease? l = some k) :
      Ends s (.leaseRelease l) (.lease l)

/-- A transition with which a call gives back its channel. -/
theorem released_step {s : Session α} {n : Nat} {c : Call α} {k : ChannelKey}
    (h : s.calls[n]? = some c) {f : Call α → Call α × List (Event α)} (hc : c.channel? = some k)
    (hn : (f c).1.channel? = none) (hg : given (f c).2 = [k]) :
    s.channelOf? (.call n) = some k ∧ (s.step n f).channelOf? (.call n) = none ∧
      (s.step n f).released = s.released ++ [k] := by
  have hl : n < s.calls.length := (List.getElem?_eq_some_iff.1 h).1
  rw [step_of_get h]
  refine ⟨by simp [channelOf?, h, hc], ?_, by rw [released_record, hg]; rfl⟩
  show ((s.calls.set n (f c).1)[n]?).bind Call.channel? = none
  rw [List.getElem?_set_self hl]
  exact hn

/-- Whoever is done with a channel gives it back in the same step. -/
theorem released_of_ends {s : Session α} {a : Action α} {holder : Holder} (h : s.Ends a holder) :
    ∃ k, s.channelOf? holder = some k ∧ (s.act a).channelOf? holder = none ∧
      (s.act a).released = s.released ++ [k] := by
  cases h with
  | publish attempt h => cases attempt <;> exact ⟨_, released_step h rfl rfl rfl⟩
  | cancel h => exact ⟨_, released_step h rfl rfl rfl⟩
  | confirm attempt h | confirmReturning attempt h => exact ⟨_, released_step h rfl rfl rfl⟩
  | @release l k h =>
    have hl : l < s.leases.length :=
      (List.getElem?_eq_some_iff.1 (Option.join_eq_some_iff.1 h)).1
    simp only [act, h]
    refine ⟨k, h, ?_, released_record _ _ _⟩
    show ((s.leases.set l none)[l]?).join = none
    rw [List.getElem?_set_self hl]
    rfl

/-- A channel leaves its holder only by being given back. -/
theorem released_of_parted {s : Session α} {a : Action α} {holder : Holder} {k : ChannelKey}
    (h : s.channelOf? holder = some k) (hn : (s.act a).channelOf? holder ≠ some k) :
    (s.act a).released = s.released ++ [k] := by
  obtain ⟨trader, taken, given, e⟩ := act_exchange s a
  by_cases ho : holder = trader
  · subst ho
    have own := e.own
    rw [h] at own
    generalize ht : (s.act a).channelOf? holder = after at own hn
    cases own with
    | keep => exact absurd rfl hn
    | give => exact e.released
  · exact absurd ((e.others holder ho).trans h) hn

/-- A channel whose body is refused goes back in the step in which it came. -/
theorem released_of_refused {s : Session α} {n : Nat} {job : Job} {failure : Failure}
    (h : s.calls[n]? = some (.acquiring job)) (hm : job.message = .error failure) :
    (s.act (.acquire n (.ok ()))).released = s.released ++ [s.acquired] := by
  have hp : s.pending? n = some .acquire := by simp [pending?, h, Call.pending?]
  simp only [act, Session.answer, if_pos hp]
  rw [step_of_get (s := { s with acquired := s.acquired + 1 }) h, released_record]
  simp only [Call.acquire, Call.withChannel, hm]
  rfl

/-- Once nothing is outstanding, what went out is back. -/
theorem Accounted.released_perm {s : Session α} (h : s.Accounted)
    (hc : ∀ n, s.pending? n = none) (hl : ∀ l, s.lease? l = none) : s.released.Perm s.granted := by
  have free (holder : Holder) (k : ChannelKey) : s.channelOf? holder ≠ some k := by
    cases holder with
    | lease l => simp [channelOf?, hl l]
    | call n =>
      intro hk
      obtain ⟨c, hn, hk⟩ := Option.bind_eq_some_iff.1 hk
      have hp : c.pending? = none := by simpa [pending?, hn] using hc n
      cases c with
      | confirming confirmation handle =>
        obtain ⟨m, j, progress⟩ := confirmation
        cases progress <;> simp [Call.channel?, Call.pending?] at hk hp
      | _ => simp [Call.channel?, Call.pending?] at hk hp
  rw [h.granted]
  refine (List.perm_ext_iff_of_nodup h.released_nodup List.nodup_range).2 fun k => ?_
  rw [List.mem_range, h.placed k]
  exact ⟨.inl, fun hk => hk.resolve_right fun ⟨holder, hk⟩ => free holder k hk⟩

/-- Every channel that goes out comes back exactly once: it is with one holder until that holder is
done with it, and is given back in that step. -/
theorem channels_released_exactly_once {s : Session α} (h : s.Reachable) :
    s.granted.Nodup ∧ s.released.Nodup ∧
    (∀ k, k ∈ s.granted ↔ k ∈ s.released ∨ ∃ holder, s.channelOf? holder = some k) ∧
    (∀ holder k, s.channelOf? holder = some k →
      k ∉ s.released ∧ ∀ other, s.channelOf? other = some k → other = holder) ∧
    (∀ a holder, s.Ends a holder → ∃ k, s.channelOf? holder = some k ∧
      (s.act a).channelOf? holder = none ∧ (s.act a).released = s.released ++ [k]) ∧
    (∀ a holder k, s.channelOf? holder = some k → (s.act a).channelOf? holder ≠ some k →
      (s.act a).released = s.released ++ [k]) ∧
    (∀ n job failure, s.calls[n]? = some (.acquiring job) → job.message = .error failure →
      (s.act (.acquire n (.ok ()))).released = s.released ++ [s.acquired]) ∧
    ((∀ n, s.pending? n = none) → (∀ l, s.lease? l = none) → s.released.Perm s.granted) := by
  have account := accounted h
  refine ⟨?_, account.released_nodup, ?_, ?_, ?_, ?_, ?_, account.released_perm⟩
  · rw [account.granted]
    exact List.nodup_range
  · intro k
    rw [account.granted, List.mem_range]
    exact account.placed k
  · intro holder k hk
    refine ⟨account.not_released hk, ?_⟩
    intro other ho
    exact account.one_holder hk ho
  · intro a holder he
    exact released_of_ends he
  · intro a holder k hk hn
    exact released_of_parted hk hn
  · intro n job failure hj hm
    exact released_of_refused hj hm

/-- A job that sends a text to a queue. -/
def textJob (queue text : String) (returns : Returns) : Job :=
  ⟨⟨"", queue, ∅, ∅, "body"⟩, ∅, .string text, returns, ⟨Body.encode, false⟩⟩

/-- A call dies in its publish while another waits for its confirmation, which fails, and while a
lease is open. -/
def stormyRun : List (Action Unit) :=
  [.dispatch (.ok (textJob "a" "x" .confirmation)), .acquire 0 (.ok ()), .lease (.ok ()),
    .dispatch (.ok (textJob "b" "y" .nothing)), .acquire 1 (.ok ()), .begin 0, .publish 1 .crashed,
    .confirm 0 (.failed .messageRefused), .leaseRelease 0]

theorem channels_released_exactly_once_stormyRun :
    (actAll {} stormyRun).released = [2, 0, 1] ∧
      (actAll {} stormyRun).released.Perm (actAll {} stormyRun).granted := by
  have h := channels_released_exactly_once (reachable_actAll .start stormyRun)
  refine ⟨rfl, h.2.2.2.2.2.2.2 ?_ ?_⟩
  · intro n
    match n with
    | 0 | 1 | _ + 2 => rfl
  · intro l
    match l with
    | 0 | _ + 1 => rfl

end Session

end Courier
