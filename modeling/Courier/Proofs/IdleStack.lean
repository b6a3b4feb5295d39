import Courier.Proofs.ChannelLife

/-!
# The idle channels as a stack

A request takes the newest idle channel that is connected, and with it the dead ones above it; what
lies below is left as it is. So the idle channels that are connected form a stack, `live`: a channel
that is kept is put on top, a request takes the top, and nothing else touches it, except that
channels which end fall out wherever they are (`act_stackRun` for one action, `actAll_stackRun` for
a run). `acquire` is a request with the opening of a channel, where nothing comes between.
-/

namespace Courier

/-! ## Stacks -/

/-- What happens to a stack of channels. -/
inductive StackEvent where
  /-- A channel is put on top. -/
  | put (k : ChannelKey)
  /-- The top is asked for, and given if there is one. -/
  | take (answer : Option ChannelKey)
  /-- The channels that a condition picks out end. -/
  | lose (lost : ChannelKey → Bool)

/-- What an event makes of a stack, its top at the front. -/
inductive StackStep : List ChannelKey → StackEvent → List ChannelKey → Prop where
  | put (k : ChannelKey) (s : List ChannelKey) : StackStep s (.put k) (k :: s)
  | take (k : ChannelKey) (s : List ChannelKey) : StackStep (k :: s) (.take (some k)) s
  | empty : StackStep [] (.take none) []
  | lose (lost : ChannelKey → Bool) (s : List ChannelKey) :
      StackStep s (.lose lost) (s.filter fun k => !lost k)

/-- What events in order make of a stack. -/
inductive StackRun : List ChannelKey → List StackEvent → List ChannelKey → Prop where
  | done (s : List ChannelKey) : StackRun s [] s
  | step {s t u : List ChannelKey} {e : StackEvent} {es : List StackEvent}
      (first : StackStep s e t) (rest : StackRun t es u) : StackRun s (e :: es) u

theorem StackStep.run {s t : List ChannelKey} {e : StackEvent} (h : StackStep s e t) :
    StackRun s [e] t :=
  .step h (.done t)

theorem StackRun.append {s t u : List ChannelKey} {es fs : List StackEvent}
    (h : StackRun s es t) (h' : StackRun t fs u) : StackRun s (es ++ fs) u := by
  induction h with
  | done => exact h'
  | step first _ ih => exact .step first (ih h')

namespace ChannelReserve

variable {settings : ReserveSettings} {r : ChannelReserve} {k : ChannelKey}

/-- The idle channels that are connected, the one that came back last at the front. -/
def live (r : ChannelReserve) : List ChannelKey := r.idle.filter r.link.isConnected

/-! ## One action -/

/-- Whether channels can end in an action that the reserve does not take itself. -/
def Action.isLoss : Action → Bool
  | .loseChannel _ | .disconnect => true
  | _ => false

/-- Whether an action can add to the idle channels or take from them. -/
def Action.movesIdle : Action → Bool
  | .request | .release _ | .releaseInPlace _ => true
  | _ => false

/-- Only requests and channels that come back change the idle channels. -/
theorem idle_act (r : ChannelReserve) {a : Action} (ha : a.movesIdle = false) :
    (r.act a).idle = r.idle := by
  have guarded {s : ChannelReserve} {p : Prop} [Decidable p] (hs : s.idle = r.idle) :
      (if p then s else r).idle = r.idle :=
    of_guard (P := fun s => s.idle = r.idle) rfl fun _ => hs
  have other (ho : a.movesReady = false) : (r.act a).idle = r.idle := (r.act_frame ho).1
  cases a with
  | request => cases ha
  | release => cases ha
  | releaseInPlace => cases ha
  | abandon j => exact guarded rfl
  | closeSurplus j => exact guarded (r.closeSurplus_frame j).2.2.1
  | _ => exact other rfl

/-- An idle channel ends only when the broker closes it or the connection is closed. -/
theorem isConnected_act (h : Sound settings r) (hk : k ∈ r.idle) {a : Action}
    (ha : a.isLoss = false) : (r.act a).link.isConnected k = r.link.isConnected k := by
  have guarded {s : ChannelReserve} {p : Prop} [Decidable p]
      (hs : p → s.link.isConnected k = r.link.isConnected k) :
      (if p then s else r).link.isConnected k = r.link.isConnected k :=
    of_guard (P := fun s => s.link.isConnected k = r.link.isConnected k) rfl hs
  -- the reserve closes channels itself, but none that is idle
  have closed {j : ChannelKey} {p : Place} (hj : j ∈ r.members p) (hp : p ≠ .idle)
      (text : String) : (r.link.closeChannel j text).isConnected k = r.link.isConnected k := by
    have apart : j ≠ k := by
      rintro rfl
      exact hp ((h.place_of_mem hj).symm.trans (h.place_of_mem (p := .idle) hk))
    rw [Link.isConnected_closeChannel, decide_eq_true apart, Bool.and_true]
  cases a with
  | request => rw [act, link_request]
  | openFor =>
    refine guarded fun _ => ?_
    simp only [openFor]
    split
    next l j ho =>
      have opened : l.isConnected k = r.link.isConnected k := by
        have older : k < r.link.channels.length := h.lt_of_mem (p := .idle) hk
        obtain ⟨rfl, -⟩ := Link.openChannel_eq_ok ho
        rw [(Link.opened_of_openChannel ho k).1, decide_eq_false (Nat.ne_of_gt older),
          Bool.or_false]
      split <;> exact opened
    next => rfl
  | prepare j =>
    refine guarded fun hj => ?_
    simp only [prepare]
    split
    next l hl => exact (Link.selectConfirms_eq_ok hl k).2.1
    next => exact closed (p := .opening) hj (by decide) _
  | withdraw j =>
    cases j with
    | none => exact guarded fun _ => rfl
    | some j => exact guarded fun hj => closed (p := .opening) hj (by decide) _
  | release j => exact guarded fun _ => by rw [link_release]
  | releaseInPlace j =>
    refine guarded fun hj => ?_
    unfold releaseInPlace
    split
    · exact closed (p := .leased) hj (by decide) _
    · rw [link_release]
  | abandon j => exact guarded fun hj => closed (p := .leased) hj (by decide) _
  | closeSurplus j =>
    refine guarded fun hj => ?_
    simp only [closeSurplus]
    split
    · exact closed (p := .surplus) hj (by decide) _
    · rfl
  | publish j sender m =>
    refine guarded fun _ => ?_
    split
    next l hl => exact (Link.publish_eq_ok hl k).2.1
    next => rfl
  | loseChannel j => cases ha
  | disconnect => cases ha

/-- A channel that comes back is kept: it is leased and connected, and there is room for it. -/
def Keeps (r : ChannelReserve) (k : ChannelKey) : Prop :=
  k ∈ r.leased ∧ r.link.isConnected k = true ∧ r.idle.length < r.settings.maxIdle

instance (r : ChannelReserve) (k : ChannelKey) : Decidable (r.Keeps k) :=
  inferInstanceAs (Decidable (_ ∧ _ ∧ _))

/-- What an action does to the stack of connected idle channels, if it does anything to it. -/
def stackEvent? (r : ChannelReserve) : Action → Option StackEvent
  | .request => some (.take r.request.2)
  | .release k | .releaseInPlace k => if r.Keeps k then some (.put k) else none
  | .loseChannel k => some (.lose fun j => j = k)
  | .disconnect => if r.link.up then some (.lose fun _ => true) else none
  | _ => none

theorem act_release_of_keeps (h : r.Keeps k) : r.act (.release k) =
    { r with leased := r.leased.erase k, idle := k :: r.idle } := by
  obtain ⟨leased, connected, room⟩ := h
  rw [act, if_pos leased, release_kept connected room]

/-- Where no background work can run, the same channels are kept. -/
theorem act_releaseInPlace_of_keeps (h : r.Keeps k) :
    r.act (.releaseInPlace k) = r.act (.release k) := by
  have room : (r.link.isConnected k && decide (r.settings.maxIdle ≤ r.idle.length)) = false := by
    rw [decide_eq_false (Nat.not_le_of_lt h.2.2), Bool.and_false]
  rw [act, act, if_pos h.1, if_pos h.1, releaseInPlace, room, if_neg Bool.false_ne_true]

theorem idle_release_of_not_keeps (h : ¬ r.Keeps k) : (r.act (.release k)).idle = r.idle := by
  rw [act]
  split
  next leased =>
    rcases r.release_cases k with ⟨-, e⟩ | ⟨connected, room, -⟩ | ⟨-, -, e⟩
    · rw [e]
    · exact absurd ⟨leased, connected, room⟩ h
    · rw [e]
  next => rfl

theorem idle_releaseInPlace_of_not_keeps (h : ¬ r.Keeps k) :
    (r.act (.releaseInPlace k)).idle = r.idle := by
  have released := idle_release_of_not_keeps h
  simp only [act] at released ⊢
  split
  next leased =>
    rw [if_pos leased] at released
    unfold releaseInPlace
    split
    · rfl
    · exact released
  next => rfl

theorem stackStep_request (r : ChannelReserve) :
    StackStep r.live (.take r.request.2) r.request.1.live := by
  rcases r.idle_cases with ⟨newer, k, older, hi, dead, hk⟩ | dead
  · have none_above : newer.filter r.link.isConnected = [] := by
      rw [List.filter_eq_nil_iff]
      intro j hj
      rw [dead j hj]
      exact Bool.false_ne_true
    have before : r.live = k :: older.filter r.link.isConnected := by
      rw [live, hi, List.filter_append, none_above, List.filter_cons_of_pos hk, List.nil_append]
    rw [before, request_served hi dead hk]
    exact .take k _
  · have before : r.live = [] := by
      rw [live, List.filter_eq_nil_iff]
      intro j hj
      rw [dead j hj]
      exact Bool.false_ne_true
    rw [before, request_unserved dead]
    exact .empty

/-- An action that leaves the idle channels in place, and under which none of them ends. -/
theorem live_act (h : Sound settings r) {a : Action} (ha : a.isLoss = false)
    (hi : (r.act a).idle = r.idle) : (r.act a).live = r.live := by
  rw [live, live, hi]
  exact List.filter_congr fun k hk => isConnected_act h hk ha

/-- A channel that is kept is put on the stack, and one that is not leaves it as it is. -/
theorem stackRun_of_keeps (h : Sound settings r) {a : Action} (ha : a.isLoss = false)
    (kept : r.Keeps k → r.act a = { r with leased := r.leased.erase k, idle := k :: r.idle })
    (unkept : ¬ r.Keeps k → (r.act a).idle = r.idle) :
    StackRun r.live (if r.Keeps k then some (.put k) else none : Option StackEvent).toList
      (r.act a).live := by
  split
  next keeps =>
    have after : (r.act a).live = k :: r.live := by
      rw [kept keeps, live, live]
      exact List.filter_cons_of_pos keeps.2.1
    rw [after]
    exact (StackStep.put k _).run
  next keeps =>
    rw [live_act h ha (unkept keeps)]
    exact .done _

/-- Whatever happens in a reserve, the idle channels that are connected stay a stack. -/
theorem act_stackRun (h : Sound settings r) (a : Action) :
    StackRun r.live (r.stackEvent? a).toList (r.act a).live := by
  have quiet (ha : a.isLoss = false) (hi : a.movesIdle = false) :
      StackRun r.live [] (r.act a).live := by
    rw [live_act h ha (idle_act r hi)]
    exact .done _
  cases a with
  | request => exact (stackStep_request r).run
  | release k => exact stackRun_of_keeps h rfl act_release_of_keeps idle_release_of_not_keeps
  | releaseInPlace k =>
    refine stackRun_of_keeps h rfl (fun keeps => ?_) idle_releaseInPlace_of_not_keeps
    rw [act_releaseInPlace_of_keeps keeps, act_release_of_keeps keeps]
  | loseChannel k =>
    have after : (r.act (.loseChannel k)).live = r.live.filter fun j => !decide (j = k) := by
      rw [live, live, List.filter_filter]
      refine List.filter_congr fun j _ => ?_
      rw [act, Link.isConnected_loseChannel, Bool.and_comm, ← decide_not]
      exact congrArg (· && r.link.isConnected j) (decide_eq_decide.2 ⟨Ne.symm, Ne.symm⟩)
    rw [after]
    exact (StackStep.lose _ _).run
  | disconnect =>
    simp only [stackEvent?]
    split
    next up =>
      have after : (r.act .disconnect).live = r.live.filter fun _ => !true := by
        rw [live, List.filter_eq_nil_iff.2 fun k _ => ?_, Bool.not_true, List.filter_false]
        rw [act, Link.isConnected_disconnect _ _ up]
        exact Bool.false_ne_true
      rw [after]
      exact (StackStep.lose _ _).run
    next down =>
      rw [act, Link.disconnect, if_neg down]
      exact .done _
  | _ => exact quiet rfl rfl

/-- What actions in order do to the stack of connected idle channels. -/
def stackEvents (r : ChannelReserve) : List Action → List StackEvent
  | [] => []
  | a :: rest => (r.stackEvent? a).toList ++ (r.act a).stackEvents rest

theorem actAll_stackRun (h : Reachable settings r) (actions : List Action) :
    StackRun r.live (r.stackEvents actions) (r.actAll actions).live := by
  induction actions generalizing r with
  | nil => exact .done _
  | cons a rest ih => exact (act_stackRun (sound h) a).append (ih (h.act a))

/-- A channel becomes idle only as it is kept. -/
theorem mem_idle_act {a : Action} (hk : k ∈ (r.act a).idle) :
    k ∈ r.idle ∨ r.link.isConnected k = true ∧ (r.act a).link = r.link := by
  have kept {j : ChannelKey} (keeps : r.Keeps j)
      (ha : r.act a = { r with leased := r.leased.erase j, idle := j :: r.idle }) :
      k ∈ r.idle ∨ r.link.isConnected k = true ∧ (r.act a).link = r.link := by
    rw [ha, List.mem_cons] at hk
    rcases hk with rfl | hk
    · exact .inr ⟨keeps.2.1, by rw [ha]⟩
    · exact .inl hk
  have quiet (ha : a.movesIdle = false) : k ∈ r.idle := idle_act r ha ▸ hk
  cases a with
  | request =>
    rcases r.idle_cases with ⟨newer, j, older, hi, dead, hj⟩ | dead
    · rw [act, request_served hi dead hj] at hk
      refine .inl ?_
      rw [hi]
      exact List.mem_append_right _ (List.mem_cons_of_mem _ hk)
    · rw [act, request_unserved dead] at hk
      cases hk
  | release j =>
    by_cases keeps : r.Keeps j
    · exact kept keeps (act_release_of_keeps keeps)
    · exact .inl (idle_release_of_not_keeps keeps ▸ hk)
  | releaseInPlace j =>
    by_cases keeps : r.Keeps j
    · exact kept keeps ((act_releaseInPlace_of_keeps keeps).trans (act_release_of_keeps keeps))
    · exact .inl (idle_releaseInPlace_of_not_keeps keeps ▸ hk)
  | _ => exact .inl (quiet rfl)

/-- As long as no channel ends, all the idle channels are connected. -/
theorem live_eq_idle (h : Reachable settings r) (hl : r.live = r.idle) {actions : List Action}
    (ha : ∀ a ∈ actions, a.isLoss = false) :
    (r.actAll actions).live = (r.actAll actions).idle := by
  induction actions generalizing r with
  | nil => exact hl
  | cons a rest ih =>
    rw [List.forall_mem_cons] at ha
    refine ih (h.act a) ?_ ha.2
    rw [live, List.filter_eq_self] at hl ⊢
    intro k hk
    rcases mem_idle_act hk with old | ⟨connected, link⟩
    · rw [isConnected_act (sound h) old ha.1]
      exact hl k old
    · rw [link]
      exact connected

/-! ## Acquires that nothing comes between -/

/-- Opens a channel for a waiting request and makes it ready. -/
def openReady (r : ChannelReserve) : ChannelReserve × Except LinkFault ChannelKey :=
  match r.openFor.2 with
  | .ok k =>
    if r.settings.confirms then
      ((r.openFor.1.prepare k).1, (r.openFor.1.prepare k).2.map fun _ => k)
    else r.openFor
  | .error _ => r.openFor

/-- Answers a request at once: with an idle channel, or with one that is opened for it. -/
def acquire (r : ChannelReserve) : ChannelReserve × Except LinkFault ChannelKey :=
  match r.request.2 with
  | some k => (r.request.1, .ok k)
  | none => r.request.1.openReady

theorem openReady_error {fault : LinkFault} (h : r.link.openChannel = .error fault) :
    r.openReady = ({ r with waiting := r.waiting - 1 }, .error fault) := by
  have failed : r.openFor = ({ r with waiting := r.waiting - 1 }, .error fault) := by
    simp only [openFor, h]
  rw [openReady, failed]

/-- A channel that has been opened is made ready: it is connected, as nothing has come between. -/
theorem openReady_ok {l : Link} (h : r.link.openChannel = .ok (l, k)) :
    r.openReady.2 = .ok k ∧
      r.openReady.1.link.channels.length = r.link.channels.length + 1 := by
  have length := (Link.openChannel_eq_ok h).2
  have connected : l.isConnected k = true := by
    rw [(Link.opened_of_openChannel h k).1, decide_eq_true rfl, Bool.or_true]
  obtain ⟨ready, hr⟩ := Link.exists_selectConfirms connected
  cases hc : r.settings.confirms with
  | true =>
    simp only [openReady, openFor, h, hc, if_true, prepare, hr, Except.map, true_and]
    exact (Link.length_selectConfirms hr).trans length
  | false =>
    simp only [openReady, openFor, h, hc, Bool.false_eq_true, if_false, true_and]
    exact length

@[simp] theorem idle_openReady (r : ChannelReserve) : r.openReady.1.idle = r.idle := by
  unfold openReady
  split
  · split
    · rw [(prepare_frame _ _).1, r.openFor_frame.1]
    · exact r.openFor_frame.1
  · exact r.openFor_frame.1

/-- Opening a channel is a run that leaves the stack alone. -/
theorem exists_openReady_eq_actAll (h : 0 < r.waiting) : ∃ actions,
    r.openReady.1 = r.actAll actions ∧ r.stackEvents actions = [] := by
  have first : r.act .openFor = r.openFor.1 := by rw [act, if_pos h]
  unfold openReady
  split
  next k ho =>
    split
    next confirms =>
      have opening : k ∈ r.openFor.1.opening := by
        cases hl : r.link.openChannel with
        | error fault => simp [openFor, hl] at ho
        | ok opened =>
          simp only [openFor, hl, confirms, if_true, Except.ok.injEq] at ho ⊢
          rw [ho]
          exact List.mem_cons_self
      refine ⟨[.openFor, .prepare k], ?_, rfl⟩
      simp only [actAll, List.foldl_cons, List.foldl_nil, first]
      rw [act, if_pos opening]
    next => exact ⟨[.openFor], first.symm, rfl⟩
  next => exact ⟨[.openFor], first.symm, rfl⟩

/-- An acquire is a run in which the stack is asked once. -/
theorem exists_acquire_eq_actAll (r : ChannelReserve) : ∃ actions,
    r.acquire.1 = r.actAll actions ∧ r.stackEvents actions = [.take r.request.2] := by
  unfold acquire
  cases hr : r.request.2 with
  | some k => exact ⟨[.request], rfl, by simp only [stackEvents, stackEvent?, hr]; rfl⟩
  | none =>
    have waiting : 0 < r.request.1.waiting := by
      rw [request_unserved (request_eq_none_iff.1 hr)]
      exact Nat.succ_pos _
    obtain ⟨actions, opened, quiet⟩ := exists_openReady_eq_actAll waiting
    refine ⟨.request :: actions, opened, ?_⟩
    simp only [stackEvents, stackEvent?, hr]
    exact congrArg (StackEvent.take none :: ·) quiet

/-- The steps in which a channel is opened for a request, or the request is given up. -/
def Action.isOpening : Action → Bool
  | .openFor | .prepare _ | .withdraw _ => true
  | _ => false

theorem idle_act_of_isOpening {a : Action} (ha : a.isOpening = true) : (r.act a).idle = r.idle := by
  cases a with
  | openFor => exact idle_act r rfl
  | prepare => exact idle_act r rfl
  | withdraw => exact idle_act r rfl
  | _ => cases ha

theorem acquire_served {newer older : List ChannelKey} (hi : r.idle = newer ++ k :: older)
    (dead : ∀ j ∈ newer, r.link.isConnected j = false) (hk : r.link.isConnected k = true) :
    r.acquire.2 = .ok k ∧ r.acquire.1.idle = older ∧ r.acquire.1.link = r.link := by
  have request := request_served hi dead hk
  rw [acquire, request]
  exact ⟨rfl, rfl, rfl⟩

theorem acquire_unserved (dead : ∀ j ∈ r.idle, r.link.isConnected j = false) :
    r.acquire = r.request.1.openReady := by
  rw [acquire, request_eq_none_iff.2 dead]

/-- Where a channel can be opened, one is if and only if no idle channel is connected. -/
theorem opens_iff {l : Link} (h : r.link.openChannel = .ok (l, k)) :
    r.acquire.1.link.channels.length = r.link.channels.length + 1 ↔
      ∀ j ∈ r.idle, r.link.isConnected j = false := by
  constructor
  · intro length
    rcases r.idle_cases with ⟨newer, j, older, hi, dead, hj⟩ | dead
    · obtain ⟨-, -, link⟩ := acquire_served hi dead hj
      rw [link] at length
      omega
    · exact dead
  · intro dead
    rw [← link_request (r := r)] at h
    rw [acquire_unserved dead, (openReady_ok h).2, link_request]

/-- Where none can be opened, an acquire fails if and only if no idle channel is connected. -/
theorem fails_iff {fault : LinkFault} (h : r.link.openChannel = .error fault) :
    r.acquire.2 = .error fault ↔ ∀ j ∈ r.idle, r.link.isConnected j = false := by
  constructor
  · intro failed
    rcases r.idle_cases with ⟨newer, j, older, hi, dead, hj⟩ | dead
    · obtain ⟨taken, -, -⟩ := acquire_served hi dead hj
      rw [taken] at failed
      cases failed
    · exact dead
  · intro dead
    rw [← link_request (r := r)] at h
    rw [acquire_unserved dead, openReady_error h]

/-- An acquire takes the idle channel that came back last and is still connected. It takes from the
idle channels that one and the dead ones above it, and leaves those below where they are, connected
or not. A channel is opened if and only if none is connected, and then no idle channel is left, even
if opening fails or the request is given up. Whatever happens in a reserve, the idle channels that
are connected are a stack on which kept channels are put and from which requests take; as long as no
channel ends, so are the idle channels. So an acquire right after a channel is kept returns that
channel. -/
theorem newest_connected_is_reused (r : ChannelReserve) :
    (∀ newer k older, r.idle = newer ++ k :: older →
      (∀ j ∈ newer, r.link.isConnected j = false) → r.link.isConnected k = true →
      r.acquire.2 = .ok k ∧ r.acquire.1.idle = older ∧ r.acquire.1.link = r.link) ∧
    (∀ l k, r.link.openChannel = .ok (l, k) →
      (r.acquire.1.link.channels.length = r.link.channels.length + 1 ↔
        ∀ j ∈ r.idle, r.link.isConnected j = false) ∧
      ((∀ j ∈ r.idle, r.link.isConnected j = false) → r.acquire.2 = .ok k)) ∧
    (∀ fault, r.link.openChannel = .error fault →
      (r.acquire.2 = .error fault ↔ ∀ j ∈ r.idle, r.link.isConnected j = false)) ∧
    ((∀ j ∈ r.idle, r.link.isConnected j = false) → r.acquire.1.idle = []) ∧
    (∀ a : Action, a.isOpening = true → (r.act a).idle = r.idle) ∧
    (∀ k, r.Keeps k → (r.act (.release k)).acquire.2 = .ok k ∧
      (r.act (.release k)).acquire.1.idle = r.idle) ∧
    (∃ actions, r.acquire.1 = r.actAll actions ∧
      r.stackEvents actions = [.take r.request.2]) ∧
    ∀ settings actions, Reachable settings r →
      StackRun r.live (r.stackEvents actions) (r.actAll actions).live ∧
      (r.live = r.idle → (∀ a ∈ actions, a.isLoss = false) →
        StackRun r.idle (r.stackEvents actions) (r.actAll actions).idle) := by
  refine ⟨fun _ _ _ => acquire_served, fun l k h => ⟨opens_iff h, fun dead => ?_⟩,
    fun fault h => fails_iff h, fun dead => ?_, fun _ => idle_act_of_isOpening, fun k keeps => ?_,
    exists_acquire_eq_actAll r, fun settings actions h => ⟨actAll_stackRun h actions, ?_⟩⟩
  · rw [← link_request (r := r)] at h
    rw [acquire_unserved dead]
    exact (openReady_ok h).1
  · rw [acquire_unserved dead, idle_openReady, request_unserved dead]
  · have kept := act_release_of_keeps keeps
    have hi : (r.act (.release k)).idle = [] ++ k :: r.idle := by rw [kept, List.nil_append]
    have hk : (r.act (.release k)).link.isConnected k = true := by
      rw [kept]
      exact keeps.2.1
    obtain ⟨taken, left, -⟩ := acquire_served hi (fun _ hj => by cases hj) hk
    exact ⟨taken, left⟩
  · intro hl quiet
    rw [← live_eq_idle h hl quiet, ← hl]
    exact actAll_stackRun h actions

/-- Three channels come back, and the first and the last of them are lost. -/
def thinnedRun : List Action :=
  [.request, .openFor, .prepare 0, .request, .openFor, .prepare 1, .request, .openFor, .prepare 2,
    .release 0, .release 1, .release 2, .loseChannel 2, .loseChannel 0]

theorem newest_connected_is_reused_thinnedRun :
    let r := actAll { link := { channelMax := 4 } } thinnedRun
    r.acquire.2 = .ok 1 ∧ r.acquire.1.idle = [0] ∧ r.live = [1] ∧
      StackRun [1] [.take (some 1), .put 1, .take (some 1)]
        (r.actAll [.request, .release 1, .request]).live := by
  intro r
  have reached : Reachable {} r := reachable_actAll (.start 4 .ack) _
  have events : r.stackEvents [.request, .release 1, .request] =
      [.take (some 1), .put 1, .take (some 1)] := by rfl
  obtain ⟨served, -, -, -, -, -, -, stack⟩ := newest_connected_is_reused r
  obtain ⟨taken, left, -⟩ := served [2] 1 [0] rfl (by decide) rfl
  have run := (stack {} [.request, .release 1, .request] reached).1
  rw [events] at run
  exact ⟨taken, left, rfl, run⟩

end ChannelReserve

end Courier
