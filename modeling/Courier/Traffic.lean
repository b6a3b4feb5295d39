import Courier.ChannelReserve

/-!
# Calls over a link

The traffic of one link: any number of calls and direct leases that get their channels from the
link's reserve and publish on them. Its actions are the transitions of single calls, of the reserve
and of the broker, in any order; how an operation ends is here for the link to say. A confirmed
publish ends when the broker has settled its own delivery and not before.
-/

namespace Courier

/-- Calls and leases over the channels of a link. -/
structure Traffic (α : Type) where
  reserve : ChannelReserve := {}
  declarations : Declarations := ∅
  converter : Converter := ⟨Body.encode, false⟩
  /-- The calls, by number. -/
  calls : List (Call α) := []
  /-- The direct leases, by number, with the channels of those that are open. -/
  leases : List (Option ChannelKey) := []
  /-- Requests that found no idle channel, with their channel once it has been opened. -/
  requests : List (Owner × Option ChannelKey) := []
  log : List (Owner × Event α) := []

namespace Traffic

variable {α : Type}

/-- What can happen next. -/
inductive Action (α : Type) where
  | declare (d : Declaration)
  | call (i : Invocation)
  /-- The next handler answers a call. -/
  | proceed (call : Nat) (answer : α)
  /-- A call asks for its channel. -/
  | request (call : Nat)
  /-- A channel is opened for a request, or cannot be. -/
  | openFor (request : Nat)
  /-- A request's channel is made ready, or cannot be. -/
  | prepare (request : Nat)
  /-- A call publishes without waiting for the broker. -/
  | publish (call : Nat)
  /-- A call returns the handle of its confirmed publish, before or after any of the other actions
  on it. -/
  | handOver (call : Nat)
  /-- A call's confirmed publish goes out. -/
  | send (call : Nat)
  /-- A call's confirmed publish learns its verdict. -/
  | settle (call : Nat)
  | cancel (call : Nat)
  /-- The caller gives up a call whose message is on its way. -/
  | forsake (call : Nat)
  /-- The caller gives up a call in its publish where no background work can run. -/
  | cancelInPlace (call : Nat)
  | poll (call : Nat)
  | detach (call : Nat)
  /-- The holder of the direct leases asks for a channel. -/
  | lease
  | leasePublish (lease : Nat) (message : Message)
  | leaseRelease (lease : Nat)
  /-- A lease is given back where no background work can run. -/
  | leaseReleaseInPlace (lease : Nat)
  | closeSurplus (channel : ChannelKey)
  | loseChannel (channel : ChannelKey)
  | disconnect
  | setMode (mode : AnswerMode)
  /-- The broker answers the publish with a tag on the channel with a number, or all up to it. -/
  | answer (number tag : Nat) (ack multiple : Bool)

/-- The link. -/
def link (t : Traffic α) : Link := t.reserve.link

/-- Replaces the link. -/
def withLink (t : Traffic α) (link : Link) : Traffic α :=
  { t with reserve := { t.reserve with link } }

/-- Adds events of one owner to the log, and takes back the channels that they release. -/
def record (t : Traffic α) (owner : Owner) (events : List (Event α)) : Traffic α :=
  { t with
    log := t.log ++ events.map fun e => (owner, e)
    reserve := events.foldl (fun r e =>
      match e with
      | .released k => r.release k
      | _ => r) t.reserve }

/-- Applies a transition to a call. -/
def step (t : Traffic α) (n : Nat) (transition : Call α → Call α × List (Event α)) : Traffic α :=
  match t.calls[n]? with
  | some c =>
    let (c, events) := transition c
    { t with calls := t.calls.set n c }.record (.call n) events
  | none => t

/-- Hands a channel to the one who asked for it. -/
def grant (t : Traffic α) (owner : Owner) (k : ChannelKey) : Traffic α :=
  match owner with
  | .call n => t.step n (·.acquire (.ok k))
  | .lessee => { t with leases := t.leases ++ [some k] }.record .lessee [.acquired k]

/-- Tells the one who asked for a channel that there is none. -/
def refuse (t : Traffic α) (owner : Owner) (fault : LinkFault) : Traffic α :=
  match owner with
  | .call n => t.step n (·.acquire (.error (.link fault)))
  | .lessee => t.record .lessee [.unavailable (.link fault)]

/-- Asks the reserve for a channel. -/
def ask (t : Traffic α) (owner : Owner) : Traffic α :=
  match t.reserve.request with
  | (reserve, some k) => { t with reserve }.grant owner k
  | (reserve, none) => { t with reserve, requests := t.requests ++ [(owner, none)] }

/-- Whether an owner's request is under way. -/
def isAsking (t : Traffic α) (owner : Owner) : Bool := t.requests.any fun r => r.1 == owner

/-- The operation that a call is about to run or is running. -/
def pending? (t : Traffic α) (n : Nat) : Option Operation := (t.calls[n]?).bind Call.pending?

/-- Opens a channel for a request. -/
def openFor (t : Traffic α) (i : Nat) : Traffic α :=
  match t.requests[i]? with
  | some (owner, none) =>
    match t.reserve.openFor with
    | (reserve, .ok k) =>
      if reserve.settings.confirms then
        { t with reserve, requests := t.requests.set i (owner, some k) }
      else { t with reserve, requests := t.requests.eraseIdx i }.grant owner k
    | (reserve, .error fault) =>
      { t with reserve, requests := t.requests.eraseIdx i }.refuse owner fault
  | _ => t

/-- Makes a request's channel ready. -/
def prepare (t : Traffic α) (i : Nat) : Traffic α :=
  match t.requests[i]? with
  | some (owner, some k) =>
    match t.reserve.prepare k with
    | (reserve, .ok ()) =>
      { t with reserve, requests := t.requests.eraseIdx i }.grant owner k
    | (reserve, .error fault) =>
      { t with reserve, requests := t.requests.eraseIdx i }.refuse owner fault
  | _ => t

/-- Runs the publish of a call that does not wait for the broker. -/
def publish (t : Traffic α) (n : Nat) : Traffic α :=
  match t.calls[n]? with
  | some (.publishing m k) =>
    match t.link.publish k (.call n) m with
    | .ok link => (t.withLink link).step n (·.publish .done)
    | .error fault => t.step n (·.publish (.failed (.link fault)))
  | _ => t

/-- Sends out a call's confirmed publish, unless it has gone out. -/
def send (t : Traffic α) (n : Nat) : Traffic α :=
  match t.calls[n]? with
  | some (.confirming ⟨m, k, .spawned⟩ _) =>
    match t.link.publish k (.call n) m with
    | .ok link => (t.withLink link).step n Call.begin
    | .error fault => (t.step n Call.begin).step n (·.confirm (.failed (.link fault)))
  | _ => t

/-- Ends a call's confirmed publish, if there is a verdict on it. -/
def settle (t : Traffic α) (n : Nat) : Traffic α :=
  match t.calls[n]?, t.link.verdictFor? (.call n) with
  | some (.confirming ⟨_, k, .begun⟩ _), some (some verdict) =>
    t.step n (·.confirm (verdict.attempt (t.link.number k)))
  | _, _ => t

/-- Gives up a call, with its request if one is under way. -/
def cancel (t : Traffic α) (n : Nat) : Traffic α :=
  let withdrawn := match t.requests.find? fun r => r.1 == Owner.call n with
    | some (_, k) =>
      { t with
        reserve := t.reserve.withdraw k
        requests := t.requests.filter fun r => r.1 != Owner.call n }
    | none => t
  withdrawn.step n Call.cancel

/-- Gives up a call in its publish, after its message has gone out. -/
def forsake (t : Traffic α) (n : Nat) : Traffic α :=
  match t.calls[n]? with
  | some (.publishing m k) =>
    match t.link.publish k (.call n) m with
    | .ok link => (t.withLink link).step n Call.cancel
    | .error _ => t.step n Call.cancel
  | _ => t

/-- Takes a channel back where no background work can run. -/
def takeBackInPlace (t : Traffic α) (owner : Owner) (k : ChannelKey) : Traffic α :=
  { t with
    reserve := t.reserve.releaseInPlace k
    log := t.log ++ [(owner, .released k)] }

/-- Gives up a call in its publish where no background work can run. -/
def cancelInPlace (t : Traffic α) (n : Nat) : Traffic α :=
  match t.calls[n]? with
  | some (.publishing _ k) =>
    { t with calls := t.calls.set n .cancelled }.takeBackInPlace (.call n) k
  | _ => t

/-- The channel of an open lease. -/
def lease? (t : Traffic α) (lease : Nat) : Option ChannelKey := (t.leases[lease]?).join

/-- What the traffic is after an action. -/
def act (t : Traffic α) : Action α → Traffic α
  | .declare d => { t with declarations := t.declarations.declare d }
  | .call i =>
    let (c, events) := Call.start t.declarations t.converter i
    { t with calls := t.calls ++ [c] }.record (.call t.calls.length) events
  | .proceed n answer => t.step n (·.proceed answer)
  | .request n =>
    if t.pending? n = some .acquire ∧ !t.isAsking (.call n) then t.ask (.call n) else t
  | .openFor i => t.openFor i
  | .prepare i => t.prepare i
  | .publish n => t.publish n
  | .handOver n => t.step n Call.handOver
  | .send n => t.send n
  | .settle n => t.settle n
  | .cancel n => t.cancel n
  | .forsake n => t.forsake n
  | .cancelInPlace n => t.cancelInPlace n
  | .poll n => t.step n fun c => (c.poll.1, [])
  | .detach n => t.step n fun c => (c.detach, [])
  | .lease => t.ask .lessee
  | .leasePublish lease m =>
    match t.lease? lease with
    | some k =>
      match t.link.publish k .lessee m with
      | .ok link => (t.withLink link).record .lessee [.attempted .publish k m .done]
      | .error fault => t.record .lessee [.attempted .publish k m (.failed (.link fault))]
    | none => t
  | .leaseRelease lease =>
    match t.lease? lease with
    | some k => { t with leases := t.leases.set lease none }.record .lessee [.released k]
    | none => t
  | .leaseReleaseInPlace lease =>
    match t.lease? lease with
    | some k => { t with leases := t.leases.set lease none }.takeBackInPlace .lessee k
    | none => t
  | .closeSurplus k =>
    if k ∈ t.reserve.surplus then { t with reserve := t.reserve.closeSurplus k } else t
  | .loseChannel k => t.withLink (t.link.loseChannel k)
  | .disconnect => t.withLink t.link.disconnect
  | .setMode mode => t.withLink { t.link with mode }
  | .answer number tag ack multiple => t.withLink (t.link.answer number tag ack multiple)

/-- The traffic that actions lead to from a link without channels and without calls. -/
inductive Reachable (settings : ReserveSettings) : Traffic α → Prop where
  | start (channelMax : Nat) (mode : AnswerMode) :
      Reachable settings { reserve := { link := { channelMax, mode }, settings } }
  | act {t : Traffic α} (a : Action α) : Reachable settings t → Reachable settings (t.act a)

/-- Takes actions in order. -/
def actAll (t : Traffic α) (actions : List (Action α)) : Traffic α := actions.foldl act t

theorem reachable_actAll {settings : ReserveSettings} {t : Traffic α} (h : Reachable settings t)
    (actions : List (Action α)) : Reachable settings (t.actAll actions) := by
  induction actions generalizing t with
  | nil => exact h
  | cons a rest ih => exact ih (h.act a)

/-- The index of an owner's request. -/
def requestIndex? (t : Traffic α) (owner : Owner) : Option Nat :=
  t.requests.findIdx? fun r => r.1 == owner

/-- Takes an action on an owner's request, if one is under way. -/
def onRequest (t : Traffic α) (owner : Owner) (action : Nat → Action α) : Traffic α :=
  match t.requestIndex? owner with
  | some i => t.act (action i)
  | none => t

/-- Opens and makes ready the channel that an owner's request waits for. -/
def serve (t : Traffic α) (owner : Owner) : Traffic α :=
  (t.onRequest owner .openFor).onRequest owner .prepare

/-- The next handler answers a forwarded call with what it got. -/
def forward (t : Traffic Invocation) (n : Nat) : Traffic Invocation :=
  match t.calls[n]? with
  | some (.forwarding i) => t.act (.proceed n i)
  | _ => t

/-- Lets a call run until it has ended or waits for the broker. -/
def advance (t : Traffic Invocation) (n : Nat) : Traffic Invocation :=
  (((t.forward n).act (.request n)).serve (.call n)).actAll
    [.publish n, .handOver n, .send n, .settle n]

/-- Lets everything run that can: confirmed publishes learn their verdicts, and surplus channels
are closed. -/
def rest (t : Traffic Invocation) : Traffic Invocation :=
  let t := t.actAll ((List.range t.calls.length).map .settle)
  t.actAll (t.reserve.surplus.reverse.map .closeSurplus)

/-- A call arrives and runs until it has ended or waits for the broker. -/
def call (t : Traffic Invocation) (i : Invocation) : Traffic Invocation :=
  (t.act (.call i)).advance t.calls.length

end Traffic

end Courier
