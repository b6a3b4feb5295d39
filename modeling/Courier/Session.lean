import Courier.Call

/-!
# Sessions over a pool of fresh channels

A session is any number of calls and direct leases over a pool that hands out a new channel each
time. A key stands for one hand-out: nobody can tell a channel that a pool hands out again from a
new one. The actions are the transitions of single calls and leases, in any order: an action says
which call it concerns and how the operation ends. `Session.log` is what has happened, each event
with the one who caused it.
-/

namespace Courier

/-- Calls and leases over a pool of fresh channels. -/
structure Session (α : Type) where
  declarations : Declarations := ∅
  /-- The calls, by number. -/
  calls : List (Call α) := []
  /-- The direct leases, by number, with the channels of those that are open. -/
  leases : List (Option ChannelKey) := []
  /-- How many channels the pool has handed out. -/
  acquired : Nat := 0
  log : List (Owner × Event α) := []

namespace Session

variable {α : Type}

/-- What can happen next in a session. -/
inductive Action (α : Type) where
  | declare (d : Declaration)
  | call (converter : Converter) (i : Invocation)
  /-- A job arrives; one that could not be made only takes up a call number. -/
  | dispatch (job : Except Failure Job)
  /-- The next handler answers a call. -/
  | proceed (call : Nat) (answer : α)
  /-- The operation that a call is about to run or is running has to wait. -/
  | hold (call : Nat)
  | acquire (call : Nat) (answer : Except Cause Unit)
  | publish (call : Nat) (attempt : Attempt)
  /-- A call returns the handle of its confirmed publish. -/
  | handOver (call : Nat)
  /-- The task of a confirmed publish runs for the first time. -/
  | begin (call : Nat)
  | confirm (call : Nat) (attempt : Attempt)
  /-- A confirmed publish ends, and its call returns before the channel is back. -/
  | confirmReturning (call : Nat) (attempt : Attempt)
  | cancel (call : Nat)
  | poll (call : Nat)
  | detach (call : Nat)
  | lease (answer : Except Cause Unit)
  | leasePublish (lease : Nat) (message : Message) (attempt : Attempt)
  | leaseRelease (lease : Nat)

/-- Adds events of one owner to the log. -/
def record (s : Session α) (owner : Owner) (events : List (Event α)) : Session α :=
  { s with log := s.log ++ events.map fun e => (owner, e) }

/-- Adds a call with its first events. -/
def add (s : Session α) (call : Call α × List (Event α)) : Session α :=
  { s with calls := s.calls ++ [call.1] }.record (.call s.calls.length) call.2

/-- Applies a transition to a call. -/
def step (s : Session α) (n : Nat) (transition : Call α → Call α × List (Event α)) : Session α :=
  match s.calls[n]? with
  | some c =>
    let (c, events) := transition c
    { s with calls := s.calls.set n c }.record (.call n) events
  | none => s

/-- The operation that a call is about to run or is running. -/
def pending? (s : Session α) (n : Nat) : Option Operation := (s.calls[n]?).bind Call.pending?

/-- The pool answers a call: a channel is the next one that has not been handed out. -/
def answer (s : Session α) (n : Nat) : Except Cause Unit → Session α
  | .ok () =>
    if s.pending? n = some .acquire then
      { s with acquired := s.acquired + 1 }.step n (·.acquire (.ok s.acquired))
    else s
  | .error cause => s.step n (·.acquire (.error cause))

/-- The channel of an open lease. -/
def lease? (s : Session α) (lease : Nat) : Option ChannelKey := (s.leases[lease]?).join

/-- What a session is after an action. -/
def act (s : Session α) : Action α → Session α
  | .declare d => { s with declarations := s.declarations.declare d }
  | .call converter i => s.add (Call.start s.declarations converter i)
  | .dispatch (.ok job) => s.add (.acquiring job, [])
  | .dispatch (.error failure) => s.add (.returned (.failed failure), [])
  | .proceed n answer => s.step n (·.proceed answer)
  | .hold n => s.step n fun c => (c, c.pending?.toList.map .held)
  | .acquire n answer => s.answer n answer
  | .publish n attempt => s.step n (·.publish attempt)
  | .handOver n => s.step n Call.handOver
  | .begin n => s.step n Call.begin
  | .confirm n attempt => s.step n (·.confirm attempt)
  | .confirmReturning n attempt => s.step n (·.confirmReturning attempt)
  | .cancel n => s.step n Call.cancel
  | .poll n => s.step n fun c => (c.poll.1, [])
  | .detach n => s.step n fun c => (c.detach, [])
  | .lease (.ok ()) =>
    { s with acquired := s.acquired + 1, leases := s.leases ++ [some s.acquired] }.record .lessee
      [.acquired s.acquired]
  | .lease (.error cause) => s.record .lessee [.unavailable cause]
  | .leasePublish lease message attempt =>
    match s.lease? lease with
    | some channel => s.record .lessee
        [.began .publish channel message, .attempted .publish channel message attempt]
    | none => s
  | .leaseRelease lease =>
    match s.lease? lease with
    | some channel =>
      { s with leases := s.leases.set lease none }.record .lessee [.released channel]
    | none => s

/-- The session after actions in order. -/
def actAll (s : Session α) (actions : List (Action α)) : Session α := actions.foldl act s

/-- The sessions that actions lead to from one without calls. -/
inductive Reachable : Session α → Prop where
  | start : Reachable {}
  | act {s : Session α} (a : Action α) : Reachable s → Reachable (s.act a)

theorem reachable_actAll {s : Session α} (h : Reachable s) (actions : List (Action α)) :
    Reachable (s.actAll actions) := by
  induction actions generalizing s with
  | nil => exact h
  | cons a rest ih => exact ih (h.act a)

theorem reachable_iff {s : Session α} : Reachable s ↔ ∃ actions, s = actAll {} actions := by
  constructor
  · intro h
    induction h with
    | start => exact ⟨[], rfl⟩
    | act a _ ih =>
      obtain ⟨actions, rfl⟩ := ih
      exact ⟨actions ++ [a], by simp [actAll]⟩
  · rintro ⟨actions, rfl⟩
    exact reachable_actAll .start actions

/-- The channel that an event hands out. -/
def acquiredBy? : Event α → Option ChannelKey
  | .acquired channel => some channel
  | _ => none

/-- The channel that an event gives back. -/
def releasedBy? : Event α → Option ChannelKey
  | .released channel => some channel
  | _ => none

/-- The channels handed out so far, in order. -/
def granted (s : Session α) : List ChannelKey := s.log.filterMap fun e => acquiredBy? e.2

/-- The channels given back so far, in order. -/
def released (s : Session α) : List ChannelKey := s.log.filterMap fun e => releasedBy? e.2

/-- Who may hold a channel: a call, in its publish or in its confirmed publish, or an open lease. -/
inductive Holder where
  | call (n : Nat)
  | lease (n : Nat)
deriving DecidableEq

/-- The channel that a holder has. -/
def channelOf? (s : Session α) : Holder → Option ChannelKey
  | .call n => (s.calls[n]?).bind Call.channel?
  | .lease n => s.lease? n

/-- The events of one owner, in order. -/
def eventsOf (s : Session α) (owner : Owner) : List (Event α) :=
  s.log.filterMap fun e => if e.1 = owner then some e.2 else none

end Session

end Courier
