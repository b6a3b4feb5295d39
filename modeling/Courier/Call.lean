import Courier.Message

/-!
# The life of a call

A call of a declared method waits for a channel, converts its body, and publishes: either at once,
keeping the channel until the publish has ended, or in a task of its own, of whose outcome the
caller gets a handle. The task runs beside the call, and may be over before the call returns. A call
of any other method goes on to the next handler. `Call` is the state of one call, and the functions
on it are its transitions; each gives the events that it causes. A transition that does not apply
changes nothing. How an operation on the pool or on a channel ends is for the environment to say, so
every behaviour of a pool and every interleaving of calls and their tasks is a sequence of these
transitions.
-/

namespace Courier

open Json (Value)

/-- A channel, as its pool identifies it. -/
abbrev ChannelKey := Nat

/-- Who causes an event: a call, or the holder of the direct leases. -/
inductive Owner where
  | call (n : Nat)
  | lessee
deriving DecidableEq

/-- A call as it arrives. -/
structure Invocation where
  method : String
  /-- The arguments as given; a later one replaces an earlier one of its name. -/
  given : List (String × Value)

/-- The arguments of a call. -/
def Invocation.arguments (i : Invocation) : Arguments := Table.ofList i.given

/-- The given names with the values that they have in the end. -/
def Invocation.listing (i : Invocation) : List (String × Option Value) :=
  i.given.map fun a => (a.1, i.arguments.get? a.1)

/-- What a call asks of a pool or of a channel. -/
inductive Operation where
  | acquire
  | publish
  /-- A publish that ends when the broker has confirmed it. -/
  | confirm
deriving DecidableEq

/-- The publish that a declaration asks for. -/
def Returns.operation : Returns → Operation
  | .nothing => .publish
  | .confirmation => .confirm

/-- How an operation on a channel ends. -/
inductive Attempt where
  | done
  | failed (cause : Cause)
  /-- The task that ran it died. -/
  | crashed

/-- What a call returns. The next handler answers in any type; one that only tells what it got
answers with the invocation. -/
inductive Reply (α : Type := Invocation) where
  /-- The method is not declared; this is the next handler's answer. -/
  | forwarded (answer : α)
  | sent
  /-- A handle on a confirmed publish. -/
  | confirming
  | failed (failure : Failure)

/-- What a call does that others can see. -/
inductive Event (α : Type := Invocation) where
  /-- An operation has to wait. -/
  | held (operation : Operation)
  | acquired (channel : ChannelKey)
  /-- The pool had no channel to give. -/
  | unavailable (cause : Cause)
  /-- The body argument was converted, which the converter reports or keeps to itself. -/
  | converted (value : Value) (reported : Bool)
  /-- A publish begins: the channel is given its message. -/
  | began (operation : Operation) (channel : ChannelKey) (message : Message)
  | attempted (operation : Operation) (channel : ChannelKey) (message : Message)
    (attempt : Attempt)
  | released (channel : ChannelKey)
  | forwarded (invocation : Invocation)
  | returned (reply : Reply α)

/-- The failure of a job that gets no channel. -/
def Job.unavailable (j : Job) (cause : Cause) : Failure :=
  .channelAcquisition j.envelope.exchange j.envelope.routingKey cause

/-- The failure of a message that is not published. -/
def Message.unpublished (m : Message) (cause : Cause) : Failure :=
  .publish m.exchange m.routingKey cause

/-- How far a confirmed publish has come. -/
inductive Progress where
  /-- Its task has not run yet. -/
  | spawned
  | begun
  | ended (attempt : Attempt)

/-- A confirmed publish in its own task. -/
structure Confirmation where
  message : Message
  channel : ChannelKey
  progress : Progress := .spawned

/-- What the handle of a confirmed publish settles with. -/
def Confirmation.outcome? (c : Confirmation) : Option (Except Failure Unit) :=
  match c.progress with
  | .spawned | .begun => none
  | .ended .done => some (.ok ())
  | .ended (.failed cause) => some (.error (c.message.unpublished cause))
  | .ended .crashed => some (.error (.interrupted c.message.exchange c.message.routingKey))

/-- The handle of a confirmed publish. -/
inductive Handle where
  /-- The call has not returned it yet. -/
  | due
  /-- The call has returned it, and the caller still has it or not. -/
  | returned (kept : Bool)

/-- A call, by how far it has come. -/
inductive Call (α : Type := Invocation) where
  /-- The next handler has it. -/
  | forwarding (invocation : Invocation)
  | acquiring (job : Job)
  | publishing (message : Message) (channel : ChannelKey)
  /-- It has set off a confirmed publish, whose handle it returns. -/
  | confirming (confirmation : Confirmation) (handle : Handle)
  | returned (reply : Reply α)
  | cancelled
  | crashed

/-- What polling a handle gives. -/
inductive Poll where
  | noHandle
  | pending
  | settled (outcome : Except Failure Unit)

namespace Call

variable {α : Type}

/-- A call arrives: it is forwarded, or fails before it asks for a channel, or waits for one. -/
def start (declarations : Declarations) (converter : Converter) (i : Invocation) :
    Call α × List (Event α) :=
  match declarations.get? i.method with
  | none => (.forwarding i, [.forwarded i])
  | some d =>
    match d.job i.arguments converter with
    | .error failure => (.returned (.failed failure), [.returned (.failed failure)])
    | .ok job => (.acquiring job, [])

/-- The operation that the call is about to run or is running. -/
def pending? : Call α → Option Operation
  | .acquiring _ => some .acquire
  | .publishing _ _ => some .publish
  | .confirming ⟨_, _, .spawned⟩ _ | .confirming ⟨_, _, .begun⟩ _ => some .confirm
  | _ => none

/-- The next handler answers a forwarded call. -/
def proceed (c : Call α) (answer : α) : Call α × List (Event α) :=
  match c with
  | .forwarding _ => (.returned (.forwarded answer), [.returned (.forwarded answer)])
  | c => (c, [])

/-- A job gets its channel: it converts the body and goes on to its publish, or sets off the task of
it. -/
def withChannel (job : Job) (channel : ChannelKey) : Call α × List (Event α) :=
  let begun := [.acquired channel, .converted job.content job.converter.reported]
  match job.message with
  | .error failure =>
    (.returned (.failed failure), begun ++ [.released channel, .returned (.failed failure)])
  | .ok message =>
    match job.returns with
    | .nothing => (.publishing message channel, begun ++ [.began .publish channel message])
    | .confirmation => (.confirming ⟨message, channel, .spawned⟩ .due, begun)

/-- The pool answers the call's request for a channel. -/
def acquire (c : Call α) (answer : Except Cause ChannelKey) : Call α × List (Event α) :=
  match c, answer with
  | .acquiring job, .ok channel => withChannel job channel
  | .acquiring job, .error cause =>
    (.returned (.failed (job.unavailable cause)),
      [.unavailable cause, .returned (.failed (job.unavailable cause))])
  | c, _ => (c, [])

/-- The call's publish ends. The channel goes back before the call returns or dies. -/
def publish (c : Call α) (attempt : Attempt) : Call α × List (Event α) :=
  match c with
  | .publishing m channel =>
    let ended := [.attempted .publish channel m attempt, .released channel]
    match attempt with
    | .done => (.returned .sent, ended ++ [.returned .sent])
    | .failed cause =>
      (.returned (.failed (m.unpublished cause)),
        ended ++ [.returned (.failed (m.unpublished cause))])
    | .crashed => (.crashed, ended)
  | c => (c, [])

/-- The call returns the handle of its confirmed publish, however far its task has come. -/
def handOver (c : Call α) : Call α × List (Event α) :=
  match c with
  | .confirming confirmation .due =>
    (.confirming confirmation (.returned true), [.returned .confirming])
  | c => (c, [])

/-- The task of the call's confirmed publish runs for the first time. -/
def begin (c : Call α) : Call α × List (Event α) :=
  match c with
  | .confirming ⟨m, channel, .spawned⟩ handle =>
    (.confirming ⟨m, channel, .begun⟩ handle, [.began .confirm channel m])
  | c => (c, [])

/-- The call's confirmed publish ends, and its channel goes back. -/
def confirm (c : Call α) (attempt : Attempt) : Call α × List (Event α) :=
  match c with
  | .confirming ⟨m, channel, .begun⟩ handle =>
    (.confirming ⟨m, channel, .ended attempt⟩ handle,
      [.attempted .confirm channel m attempt, .released channel])
  | c => (c, [])

/-- The call's confirmed publish ends, and its channel goes back; between the two the call
returns. -/
def confirmReturning (c : Call α) (attempt : Attempt) : Call α × List (Event α) :=
  match c with
  | .confirming ⟨m, channel, .begun⟩ .due =>
    (.confirming ⟨m, channel, .ended attempt⟩ (.returned true),
      [.attempted .confirm channel m attempt, .returned .confirming, .released channel])
  | c => (c, [])

/-- The caller gives up a call that has not returned. A channel that it holds goes back. A call that
has set off its confirmed publish returns without waiting, so it cannot be given up. -/
def cancel (c : Call α) : Call α × List (Event α) :=
  match c with
  | .forwarding _ | .acquiring _ => (.cancelled, [])
  | .publishing _ channel => (.cancelled, [.released channel])
  | c => (c, [])

/-- The caller polls its handle. An outcome is given once. -/
def poll (c : Call α) : Call α × Poll :=
  match c with
  | .confirming confirmation (.returned true) =>
    match confirmation.outcome? with
    | some outcome => (.confirming confirmation (.returned false), .settled outcome)
    | none => (c, .pending)
  | c => (c, .noHandle)

/-- The caller lets go of its handle. -/
def detach (c : Call α) : Call α :=
  match c with
  | .confirming confirmation (.returned _) => .confirming confirmation (.returned false)
  | c => c

/-- The channel that the call holds: in its publish, or in a confirmed publish that has not ended.
-/
def channel? : Call α → Option ChannelKey
  | .publishing _ channel => some channel
  | .confirming ⟨_, channel, .spawned⟩ _ | .confirming ⟨_, channel, .begun⟩ _ => some channel
  | _ => none

end Call

end Courier
