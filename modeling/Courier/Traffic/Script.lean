import Courier.Orders.Service

/-!
# Traffic step by step

A script drives the traffic of a link by steps: direct leases, calls, the broker's answers, and the
order service. A confirmed publish through a lease, or a call that gives a handle, is a task with a
number of its own; its outcome is reported once, and until then the lease is not to be used. After
each step everything that can run has run.
-/

namespace Courier

/-- What a task waits for. -/
inductive Task where
  /-- The handle of a call. -/
  | call (n : Nat)
  /-- The verdict on a delivery that was published through a lease. -/
  | lease (lease delivery : Nat)

/-- How a task or a publish ended. -/
inductive TaskOutcome where
  | confirmed
  | failed (failure : Failure)
  /-- A publish through a lease, and what went wrong if anything did. -/
  | published (cause : Option Cause)

/-- Traffic under a script. -/
structure Script where
  traffic : Traffic Invocation
  /-- The tasks, by number, as long as they have not been reported. -/
  tasks : List (Option Task) := []

namespace Script

/-- How a lease is given back. -/
inductive Ending where
  | release
  /-- Where no background work can run. -/
  | releaseInPlace
  /-- Without giving it back. -/
  | drop

/-- A message to be published through a lease, with its properties still to be set. -/
structure Post where
  exchange : String
  routingKey : String
  assignments : List Assignment
  body : Body

/-- A step of a script. -/
inductive Step where
  | acquire
  | state (lease : Nat)
  | giveBack (lease : Nat) (how : Ending)
  | publish (lease : Nat) (post : Post)
  | confirmed (lease : Nat) (post : Post)
  | call (i : Invocation)
  | await (task : Nat)
  | setMode (mode : AnswerMode)
  | answer (number tag : Nat) (ack multiple : Bool)
  | closeChannel (number : Nat)
  | disconnect
  | setUp
  | place (index : Nat) (ids : Orders.Ids)
  | consume (count : Nat)

/-- What a step answers. -/
inductive Answer where
  | nothing
  | lease (lease number : Nat) (connected : Bool)
  | channel (number : Nat) (connected : Bool)
  | noLease
  | unavailable (cause : Cause)
  | broken (fault : LinkFault)
  | pending
  | noHandle
  | ended (outcome : TaskOutcome)
  | sent
  | forwarded (method : String)
  | failed (failure : Failure)
  | count (n : Nat)
  | wasOpen (b : Bool)
  | done
  | stopped (failure : ConsumeFailure)

/-- What a step answers, what the broker received in it, and how many channels are idle. -/
structure Report where
  answer : Answer
  wire : List WireEvent
  idle : Nat

/-- Whether a task uses a lease. -/
def isBusy (s : Script) (lease : Nat) : Bool :=
  s.tasks.any fun
    | some (.lease l _) => l == lease
    | _ => false

/-- The channel of a lease that can be used. -/
def usable? (s : Script) (lease : Nat) : Option ChannelKey :=
  if s.isBusy lease then none else s.traffic.lease? lease

/-- Replaces the traffic. -/
def withTraffic (s : Script) (t : Traffic Invocation) : Script := { s with traffic := t }

/-- Publishes through a lease. -/
def post (s : Script) (k : ChannelKey) (p : Post) : Except Answer Script :=
  match Draft.applyAll {} p.assignments with
  | .error failure => .error (.failed failure)
  | .ok d =>
    match s.traffic.link.publish k .lessee ⟨p.exchange, p.routingKey, d.finish, p.body⟩ with
    | .ok link => .ok (s.withTraffic (s.traffic.withLink link))
    | .error fault => .error (.ended (.published (some (.link fault))))

/-- The outcome of a task, once there is one. -/
def outcome? (s : Script) : Task → Option TaskOutcome
  | .call n =>
    match (s.traffic.calls[n]?).map Call.poll with
    | some (_, .settled (.ok ())) => some .confirmed
    | some (_, .settled (.error failure)) => some (.failed failure)
    | _ => none
  | .lease lease delivery =>
    match s.traffic.link.deliveries[delivery]?, s.traffic.lease? lease with
    | some ⟨_, _, _, some verdict⟩, some k =>
      match verdict.attempt (s.traffic.link.number k) with
      | .failed cause => some (.published (some cause))
      | _ => some (.published none)
    | _, _ => none

/-- Reports on a task: its outcome if there is one, and then the task is over. -/
def reportTask (s : Script) (n : Nat) (task : Task) : Script × Answer :=
  match s.outcome? task with
  | some outcome =>
    let traffic := match task with
      | .call call => s.traffic.act (.poll call)
      | .lease _ _ => s.traffic
    ({ s with traffic, tasks := s.tasks.set n none }, .ended outcome)
  | none => (s, .pending)

/-- Adds a task, and reports on it. -/
def startTask (s : Script) (task : Task) : Script × Answer :=
  { s with tasks := s.tasks ++ [some task] }.reportTask s.tasks.length task

/-- Gives back a lease. -/
def giveBack (s : Script) (lease : Nat) (k : ChannelKey) : Ending → Script
  | .release => s.withTraffic (s.traffic.act (.leaseRelease lease))
  | .releaseInPlace => s.withTraffic (s.traffic.act (.leaseReleaseInPlace lease))
  | .drop => s.withTraffic { s.traffic with
      leases := s.traffic.leases.set lease none
      reserve := s.traffic.reserve.abandon k }

/-- The channel that is connected under a number. -/
def connectedKey? (l : Link) (number : Nat) : Option ChannelKey :=
  l.channels.findIdx? fun c => c.connected && c.number == number

/-- Runs work on a channel of its own, which is let go in the end. -/
def onOwnChannel (s : Script)
    (work : Traffic Invocation → ChannelKey → Traffic Invocation × Answer) : Script × Answer :=
  match Orders.openOwn s.traffic with
  | .error fault => (s, .broken fault)
  | .ok (t, k) =>
    let (t, answer) := work t k
    (s.withTraffic (t.withLink (t.link.dropChannel k)), answer)

/-- Asks for a lease. -/
def acquire (s : Script) : Script × Answer :=
  let n := s.traffic.leases.length
  let t := (s.traffic.act .lease).serve .lessee
  (s.withTraffic t, match t.lease? n with
    | some k => .lease n (t.link.number k) (t.link.isConnected k)
    | none =>
      match t.log.getLast? with
      | some (_, .unavailable cause) => .unavailable cause
      | _ => .nothing)

/-- Makes a call. -/
def call (s : Script) (i : Invocation) : Script × Answer :=
  let n := s.traffic.calls.length
  let s := s.withTraffic (s.traffic.call i).rest
  match s.traffic.calls[n]? with
  | some (.returned .sent) => (s, .sent)
  | some (.returned (.forwarded i)) => (s, .forwarded i.method)
  | some (.returned (.failed failure)) => (s, .failed failure)
  | some (.confirming _ _) => s.startTask (.call n)
  | _ => (s, .pending)

/-- The script after a step, and what the step answers. -/
def step (s : Script) : Step → Script × Answer
  | .acquire => s.acquire
  | .state lease =>
    (s, match s.usable? lease with
      | some k => .channel (s.traffic.link.number k) (s.traffic.link.isConnected k)
      | none => .noLease)
  | .giveBack lease how =>
    match s.usable? lease with
    | some k => (s.giveBack lease k how, .nothing)
    | none => (s, .noLease)
  | .publish lease post =>
    match s.usable? lease with
    | some k =>
      match s.post k post with
      | .ok s => (s, .ended (.published none))
      | .error answer => (s, answer)
    | none => (s, .noLease)
  | .confirmed lease post =>
    match s.usable? lease with
    | some k =>
      match s.post k post with
      | .ok t => t.startTask (.lease lease s.traffic.link.deliveries.length)
      | .error answer => ({ s with tasks := s.tasks ++ [none] }, answer)
    | none => (s, .noLease)
  | .call i => s.call i
  | .await n =>
    match (s.tasks[n]?).join with
    | some task => s.reportTask n task
    | none => (s, .noHandle)
  | .setMode mode => (s.withTraffic (s.traffic.act (.setMode mode)), .nothing)
  | .answer number tag ack multiple =>
    -- The broker of a script answers what it holds up to a tag, and nothing is held up to 0.
    if tag = 0 then (s, .count 0)
    else (s.withTraffic (s.traffic.act (.answer number tag ack multiple)),
      .count (s.traffic.link.deliveries.countP (s.traffic.link.isAnswered number tag multiple)))
  | .closeChannel number =>
    match connectedKey? s.traffic.link number with
    | some k => (s.withTraffic (s.traffic.act (.loseChannel k)), .nothing)
    | none => (s, .nothing)
  | .disconnect => (s.withTraffic (s.traffic.act .disconnect), .wasOpen s.traffic.link.up)
  | .setUp => s.onOwnChannel fun t k =>
    match Orders.setUp t k with
    | .ok t => (t, .done)
    | .error fault => (t, .broken fault)
  | .place index ids =>
    let (t, placement) := Orders.place s.traffic index ids
    (s.withTraffic t, match placement with
      | .placed => .done
      | .failed failure => .failed failure
      | .unconfirmed => .pending)
  | .consume count => s.onOwnChannel fun t k =>
    match Orders.consumeQueue t k count with
    | (t, .ok ()) => (t, .done)
    | (t, .error failure) => (t, .stopped failure)

/-- The script after a step with all that follows from it, and the step's report. -/
def reportStep (s : Script) (step : Step) : Script × Report :=
  let (next, answer) := s.step step
  let next := next.withTraffic next.traffic.rest
  (next, {
    answer
    wire := next.traffic.link.wire.drop s.traffic.link.wire.length
    idle := next.traffic.reserve.idle.length })

/-- The reports of steps in order. -/
def run (s : Script) : List Step → List Report
  | [] => []
  | step :: rest =>
    let (s, report) := s.reportStep step
    report :: run s rest

end Script

end Courier
