import Courier.Call

/-!
# Links to a broker

A link is one connection to a broker: its channels, and the broker's answers to what is published on
them. Channels are identified by the order in which they were opened; the number that a channel has
on the wire may be given to another one after it is closed. `Link.wire` is what the broker has
received, in order. A channel in confirm mode tags its publishes 1, 2, 3, …, and the broker settles
each of them once, when it likes.
-/

namespace Courier

/-- A channel, open or once open. -/
structure Channel where
  /-- Its number on the wire. -/
  number : Nat
  connected : Bool := true
  /-- Whether it is in confirm mode. -/
  confirming : Bool := false
  /-- How many of its publishes have a tag. -/
  tagged : Nat := 0
deriving DecidableEq

/-- What becomes of a publish. -/
inductive Verdict where
  | ack
  | nack
  /-- The channel was not in confirm mode. -/
  | notRequested
  /-- The channel or the connection ended before the broker answered. -/
  | lost (fault : LinkFault)
deriving DecidableEq

/-- A message handed to a channel, and what has become of it. -/
structure Delivery where
  channel : ChannelKey
  sender : Owner
  /-- Its tag on the channel; 0 if it has none. -/
  tag : Nat
  /-- The verdict, once there is one. -/
  verdict : Option Verdict

/-- The options of a publish. -/
structure PublishOptions where
  mandatory : Bool := false
  immediate : Bool := false
deriving DecidableEq

/-- The options of an exchange declaration. -/
structure ExchangeOptions where
  passive : Bool := false
  durable : Bool := false
  autoDelete : Bool := false
  internal : Bool := false
  nowait : Bool := false
deriving DecidableEq

/-- The options of a queue declaration. -/
structure QueueOptions where
  passive : Bool := false
  durable : Bool := false
  exclusive : Bool := false
  autoDelete : Bool := false
  nowait : Bool := false
deriving DecidableEq

/-- What a broker receives on a channel. -/
inductive ChannelEvent where
  | opened
  | confirmSelect (nowait : Bool)
  | published (options : PublishOptions) (message : Message)
  | closed (code : Nat) (text : String)
  | exchangeDeclared (name kind : String) (options : ExchangeOptions)
  | queueDeclared (name : String) (options : QueueOptions)
  | queueBound (queue exchange routingKey : String)
  | acked (tag : Nat)

/-- What a broker receives. -/
inductive WireEvent where
  | onChannel (channel : ChannelKey) (number : Nat) (event : ChannelEvent)
  | connectionClosed (code : Nat) (text : String)

/-- How the broker answers publishes that want an answer. -/
inductive AnswerMode where
  | ack
  | nack
  | hold
deriving DecidableEq

/-- The verdict that a mode gives at once. -/
def AnswerMode.verdict? : AnswerMode → Option Verdict
  | .ack => some .ack
  | .nack => some .nack
  | .hold => none

/-- A connection to a broker. -/
structure Link where
  up : Bool := true
  /-- The greatest channel number. -/
  channelMax : Nat := 65535
  /-- The channels, in the order in which they were opened. -/
  channels : List Channel := []
  /-- The number given to a channel last. -/
  lastNumber : Nat := 0
  mode : AnswerMode := .ack
  deliveries : List Delivery := []
  /-- The routing keys bound to the broker's queue. -/
  boundKeys : List String := []
  /-- The messages in the broker's queue. -/
  stored : List Message := []
  wire : List WireEvent := []

namespace Link

/-- Whether a channel is connected. -/
def isConnected (l : Link) (k : ChannelKey) : Bool := (l.channels[k]?).any (·.connected)

/-- The number of a channel on the wire. -/
def number (l : Link) (k : ChannelKey) : Nat := ((l.channels[k]?).map Channel.number).getD 0

/-- Adds to what the broker has received. -/
def send (l : Link) (k : ChannelKey) (e : ChannelEvent) : Link :=
  { l with wire := l.wire ++ [.onChannel k (l.number k) e] }

/-- Whether a number belongs to a connected channel. -/
def inUse (l : Link) (number : Nat) : Bool :=
  l.channels.any fun c => c.connected && c.number == number

/-- The next free number after the last one given, going round at the greatest. -/
def nextNumber? (l : Link) : Option Nat :=
  ((List.range l.channelMax).map fun i => (l.lastNumber + i) % l.channelMax + 1).find?
    fun number => !l.inUse number

/-- Opens a channel. -/
def openChannel (l : Link) : Except LinkFault (Link × ChannelKey) :=
  if l.up then
    match l.nextNumber? with
    | some number =>
      let channel : Channel := { number }
      .ok ({ l with channels := l.channels ++ [channel], lastNumber := number }.send
        l.channels.length .opened, l.channels.length)
    | none => .error .channelsLimitReached
  else .error .invalidConnectionState

/-- Changes a channel. -/
def modifyChannel (l : Link) (k : ChannelKey) (f : Channel → Channel) : Link :=
  { l with channels := l.channels.modify k f }

/-- Puts a channel in confirm mode. -/
def selectConfirms (l : Link) (k : ChannelKey) : Except LinkFault Link :=
  if l.isConnected k then
    .ok ((l.modifyChannel k fun c => { c with confirming := true }).send k (.confirmSelect false))
  else .error .invalidChannelState

/-- Publishes a message on a channel. -/
def publish (l : Link) (k : ChannelKey) (sender : Owner) (m : Message) : Except LinkFault Link :=
  match l.channels[k]? with
  | some c =>
    if c.connected then
      let delivery := if c.confirming then ⟨k, sender, c.tagged + 1, l.mode.verdict?⟩
        else ⟨k, sender, 0, some .notRequested⟩
      let l := if c.confirming then l.modifyChannel k fun c => { c with tagged := c.tagged + 1 }
        else l
      .ok ({ l with
        deliveries := l.deliveries ++ [delivery]
        stored := if m.routingKey ∈ l.boundKeys then l.stored ++ [m] else l.stored }.send k
          (.published {} m))
    else .error .invalidChannelState
  | none => .error .invalidChannelState

/-- Settles the publishes that a condition picks out of those without a verdict. -/
def settle (l : Link) (verdict : Verdict) (which : Delivery → Bool) : Link :=
  { l with deliveries := l.deliveries.map fun d =>
      if d.verdict.isNone && which d then { d with verdict := some verdict } else d }

/-- The publishes without a verdict on the connected channel with a number, as far as an answer to
`tag` concerns them: the one with that tag, or all up to it, and all there are if it is 0. -/
def isAnswered (l : Link) (number tag : Nat) (multiple : Bool) (d : Delivery) : Bool :=
  d.verdict.isNone && (if multiple then tag == 0 || d.tag ≤ tag else d.tag == tag) &&
    (l.channels[d.channel]?).any fun c => c.connected && c.number == number

/-- The broker answers the publish with a tag, or all up to it. -/
def answer (l : Link) (number tag : Nat) (ack multiple : Bool) : Link :=
  l.settle (if ack then .ack else .nack) (l.isAnswered number tag multiple)

/-- Ends a channel, for whatever reason: it leaves confirm mode, and its publishes without a verdict
are lost. -/
def endChannel (l : Link) (k : ChannelKey) (fault : LinkFault) : Link :=
  (l.modifyChannel k fun c => { c with connected := false, confirming := false }).settle
    (.lost fault) fun d => d.channel == k

/-- The client closes a channel. Nothing is sent on one that is not connected. -/
def closeChannel (l : Link) (k : ChannelKey) (text : String) : Link :=
  if l.isConnected k then (l.send k (.closed 200 text)).endChannel k .invalidChannelState else l

/-- A channel is let go without being closed. -/
def dropChannel (l : Link) (k : ChannelKey) : Link := l.closeChannel k "OK"

/-- The broker closes a channel. -/
def loseChannel (l : Link) (k : ChannelKey) : Link :=
  if l.isConnected k then l.endChannel k .protocolError else l

/-- The client closes the connection, and with it every channel. -/
def disconnect (l : Link) : Link :=
  if l.up then
    let ended (c : Channel) : Channel := { c with connected := false, confirming := false }
    { l with
      up := false
      channels := l.channels.map ended
      wire := l.wire ++ [WireEvent.connectionClosed 200 "bye"] }.settle
        (.lost .invalidConnectionState) fun _ => true
  else l

/-- The verdict on what an owner published, if it published anything. -/
def verdictFor? (l : Link) (owner : Owner) : Option (Option Verdict) :=
  (l.deliveries.find? fun d => d.sender = owner).map (·.verdict)

/-- What the broker has received on a channel. -/
def received (l : Link) (k : ChannelKey) : List ChannelEvent :=
  l.wire.filterMap fun
    | .onChannel channel _ e => if channel = k then some e else none
    | _ => none

end Link

/-- How a confirmed publish ends by the verdict on its message. -/
def Verdict.attempt (channel : Nat) : Verdict → Attempt
  | .ack => .done
  | .nack | .notRequested => .failed (.notAcknowledged channel)
  | .lost fault => .failed (.link fault)

end Courier
