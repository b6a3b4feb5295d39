import Courier.Link

/-!
# The reserve of a link's channels

A reserve hands out the channels of one link and takes them back for reuse. A request is served with
the idle channel that came back last and is still connected; idle channels found disconnected on the
way are set aside. Where none is left, a channel is opened and, if the settings say so, put in
confirm mode. A connected channel that comes back is kept while there is room for it and otherwise
closed in the background. Channels end at any moment, whether idle or handed out.
-/

namespace Courier

/-- The settings of a reserve. -/
structure ReserveSettings where
  /-- How many idle channels are kept. -/
  maxIdle : Nat := 8
  /-- Whether new channels are put in confirm mode. -/
  confirms : Bool := true
deriving DecidableEq

/-- A link with the channels that it keeps for reuse. Every channel that has been opened for a
request and made ready is leased, idle, surplus, closed, discarded or abandoned. -/
structure ChannelReserve where
  link : Link := {}
  settings : ReserveSettings := {}
  /-- The idle channels, the one that came back last at the front. -/
  idle : List ChannelKey := []
  leased : List ChannelKey := []
  /-- How many requests wait for a channel to be opened. -/
  waiting : Nat := 0
  /-- Channels opened for requests and not yet made ready. -/
  opening : List ChannelKey := []
  /-- Channels that came back when there was no room, and have still to be closed. -/
  surplus : List ChannelKey := []
  /-- Channels closed for want of room. -/
  closed : List ChannelKey := []
  /-- Channels set aside because they were found disconnected. -/
  discarded : List ChannelKey := []
  /-- Channels that were let go without being kept or closed for want of room. -/
  abandoned : List ChannelKey := []

namespace ChannelReserve

/-- The text with which a channel is closed for want of room. -/
def surplusText : String := "pool is full"

/-- Answers a request: with an idle channel, or by waiting for one to be opened. -/
def request (r : ChannelReserve) : ChannelReserve × Option ChannelKey :=
  let dead := r.idle.takeWhile fun k => !r.link.isConnected k
  let discarded := dead.reverse ++ r.discarded
  match r.idle.dropWhile fun k => !r.link.isConnected k with
  | k :: rest => ({ r with idle := rest, leased := k :: r.leased, discarded }, some k)
  | [] => ({ r with idle := [], waiting := r.waiting + 1, discarded }, none)

/-- Opens a channel for a waiting request. Without confirms it is ready at once. -/
def openFor (r : ChannelReserve) : ChannelReserve × Except LinkFault ChannelKey :=
  let r := { r with waiting := r.waiting - 1 }
  match r.link.openChannel with
  | .ok (link, k) =>
    (if r.settings.confirms then { r with link, opening := k :: r.opening }
      else { r with link, leased := k :: r.leased }, .ok k)
  | .error fault => (r, .error fault)

/-- Makes an opened channel ready, by putting it in confirm mode. -/
def prepare (r : ChannelReserve) (k : ChannelKey) : ChannelReserve × Except LinkFault Unit :=
  let r := { r with opening := r.opening.erase k }
  match r.link.selectConfirms k with
  | .ok link => ({ r with link, leased := k :: r.leased }, .ok ())
  | .error fault => ({ r with link := r.link.dropChannel k }, .error fault)

/-- A request is given up while it waits or while its channel is made ready. -/
def withdraw (r : ChannelReserve) : Option ChannelKey → ChannelReserve
  | none => { r with waiting := r.waiting - 1 }
  | some k => { r with opening := r.opening.erase k, link := r.link.dropChannel k }

/-- A channel comes back. -/
def release (r : ChannelReserve) (k : ChannelKey) : ChannelReserve :=
  let r := { r with leased := r.leased.erase k }
  if !r.link.isConnected k then { r with discarded := k :: r.discarded }
  else if r.idle.length < r.settings.maxIdle then { r with idle := k :: r.idle }
  else { r with surplus := k :: r.surplus }

/-- Closes a surplus channel. -/
def closeSurplus (r : ChannelReserve) (k : ChannelKey) : ChannelReserve :=
  let s := { r with surplus := r.surplus.erase k }
  if r.link.isConnected k then
    { s with link := r.link.closeChannel k surplusText, closed := k :: r.closed }
  else { s with discarded := k :: r.discarded }

/-- A holder lets its channel go without giving it back. -/
def abandon (r : ChannelReserve) (k : ChannelKey) : ChannelReserve :=
  { r with
    leased := r.leased.erase k
    abandoned := k :: r.abandoned
    link := r.link.dropChannel k }

/-- A channel comes back where no background work can run: for want of room it is let go. -/
def releaseInPlace (r : ChannelReserve) (k : ChannelKey) : ChannelReserve :=
  if r.link.isConnected k && r.settings.maxIdle ≤ r.idle.length then r.abandon k else r.release k

/-- What can happen to a reserve. -/
inductive Action where
  | request
  | openFor
  | prepare (k : ChannelKey)
  | withdraw (k : Option ChannelKey)
  | release (k : ChannelKey)
  | releaseInPlace (k : ChannelKey)
  | abandon (k : ChannelKey)
  | closeSurplus (k : ChannelKey)
  /-- A holder publishes on its channel. -/
  | publish (k : ChannelKey) (sender : Owner) (m : Message)
  /-- The broker closes a channel. -/
  | loseChannel (k : ChannelKey)
  | disconnect

/-- The reserve after an action. A holder parts with its channel as it gives it back, so an action
on a channel that is not where the action expects it cannot happen; it changes nothing. -/
def act (r : ChannelReserve) : Action → ChannelReserve
  | .request => r.request.1
  | .openFor => if 0 < r.waiting then r.openFor.1 else r
  | .prepare k => if k ∈ r.opening then (r.prepare k).1 else r
  | .withdraw none => if 0 < r.waiting then r.withdraw none else r
  | .withdraw (some k) => if k ∈ r.opening then r.withdraw (some k) else r
  | .release k => if k ∈ r.leased then r.release k else r
  | .releaseInPlace k => if k ∈ r.leased then r.releaseInPlace k else r
  | .abandon k => if k ∈ r.leased then r.abandon k else r
  | .closeSurplus k => if k ∈ r.surplus then r.closeSurplus k else r
  | .publish k sender m =>
    if k ∈ r.leased then
      match r.link.publish k sender m with
      | .ok link => { r with link }
      | .error _ => r
    else r
  | .loseChannel k => { r with link := r.link.loseChannel k }
  | .disconnect => { r with link := r.link.disconnect }

/-- The reserves that actions lead to from one without channels. -/
inductive Reachable (settings : ReserveSettings) : ChannelReserve → Prop where
  | start (channelMax : Nat) (mode : AnswerMode) :
      Reachable settings { link := { channelMax, mode }, settings }
  | act {r : ChannelReserve} (a : Action) : Reachable settings r → Reachable settings (r.act a)

/-- The reserve after actions in order. -/
def actAll (r : ChannelReserve) (actions : List Action) : ChannelReserve := actions.foldl act r

theorem reachable_actAll {settings : ReserveSettings} {r : ChannelReserve}
    (h : Reachable settings r) (actions : List Action) : Reachable settings (r.actAll actions) := by
  induction actions generalizing r with
  | nil => exact h
  | cons a rest ih => exact ih (h.act a)

end ChannelReserve

end Courier
