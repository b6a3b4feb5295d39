import Courier.Session

/-!
# Schedules: sessions step by step

A schedule runs a session as a script of steps. The pool's conduct says how its three operations end
and which of them have to wait for a permit; waiting operations queue up, and a permit wakes the
oldest. After each step everything that can run has run. Each step is a sequence of the session's
actions, so what holds of every reachable session holds after every step.
-/

namespace Courier

/-- How an operation of the pool or of a channel goes. -/
inductive Mode where
  | succeed
  | fail
  | crash
deriving DecidableEq

/-- How the operations of a pool go, and which of them wait for a permit. -/
structure Conduct where
  acquire : Mode := .succeed
  publish : Mode := .succeed
  confirm : Mode := .succeed
  held : List Operation := []

/-- A change of conduct: what it does not name stays. -/
structure Conduct.Change where
  acquire : Option Mode := none
  publish : Option Mode := none
  confirm : Option Mode := none
  held : Option (List Operation) := none

/-- The conduct after a change. -/
def Conduct.change (c : Conduct) (d : Conduct.Change) : Conduct :=
  ⟨d.acquire.getD c.acquire, d.publish.getD c.publish, d.confirm.getD c.confirm,
    d.held.getD c.held⟩

/-- How the pool answers a request for a channel. -/
def Mode.grant : Mode → Except Cause Unit
  | .succeed => .ok ()
  | _ => .error .connectionClosed

/-- How a publish ends. -/
def Mode.attempt : Mode → Attempt
  | .succeed => .done
  | .fail => .failed .messageRefused
  | .crash => .crashed

/-- A session with the conduct of its pool and the operations that wait. -/
structure Schedule where
  session : Session Invocation := {}
  conduct : Conduct := {}
  /-- The calls whose operations wait for a permit, oldest first. -/
  queue : List Nat := []
  /-- The converter of declared calls. -/
  converter : Converter
  /-- The converter of dispatched jobs. -/
  jobConverter : Converter

namespace Schedule

/-- A step of a script. -/
inductive Step where
  | set (change : Conduct.Change)
  | declare (d : Declaration)
  | describe (method : String)
  | call (i : Invocation)
  | dispatch (envelope : Envelope) (assignments : List Assignment) (arguments : Arguments)
    (returns : Returns)
  | permit (count : Nat)
  | cancel (call : Nat)
  | await (call : Nat)
  | detach (call : Nat)
  | lease
  | leasePublish (lease : Nat) (message : Message)
  | leaseRelease (lease : Nat)

/-- What a step answers. -/
inductive Answer where
  | nothing
  | declaration (d : Option Declaration)
  /-- How far the new call has come; it failed before it began if there is a failure. -/
  | call (progress : Except Failure (Call Invocation))
  | woken (count : Nat)
  | polled (poll : Poll)
  | lease (lease : Nat)
  | channel (channel : ChannelKey)
  | noLease
  | unavailable (cause : Cause)
  | notSent (attempt : Attempt)

/-- What a step answers, what happened in it, and how many channels have gone out and come back. -/
structure Report where
  answer : Answer
  events : List (Owner × Event Invocation)
  acquired : Nat
  released : Nat

/-- Runs an operation of a call as the conduct in force has it. -/
def operate (s : Schedule) (n : Nat) (operation : Operation) : Schedule :=
  { s with session := s.session.act <|
      match operation with
      | .acquire => .acquire n s.conduct.acquire.grant
      | .publish => .publish n s.conduct.publish.attempt
      | .confirm => .confirm n s.conduct.confirm.attempt }

/-- Lets a call run until it has ended or has to wait. A call that has set off its confirmed publish
returns before the task of it runs. A call has at most two operations, so `fuel` need not be more
than three. -/
def advance (fuel : Nat) (s : Schedule) (n : Nat) : Schedule :=
  match fuel with
  | 0 => s
  | fuel + 1 =>
    match s.session.pending? n with
    | none => s
    | some operation =>
      let s := { s with session := (s.session.act (.handOver n)).act (.begin n) }
      if s.conduct.held.contains operation then
        { s with session := s.session.act (.hold n), queue := s.queue ++ [n] }
      else advance fuel (s.operate n operation) n

/-- Wakes the operation of a call, and lets the call run on. -/
def wake (s : Schedule) (n : Nat) : Schedule :=
  match s.session.pending? n with
  | some operation => advance 3 (s.operate n operation) n
  | none => s

/-- Gives permits to waiting operations, oldest first, and counts those woken. Operations of calls
that were given up meanwhile are passed over. -/
def permit (s : Schedule) : Nat → Schedule × Nat
  | 0 => (s, 0)
  | count + 1 =>
    match s.queue.dropWhile fun n => (s.session.pending? n).isNone with
    | [] => ({ s with queue := [] }, 0)
    | n :: rest =>
      let (s, woken) := ({ s with queue := rest }.wake n).permit count
      (s, woken + 1)

/-- The next handler answers a forwarded call with what it got. -/
def forward (s : Schedule) (n : Nat) : Schedule :=
  match s.session.calls[n]? with
  | some (.forwarding i) => { s with session := s.session.act (.proceed n i) }
  | _ => s

/-- Adds a call by an action, and lets it run. -/
def begin (s : Schedule) (a : Session.Action Invocation) : Schedule × Answer :=
  let n := s.session.calls.length
  let s := advance 3 ({ s with session := s.session.act a }.forward n) n
  (s, match s.session.calls[n]? with
    | some c => .call (.ok c)
    | none => .nothing)

/-- The schedule after a step, and what the step answers. -/
def step (s : Schedule) : Step → Schedule × Answer
  | .set change => ({ s with conduct := s.conduct.change change }, .nothing)
  | .declare d => ({ s with session := s.session.act (.declare d) }, .nothing)
  | .describe method => (s, .declaration (s.session.declarations.get? method))
  | .call i => s.begin (.call s.converter i)
  | .dispatch envelope assignments arguments returns =>
    match Draft.applyAll {} assignments with
    | .ok d => s.begin (.dispatch (.ok (envelope.job d.finish arguments returns s.jobConverter)))
    | .error failure =>
      ({ s with session := s.session.act (.dispatch (.error failure)) }, .call (.error failure))
  | .permit count =>
    let (s, woken) := s.permit count
    (s, .woken woken)
  | .cancel n => ({ s with session := s.session.act (.cancel n) }, .nothing)
  | .await n =>
    ({ s with session := s.session.act (.poll n) },
      .polled (match s.session.calls[n]? with
        | some c => c.poll.2
        | none => .noHandle))
  | .detach n =>
    ({ s with session := s.session.act (.detach n) },
      match s.session.calls[n]? with
      | some (.confirming _ (.returned true)) => .nothing
      | _ => .polled .noHandle)
  | .lease =>
    ({ s with session := s.session.act (.lease s.conduct.acquire.grant) },
      match s.conduct.acquire.grant with
      | .ok () => .lease s.session.leases.length
      | .error cause => .unavailable cause)
  | .leasePublish lease message =>
    match s.session.lease? lease with
    | none => (s, .noLease)
    | some channel =>
      let attempt := s.conduct.publish.attempt
      ({ s with session := s.session.act (.leasePublish lease message attempt) },
        match attempt with
        | .done => .channel channel
        | attempt => .notSent attempt)
  | .leaseRelease lease =>
    ({ s with session := s.session.act (.leaseRelease lease) },
      if (s.session.lease? lease).isSome then .nothing else .noLease)

/-- Whether an event is reported. -/
def isReported : Event Invocation → Bool
  | .converted _ reported => reported
  | .began _ _ _ => false
  | _ => true

/-- The schedule after a step, and its report. -/
def reportStep (s : Schedule) (step : Step) : Schedule × Report :=
  let (t, answer) := s.step step
  (t, {
    answer
    events := (t.session.log.drop s.session.log.length).filter fun e => isReported e.2
    acquired := t.session.acquired
    released := t.session.released.length })

/-- The reports of a script. -/
def run (s : Schedule) : List Step → List Report
  | [] => []
  | step :: rest =>
    let (s, report) := s.reportStep step
    report :: run s rest

theorem reachable_operate {s : Schedule} (h : s.session.Reachable) (n : Nat)
    (operation : Operation) : (s.operate n operation).session.Reachable :=
  h.act _

theorem reachable_advance {s : Schedule} (h : s.session.Reachable) (fuel n : Nat) :
    (advance fuel s n).session.Reachable := by
  induction fuel generalizing s with
  | zero => exact h
  | succ fuel ih =>
    unfold advance
    cases s.session.pending? n with
    | none => exact h
    | some operation =>
      have begun := (h.act (.handOver n)).act (.begin n)
      simp only
      split
      · exact begun.act (.hold n)
      · exact ih (reachable_operate begun n operation)

theorem reachable_wake {s : Schedule} (h : s.session.Reachable) (n : Nat) :
    (s.wake n).session.Reachable := by
  unfold wake
  cases s.session.pending? n with
  | none => exact h
  | some operation => exact reachable_advance (reachable_operate h n operation) 3 n

theorem reachable_permit {s : Schedule} (h : s.session.Reachable) (count : Nat) :
    (s.permit count).1.session.Reachable := by
  induction count generalizing s with
  | zero => exact h
  | succ count ih =>
    unfold permit
    split
    · exact h
    next n rest _ => exact ih (reachable_wake (s := { s with queue := rest }) h n)

theorem reachable_forward {s : Schedule} (h : s.session.Reachable) (n : Nat) :
    (s.forward n).session.Reachable := by
  unfold forward
  split
  next i _ => exact h.act (.proceed n i)
  next => exact h

theorem reachable_begin {s : Schedule} (h : s.session.Reachable) (a : Session.Action Invocation) :
    (s.begin a).1.session.Reachable :=
  reachable_advance (reachable_forward (h.act a) _) 3 _

/-- Each step is a sequence of the session's actions. -/
theorem reachable_step {s : Schedule} (h : s.session.Reachable) (step : Step) :
    (s.step step).1.session.Reachable := by
  cases step with
  | set change => exact h
  | declare d => exact h.act (.declare d)
  | describe method => exact h
  | call i => exact reachable_begin h (.call s.converter i)
  | dispatch envelope assignments arguments returns =>
    simp only [Schedule.step]
    cases Draft.applyAll {} assignments with
    | ok d => exact reachable_begin h _
    | error failure => exact h.act (.dispatch (.error failure))
  | permit count => exact reachable_permit h count
  | cancel n => exact h.act (.cancel n)
  | await n => exact h.act (.poll n)
  | detach n => exact h.act (.detach n)
  | lease => exact h.act (.lease s.conduct.acquire.grant)
  | leasePublish l m =>
    simp only [Schedule.step]
    cases s.session.lease? l with
    | none => exact h
    | some k => exact h.act (.leasePublish l m s.conduct.publish.attempt)
  | leaseRelease l => exact h.act (.leaseRelease l)

end Schedule

end Courier
