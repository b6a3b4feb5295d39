import Courier.Consumer
import Courier.Proofs.EventWire
import Mathlib.Logic.Relation

/-!
# What a consumer acknowledges

A consumer goes through a stream one arrival at a time: it takes a delivery, acknowledges it, reads
the event in it, and only then asks for the next. `Consumer.Step` is one of these steps, and
`Consumer.Sound` is what all of them keep, so a consumer that stops anywhere has acknowledged what
it took, up to the delivery in hand (`Consumer.Sound.accounted`). Where every acknowledgement goes
out, the consumer ends as `consume` says (`Consumer.reaches_consumed`, `Consumer.Sound.consumed`),
and `Consumer.End` lists the ways in which that can be.
-/

namespace Courier

variable {n tag : Nat} {body : Body} {e : OrderEvent} {rest stream left : List Arrival}
  {good : List (Nat × Body)}

/-- The tag of a delivery. -/
def Arrival.tag? : Arrival → Option Nat
  | .delivery tag _ => some tag
  | .broken _ => none

/-- Tags and bodies as they arrive. -/
def deliveries (ds : List (Nat × Body)) : List Arrival := ds.map fun d => .delivery d.1 d.2

/-- An event can be read from every body. -/
def AllEvents (ds : List (Nat × Body)) : Prop := ∀ d ∈ ds, ∃ e, d.2.Carries e

theorem allEvents_nil : AllEvents [] := fun _ hd => absurd hd List.not_mem_nil

theorem AllEvents.cons (h : AllEvents good) (he : body.Carries e) :
    AllEvents ((tag, body) :: good) := by
  intro d hd
  obtain rfl | hd := List.mem_cons.1 hd
  · exact ⟨e, he⟩
  · exact h d hd

theorem AllEvents.concat (h : AllEvents good) (he : body.Carries e) :
    AllEvents (good ++ [(tag, body)]) := by
  intro d hd
  obtain hd | hd := List.mem_append.1 hd
  · exact h d hd
  · obtain rfl := List.mem_singleton.1 hd
    exact ⟨e, he⟩

theorem map_tag?_deliveries (ds : List (Nat × Body)) :
    (deliveries ds).map Arrival.tag? = (ds.map (·.1)).map some := by
  rw [deliveries, List.map_map, List.map_map]
  rfl

@[simp] theorem length_deliveries (ds : List (Nat × Body)) : (deliveries ds).length = ds.length :=
  List.length_map _

theorem deliveries_cons (d : Nat × Body) (ds : List (Nat × Body)) :
    deliveries (d :: ds) = .delivery d.1 d.2 :: deliveries ds :=
  List.map_cons

theorem deliveries_concat (ds : List (Nat × Body)) (tag : Nat) (body : Body) :
    deliveries (ds ++ [(tag, body)]) = deliveries ds ++ [.delivery tag body] :=
  List.map_append

theorem map_fst_concat (ds : List (Nat × Body)) (tag : Nat) (body : Body) :
    (ds ++ [(tag, body)]).map (·.1) = ds.map (·.1) ++ [tag] :=
  List.map_append

/-! ## Consuming -/

theorem consume_event (h : body.Carries e) :
    consume (n + 1) (.delivery tag body :: rest) =
      ⟨tag :: (consume n rest).acked, (consume n rest).result⟩ := by
  have read : body.text?.bind OrderEvent.read? = some e := h
  simp only [consume, read]

theorem consume_no_event (h : ∀ e, ¬ body.Carries e) :
    consume (n + 1) (.delivery tag body :: rest) = ⟨[tag], .error .notAnEvent⟩ := by
  have read : body.text?.bind OrderEvent.read? = none := Option.eq_none_iff_forall_ne_some.2 h
  simp only [consume, read]

/-- Deliveries with events are acknowledged in turn, and what follows them is consumed as if it were
the whole stream. -/
theorem consume_deliveries (h : AllEvents good) (n : Nat) (left : List Arrival) :
    consume (good.length + n) (deliveries good ++ left) =
      ⟨good.map (·.1) ++ (consume n left).acked, (consume n left).result⟩ := by
  induction good with
  | nil =>
    rw [List.length_nil, Nat.zero_add]
    rfl
  | cons d good ih =>
    obtain ⟨e, he⟩ := h d List.mem_cons_self
    have others := ih fun d hd => h d (List.mem_cons_of_mem _ hd)
    rw [List.length_cons, Nat.add_right_comm, deliveries_cons, List.cons_append, consume_event he,
      others]
    rfl

/-- What lies beyond the deliveries that are asked for makes no difference. -/
theorem consume_append {taken : List Arrival} (left : List Arrival) (hn : taken.length = n) :
    consume n (taken ++ left) = consume n taken := by
  induction taken generalizing n with
  | nil =>
    subst hn
    rfl
  | cons a taken ih =>
    subst hn
    rw [List.cons_append, List.length_cons]
    cases a with
    | broken fault => rfl
    | delivery tag body => simp only [consume, ih rfl]

namespace Consumer

/-- How consuming ends: with what is left of the stream, and what the consumer did. -/
inductive End (n : Nat) (stream : List Arrival) : List Arrival → Consumption → Prop where
  | read {good : List (Nat × Body)} {left : List Arrival} :
      AllEvents good → stream = deliveries good ++ left → good.length = n →
      End n stream left ⟨good.map (·.1), .ok ()⟩
  | closed {good : List (Nat × Body)} :
      AllEvents good → stream = deliveries good → good.length < n →
      End n stream [] ⟨good.map (·.1), .error .streamClosed⟩
  | broken {good : List (Nat × Body)} {fault : LinkFault} {left : List Arrival} :
      AllEvents good → stream = deliveries good ++ .broken fault :: left → good.length < n →
      End n stream left ⟨good.map (·.1), .error (.broken fault)⟩
  | noEvent {good : List (Nat × Body)} {tag : Nat} {body : Body} {left : List Arrival} :
      AllEvents good → stream = deliveries good ++ .delivery tag body :: left → good.length < n →
      (∀ e, ¬ body.Carries e) → End n stream left ⟨good.map (·.1) ++ [tag], .error .notAnEvent⟩

variable {c : Consumption}

/-- There is one way for consuming to end. -/
theorem End.consume_eq (h : End n stream left c) : consume n stream = c := by
  cases h with
  | read events hs hn =>
    subst hs hn
    have run := consume_deliveries events 0 left
    rw [consume, List.append_nil] at run
    exact run
  | closed events hs hn =>
    obtain ⟨m, rfl⟩ := Nat.exists_eq_add_of_lt hn
    have run := consume_deliveries events (m + 1) []
    rw [consume, List.append_nil, List.append_nil] at run
    rw [hs]
    exact run
  | @broken _ fault _ events hs hn =>
    obtain ⟨m, rfl⟩ := Nat.exists_eq_add_of_lt hn
    subst hs
    have run := consume_deliveries events (m + 1) (.broken fault :: left)
    rw [consume, List.append_nil] at run
    exact run
  | @noEvent _ tag body _ events hs hn none =>
    obtain ⟨m, rfl⟩ := Nat.exists_eq_add_of_lt hn
    subst hs
    have run := consume_deliveries events (m + 1) (.delivery tag body :: left)
    rw [consume_no_event none] at run
    exact run

/-- A delivery with an event goes before, whatever the end. -/
theorem End.cons (h : End n rest left c) (he : body.Carries e) :
    End (n + 1) (.delivery tag body :: rest) left ⟨tag :: c.acked, c.result⟩ := by
  cases h with
  | read events hs hn => exact .read (events.cons he) (congrArg _ hs) (congrArg _ hn)
  | closed events hs hn => exact .closed (events.cons he) (congrArg _ hs) (Nat.succ_lt_succ hn)
  | broken events hs hn => exact .broken (events.cons he) (congrArg _ hs) (Nat.succ_lt_succ hn)
  | noEvent events hs hn none =>
    exact .noEvent (events.cons he) (congrArg _ hs) (Nat.succ_lt_succ hn) none

theorem exists_end (n : Nat) (stream : List Arrival) :
    ∃ left, End n stream left (consume n stream) := by
  induction n generalizing stream with
  | zero => exact ⟨stream, .read allEvents_nil rfl rfl⟩
  | succ n ih =>
    cases stream with
    | nil => exact ⟨[], .closed allEvents_nil rfl (Nat.succ_pos n)⟩
    | cons a rest =>
      cases a with
      | broken fault => exact ⟨rest, .broken allEvents_nil rfl (Nat.succ_pos n)⟩
      | delivery tag body =>
        by_cases he : ∃ e, body.Carries e
        · obtain ⟨e, he⟩ := he
          obtain ⟨left, h⟩ := ih rest
          rw [consume_event he]
          exact ⟨left, h.cons he⟩
        · have no_event := not_exists.1 he
          rw [consume_no_event no_event]
          exact ⟨rest, .noEvent allEvents_nil rfl (Nat.succ_pos n) no_event⟩

end Consumer

/-! ## One step after another -/

/-- Where a consumer stands in its loop. -/
inductive Consumer.Phase where
  /-- It waits for the stream. -/
  | waiting
  /-- It has taken a delivery, and the acknowledgement has not gone out yet. -/
  | holding (tag : Nat) (body : Body)
  /-- It has acknowledged a delivery, and has not read the event in it yet. -/
  | reading (body : Body)
  | ended (result : Except ConsumeFailure Unit)

/-- A consumer at work. -/
structure Consumer where
  /-- How many deliveries it still wants. -/
  wanted : Nat
  /-- What it has left in the stream. -/
  stream : List Arrival
  /-- The tags that it has acknowledged, in order. -/
  acked : List Nat
  phase : Consumer.Phase

namespace Consumer

/-- A consumer of a number of deliveries that has taken none. -/
def start (n : Nat) (stream : List Arrival) : Consumer := ⟨n, stream, [], .waiting⟩

/-- What a consumer does next. It has no choice, but the link may refuse an acknowledgement. -/
inductive Step : Consumer → Consumer → Prop where
  | finish {stream : List Arrival} {acked : List Nat} :
      Step ⟨0, stream, acked, .waiting⟩ ⟨0, stream, acked, .ended (.ok ())⟩
  | close {n : Nat} {acked : List Nat} :
      Step ⟨n + 1, [], acked, .waiting⟩ ⟨n + 1, [], acked, .ended (.error .streamClosed)⟩
  | breakOff {n : Nat} {fault : LinkFault} {left : List Arrival} {acked : List Nat} :
      Step ⟨n + 1, .broken fault :: left, acked, .waiting⟩
        ⟨n, left, acked, .ended (.error (.broken fault))⟩
  | take {n tag : Nat} {body : Body} {left : List Arrival} {acked : List Nat} :
      Step ⟨n + 1, .delivery tag body :: left, acked, .waiting⟩ ⟨n, left, acked, .holding tag body⟩
  | acknowledge {n tag : Nat} {body : Body} {left : List Arrival} {acked : List Nat} :
      Step ⟨n, left, acked, .holding tag body⟩ ⟨n, left, acked ++ [tag], .reading body⟩
  | refuse {n tag : Nat} {body : Body} {left : List Arrival} {acked : List Nat}
      (fault : LinkFault) :
      Step ⟨n, left, acked, .holding tag body⟩ ⟨n, left, acked, .ended (.error (.broken fault))⟩
  | read {n : Nat} {body : Body} {left : List Arrival} {acked : List Nat} {e : OrderEvent} :
      body.Carries e → Step ⟨n, left, acked, .reading body⟩ ⟨n, left, acked, .waiting⟩
  | fail {n : Nat} {body : Body} {left : List Arrival} {acked : List Nat} :
      (∀ e, ¬ body.Carries e) →
      Step ⟨n, left, acked, .reading body⟩ ⟨n, left, acked, .ended (.error .notAnEvent)⟩

/-- How a consumer of `n` deliveries stands to the stream that it started with. -/
inductive Sound (n : Nat) (stream : List Arrival) : Consumer → Prop where
  | waiting {good : List (Nat × Body)} {left : List Arrival} {wanted : Nat} :
      AllEvents good → stream = deliveries good ++ left → good.length + wanted = n →
      Sound n stream ⟨wanted, left, good.map (·.1), .waiting⟩
  | holding {good : List (Nat × Body)} {tag : Nat} {body : Body} {left : List Arrival}
      {wanted : Nat} :
      AllEvents good → stream = deliveries good ++ .delivery tag body :: left →
      good.length + (wanted + 1) = n →
      Sound n stream ⟨wanted, left, good.map (·.1), .holding tag body⟩
  | reading {good : List (Nat × Body)} {tag : Nat} {body : Body} {left : List Arrival}
      {wanted : Nat} :
      AllEvents good → stream = deliveries good ++ .delivery tag body :: left →
      good.length + (wanted + 1) = n →
      Sound n stream ⟨wanted, left, good.map (·.1) ++ [tag], .reading body⟩
  | ended {left : List Arrival} {wanted : Nat} {c : Consumption} :
      End n stream left c → Sound n stream ⟨wanted, left, c.acked, .ended c.result⟩
  | refused {good : List (Nat × Body)} {tag : Nat} {body : Body} {left : List Arrival}
      {wanted : Nat} {fault : LinkFault} :
      AllEvents good → stream = deliveries good ++ .delivery tag body :: left → good.length < n →
      Sound n stream ⟨wanted, left, good.map (·.1), .ended (.error (.broken fault))⟩

variable {c c' : Consumer}

theorem sound_start (n : Nat) (stream : List Arrival) : Sound n stream (start n stream) :=
  .waiting allEvents_nil rfl (Nat.zero_add n)

/-- Every step keeps a consumer sound. -/
theorem Sound.step (h : Sound n stream c) (hs : Step c c') : Sound n stream c' := by
  cases hs with
  | finish =>
    cases h with
    | waiting events hs hn => exact .ended (.read events hs hn)
  | close =>
    cases h with
    | waiting events hs hn =>
      rw [List.append_nil] at hs
      exact .ended (.closed events hs (by omega))
  | breakOff =>
    cases h with
    | waiting events hs hn => exact .ended (.broken events hs (by omega))
  | take =>
    cases h with
    | waiting events hs hn => exact .holding events hs hn
  | acknowledge =>
    cases h with
    | holding events hs hn => exact .reading events hs hn
  | refuse fault =>
    cases h with
    | holding events hs hn => exact .refused events hs (by omega)
  | read he =>
    cases h with
    | @reading good tag _ _ _ events hs hn =>
      -- the delivery in hand joins those whose events have been read
      rw [← map_fst_concat good tag _]
      refine .waiting (events.concat he) ?_ ?_
      · rw [hs, deliveries_concat, List.append_assoc, List.singleton_append]
      · rw [List.length_append, List.length_singleton]
        omega
  | fail none =>
    cases h with
    | reading events hs hn => exact .ended (.noEvent events hs (by omega) none)

theorem sound (h : Relation.ReflTransGen Step (start n stream) c) : Sound n stream c := by
  induction h with
  | refl => exact sound_start n stream
  | tail _ hs ih => exact ih.step hs

/-- What has been taken from a stream, at most `n` arrivals, and what has been acknowledged: each
delivery taken, once and in order, but for the last arrival perhaps. -/
def Accounted (n : Nat) (stream left : List Arrival) (acked : List Nat) : Prop :=
  ∃ taken, stream = taken ++ left ∧ taken.length ≤ n ∧
    (acked.map some = taken.map Arrival.tag? ∨ acked.map some = taken.dropLast.map Arrival.tag?)

theorem accounted_settled (hn : good.length ≤ n) (hs : stream = deliveries good ++ left) :
    Accounted n stream left (good.map (·.1)) := by
  refine ⟨deliveries good, hs, ?_, .inl ?_⟩
  · rwa [length_deliveries]
  · rw [map_tag?_deliveries]

theorem accounted_acknowledged (hn : good.length < n)
    (hs : stream = deliveries good ++ .delivery tag body :: left) :
    Accounted n stream left (good.map (·.1) ++ [tag]) := by
  rw [← map_fst_concat good tag body]
  apply accounted_settled
  · rwa [List.length_append, List.length_singleton]
  · rw [hs, deliveries_concat, List.append_assoc, List.singleton_append]

theorem accounted_held {a : Arrival} (hn : good.length < n)
    (hs : stream = deliveries good ++ a :: left) : Accounted n stream left (good.map (·.1)) := by
  refine ⟨deliveries good ++ [a], ?_, ?_, .inr ?_⟩
  · rw [hs, List.append_assoc, List.singleton_append]
  · rwa [List.length_append, length_deliveries, List.length_singleton]
  · rw [List.dropLast_concat, map_tag?_deliveries]

theorem End.accounted {c : Consumption} (h : End n stream left c) :
    Accounted n stream left c.acked := by
  cases h with
  | read events hs hn => exact accounted_settled (Nat.le_of_eq hn) hs
  | closed events hs hn =>
    rw [← List.append_nil (deliveries _)] at hs
    exact accounted_settled (Nat.le_of_lt hn) hs
  | broken events hs hn => exact accounted_held hn hs
  | noEvent events hs hn _ => exact accounted_acknowledged hn hs

theorem Sound.accounted (h : Sound n stream c) : Accounted n stream c.stream c.acked := by
  cases h with
  | waiting events hs hn => exact accounted_settled (by omega) hs
  | holding events hs hn => exact accounted_held (by omega) hs
  | reading events hs hn => exact accounted_acknowledged (by omega) hs
  | ended h => exact h.accounted
  | refused events hs hn => exact accounted_held hn hs

/-! ## Consuming is what a consumer does -/

/-- A consumer that waits can go on as consuming does. -/
theorem reaches_consumed (n : Nat) (stream : List Arrival) (acked : List Nat) :
    ∃ c, Relation.ReflTransGen Step ⟨n, stream, acked, .waiting⟩ c ∧
      c.acked = acked ++ (consume n stream).acked ∧
      c.phase = .ended (consume n stream).result := by
  -- on what is still wanted; the tags acknowledged so far grow from one delivery to the next
  induction n generalizing stream acked with
  | zero => exact ⟨_, .single .finish, (List.append_nil _).symm, rfl⟩
  | succ n ih =>
    cases stream with
    | nil => exact ⟨_, .single .close, (List.append_nil _).symm, rfl⟩
    | cons a rest =>
      cases a with
      | broken fault => exact ⟨_, .single .breakOff, (List.append_nil _).symm, rfl⟩
      | delivery tag body =>
        have acknowledged : Relation.ReflTransGen Step
            ⟨n + 1, .delivery tag body :: rest, acked, .waiting⟩
            ⟨n, rest, acked ++ [tag], .reading body⟩ :=
          .tail (.single .take) .acknowledge
        by_cases he : ∃ e, body.Carries e
        · obtain ⟨e, he⟩ := he
          obtain ⟨c, others, hacked, hphase⟩ := ih rest (acked ++ [tag])
          rw [consume_event he]
          refine ⟨c, (acknowledged.tail (.read he)).trans others, ?_, hphase⟩
          rw [hacked, List.append_assoc, List.singleton_append]
        · have no_event := not_exists.1 he
          rw [consume_no_event no_event]
          exact ⟨_, acknowledged.tail (.fail no_event), rfl, rfl⟩

/-- A consumer that has ended has consumed, unless the link has refused an acknowledgement: then it
has acknowledged the deliveries before, and the fault is its result. -/
theorem Sound.consumed {result : Except ConsumeFailure Unit} (h : Sound n stream c)
    (hr : c.phase = .ended result) :
    consume n stream = ⟨c.acked, result⟩ ∨
      ∃ good tag body fault, stream = deliveries good ++ .delivery tag body :: c.stream ∧
        good.length < n ∧ c.acked = good.map (·.1) ∧ result = .error (.broken fault) := by
  cases h with
  | waiting | holding | reading => cases hr
  | ended h =>
    obtain rfl := Phase.ended.inj hr
    exact .inl h.consume_eq
  | refused events hs hn =>
    obtain rfl := Phase.ended.inj hr
    exact .inr ⟨_, _, _, _, hs, hn, rfl, rfl⟩

/-- A consumer that is stopped anywhere has acknowledged the deliveries that it took, one at a time,
each once and in order, but for the last perhaps, and has taken no more than it was to take. It ends
as `consume` says, unless the link refuses an acknowledgement. What lies beyond the deliveries that
are asked for makes no difference to `consume`. It succeeds just if these all arrive with events,
and acknowledges them all. Where fewer do so, it fails and has acknowledged these, and with them the
next delivery if it is one without an event. -/
theorem deliveries_accounted (n : Nat) (stream : List Arrival) :
    (∀ c, Relation.ReflTransGen Step (start n stream) c →
      Accounted n stream c.stream c.acked) ∧
    (∃ c, Relation.ReflTransGen Step (start n stream) c ∧
      c.acked = (consume n stream).acked ∧ c.phase = .ended (consume n stream).result) ∧
    (∀ c result, Relation.ReflTransGen Step (start n stream) c → c.phase = .ended result →
      consume n stream = ⟨c.acked, result⟩ ∨
      ∃ good tag body fault, stream = deliveries good ++ .delivery tag body :: c.stream ∧
        good.length < n ∧ c.acked = good.map (·.1) ∧ result = .error (.broken fault)) ∧
    (∀ taken left, stream = taken ++ left → taken.length = n →
      consume n stream = consume n taken) ∧
    ((consume n stream).result = .ok () ↔
      ∃ good left, stream = deliveries good ++ left ∧ AllEvents good ∧ good.length = n) ∧
    ∀ good left, stream = deliveries good ++ left → AllEvents good →
      (good.length = n → consume n stream = ⟨good.map (·.1), .ok ()⟩) ∧
      (good.length < n →
        (left = [] → consume n stream = ⟨good.map (·.1), .error .streamClosed⟩) ∧
        (∀ fault after, left = .broken fault :: after →
          consume n stream = ⟨good.map (·.1), .error (.broken fault)⟩) ∧
        ∀ tag body after, left = .delivery tag body :: after → (∀ e, ¬ body.Carries e) →
          consume n stream = ⟨good.map (·.1) ++ [tag], .error .notAnEvent⟩) := by
  refine ⟨fun c h => (sound h).accounted, reaches_consumed n stream [],
    fun c result h hr => (sound h).consumed hr, ?_, ?_, ?_⟩
  · rintro taken left rfl hn
    exact consume_append left hn
  · constructor
    · intro ok
      obtain ⟨left, h⟩ := exists_end n stream
      generalize consume n stream = c at h ok
      cases h with
      | read events hs hn => exact ⟨_, _, hs, events, hn⟩
      | closed | broken | noEvent => cases ok
    · rintro ⟨good, left, hs, events, hn⟩
      rw [(End.read events hs hn).consume_eq]
  · intro good left hs events
    refine ⟨fun hn => (End.read events hs hn).consume_eq, fun hn => ⟨?_, ?_, ?_⟩⟩
    · rintro rfl
      rw [List.append_nil] at hs
      exact (End.closed events hs hn).consume_eq
    · rintro fault after rfl
      exact (End.broken events hs hn).consume_eq
    · rintro tag body after rfl none
      exact (End.noEvent events hs hn none).consume_eq

/-- The first parcel of an order is on its way. -/
def parcel : OrderEvent := ⟨.dispatched, ⟨30, by decide⟩, ⟨31, by decide⟩, "noon"⟩

/-- Of a delivery with an event, one without and one with an event, a consumer of three acknowledges
the first two; a consumer of one is content with the first; and where the stream closes after the
first, a consumer of two has acknowledged it. -/
theorem deliveries_accounted_parcel : ∃ body, Body.encode parcel.toValue = .ok body ∧
    consume 3 [.delivery 7 body, .delivery 8 "junk".toUTF8, .delivery 9 body]
      = ⟨[7, 8], .error .notAnEvent⟩ ∧
    consume 1 [.delivery 7 body, .delivery 8 "junk".toUTF8, .delivery 9 body] = ⟨[7], .ok ()⟩ ∧
    consume 2 [.delivery 7 body] = ⟨[7], .error .streamClosed⟩ := by
  obtain ⟨body, encoded, carried⟩ := parcel.encode_toValue
  have first : AllEvents [(7, body)] := allEvents_nil.cons carried
  have junk : ∀ e, ¬ Body.Carries "junk".toUTF8 e := by
    intro e he
    rw [Body.Carries, Body.text?_toUTF8, Option.bind_some] at he
    have unread : OrderEvent.read? "junk" = none := by decide +kernel
    rw [unread] at he
    cases he
  refine ⟨body, encoded, ?_, ?_, ?_⟩
  · obtain ⟨-, -, -, -, -, ends⟩ := deliveries_accounted 3
      [.delivery 7 body, .delivery 8 "junk".toUTF8, .delivery 9 body]
    exact ((ends [(7, body)] _ rfl first).2 (by simp)).2.2 8 _ _ rfl junk
  · obtain ⟨-, -, -, -, -, ends⟩ := deliveries_accounted 1
      [.delivery 7 body, .delivery 8 "junk".toUTF8, .delivery 9 body]
    exact (ends [(7, body)] _ rfl first).1 rfl
  · obtain ⟨-, -, -, -, -, ends⟩ := deliveries_accounted 2 [.delivery 7 body]
    exact ((ends [(7, body)] [] rfl first).2 (by simp)).1 rfl

end Consumer

end Courier
