import Apcore.Errors
import Apcore.Events.Delivery

/-! # `Events.DeadLetters` — `deliver_with_dlq`, attempt by attempt

Each `emit` starts one delivery for each subscriber that matches, with the snapshot of the
subscribers it took. The deliveries of all `emit` calls go on side by side, in any order; what the
subscribers answer and what the clock says comes with the step. A delivery keeps a trace of what it
did. The result is what the trace says of the attempts, of the dead letters and of `on_failure`. -/

namespace Apcore

namespace DeadLetters

open Deliveries

/-- `ApCoreEvent`. -/
structure ApCoreEvent where
  eventType : String
  timestamp : String
  data : Json
  moduleId : Option String
  severity : String

/-- `ApCoreEvent::new`. -/
def ApCoreEvent.new (eventType : String) (data : Json) (now : String) : ApCoreEvent where
  eventType := eventType
  timestamp := now
  data := data
  moduleId := none
  severity := "info"

/-- `EventSubscriber`, with what a dead letter says about it. The delay after an attempt comes out
of double arithmetic and is left open; the default is that of `EventRetryConfig::default`. -/
structure EventSubscriber extends Subscriber where
  subscriberId : String := "default"
  subscriberType : String := "subscriber"
  computeDelayMs : Nat → Nat := fun attempt => min (100 * 2 ^ attempt) 30000

abbrev Outcome := Except ModuleError Unit

/-- What a delivery did. A dead letter goes to the subscriber at a position of the snapshot. -/
inductive Action where
  | onEvent (outcome : Outcome)
  | sleep (ms : Nat)
  | deadLetter (receiver : Nat) (event : ApCoreEvent) (outcome : Outcome)
  | onFailure (event : ApCoreEvent) (error : ModuleError) (attemptCount : Nat)

/-- Where a delivery stands. -/
inductive Stage where
  /-- At the head of the loop over the attempts. -/
  | attempting (attempt : Nat) (lastError : Option ModuleError)
  | sleeping (attempt : Nat) (error : ModuleError)
  /-- At the head of the loop over the subscribers, at this position. -/
  | deadLettering (error : ModuleError) (dlqEvent : ApCoreEvent) (position : Nat)
  | finished

/-- A delivery: the arguments of `deliver_with_dlq` and where it stands. The position of the
subscriber in the snapshot, the trace and the number of steps are not in the program. -/
structure Delivery where
  target : Nat
  subscriber : EventSubscriber
  event : ApCoreEvent
  allSubscribers : List EventSubscriber
  stage : Stage
  trace : List Action
  steps : Nat

/-- `deliver_with_dlq` is called. -/
def Delivery.start (target : Nat) (subscriber : EventSubscriber) (event : ApCoreEvent)
    (allSubscribers : List EventSubscriber) : Delivery where
  target := target
  subscriber := subscriber
  event := event
  allSubscribers := allSubscribers
  stage := .attempting 0 none
  trace := []
  steps := 0

/-- The error that stands for one there is not. -/
def unknownFailure : ModuleError :=
  ModuleError.new .generalInternalError "unknown delivery failure"

/-- The data of a dead letter. -/
def Delivery.deadLetterData (d : Delivery) (error : ModuleError) (attemptCount : Nat)
    (now : String) : Json :=
  .object
    [("attempt_count", .number (.posInt (UInt64.ofNat attemptCount))),
      ("error", .object [("message", .string error.message), ("type", .string error.code.debugStr)]),
      ("original_event", .object
        [("metadata", .object
            [("module_id", match d.event.moduleId with
              | some id => .string id
              | none => .null),
              ("timestamp", .string d.event.timestamp)]),
          ("name", .string d.event.eventType), ("payload", d.event.data)]),
      ("subscriber_id", .string d.subscriber.subscriberId),
      ("subscriber_type", .string d.subscriber.subscriberType),
      ("timestamp", .string now)]

/-- The dead letter; the clock is read for its data and for the event. -/
def Delivery.deadLetter (d : Delivery) (error : ModuleError) (attemptCount : Nat)
    (now now' : String) : ApCoreEvent :=
  ApCoreEvent.new DLQ_EVENT_TYPE (d.deadLetterData error attemptCount now) now'

/-- Whether a subscriber gets the dead letters: the loop over the subscribers passes by the
catch-all and those that do not match. -/
def EventSubscriber.getsDeadLetters (sub : EventSubscriber) : Bool :=
  if sub.eventPattern == "*" then false else sub.subscriberMatches DLQ_EVENT_TYPE

/-- A delivery goes on. -/
def Delivery.goTo (d : Delivery) (stage : Stage) (actions : List Action) : Delivery :=
  { d with stage, trace := d.trace ++ actions, steps := d.steps + 1 }

/-- One step of `deliver_with_dlq`, with the answer of the subscriber it calls, if it calls one. -/
def Delivery.advance (d : Delivery) (now now' : String) (outcome : Outcome) : Option Delivery :=
  match d.stage with
  | .attempting attempt lastError =>
    if attempt < d.subscriber.maxAttempts then
      match outcome with
      | .ok () => some (d.goTo .finished [.onEvent outcome])
      | .error e =>
        if attempt + 1 < d.subscriber.maxAttempts then
          some (d.goTo (.sleeping attempt e) [.onEvent outcome])
        else some (d.goTo (.attempting (attempt + 1) (some e)) [.onEvent outcome])
    else
      let error := lastError.getD unknownFailure
      let dlqEvent := d.deadLetter error d.subscriber.maxAttempts now now'
      some (d.goTo (.deadLettering error dlqEvent 0) [])
  | .sleeping attempt e =>
    some (d.goTo (.attempting (attempt + 1) (some e))
      [.sleep (d.subscriber.computeDelayMs attempt)])
  | .deadLettering error dlqEvent position =>
    match d.allSubscribers[position]? with
    | some sub =>
      if sub.getsDeadLetters then
        some (d.goTo (.deadLettering error dlqEvent (position + 1))
          [.deadLetter position dlqEvent outcome])
      else some (d.goTo (.deadLettering error dlqEvent (position + 1)) [])
    | none =>
      some (d.goTo .finished [.onFailure d.event error d.subscriber.maxAttempts])
  | .finished => none

/-! ## The emitter -/

/-- One call of `emit`: its event, its snapshot and the deliveries it spawned. -/
structure Emission where
  event : ApCoreEvent
  subscribers : List EventSubscriber
  deliveries : List Delivery

/-- The body of `emit`. -/
def Emission.start (event : ApCoreEvent) (subscribers : List EventSubscriber) : Emission where
  event := event
  subscribers := subscribers
  deliveries :=
    (subscribers.zipIdx.filter fun p => p.1.subscriberMatches event.eventType).map fun p =>
      Delivery.start p.2 p.1 event subscribers

/-- The emitter and all its emissions. -/
structure State where
  isShutdown : Bool
  subscribers : List EventSubscriber
  emissions : List Emission

/-- `EventEmitter::new`. -/
def init : State where
  isShutdown := false
  subscribers := []
  emissions := []

inductive Label where
  /-- Somebody subscribes or unsubscribes. -/
  | setSubscribers (subs : List EventSubscriber)
  | shutdown
  | emit (event : ApCoreEvent)
  /-- A delivery of an emission takes a step. -/
  | advance (emission delivery : Nat) (now now' : String) (outcome : Outcome)

/-- One step. -/
def step (s : State) : Label → Option State
  | .setSubscribers subs => some { s with subscribers := subs }
  | .shutdown => some { s with isShutdown := true }
  | .emit event =>
    if s.isShutdown then some s
    else some { s with emissions := s.emissions ++ [Emission.start event s.subscribers] }
  | .advance j k now now' outcome =>
    match s.emissions[j]? with
    | none => none
    | some e =>
      match e.deliveries[k]? with
      | none => none
      | some d =>
        match d.advance now now' outcome with
        | none => none
        | some d' =>
          let e' := { e with deliveries := e.deliveries.set k d' }
          some { s with emissions := s.emissions.set j e' }

/-! ## What a trace says -/

/-- The outcome of an attempt. -/
def Action.attempt? : Action → Option Outcome
  | .onEvent outcome => some outcome
  | _ => none

/-- A dead letter to the subscriber at a position. -/
def Action.deadLetterTo? (i : Nat) : Action → Option ApCoreEvent
  | .deadLetter receiver event _ => if receiver = i then some event else none
  | _ => none

/-- The arguments of `on_failure`. -/
def Action.failure? : Action → Option (ApCoreEvent × ModuleError × Nat)
  | .onFailure event error attemptCount => some (event, error, attemptCount)
  | _ => none

namespace Delivery

variable (d : Delivery)

/-- The outcomes of the attempts, in order. -/
def attempts : List Outcome := d.trace.filterMap Action.attempt?

def deadLettersTo (i : Nat) : List ApCoreEvent := d.trace.filterMap (Action.deadLetterTo? i)

def failures : List (ApCoreEvent × ModuleError × Nat) := d.trace.filterMap Action.failure?

/-- Whether the subscriber at a position is to get the dead letters. -/
def isReceiver (i : Nat) : Prop :=
  ∃ sub, d.allSubscribers[i]? = some sub ∧ sub.eventPattern ≠ "*" ∧
    sub.subscriberMatches DLQ_EVENT_TYPE = true

/-- The error of the last attempt; with no attempt, the one that stands for it. -/
def IsLastError (error : ModuleError) : Prop :=
  d.attempts.getLast? = some (.error error) ∨ (d.attempts = [] ∧ error = unknownFailure)

/-- What holds of a delivery at any time. -/
structure Faithful : Prop where
  atMost : d.attempts.length ≤ d.subscriber.maxAttempts
  noneAfterSuccess : ∀ before after, d.attempts = before ++ .ok () :: after → after = []
  atLeastOnce : d.stage = .finished → 0 < d.subscriber.maxAttempts → d.attempts ≠ []
  accepted : d.stage = .finished → .ok () ∈ d.attempts →
    (∀ i, d.deadLettersTo i = []) ∧ d.failures = []
  exhausted : d.stage = .finished → .ok () ∉ d.attempts →
    ∃ error now now', d.IsLastError error ∧
      (∀ i, d.isReceiver i →
        d.deadLettersTo i = [d.deadLetter error d.attempts.length now now']) ∧
      d.failures = [(d.event, error, d.attempts.length)]
  onlyReceivers : ∀ i, ¬ d.isReceiver i → d.deadLettersTo i = []
  oneDeadLetter : ∀ i, (d.deadLettersTo i).length ≤ 1
  oneFailure : d.failures.length ≤ 1

/-- The steps a delivery takes at most. -/
def bound : Nat := 2 * d.subscriber.maxAttempts + d.allSubscribers.length + 2

end Delivery

/-- The deliveries of an emission are those of the subscribers that match, each faithful and
bounded in its steps. -/
structure Emission.Delivers (e : Emission) : Prop where
  targets : ∀ i, (∃ d ∈ e.deliveries, d.target = i) ↔
    ∃ sub, e.subscribers[i]? = some sub ∧ sub.subscriberMatches e.event.eventType = true
  distinct : (e.deliveries.map (·.target)).Nodup
  arguments : ∀ d ∈ e.deliveries, e.subscribers[d.target]? = some d.subscriber ∧
    d.event = e.event ∧ d.allSubscribers = e.subscribers
  faithful : ∀ d ∈ e.deliveries, d.Faithful
  bounded : ∀ d ∈ e.deliveries, d.steps ≤ d.bound

end DeadLetters

end Apcore
