import Apcore.Utils
import Apcore.Lib.Transition

/-! # `Events.Delivery` — `emit`, `flush` and `shutdown` over the deliveries in flight

`emit` reads the shutdown flag, takes a snapshot of the subscribers, spawns a task for each delivery
and lists the handles of the tasks in `pending`. `flush` takes the list away and waits for its
handles one by one. Each of these is a step, between which the steps of other calls and of the
deliveries come. How much time passes is left open. -/

namespace Apcore

namespace Deliveries

/-- What `emit` and a delivery ask of an `EventSubscriber`. -/
structure Subscriber where
  eventPattern : String := "*"
  eventTypeFilter : Option String := none
  maxAttempts : Nat := 3
  deriving DecidableEq, Repr

/-- `subscriber_matches`. -/
def Subscriber.subscriberMatches (s : Subscriber) (eventType : String) : Bool :=
  match s.eventTypeFilter with
  | some exact => exact == eventType
  | none => matchGlob s.eventPattern eventType

def DLQ_EVENT_TYPE : String := "apcore.event.delivery_failed"

/-- The subscribers that a dead letter goes to. -/
def deadLetterSubscribers (all : List Subscriber) : List Subscriber :=
  all.filter fun s => s.eventPattern != "*" && s.subscriberMatches DLQ_EVENT_TYPE

/-- Where a delivery stands in `deliver_with_dlq`. -/
inductive Task where
  | unborn
  /-- The next thing is to call `on_event` for this attempt. -/
  | attempting (sub : Subscriber) (all : List Subscriber) (attempt : Nat)
  | calling (sub : Subscriber) (all : List Subscriber) (attempt : Nat)
  | sleeping (sub : Subscriber) (all : List Subscriber) (attempt : Nat)
  /-- The attempts are used up; dead letters go to the subscribers that are left. -/
  | deadLetters (rest : List Subscriber)
  | deadLettering (rest : List Subscriber)
  | finished
  deriving DecidableEq, Repr

/-- A delivery goes on to an attempt, when there is one left. -/
def Task.attempt (sub : Subscriber) (all : List Subscriber) (attempt : Nat) : Task :=
  if attempt < sub.maxAttempts then .attempting sub all attempt
  else .deadLetters (deadLetterSubscribers all)

/-- A call of `flush`: whether it has a limit, whether `shutdown` made it, and, not in the program,
the deliveries of the `emit` calls that had returned when it began. -/
structure FlushCall where
  timed : Bool
  inShutdown : Bool
  due : List Nat
  deriving DecidableEq, Repr

/-- Where a thread stands. -/
inductive Pc where
  | idle
  /-- `emit` has read the flag. -/
  | emitting (eventType : String)
  | spawning (subs all : List Subscriber) (handles : List Nat)
  | flushing (call : FlushCall)
  /-- `flush` has the handles it took: those it has yet to wait for, and those it gives back. -/
  | awaiting (call : FlushCall) (rest unfinished : List Nat)
  | relisting (call : FlushCall) (unfinished : List Nat)
  deriving DecidableEq, Repr

/-- The emitter, its deliveries and the threads, by number. The last fields are not in the program:
the deliveries of the `emit` calls that have returned, the threads in an `emit` that has read the
flag, the deliveries that a `flush` without limit should have waited for and did not, whether a
`shutdown` without limit has returned, and the deliveries that called `on_event` after that. -/
structure State where
  isShutdown : Bool
  subscribers : List Subscriber
  pending : List Nat
  nextTask : Nat
  task : Nat → Task
  pc : Nat → Pc
  listed : List Nat
  emits : List Nat
  overdue : List Nat
  shutDown : Bool
  late : List Nat

/-- `EventEmitter::new`. -/
def init : State where
  isShutdown := false
  subscribers := []
  pending := []
  nextTask := 0
  task := fun _ => .unborn
  pc := fun _ => .idle
  listed := []
  emits := []
  overdue := []
  shutDown := false
  late := []

/-- The steps. Those of `emit` are those of `emit_delivery_semantics`. -/
inductive Label where
  /-- Somebody subscribes or unsubscribes. -/
  | setSubscribers (subs : List Subscriber)
  | emit (t : Nat) (eventType : String)
  | snapshot (t : Nat)
  | spawn (t : Nat)
  | track (t : Nat)
  | flush (t : Nat) (timed : Bool)
  | shutdown (t : Nat) (timed : Bool)
  | take (t : Nat)
  | await (t : Nat)
  /-- The limit passes while `flush` waits for a handle, which `timeout_at` has consumed. -/
  | timeOut (t : Nat)
  /-- The limit has passed when `flush` comes to a handle. -/
  | keep (t : Nat)
  | relist (t : Nat)
  /-- The future of `flush` is dropped, with its handles. -/
  | cancel (t : Nat)
  | callSubscriber (k : Nat)
  | answer (k : Nat) (ok : Bool)
  | wake (k : Nat)
  /-- `on_failure`, after the dead letters. -/
  | fail (k : Nat)
  /-- The subscriber panics, which ends the task. -/
  | crash (k : Nat)
  deriving DecidableEq, Repr

/-- A thread goes on. -/
def State.goTo (s : State) (t : Nat) (pc : Pc) : State :=
  { s with pc := Function.update s.pc t pc }

/-- A delivery goes on. -/
def State.setTask (s : State) (k : Nat) (task : Task) : State :=
  { s with task := Function.update s.task k task }

/-- A delivery calls `on_event`. -/
def State.callOnEvent (s : State) (k : Nat) (task : Task) : State :=
  { s.setTask k task with late := if s.shutDown then s.late ++ [k] else s.late }

/-- A call of `flush` returns, and the call of `shutdown` that made it. -/
def State.finishFlush (s : State) (t : Nat) (call : FlushCall) : State :=
  { s.goTo t .idle with
    overdue :=
      if call.timed then s.overdue
      else s.overdue ++ call.due.filter fun k => s.task k != .finished
    shutDown := s.shutDown || (call.inShutdown && !call.timed) }

/-- `flush` comes to the end of its handles. -/
def State.afterLoop (s : State) (t : Nat) (call : FlushCall) (unfinished : List Nat) : State :=
  if unfinished.isEmpty then s.finishFlush t call else s.goTo t (.relisting call unfinished)

/-- One step. -/
def step (s : State) : Label → Option State
  | .setSubscribers subs => some { s with subscribers := subs }
  | .emit t eventType =>
    match s.pc t with
    | .idle =>
      if s.isShutdown then some s
      else some { s.goTo t (.emitting eventType) with emits := t :: s.emits }
    | _ => none
  | .snapshot t =>
    match s.pc t with
    | .emitting eventType =>
      let subs := s.subscribers.filter (·.subscriberMatches eventType)
      some (s.goTo t (.spawning subs s.subscribers []))
    | _ => none
  | .spawn t =>
    match s.pc t with
    | .spawning (sub :: subs) all handles =>
      some
        { (s.setTask s.nextTask (.attempt sub all 0)).goTo t
            (.spawning subs all (handles ++ [s.nextTask])) with
          nextTask := s.nextTask + 1 }
    | _ => none
  | .track t =>
    match s.pc t with
    | .spawning [] _ handles =>
      some
        { s.goTo t .idle with
          pending := (s.pending.filter fun k => s.task k != .finished) ++ handles
          listed := s.listed ++ handles
          emits := s.emits.filter (· != t) }
    | _ => none
  | .flush t timed =>
    match s.pc t with
    | .idle => some (s.goTo t (.flushing { timed, inShutdown := false, due := s.listed }))
    | _ => none
  | .shutdown t timed =>
    match s.pc t with
    | .idle =>
      if s.isShutdown then some { s with shutDown := s.shutDown || !timed }
      else some
        { s.goTo t (.flushing { timed, inShutdown := true, due := s.listed }) with
          isShutdown := true }
    | _ => none
  | .take t =>
    match s.pc t with
    | .flushing call =>
      if s.pending.isEmpty then some (s.finishFlush t call)
      else some { s.goTo t (.awaiting call s.pending []) with pending := [] }
    | _ => none
  | .await t =>
    match s.pc t with
    | .awaiting call (k :: rest) unfinished =>
      if s.task k = .finished then some (s.goTo t (.awaiting call rest unfinished)) else none
    | .awaiting call [] unfinished => some (s.afterLoop t call unfinished)
    | _ => none
  | .timeOut t =>
    match s.pc t with
    | .awaiting call (_ :: rest) unfinished =>
      if call.timed then some (s.goTo t (.awaiting call rest unfinished)) else none
    | _ => none
  | .keep t =>
    match s.pc t with
    | .awaiting call (k :: rest) unfinished =>
      if call.timed then some (s.goTo t (.awaiting call rest (unfinished ++ [k]))) else none
    | _ => none
  | .relist t =>
    match s.pc t with
    | .relisting call unfinished =>
      some { s.finishFlush t call with pending := unfinished ++ s.pending }
    | _ => none
  | .cancel t =>
    match s.pc t with
    | .awaiting _ _ _ => some (s.goTo t .idle)
    | _ => none
  | .callSubscriber k =>
    match s.task k with
    | .attempting sub all attempt => some (s.callOnEvent k (.calling sub all attempt))
    | .deadLetters (_ :: rest) => some (s.callOnEvent k (.deadLettering rest))
    | _ => none
  | .answer k ok =>
    match s.task k with
    | .calling sub all attempt =>
      if ok then some (s.setTask k .finished)
      else if attempt + 1 < sub.maxAttempts then some (s.setTask k (.sleeping sub all (attempt + 1)))
      else some (s.setTask k (.deadLetters (deadLetterSubscribers all)))
    | .deadLettering rest => some (s.setTask k (.deadLetters rest))
    | _ => none
  | .wake k =>
    match s.task k with
    | .sleeping sub all attempt => some (s.setTask k (.attempting sub all attempt))
    | _ => none
  | .fail k =>
    match s.task k with
    | .deadLetters [] => some (s.setTask k .finished)
    | _ => none
  | .crash k =>
    match s.task k with
    | .calling _ _ _ => some (s.setTask k .finished)
    | .deadLettering _ => some (s.setTask k .finished)
    | .deadLetters [] => some (s.setTask k .finished)
    | _ => none

end Deliveries

end Apcore
