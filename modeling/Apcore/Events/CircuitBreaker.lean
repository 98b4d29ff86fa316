import Apcore.Json
import Apcore.Lib.Transition

/-! # `Events.CircuitBreaker` — the circuit around a subscriber

A `CircuitBreakerWrapper` keeps its state and the time of the last failure each behind a mutex, and
the count of failures in an atomic. A delivery comes to these cells one after the other, so that
other deliveries come between; what it does under the mutex of the state is one step. -/

namespace Apcore

namespace SubscriberCircuit

inductive CircuitState where
  | closed | opened | halfOpen
  deriving DecidableEq, Repr

def CircuitState.asStr : CircuitState → String
  | closed => "CLOSED"
  | opened => "OPEN"
  | halfOpen => "HALF_OPEN"

/-- `CircuitBreakerWrapper`, the part that does not change. -/
structure CircuitBreakerWrapper where
  openThreshold : Nat := 5
  recoveryWindowMs : Nat := 60000
  subscriberId : String
  subscriberTypeName : String

/-- The cells of the wrapper. Instants are in nanoseconds. -/
structure Cells where
  state : CircuitState
  consecutiveFailures : Nat
  lastFailureAt : Option Int
  deriving DecidableEq, Repr

/-- The `ApCoreEvent` of a change, with the instant that its timestamp prints. -/
structure CircuitEvent where
  eventType : String
  timestamp : Int
  data : Json
  moduleId : Option String
  severity : String

/-- `now.signed_duration_since(last).num_milliseconds().max(0)`. -/
def elapsedMs (now last : Int) : Nat := ((now - last).tdiv 1000000).toNat

def CIRCUIT_OPENED : String := "apcore.subscriber.circuit_opened"
def CIRCUIT_CLOSED : String := "apcore.subscriber.circuit_closed"

namespace CircuitBreakerWrapper

variable (w : CircuitBreakerWrapper)

/-- `check_recovery`. -/
def checkRecovery (c : Cells) (now : Int) : Cells :=
  match c.state, c.lastFailureAt with
  | .opened, some last =>
    if w.recoveryWindowMs ≤ elapsedMs now last then { c with state := .halfOpen } else c
  | _, _ => c

def makeEvent (eventType severity : String) (data : Json) (now : Int) : CircuitEvent where
  eventType := eventType
  timestamp := now
  data := data
  moduleId := none
  severity := severity

/-- `on_success`. -/
def onSuccess (c : Cells) (now : Int) : Cells × Option CircuitEvent :=
  ({ c with state := .closed, consecutiveFailures := 0 },
    if c.state = .halfOpen then
      some (makeEvent CIRCUIT_CLOSED "info"
        (.object
          [("recovery_attempt", .bool true), ("subscriber_id", .string w.subscriberId),
            ("subscriber_type", .string w.subscriberTypeName)]) now)
    else none)

/-- `consecutive_failures.fetch_add(1) + 1`, on 32 bits. -/
def countFailure (c : Cells) : Cells :=
  { c with consecutiveFailures := (c.consecutiveFailures + 1) % 2 ^ 32 }

/-- Whether a failure with this count opens the circuit. -/
def opens (c : Cells) (newCount : Nat) : Bool :=
  match c.state with
  | .halfOpen => true
  | .closed => w.openThreshold ≤ newCount
  | .opened => false

/-- The rest of `on_failure`, under the mutex of the state. -/
def onFailure (c : Cells) (newCount : Nat) (now : Int) : Cells × Option CircuitEvent :=
  if w.opens c newCount then
    ({ c with state := .opened },
      some (makeEvent CIRCUIT_OPENED "warn"
        (.object
          [("consecutive_failures", .number (.posInt (UInt64.ofNat newCount))),
            ("subscriber_id", .string w.subscriberId),
            ("subscriber_type", .string w.subscriberTypeName)]) now))
  else (c, none)

end CircuitBreakerWrapper

/-! ## Deliveries -/

/-- How the delivery to the subscriber ends; it is abandoned when its task is aborted or panics. -/
inductive Outcome where
  | delivered | failed | timedOut | abandoned
  deriving DecidableEq, Repr

/-- Where a delivery stands in `on_event`. -/
inductive Pc where
  | idle
  | checked
  | delivering
  | succeeded
  | failed
  | counted (newCount : Nat) (now : Int)
  | stamped (newCount : Nat)
  | dispatching (event : CircuitEvent)
  | done

/-- A change of the state, with the delivery that made it and the failures that had been counted
since the last success was recorded. -/
structure Transition where
  delivery : Nat
  source : CircuitState
  target : CircuitState
  failures : Nat
  deriving DecidableEq, Repr

/-- The wrapper and the deliveries, by number. The last four fields are not in the program: the
failures counted since the last recorded success, the deliveries that have counted a failure and not
looked at the state since, with their counts, the changes of the state and the events of the sink,
with the delivery that dispatched them. -/
structure State where
  cells : Cells
  pc : Nat → Pc
  failures : Nat
  unsettled : List (Nat × Nat)
  transitions : List Transition
  emitted : List (Nat × CircuitEvent)

/-- A new wrapper. -/
def init : State where
  cells := { state := .closed, consecutiveFailures := 0, lastFailureAt := none }
  pc := fun _ => .idle
  failures := 0
  unsettled := []
  transitions := []
  emitted := []

/-- The steps of a delivery, with the instants that the clock gives it. -/
inductive Label where
  | checkRecovery (d : Nat) (now : Int)
  | readState (d : Nat)
  | deliver (d : Nat) (outcome : Outcome)
  | recordSuccess (d : Nat) (now : Int)
  | countFailure (d : Nat) (now : Int)
  | stampFailure (d : Nat)
  | settleFailure (d : Nat) (now : Int)
  | dispatch (d : Nat)
  deriving DecidableEq, Repr

/-- Where a delivery goes on once the subscriber is done. -/
def Outcome.next : Outcome → Pc
  | delivered => .succeeded
  | failed => .failed
  | timedOut => .failed
  | abandoned => .done

/-- Only an event is left to dispatch, if there is one. -/
def Pc.finish : Option CircuitEvent → Pc
  | some event => .dispatching event
  | none => .done

/-- A delivery leaves the cells so and goes on. -/
def State.goTo (s : State) (d : Nat) (cells : Cells) (pc : Pc) : State :=
  { s with
    cells := cells
    pc := Function.update s.pc d pc
    transitions :=
      if cells.state = s.cells.state then s.transitions
      else s.transitions ++
        [{ delivery := d, source := s.cells.state, target := cells.state, failures := s.failures }] }

/-- One step of a delivery. -/
def step (w : CircuitBreakerWrapper) (s : State) : Label → Option State
  | .checkRecovery d now =>
    match s.pc d with
    | .idle => some (s.goTo d (w.checkRecovery s.cells now) .checked)
    | _ => none
  | .readState d =>
    match s.pc d with
    | .checked => some (s.goTo d s.cells (if s.cells.state = .opened then .done else .delivering))
    | _ => none
  | .deliver d outcome =>
    match s.pc d with
    | .delivering => some (s.goTo d s.cells outcome.next)
    | _ => none
  | .recordSuccess d now =>
    match s.pc d with
    | .succeeded =>
      let (cells, event) := w.onSuccess s.cells now
      some { s.goTo d cells (Pc.finish event) with failures := 0 }
    | _ => none
  | .countFailure d now =>
    match s.pc d with
    | .failed =>
      let cells := CircuitBreakerWrapper.countFailure s.cells
      some
        { s.goTo d cells (.counted cells.consecutiveFailures now) with
          failures := s.failures + 1
          unsettled := (d, cells.consecutiveFailures) :: s.unsettled }
    | _ => none
  | .stampFailure d =>
    match s.pc d with
    | .counted newCount now =>
      some (s.goTo d { s.cells with lastFailureAt := some now } (.stamped newCount))
    | _ => none
  | .settleFailure d now =>
    match s.pc d with
    | .stamped newCount =>
      let (cells, event) := w.onFailure s.cells newCount now
      some
        { s.goTo d cells (Pc.finish event) with
          unsettled := s.unsettled.filter (·.1 != d) }
    | _ => none
  | .dispatch d =>
    match s.pc d with
    | .dispatching event => some { s.goTo d s.cells .done with emitted := s.emitted ++ [(d, event)] }
    | _ => none

end SubscriberCircuit

end Apcore

/-! ## How the circuit of a subscriber changes

A success that is recorded closes the circuit whatever its state is. Where no success comes late,
to an open circuit or past a failure that is counted and not yet settled, the circuit keeps to its
protocol, whatever deliveries overlap. -/

namespace Apcore

namespace SubscriberCircuit

/-- The changes the protocol has. -/
def CircuitState.Allowed : CircuitState → CircuitState → Prop
  | closed, opened => True
  | opened, halfOpen => True
  | halfOpen, closed => True
  | halfOpen, opened => True
  | _, _ => False

/-- The changes lead from one state to another. -/
def Path : CircuitState → List Transition → CircuitState → Prop
  | a, [], b => a = b
  | a, tr :: rest, b => tr.source = a ∧ Path tr.target rest b

theorem Path.snoc {a b : CircuitState} {trs : List Transition} (h : Path a trs b) (tr : Transition)
    (hsource : tr.source = b) : Path a (trs ++ [tr]) tr.target := by
  induction trs generalizing a with
  | nil =>
    obtain rfl : a = b := h
    exact ⟨hsource, rfl⟩
  | cons first rest ih => exact ⟨h.1, ih h.2⟩

/-- The event a delivery is about to dispatch. -/
def Pc.event : Pc → Option CircuitEvent
  | dispatching event => some event
  | _ => none

/-- The count of a failure that has not been settled. -/
def Pc.newCount : Pc → Option Nat
  | counted newCount _ => some newCount
  | stamped newCount => some newCount
  | _ => none

@[simp] theorem Pc.event_finish (event : Option CircuitEvent) : (Pc.finish event).event = event := by
  cases event <;> rfl

@[simp] theorem Pc.newCount_finish (event : Option CircuitEvent) : (Pc.finish event).newCount = none := by
  cases event <;> rfl

@[simp] theorem Outcome.event_next (outcome : Outcome) : outcome.next.event = none := by
  cases outcome <;> rfl

@[simp] theorem Outcome.newCount_next (outcome : Outcome) : outcome.next.newCount = none := by
  cases outcome <;> rfl

/-- One for an event of the type, zero for none. -/
def ofType (eventType : String) (event : Option CircuitEvent) : Nat :=
  if event.any (·.eventType == eventType) then 1 else 0

/-- How often a delivery has brought the circuit to a state. -/
def State.entries (s : State) (d : Nat) (target : CircuitState) : Nat :=
  s.transitions.countP fun tr => tr.delivery == d && tr.target == target

/-- How many events of a type a delivery has dispatched or is about to dispatch. -/
def State.announced (s : State) (d : Nat) (eventType : String) : Nat :=
  s.emitted.countP (fun e => e.1 == d && e.2.eventType == eventType) +
    ofType eventType (s.pc d).event

/-- The protocol: its changes only, an event for each entry into OPEN and each return to CLOSED, and
no opening from CLOSED before the threshold. -/
structure Lawful (w : CircuitBreakerWrapper) (s : State) : Prop where
  path : Path .closed s.transitions s.cells.state
  moves : ∀ tr ∈ s.transitions, tr.source.Allowed tr.target
  threshold : ∀ tr ∈ s.transitions, tr.source = .closed → tr.target = .opened →
    w.openThreshold ≤ tr.failures
  opened : ∀ d, s.announced d CIRCUIT_OPENED = s.entries d .opened
  closed : ∀ d, s.announced d CIRCUIT_CLOSED = s.entries d .closed

/-- A success is recorded while the circuit is OPEN, or while a failure whose count reaches the
threshold waits to be settled. -/
def recordsLate (w : CircuitBreakerWrapper) (s : State) : Label → Bool
  | .recordSuccess _ _ =>
    s.cells.state == .opened || s.unsettled.any fun p => decide (w.openThreshold ≤ p.2)
  | _ => false

/-! ## One change -/

variable {w : CircuitBreakerWrapper} {s s' : State} {d : Nat} {cells : Cells} {pc : Pc}

theorem entries_goTo (e : Nat) (target : CircuitState) :
    (s.goTo d cells pc).entries e target = s.entries e target +
      if cells.state ≠ s.cells.state ∧ d = e ∧ cells.state = target then 1 else 0 := by
  by_cases hsame : cells.state = s.cells.state
  · simp [State.entries, State.goTo, hsame]
  · have hkept : (s.goTo d cells pc).transitions = s.transitions ++
        [⟨d, s.cells.state, cells.state, s.failures⟩] := if_neg hsame
    rw [State.entries, State.entries, hkept, List.countP_append, List.countP_singleton]
    simp [hsame]

theorem announced_goTo_self (eventType : String) (hevent : (s.pc d).event = none) :
    (s.goTo d cells pc).announced d eventType =
      s.announced d eventType + ofType eventType pc.event := by
  simp [State.announced, State.goTo, hevent, ofType]

theorem announced_goTo_of_ne {e : Nat} (eventType : String) (hne : e ≠ d) :
    (s.goTo d cells pc).announced e eventType = s.announced e eventType := by
  simp [State.announced, State.goTo, Function.update_of_ne hne]

/-- The events keep up with the entries over a step that announces its change. -/
theorem announced_eq_entries {eventType : String} {target : CircuitState}
    (h : ∀ e, s.announced e eventType = s.entries e target) (hevent : (s.pc d).event = none)
    (hannounce : ofType eventType pc.event =
      if cells.state ≠ s.cells.state ∧ cells.state = target then 1 else 0) (e : Nat) :
    (s.goTo d cells pc).announced e eventType = (s.goTo d cells pc).entries e target := by
  rw [entries_goTo]
  by_cases he : e = d
  · subst he
    rw [announced_goTo_self eventType hevent, h e, hannounce]
    simp
  · rw [announced_goTo_of_ne eventType he, h e]
    simp [Ne.symm he]

/-- A step keeps to the protocol when it makes an allowed change, or none, and announces it. -/
theorem Lawful.goTo (h : Lawful w s) (hevent : (s.pc d).event = none)
    (hmove : cells.state ≠ s.cells.state → s.cells.state.Allowed cells.state)
    (hthreshold : s.cells.state = .closed → cells.state = .opened → w.openThreshold ≤ s.failures)
    (hopened : ofType CIRCUIT_OPENED pc.event =
      if cells.state ≠ s.cells.state ∧ cells.state = .opened then 1 else 0)
    (hclosed : ofType CIRCUIT_CLOSED pc.event =
      if cells.state ≠ s.cells.state ∧ cells.state = .closed then 1 else 0) :
    Lawful w (s.goTo d cells pc) := by
  have hrecords : (s.goTo d cells pc).transitions = s.transitions ∧ cells.state = s.cells.state ∨
      (s.goTo d cells pc).transitions = s.transitions ++
        [{ delivery := d, source := s.cells.state, target := cells.state, failures := s.failures }] ∧
        cells.state ≠ s.cells.state := by
    by_cases hsame : cells.state = s.cells.state
    · exact .inl ⟨if_pos hsame, hsame⟩
    · exact .inr ⟨if_neg hsame, hsame⟩
  refine { path := ?_, moves := ?_, threshold := ?_,
           opened := announced_eq_entries h.opened hevent hopened,
           closed := announced_eq_entries h.closed hevent hclosed }
  · rcases hrecords with ⟨heq, hsame⟩ | ⟨heq, -⟩
    · rw [heq]
      show Path .closed s.transitions cells.state
      rw [hsame]
      exact h.path
    · rw [heq]
      exact h.path.snoc _ rfl
  · intro tr htr
    rcases hrecords with ⟨heq, -⟩ | ⟨heq, hdiff⟩
    · exact h.moves tr (heq ▸ htr)
    · rw [heq] at htr
      rcases List.mem_append.mp htr with htr | htr
      · exact h.moves tr htr
      · obtain rfl := List.mem_singleton.mp htr
        exact hmove hdiff
  · intro tr htr
    rcases hrecords with ⟨heq, -⟩ | ⟨heq, -⟩
    · exact h.threshold tr (heq ▸ htr)
    · rw [heq] at htr
      rcases List.mem_append.mp htr with htr | htr
      · exact h.threshold tr htr
      · obtain rfl := List.mem_singleton.mp htr
        exact hthreshold

/-- A step that changes no state and announces nothing. -/
theorem Lawful.quiet (h : Lawful w s) (hevent : (s.pc d).event = none)
    (hsame : cells.state = s.cells.state) (hpc : pc.event = none) : Lawful w (s.goTo d cells pc) := by
  refine h.goTo hevent (fun hne => absurd hsame hne) (fun hclosed hopened => ?_) ?_ ?_
  · rw [hsame, hclosed] at hopened
    cases hopened
  · simp [hpc, hsame, ofType]
  · simp [hpc, hsame, ofType]

/-- The protocol does not look at the counts. -/
theorem Lawful.withCounts (h : Lawful w s) (failures : Nat) (unsettled : List (Nat × Nat)) :
    Lawful w { s with failures := failures, unsettled := unsettled } :=
  { path := h.path, moves := h.moves, threshold := h.threshold, opened := h.opened,
    closed := h.closed }

/-! ## The steps -/

theorem Lawful.checkRecovery {now : Int} (h : Lawful w s) (hpc : s.pc d = .idle) :
    Lawful w (s.goTo d (w.checkRecovery s.cells now) .checked) := by
  have hevent : (s.pc d).event = none := by rw [hpc]; rfl
  have hcases : (w.checkRecovery s.cells now).state = s.cells.state ∨
      s.cells.state = .opened ∧ (w.checkRecovery s.cells now).state = .halfOpen := by
    unfold CircuitBreakerWrapper.checkRecovery
    split
    · next hstate _ =>
        split_ifs
        · exact .inr ⟨hstate, rfl⟩
        · exact .inl rfl
    · exact .inl rfl
  rcases hcases with hsame | ⟨hsource, htarget⟩
  · exact h.quiet hevent hsame rfl
  · refine h.goTo hevent (fun _ => ?_) (fun hclosed => ?_) ?_ ?_
    · rw [hsource, htarget]
      trivial
    · rw [hsource] at hclosed
      cases hclosed
    · simp [htarget, Pc.event, ofType]
    · simp [htarget, Pc.event, ofType]

/-- A success that finds the circuit HALF_OPEN closes it and says so; to a CLOSED one it does
nothing. -/
theorem Lawful.recordSuccess {now : Int} (h : Lawful w s) (hpc : s.pc d = .succeeded)
    (hstate : s.cells.state ≠ .opened) :
    Lawful w (s.goTo d (w.onSuccess s.cells now).1 (Pc.finish (w.onSuccess s.cells now).2)) := by
  have hevent : (s.pc d).event = none := by rw [hpc]; rfl
  cases hs : s.cells.state with
  | opened => exact absurd hs hstate
  | closed =>
    refine h.quiet hevent ?_ ?_
    · rw [hs]
      rfl
    · simp [CircuitBreakerWrapper.onSuccess, hs]
  | halfOpen =>
    refine h.goTo hevent (fun _ => ?_) (fun hclosed => ?_) ?_ ?_
    · rw [hs]
      trivial
    · rw [hs] at hclosed
      cases hclosed
    · simp [CircuitBreakerWrapper.onSuccess, hs, ofType, CircuitBreakerWrapper.makeEvent]
      decide
    · simp [CircuitBreakerWrapper.onSuccess, hs, ofType, CircuitBreakerWrapper.makeEvent]

theorem Lawful.settleFailure {newCount : Nat} {now : Int} (h : Lawful w s)
    (hpc : s.pc d = .stamped newCount) (hcount : w.openThreshold ≤ newCount → newCount ≤ s.failures) :
    Lawful w (s.goTo d (w.onFailure s.cells newCount now).1
      (Pc.finish (w.onFailure s.cells newCount now).2)) := by
  have hevent : (s.pc d).event = none := by rw [hpc]; rfl
  by_cases hopens : w.opens s.cells newCount = true
  · have hfailure : (w.onFailure s.cells newCount now).1.state = .opened ∧
        ofType CIRCUIT_OPENED (w.onFailure s.cells newCount now).2 = 1 ∧
        ofType CIRCUIT_CLOSED (w.onFailure s.cells newCount now).2 = 0 := by
      rw [CircuitBreakerWrapper.onFailure, if_pos hopens]
      refine ⟨rfl, ?_, ?_⟩
      · simp [ofType, CircuitBreakerWrapper.makeEvent]
      · simp [ofType, CircuitBreakerWrapper.makeEvent]
        decide
    obtain ⟨htarget, hopened, hclosed⟩ := hfailure
    have hstate : s.cells.state ≠ .opened := by
      intro hs
      rw [CircuitBreakerWrapper.opens, hs] at hopens
      cases hopens
    refine h.goTo hevent (fun _ => ?_) (fun hs _ => ?_) ?_ ?_
    · rw [htarget]
      cases hs : s.cells.state with
      | opened => exact absurd hs hstate
      | closed => trivial
      | halfOpen => trivial
    · rw [CircuitBreakerWrapper.opens, hs] at hopens
      have hreached : w.openThreshold ≤ newCount := by simpa using hopens
      exact Nat.le_trans hreached (hcount hreached)
    · rw [Pc.event_finish, hopened, htarget]
      simp [Ne.symm hstate]
    · rw [Pc.event_finish, hclosed, htarget]
      simp
  · rw [CircuitBreakerWrapper.onFailure, if_neg hopens]
    exact h.quiet hevent rfl rfl

theorem Lawful.dispatch {event : CircuitEvent} (h : Lawful w s) (hpc : s.pc d = .dispatching event) :
    Lawful w { s.goTo d s.cells .done with emitted := s.emitted ++ [(d, event)] } := by
  have hannounced : ∀ e eventType,
      State.announced { s.goTo d s.cells .done with emitted := s.emitted ++ [(d, event)] } e
        eventType = s.announced e eventType := by
    intro e eventType
    by_cases he : e = d
    · subst he
      simp [State.announced, State.goTo, hpc, Pc.event, ofType, List.countP_append,
        List.countP_singleton]
    · simp [State.announced, State.goTo, Function.update_of_ne he, List.countP_append,
        Ne.symm he]
  have htransitions : (s.goTo d s.cells .done).transitions = s.transitions := if_pos rfl
  refine { path := ?_, moves := ?_, threshold := ?_, opened := fun e => ?_, closed := fun e => ?_ }
  · show Path .closed (s.goTo d s.cells .done).transitions s.cells.state
    rw [htransitions]
    exact h.path
  · show ∀ tr ∈ (s.goTo d s.cells .done).transitions, _
    rw [htransitions]
    exact h.moves
  · show ∀ tr ∈ (s.goTo d s.cells .done).transitions, _
    rw [htransitions]
    exact h.threshold
  · rw [hannounced, h.opened e]
    simp [State.entries, htransitions]
  · rw [hannounced, h.closed e]
    simp [State.entries, htransitions]

/-! ## The counts -/

/-- The counter is the number of failures since the last success, on 32 bits. -/
structure Counts (w : CircuitBreakerWrapper) (s : State) : Prop where
  counter : s.cells.consecutiveFailures = s.failures % 2 ^ 32
  unsettled : ∀ d newCount, (s.pc d).newCount = some newCount → (d, newCount) ∈ s.unsettled
  bound : ∀ p ∈ s.unsettled, w.openThreshold ≤ p.2 → p.2 ≤ s.failures

theorem Counts.goTo (h : Counts w s) (hcounter : cells.consecutiveFailures = s.cells.consecutiveFailures)
    (hpc : ∀ newCount, pc.newCount = some newCount → (s.pc d).newCount = some newCount) :
    Counts w (s.goTo d cells pc) where
  counter := hcounter.trans h.counter
  unsettled := by
    refine (Function.forall_update_iff s.pc fun e pc => ∀ n, pc.newCount = some n →
      (e, n) ∈ s.unsettled).mpr ⟨fun n hn => ?_, fun e _ => h.unsettled e⟩
    exact h.unsettled d n (hpc n hn)
  bound := h.bound

theorem Counts.recordSuccess {now : Int} (h : Counts w s)
    (hlate : ∀ p ∈ s.unsettled, ¬w.openThreshold ≤ p.2) :
    Counts w { s.goTo d (w.onSuccess s.cells now).1 (Pc.finish (w.onSuccess s.cells now).2) with
      failures := 0 } where
  counter := rfl
  unsettled := by
    refine (Function.forall_update_iff s.pc fun e pc => ∀ n, pc.newCount = some n →
      (e, n) ∈ s.unsettled).mpr ⟨fun n hn => ?_, fun e _ => h.unsettled e⟩
    rw [Pc.newCount_finish] at hn
    cases hn
  bound := fun p hp hreached => absurd hreached (hlate p hp)

theorem Counts.countFailure {now : Int} (h : Counts w s) :
    Counts w
      { s.goTo d (CircuitBreakerWrapper.countFailure s.cells)
          (.counted (CircuitBreakerWrapper.countFailure s.cells).consecutiveFailures now) with
        failures := s.failures + 1
        unsettled :=
          (d, (CircuitBreakerWrapper.countFailure s.cells).consecutiveFailures) :: s.unsettled } := by
  have hcounter : (CircuitBreakerWrapper.countFailure s.cells).consecutiveFailures =
      (s.failures + 1) % 2 ^ 32 := by
    simp [CircuitBreakerWrapper.countFailure, h.counter]
  refine { counter := hcounter, unsettled := ?_, bound := ?_ }
  · refine (Function.forall_update_iff s.pc fun e pc => ∀ n, pc.newCount = some n →
      (e, n) ∈ _ :: s.unsettled).mpr ⟨fun n hn => ?_, fun e _ n hn => ?_⟩
    · obtain rfl := Option.some.inj hn
      exact List.mem_cons_self
    · exact List.mem_cons_of_mem _ (h.unsettled e n hn)
  · intro p hp hreached
    rcases List.mem_cons.mp hp with rfl | hp
    · show (CircuitBreakerWrapper.countFailure s.cells).consecutiveFailures ≤ s.failures + 1
      rw [hcounter]
      exact Nat.mod_le _ _
    · exact Nat.le_succ_of_le (h.bound p hp hreached)

theorem Counts.settleFailure {newCount : Nat} {now : Int} (h : Counts w s) :
    Counts w
      { s.goTo d (w.onFailure s.cells newCount now).1 (Pc.finish (w.onFailure s.cells newCount now).2)
          with unsettled := s.unsettled.filter (·.1 != d) } := by
  have hcells : (w.onFailure s.cells newCount now).1.consecutiveFailures =
      s.cells.consecutiveFailures := by
    rw [CircuitBreakerWrapper.onFailure]
    split_ifs <;> rfl
  refine { counter := hcells.trans h.counter, unsettled := ?_, bound := fun p hp => ?_ }
  · refine (Function.forall_update_iff s.pc fun e pc => ∀ n, pc.newCount = some n →
      (e, n) ∈ s.unsettled.filter (·.1 != d)).mpr ⟨fun n hn => ?_, fun e hne n hn => ?_⟩
    · rw [Pc.newCount_finish] at hn
      cases hn
    · exact List.mem_filter.mpr ⟨h.unsettled e n hn, by simpa using hne⟩
  · exact h.bound p (List.mem_of_mem_filter hp)

/-! ## Runs -/

structure Inv (w : CircuitBreakerWrapper) (s : State) : Prop where
  counts : Counts w s
  lawful : Lawful w s

theorem Inv.init : Inv w init where
  counts :=
    { counter := rfl
      unsettled := fun _ _ hn => by cases hn
      bound := fun _ hp => by cases hp }
  lawful :=
    { path := rfl
      moves := fun _ htr => by cases htr
      threshold := fun _ htr => by cases htr
      opened := fun _ => rfl
      closed := fun _ => rfl }

/-- A step that leaves the counter and the state alone and has no event. -/
theorem Inv.quiet (h : Inv w s) (hevent : (s.pc d).event = none) (hsame : cells.state = s.cells.state)
    (hcounter : cells.consecutiveFailures = s.cells.consecutiveFailures) (hpc : pc.event = none)
    (hcount : ∀ newCount, pc.newCount = some newCount → (s.pc d).newCount = some newCount) :
    Inv w (s.goTo d cells pc) where
  counts := h.counts.goTo hcounter hcount
  lawful := h.lawful.quiet hevent hsame hpc

theorem Inv.step {l : Label} (h : Inv w s) (hok : recordsLate w s l = false)
    (hstep : step w s l = some s') : Inv w s' := by
  cases l with
  | checkRecovery d now =>
    simp only [SubscriberCircuit.step] at hstep
    split at hstep
    · next hpc =>
      obtain rfl := Option.some.inj hstep
      refine { counts := h.counts.goTo ?_ (fun _ hn => by cases hn),
               lawful := h.lawful.checkRecovery hpc }
      unfold CircuitBreakerWrapper.checkRecovery
      split
      · split_ifs <;> rfl
      · rfl
    · cases hstep
  | readState d =>
    simp only [SubscriberCircuit.step] at hstep
    split at hstep
    · next hpc =>
      obtain rfl := Option.some.inj hstep
      refine h.quiet (by rw [hpc]; rfl) rfl rfl ?_ ?_
      · split_ifs <;> rfl
      · split_ifs <;> exact fun _ hn => by cases hn
    · cases hstep
  | deliver d outcome =>
    simp only [SubscriberCircuit.step] at hstep
    split at hstep
    · next hpc =>
      obtain rfl := Option.some.inj hstep
      refine h.quiet (by rw [hpc]; rfl) rfl rfl outcome.event_next fun _ hn => ?_
      rw [outcome.newCount_next] at hn
      cases hn
    · cases hstep
  | recordSuccess d now =>
    simp only [SubscriberCircuit.step] at hstep
    split at hstep
    · next hpc =>
      obtain rfl := Option.some.inj hstep
      obtain ⟨hstate, hunsettled⟩ := Bool.or_eq_false_iff.mp hok
      have hopen : s.cells.state ≠ .opened := by simpa using hstate
      have hlate : ∀ p ∈ s.unsettled, ¬w.openThreshold ≤ p.2 := by
        intro p hp
        simpa using List.any_eq_false.mp hunsettled p hp
      exact { counts := h.counts.recordSuccess hlate,
              lawful := (h.lawful.recordSuccess hpc hopen).withCounts 0 _ }
    · cases hstep
  | countFailure d now =>
    simp only [SubscriberCircuit.step] at hstep
    split at hstep
    · next hpc =>
      obtain rfl := Option.some.inj hstep
      have hlawful : Lawful w (s.goTo d (CircuitBreakerWrapper.countFailure s.cells)
          (.counted (CircuitBreakerWrapper.countFailure s.cells).consecutiveFailures now)) :=
        h.lawful.quiet (by rw [hpc]; rfl) rfl rfl
      exact { counts := h.counts.countFailure, lawful := hlawful.withCounts _ _ }
    · cases hstep
  | stampFailure d =>
    simp only [SubscriberCircuit.step] at hstep
    split at hstep
    · next newCount now hpc =>
      obtain rfl := Option.some.inj hstep
      exact h.quiet (by rw [hpc]; rfl) rfl rfl rfl fun n hn => by rw [hpc]; exact hn
    · cases hstep
  | settleFailure d now =>
    simp only [SubscriberCircuit.step] at hstep
    split at hstep
    · next newCount hpc =>
      obtain rfl := Option.some.inj hstep
      have hcount : w.openThreshold ≤ newCount → newCount ≤ s.failures :=
        h.counts.bound _ (h.counts.unsettled d newCount (by rw [hpc]; rfl))
      exact { counts := h.counts.settleFailure,
              lawful := (h.lawful.settleFailure hpc hcount).withCounts _ _ }
    · cases hstep
  | dispatch d =>
    simp only [SubscriberCircuit.step] at hstep
    split at hstep
    · next event hpc =>
      obtain rfl := Option.some.inj hstep
      have hcounts : Counts w (s.goTo d s.cells .done) :=
        h.counts.goTo rfl fun _ hn => by cases hn
      exact { counts := { counter := hcounts.counter, unsettled := hcounts.unsettled,
                          bound := hcounts.bound },
              lawful := h.lawful.dispatch hpc }
    · cases hstep

/-- **While no success comes late, the circuit keeps to its protocol** in every run, whatever
deliveries overlap and whatever the clock says. -/
theorem circuit_lawful {ls : List Label} (hrun : Transition.exec (step w) SubscriberCircuit.init ls = some s)
    (hok : Transition.Along (step w) (fun s l => recordsLate w s l = false) SubscriberCircuit.init ls) :
    Lawful w s := by
  have hinv : Inv w s :=
    Transition.exec_invariant_along (fun _ _ _ hI hl hs => hI.step hl hs) Inv.init hok hrun
  exact hinv.lawful

/-! ## Runs on one wrapper -/

/-- One failure opens the circuit, for a millisecond. -/
def fragile : CircuitBreakerWrapper :=
  { openThreshold := 1, recoveryWindowMs := 1, subscriberId := "audit", subscriberTypeName := "custom" }

/-- A delivery comes to the subscriber. -/
def reach (d : Nat) (now : Int) : List Label := [.checkRecovery d now, .readState d]

def fail (d : Nat) (now : Int) : List Label :=
  [.deliver d .failed, .countFailure d now, .stampFailure d, .settleFailure d now, .dispatch d]

/-- The circuit opens, and a probe after the window closes it. -/
def openAndRecover : List Label :=
  reach 0 0 ++ (fail 0 0 ++ (reach 1 2000000 ++
    [.deliver 1 .delivered, .recordSuccess 1 2000000, .dispatch 1]))

theorem circuit_lawful_openAndRecover :
    ∃ s, Transition.exec (step fragile) init openAndRecover = some s ∧
      s.transitions.map Transition.target = [.opened, .halfOpen, .closed] ∧ Lawful fragile s :=
  ⟨_, rfl, rfl, @circuit_lawful fragile _ openAndRecover rfl (by decide)⟩

/-- Two deliveries start while the circuit is CLOSED. The first fails and opens it; the success of the
second takes it from OPEN to CLOSED, without a word. -/
theorem lateSuccess_unlawful :
    ∃ s, Transition.exec (step fragile) init (reach 0 0 ++ (reach 1 0 ++ (fail 0 0 ++
        [.deliver 1 .delivered, .recordSuccess 1 0]))) = some s ∧ ¬Lawful fragile s := by
  refine ⟨_, rfl, fun h => ?_⟩
  exact h.moves ⟨1, .opened, .closed, 1⟩ (by decide)

/-- A success between the count of a failure and its look at the state: the circuit opens at a
threshold of two with one failure. -/
example : ((Transition.exec (step { fragile with openThreshold := 2 }) init
    (reach 0 0 ++ (reach 1 0 ++ (reach 2 0 ++ (fail 0 0).take 4)) ++
      [.deliver 1 .failed, .deliver 2 .delivered, .countFailure 1 0, .recordSuccess 2 0,
        .stampFailure 1, .settleFailure 1 0])).map (·.transitions)) =
      some [⟨1, .closed, .opened, 0⟩] := by
  decide

end SubscriberCircuit

end Apcore
