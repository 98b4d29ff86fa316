import Mathlib.Data.List.Nodup
import Apcore.Context
import Apcore.Lib.Transition

/-! # `Cancel.Executions` — the executions that a tree of cancel tokens keeps track of

`spawn_tracked` enters an execution into the scope of its token and of every ancestor, spawns it, and
hands out its abort handle to these scopes; the execution leaves them when its future is dropped.
`abort_owned_executions` and `drain` work on one scope. Each critical section is a step, and any
number of executions and calls take theirs in any order. -/

namespace Apcore

namespace Executions

/-! ## `tokio::sync::Notify` -/

/-- A `Notified` future: created, enabled, or with its notification. -/
inductive Notified where
  | created | enabled | complete
  deriving DecidableEq, Repr

/-- A `Notify`, by what is done to the futures of its waiters: `notify_waiters` completes those that
are enabled. -/
structure Notify where
  enable : Notified → Notified
  notifyWaiters : Notified → Notified
  enable_ne_created : ∀ w, enable w ≠ .created
  notifyWaiters_enabled : notifyWaiters .enabled = .complete
  notifyWaiters_complete : notifyWaiters .complete = .complete

/-! ## Scopes and executions -/

/-- `ExecutionRecord`; an `AbortHandle` is known by the execution it aborts. -/
structure ExecutionRecord where
  abort : Option Nat
  abortRequested : Bool
  deriving DecidableEq, Repr

/-- `ExecutionState`; its `Notify` is the waiters that calls hold. -/
structure ExecutionState where
  active : Nat → Option ExecutionRecord
  abortRequested : Bool

/-- Where `spawn_tracked` stands: the scopes it has still to enter, and, once the task is spawned,
those it has still to give the abort handle to. With none left of these it has returned. -/
inductive SpawnPc where
  | inserting (left : List Nat)
  | arming (left : List Nat)
  deriving DecidableEq, Repr

/-- Where the task stands: its future runs until it is dropped, complete or aborted; then the
registration drops, which leaves a scope and notifies it, one scope after the other. -/
inductive TaskPc where
  | unspawned
  | running
  | dropping (left : List Nat)
  | notifying (scope : Nat) (left : List Nat)
  deriving DecidableEq, Repr

/-- One execution; `aborted` says that its abort handle was used. -/
structure Execution where
  token : CancelToken
  spawner : SpawnPc
  task : TaskPc
  aborted : Bool
  deriving DecidableEq, Repr

/-- Where `drain` stands in its loop. -/
inductive DrainPc where
  | looping
  | created (changed : Notified)
  | enabled (changed : Notified)
  | waiting (changed : Notified)
  | returned
  deriving DecidableEq, Repr

/-- Where a call on the scope of a token stands; a `drain` may be that of `abort_owned_executions`,
which has then gone through its handles. -/
inductive CallPc where
  | idle
  | requesting (scope : Nat)
  | marking (scope : Nat)
  | aborting (scope : Nat) (aborts : List Nat)
  | draining (aborted : Bool) (scope : Nat) (pc : DrainPc)
  deriving DecidableEq, Repr

/-- The tokens, by cell, and what goes on in their scopes. -/
structure State where
  tokens : List CancelToken
  nextCell : Nat
  scopes : Nat → ExecutionState
  nextExecution : Nat
  executions : Nat → Option Execution
  calls : Nat → CallPc

/-- No token is there yet. -/
def init : State where
  tokens := []
  nextCell := 0
  scopes := fun _ => { active := fun _ => none, abortRequested := false }
  nextExecution := 1
  executions := fun _ => none
  calls := fun _ => .idle

namespace State

def setExecution (s : State) (id : Nat) (e : Execution) : State :=
  { s with executions := Function.update s.executions id (some e) }

def setScope (s : State) (scope : Nat) (x : ExecutionState) : State :=
  { s with scopes := Function.update s.scopes scope x }

def setRecord (s : State) (scope id : Nat) (r : Option ExecutionRecord) : State :=
  s.setScope scope
    { s.scopes scope with active := Function.update (s.scopes scope).active id r }

def setCall (s : State) (d : Nat) (pc : CallPc) : State :=
  { s with calls := Function.update s.calls d pc }

/-- `has_active_executions`. -/
def hasActiveExecutions (s : State) (scope : Nat) : Bool :=
  (List.range s.nextExecution).any fun id => ((s.scopes scope).active id).isSome

/-! ## Steps -/

/-- `CancelToken::new`, and `child`. -/
def derive (s : State) (parent : Option CancelToken) : Option State :=
  let fresh (token : CancelToken) : State :=
    { s with tokens := token :: s.tokens, nextCell := s.nextCell + 1 }
  match parent with
  | none => some (fresh { flag := s.nextCell, ancestors := [] })
  | some token => if token ∈ s.tokens then some (fresh (token.child s.nextCell)) else none

/-- `spawn_tracked` begins. -/
def spawn (s : State) (token : CancelToken) : Option State :=
  if token ∈ s.tokens then
    let e : Execution :=
      { token, spawner := .inserting token.cells, task := .unspawned, aborted := false }
    some { s.setExecution s.nextExecution e with nextExecution := s.nextExecution + 1 }
  else none

/-- `spawn_tracked` goes on. -/
def spawner (s : State) (id : Nat) (e : Execution) : Option State :=
  match e.spawner with
  | .inserting (scope :: left) =>
    let record : ExecutionRecord :=
      { abort := none, abortRequested := (s.scopes scope).abortRequested }
    some ((s.setRecord scope id (some record)).setExecution id { e with spawner := .inserting left })
  | .inserting [] =>
    some (s.setExecution id { e with spawner := .arming e.token.cells, task := .running })
  | .arming (scope :: left) =>
    match (s.scopes scope).active id with
    | some record =>
      let e' := { e with spawner := .arming left, aborted := e.aborted || record.abortRequested }
      some ((s.setRecord scope id (some { record with abort := some id })).setExecution id e')
    | none => some (s.setExecution id { e with spawner := .arming left })
  | .arming [] => none

/-- The future completes, or its task drops it. -/
def finish (s : State) (id : Nat) (e : Execution) : Option State :=
  match e.task with
  | .running => some (s.setExecution id { e with task := .dropping e.token.cells })
  | _ => none

/-- What `notify_waiters` of a scope makes of a call. -/
def notifyCall (notify : Notify) (scope : Nat) : CallPc → CallPc
  | .draining aborted scope' (.created w) =>
    .draining aborted scope' (.created (if scope' = scope then notify.notifyWaiters w else w))
  | .draining aborted scope' (.enabled w) =>
    .draining aborted scope' (.enabled (if scope' = scope then notify.notifyWaiters w else w))
  | .draining aborted scope' (.waiting w) =>
    .draining aborted scope' (.waiting (if scope' = scope then notify.notifyWaiters w else w))
  | pc => pc

/-- The drop of `ExecutionRegistration` goes on. -/
def unregister (notify : Notify) (s : State) (id : Nat) (e : Execution) : Option State :=
  match e.task with
  | .dropping (scope :: left) =>
    some ((s.setRecord scope id none).setExecution id { e with task := .notifying scope left })
  | .notifying scope left =>
    some
      { s.setExecution id { e with task := .dropping left } with
        calls := fun d => notifyCall notify scope (s.calls d) }
  | _ => none

/-- The critical section of `abort_owned_executions`: all records are marked, and the handles that
are there are taken along. -/
def mark (s : State) (scope : Nat) : State × List Nat :=
  let active := (s.scopes scope).active
  (s.setScope scope
      { s.scopes scope with
        active := fun id => (active id).map fun record => { record with abortRequested := true } },
    (List.range s.nextExecution).filterMap fun id => (active id).bind (·.abort))

/-- A call goes on. -/
def go (notify : Notify) (s : State) (d : Nat) : Option State :=
  match s.calls d with
  | .idle => none
  | .requesting scope =>
    some ((s.setScope scope { s.scopes scope with abortRequested := true }).setCall d
      (.marking scope))
  | .marking scope => some ((s.mark scope).1.setCall d (.aborting scope (s.mark scope).2))
  | .aborting scope [] => some (s.setCall d (.draining true scope .looping))
  | .aborting _ (_ :: _) => none
  | .draining aborted scope pc =>
    let next (pc : DrainPc) : Option State := some (s.setCall d (.draining aborted scope pc))
    match pc with
    | .looping => next (.created .created)
    | .created changed => next (.enabled (notify.enable changed))
    | .enabled changed => if s.hasActiveExecutions scope then next (.waiting changed) else next .returned
    | .waiting .complete => next .looping
    | .waiting _ => none
    | .returned => none

/-- The loop over the handles comes to that of `id`; their order is that of a hash map. -/
def abort (s : State) (d id : Nat) : Option State :=
  match s.calls d, s.executions id with
  | .aborting scope aborts, some e =>
    if id ∈ aborts then
      some ((s.setExecution id { e with aborted := true }).setCall d
        (.aborting scope (aborts.erase id)))
    else none
  | _, _ => none

end State

inductive Label where
  /-- A token is made, by `new` or as a child. -/
  | derive (parent : Option CancelToken)
  | spawn (token : CancelToken)
  | spawner (id : Nat)
  | finish (id : Nat)
  | unregister (id : Nat)
  /-- `drain` and `abort_owned_executions` are called. -/
  | drain (d : Nat) (token : CancelToken)
  | abortOwned (d : Nat) (token : CancelToken)
  | go (d : Nat)
  | abort (d id : Nat)
  deriving DecidableEq, Repr

def step (notify : Notify) (s : State) : Label → Option State
  | .derive parent => s.derive parent
  | .spawn token => s.spawn token
  | .spawner id => (s.executions id).bind (s.spawner id)
  | .finish id => (s.executions id).bind (s.finish id)
  | .unregister id => (s.executions id).bind (s.unregister notify id)
  | .drain d token =>
    if s.calls d = .idle ∧ token ∈ s.tokens then
      some (s.setCall d (.draining false token.flag .looping))
    else none
  | .abortOwned d token =>
    if s.calls d = .idle ∧ token ∈ s.tokens then some (s.setCall d (.requesting token.flag)) else none
  | .go d => s.go notify d
  | .abort d id => s.abort d id

/-! ## What a step does -/

/-- The steps of an execution and of the drop of its registration. -/
inductive ExecutionMove (notify : Notify) (s : State) (id : Nat) (e : Execution) : State → Prop where
  | insert {scope : Nat} {left : List Nat} (hpc : e.spawner = .inserting (scope :: left)) :
    ExecutionMove notify s id e
      ((s.setRecord scope id
          (some { abort := none, abortRequested := (s.scopes scope).abortRequested })).setExecution id
        { e with spawner := .inserting left })
  | run (hpc : e.spawner = .inserting []) :
    ExecutionMove notify s id e
      (s.setExecution id { e with spawner := .arming e.token.cells, task := .running })
  | arm {scope : Nat} {left : List Nat} {record : ExecutionRecord}
    (hpc : e.spawner = .arming (scope :: left)) (hrecord : (s.scopes scope).active id = some record) :
    ExecutionMove notify s id e
      ((s.setRecord scope id (some { record with abort := some id })).setExecution id
        { e with spawner := .arming left, aborted := e.aborted || record.abortRequested })
  | pass {scope : Nat} {left : List Nat} (hpc : e.spawner = .arming (scope :: left))
    (hrecord : (s.scopes scope).active id = none) :
    ExecutionMove notify s id e (s.setExecution id { e with spawner := .arming left })
  | finish (hpc : e.task = .running) :
    ExecutionMove notify s id e (s.setExecution id { e with task := .dropping e.token.cells })
  | remove {scope : Nat} {left : List Nat} (hpc : e.task = .dropping (scope :: left)) :
    ExecutionMove notify s id e
      ((s.setRecord scope id none).setExecution id { e with task := .notifying scope left })
  | notify {scope : Nat} {left : List Nat} (hpc : e.task = .notifying scope left) :
    ExecutionMove notify s id e
      { s.setExecution id { e with task := .dropping left } with
        calls := fun d => State.notifyCall notify scope (s.calls d) }

/-- The counters a call goes through where it changes nothing else. -/
inductive CallMove (notify : Notify) (s : State) : CallPc → CallPc → Prop where
  | drain {scope : Nat} : CallMove notify s .idle (.draining false scope .looping)
  | abortOwned {scope : Nat} : CallMove notify s .idle (.requesting scope)
  | aborted {scope : Nat} : CallMove notify s (.aborting scope []) (.draining true scope .looping)
  | notified {aborted : Bool} {scope : Nat} :
    CallMove notify s (.draining aborted scope .looping) (.draining aborted scope (.created .created))
  | enable {aborted : Bool} {scope : Nat} {changed : Notified} :
    CallMove notify s (.draining aborted scope (.created changed))
      (.draining aborted scope (.enabled (notify.enable changed)))
  | wait {aborted : Bool} {scope : Nat} {changed : Notified}
    (hactive : s.hasActiveExecutions scope = true) :
    CallMove notify s (.draining aborted scope (.enabled changed))
      (.draining aborted scope (.waiting changed))
  | leave {aborted : Bool} {scope : Nat} {changed : Notified}
    (hactive : s.hasActiveExecutions scope = false) :
    CallMove notify s (.draining aborted scope (.enabled changed)) (.draining aborted scope .returned)
  | wake {aborted : Bool} {scope : Nat} :
    CallMove notify s (.draining aborted scope (.waiting .complete)) (.draining aborted scope .looping)

inductive Move (notify : Notify) (s : State) : State → Prop where
  | derive {token : CancelToken} (hflag : token.flag = s.nextCell)
    (hancestors : token.ancestors = [] ∨ ∃ parent ∈ s.tokens, token.ancestors = parent.cells) :
    Move notify s { s with tokens := token :: s.tokens, nextCell := s.nextCell + 1 }
  | spawn {token : CancelToken} (htoken : token ∈ s.tokens) :
    Move notify s
      { s.setExecution s.nextExecution
          { token, spawner := .inserting token.cells, task := .unspawned, aborted := false } with
        nextExecution := s.nextExecution + 1 }
  | execution {s' : State} {id : Nat} {e : Execution} (he : s.executions id = some e)
    (hmove : ExecutionMove notify s id e s') : Move notify s s'
  | call {d : Nat} {pc : CallPc} (hmove : CallMove notify s (s.calls d) pc) :
    Move notify s (s.setCall d pc)
  | request {d scope : Nat} (hpc : s.calls d = .requesting scope) :
    Move notify s
      ((s.setScope scope { s.scopes scope with abortRequested := true }).setCall d (.marking scope))
  | mark {d scope : Nat} (hpc : s.calls d = .marking scope) :
    Move notify s ((s.mark scope).1.setCall d (.aborting scope (s.mark scope).2))
  | abort {d scope id : Nat} {aborts : List Nat} {e : Execution}
    (hpc : s.calls d = .aborting scope aborts) (he : s.executions id = some e) (hid : id ∈ aborts) :
    Move notify s
      ((s.setExecution id { e with aborted := true }).setCall d (.aborting scope (aborts.erase id)))

theorem move_derive {notify : Notify} {s s' : State} {parent : Option CancelToken}
    (h : s.derive parent = some s') : Move notify s s' := by
  cases parent with
  | none =>
    obtain rfl := Option.some.inj h
    exact .derive rfl (.inl rfl)
  | some token =>
    simp only [State.derive] at h
    split_ifs at h with htoken
    obtain rfl := Option.some.inj h
    exact .derive rfl (.inr ⟨token, htoken, rfl⟩)

theorem move_spawner {notify : Notify} {s s' : State} {id : Nat} {e : Execution}
    (h : s.spawner id e = some s') : ExecutionMove notify s id e s' := by
  rw [State.spawner] at h
  split at h
  · next hpc =>
    obtain rfl := Option.some.inj h
    exact .insert hpc
  · next hpc =>
    obtain rfl := Option.some.inj h
    exact .run hpc
  · next hpc =>
    split at h
    · next hrecord =>
      obtain rfl := Option.some.inj h
      exact .arm hpc hrecord
    · next hrecord =>
      obtain rfl := Option.some.inj h
      exact .pass hpc hrecord
  · cases h

theorem move_unregister {notify : Notify} {s s' : State} {id : Nat} {e : Execution}
    (h : s.unregister notify id e = some s') : ExecutionMove notify s id e s' := by
  rw [State.unregister] at h
  split at h
  · next hpc =>
    obtain rfl := Option.some.inj h
    exact .remove hpc
  · next hpc =>
    obtain rfl := Option.some.inj h
    exact .notify hpc
  · cases h

theorem move_finish {notify : Notify} {s s' : State} {id : Nat} {e : Execution}
    (h : s.finish id e = some s') : ExecutionMove notify s id e s' := by
  rw [State.finish] at h
  split at h
  · next hpc =>
    obtain rfl := Option.some.inj h
    exact .finish hpc
  · cases h

theorem move_go {notify : Notify} {s s' : State} {d : Nat} (h : s.go notify d = some s') :
    Move notify s s' := by
  rw [State.go] at h
  split at h
  · cases h
  · next hpc =>
    obtain rfl := Option.some.inj h
    exact .request hpc
  · next hpc =>
    obtain rfl := Option.some.inj h
    exact .mark hpc
  · next hpc =>
    obtain rfl := Option.some.inj h
    exact .call (hpc ▸ .aborted)
  · cases h
  · next aborted scope pc hpc =>
    dsimp only at h
    split at h
    · obtain rfl := Option.some.inj h
      exact .call (hpc ▸ .notified)
    · obtain rfl := Option.some.inj h
      exact .call (hpc ▸ .enable)
    · split_ifs at h with hactive
      · obtain rfl := Option.some.inj h
        exact .call (hpc ▸ .wait hactive)
      · obtain rfl := Option.some.inj h
        exact .call (hpc ▸ .leave (Bool.eq_false_iff.mpr hactive))
    · obtain rfl := Option.some.inj h
      exact .call (hpc ▸ .wake)
    · cases h
    · cases h

/-- **What a step can do.** -/
theorem move_of_step {notify : Notify} {s s' : State} {l : Label} (h : step notify s l = some s') :
    Move notify s s' := by
  cases l with
  | derive parent => exact move_derive h
  | spawn token =>
    simp only [step, State.spawn] at h
    split_ifs at h with htoken
    obtain rfl := Option.some.inj h
    exact .spawn htoken
  | spawner id =>
    obtain ⟨e, he, hstep⟩ := Option.bind_eq_some_iff.mp h
    exact .execution he (move_spawner hstep)
  | finish id =>
    obtain ⟨e, he, hstep⟩ := Option.bind_eq_some_iff.mp h
    exact .execution he (move_finish hstep)
  | unregister id =>
    obtain ⟨e, he, hstep⟩ := Option.bind_eq_some_iff.mp h
    exact .execution he (move_unregister hstep)
  | drain d token =>
    simp only [step] at h
    split_ifs at h with hcall
    obtain rfl := Option.some.inj h
    exact .call (hcall.1 ▸ .drain)
  | abortOwned d token =>
    simp only [step] at h
    split_ifs at h with hcall
    obtain rfl := Option.some.inj h
    exact .call (hcall.1 ▸ .abortOwned)
  | go d => exact move_go h
  | abort d id =>
    simp only [step, State.abort] at h
    split at h
    · next hpc he =>
      split_ifs at h with hid
      obtain rfl := Option.some.inj h
      exact .abort hpc he hid
    · cases h

end Executions

end Apcore
