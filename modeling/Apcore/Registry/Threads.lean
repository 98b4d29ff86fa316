import Apcore.Lib.Transition
import Apcore.Registry.Core

/-! # `Registry.Threads` — calls on a registry, interleaved

Any number of threads make calls on one registry. A call is a sequence of critical sections with
user code in between, and every other thread may run between two of them; a thread stands at one of
the points of `Pc`. What has happened is kept in a log, the latest event first. -/

namespace Apcore

namespace Registry

/-- A call on a registry. `release` says which reference it gives back, which the code cannot tell;
`none` is a release that belongs to no `acquire`. -/
inductive Call where
  | register (name : String) (module : Loadable) (descriptor : RegisteredDescriptor)
  | registerModule (name : String) (module : Loadable)
  | registerInternal (name : String) (module : Loadable) (descriptor : RegisteredDescriptor)
  | reinstateInternal (name : String) (module : Loadable) (descriptor : RegisteredDescriptor)
  | registerVersioned (name : String) (module : Loadable) (version : Option String)
  /-- One entry of `register_discovered`; a batch is one entry after the other. -/
  | registerDiscovered (name : String) (module : Loadable) (descriptor : RegisteredDescriptor)
      (source : String)
  | unregister (name : String)
  | safeUnregister (name : String)
  | acquire (name : String)
  | release (name : String) (reference : Option Instance)
  /-- `enable` and `disable`. -/
  | setEnabled (name : String) (enabled : Bool)

/-- The kinds of calls. -/
inductive Operation where
  | registration | unregister | safeUnregister | acquire | release | toggle
  deriving DecidableEq

/-- The kind of a call. -/
def Call.operation : Call → Operation
  | .register .. | .registerModule .. | .registerInternal .. | .reinstateInternal ..
  | .registerVersioned .. | .registerDiscovered .. => .registration
  | .unregister _ => .unregister
  | .safeUnregister _ => .safeUnregister
  | .acquire _ => .acquire
  | .release .. => .release
  | .setEnabled .. => .toggle

/-- On whose behalf `unregister` runs. -/
inductive Remover where
  | unregister
  /-- `safe_unregister`, with the instance that was registered when it began and what it answers. -/
  | drain (began : Instance) (clean : Bool)

/-- What the remover answers, whether or not the id was registered. -/
def Remover.answer (name : String) (found : Bool) : Remover → Answer
  | .unregister => .unregistered found
  | .drain began clean => .drained name (some began) clean

/-- Where a thread stands: before what it does next. -/
inductive Pc where
  | idle
  | returned (answer : Answer)
  /-- User code panicked. -/
  | crashed
  /-- `register_versioned`, before `has`; whether a version was given. -/
  | choosing (r : Registration) (explicit : Bool)
  | versionCheck (r : Registration)
  | versionLoading (r : Registration)
  | versionPush (r : Registration)
  /-- `check_registration`, and the conflicts under a read lock. -/
  | conflicts (r : Registration)
  /-- The reservation in `in_flight`. -/
  | reserving (r : Registration)
  | loading (r : Registration)
  | publishing (r : Registration)
  | releasing (r : Registration) (published : Bool)
  | loadFailed (r : Registration) (e : ModuleError)
  /-- `unregister`, before the maps are changed. -/
  | removing (name : String) (remover : Remover)
  /-- Before `drain_events.remove`. -/
  | clearing (name : String) (inst : Instance) (remover : Remover)
  /-- Before `on_unload`. -/
  | unloading (name : String) (inst : Instance) (remover : Remover)
  /-- `safe_unregister`, before it marks the id. -/
  | draining (name : String)
  | waiting (name : String) (note : Nat) (began : Instance)
  /-- Before `draining.remove`. -/
  | undraining (name : String) (began : Instance) (clean : Bool)
  /-- Before `drain_events.remove`. -/
  | forgetting (name : String) (began : Instance) (clean : Bool)
  /-- `release`, before it wakes a waiter. -/
  | notifying (name : String)

/-- A thread that is in no call. -/
def Pc.resting : Pc → Bool
  | .idle | .returned _ => true
  | _ => false

/-- A thread in whose drain references are waited for. -/
def Pc.waits : Pc → Bool
  | .waiting .. => true
  | _ => false

/-- A thread that is about to wake a drain. -/
def Pc.notifies : Pc → Bool
  | .notifying _ => true
  | _ => false

/-- The registration of discovery that is about to be committed. -/
def Pc.discovering : Pc → Option Registration
  | .publishing r =>
    match r.path with
    | .discovered _ => some r
    | _ => none
  | _ => none

/-- The registration of `add_version` that is about to be entered. -/
def Pc.pushing : Pc → Option Registration
  | .versionPush r => some r
  | _ => none

/-- What happens to a module object. -/
inductive Event where
  | onLoad (inst : Instance) (ok : Bool)
  | onUnload (inst : Instance)
  /-- The registration ends before `on_load`. -/
  | rejected (inst : Instance)
  /-- The registration ends after `on_load`, since the id or the version was taken. -/
  | refused (inst : Instance)
  /-- The id of an added version was unregistered, and it is registered anew. -/
  | fellBack (inst : Instance)
  | published (name : String) (inst : Instance)
  | versioned (name : String) (inst : Instance)
  /-- The module is unregistered, with so many references to it outstanding. -/
  | removed (name : String) (inst : Instance) (outstanding : Nat)
  deriving DecidableEq, Repr

/-- What the threads share. -/
structure Shared where
  core : RegistryCore
  inFlight : String → Bool := fun _ => false
  /-- The `Notify` of the drain of an id, by number. -/
  drainEvents : String → Option Nat := fun _ => none
  /-- Whether a `Notify` holds its permit. -/
  permits : Nat → Bool := fun _ => false
  nextNote : Nat := 0
  nextInst : Nat := 0
  /-- The references acquired and not released. -/
  held : List (String × Instance) := []
  log : List Event := []

/-- A registry and the threads that call it. -/
structure State where
  shared : Shared
  threads : Nat → Pc

/-- How the code outside the registry, or time, answers where a thread asks it. -/
inductive Choice where
  | go
  /-- The validator's: the messages with which it rejects, or none. -/
  | verdict (messages : Option (List String))
  /-- `on_load` succeeds. -/
  | loaded
  | loadFailed (e : ModuleError)
  /-- `on_load` or `on_unload` panics. -/
  | panicked
  | woken
  | timedOut

/-- A step: a thread makes a call, or goes on. -/
inductive Label where
  | call (thread : Nat) (c : Call)
  | act (thread : Nat) (choice : Choice)

/-! ## Steps -/

/-- Something happens. -/
def Shared.emit (σ : Shared) (event : Event) : Shared := { σ with log := event :: σ.log }

/-- A registration under way, as the next instance. -/
def Shared.arrive (σ : Shared) : Shared := { σ with nextInst := σ.nextInst + 1 }

/-- The references that are held once one of them is given back. -/
def giveBack (held : List (String × Instance)) (name : String) :
    Option Instance → List (String × Instance)
  | some inst => held.erase (name, inst)
  | none => held

/-- A call begins. The calls of one critical section are made at once. -/
def begin (σ : Shared) : Call → Option (Shared × Pc)
  | .register name module descriptor => some (σ.arrive, .conflicts
      { inst := σ.nextInst, name, path := .register, streams := module.streams, descriptor })
  | .registerModule name module => some (σ.arrive, .conflicts
      { inst := σ.nextInst, name, path := .register, streams := module.streams
        descriptor := module.descriptor none })
  | .registerInternal name module descriptor => some (σ.arrive, .conflicts
      { inst := σ.nextInst, name, path := .internal, streams := module.streams, descriptor })
  | .reinstateInternal name module descriptor => some (σ.arrive, .conflicts
      { inst := σ.nextInst, name, path := .reinstate, streams := module.streams, descriptor })
  | .registerVersioned name module version => some (σ.arrive, .choosing
      { inst := σ.nextInst, name, path := .versioned, streams := module.streams
        descriptor := module.descriptor version } (version.any (· != "")))
  | .registerDiscovered name module descriptor source => some (σ.arrive, .conflicts
      { inst := σ.nextInst, name, path := .discovered source, streams := module.streams
        descriptor })
  | .unregister name => some (σ, .removing name .unregister)
  | .safeUnregister name => some (σ, .draining name)
  | .acquire name =>
    match σ.core.acquire name with
    | .error e => some (σ, .returned (.acquired name (.error e)))
    | .ok (core, inst) => some ({ σ with core, held := (name, inst) :: σ.held },
        .returned (.acquired name (.ok inst)))
  | .release name reference =>
    -- one release for each acquire
    if ∀ inst, reference = some inst → (name, inst) ∈ σ.held then
      let (core, notify) := σ.core.release name
      some ({ σ with core, held := giveBack σ.held name reference },
        if notify then .notifying name else .returned .released)
    else none
  | .setEnabled name enabled =>
    match σ.core.setEnabled name enabled with
    | .error e => some (σ, .returned (.toggled (.error e)))
    | .ok core => some ({ σ with core }, .returned (.toggled (.ok ())))

/-- A thread goes on. -/
def next (σ : Shared) : Pc → Choice → Option (Shared × Pc)
  -- `register_versioned` asks `has` first, and what it finds may be gone by the next section
  | .choosing r explicit, .go =>
    if explicit && σ.core.contains r.name then some (σ, .versionCheck r)
    else some (σ, .conflicts { r with path := .register })
  | .versionCheck r, .verdict messages =>
    match r.checks messages with
    | .error answer => some (σ.emit (.rejected r.inst), .returned answer)
    | .ok () =>
      if σ.core.versionRegistered r.name r.descriptor.version then
        some (σ.emit (.rejected r.inst), .returned (r.answer (.error r.duplicateVersion)))
      else some (σ, .versionLoading r)
  | .versionLoading r, .loaded => some (σ.emit (.onLoad r.inst true), .versionPush r)
  | .versionLoading r, .loadFailed e =>
    some (σ.emit (.onLoad r.inst false), .returned (r.answer (.error e)))
  | .versionLoading r, .panicked => some (σ.emit (.onLoad r.inst false), .crashed)
  -- the core lock is taken again, after `on_load`
  | .versionPush r, .go =>
    match σ.core.addVersion r.name r.inst r.descriptor with
    | .missing => some (σ.emit (.fellBack r.inst), .conflicts { r with path := .fallback })
    | .duplicate core => some ({ σ with core }.emit (.refused r.inst),
        .returned (r.answer (.error r.duplicateVersion)))
    | .added core => some ({ σ with core }.emit (.versioned r.name r.inst),
        .returned (r.answer (.ok ())))
  | .conflicts r, .verdict messages =>
    match r.checks messages with
    | .error answer => some (σ.emit (.rejected r.inst), .returned answer)
    | .ok () =>
      -- the read lock is dropped before the id is reserved
      match r.conflict σ.core with
      | some e => some (σ.emit (.rejected r.inst), .returned (r.answer (.error e)))
      | none => some (σ, .reserving r)
  | .reserving r, .go =>
    if σ.inFlight r.name then
      some (σ.emit (.rejected r.inst),
        .returned (r.answer (.error (.duplicateModuleId r.name))))
    else some ({ σ with inFlight := Function.update σ.inFlight r.name true }, .loading r)
  | .loading r, .loaded => some (σ.emit (.onLoad r.inst true), .publishing r)
  | .loading r, .loadFailed e => some (σ.emit (.onLoad r.inst false), .loadFailed r e)
  -- the reservation stays
  | .loading r, .panicked => some (σ.emit (.onLoad r.inst false), .crashed)
  | .publishing r, .go =>
    match r.path with
    -- no second look at the maps here
    | .discovered source =>
      some ({ σ with core := σ.core.commitDiscovered r.name r.inst r.descriptor source }.emit
        (.published r.name r.inst), .releasing r true)
    | _ =>
      -- `on_load` has run, and `on_unload` is not called
      if σ.core.contains r.name then some (σ.emit (.refused r.inst), .releasing r false)
      else some ({ σ with core := σ.core.insertModule r.name r.inst r.descriptor }.emit
        (.published r.name r.inst), .releasing r true)
  | .releasing r published, .go =>
    some ({ σ with inFlight := Function.update σ.inFlight r.name false },
      .returned (r.answer (if published then .ok () else .error (.duplicateModuleId r.name))))
  | .loadFailed r e, .go =>
    some ({ σ with inFlight := Function.update σ.inFlight r.name false },
      .returned (r.answer (.error e)))
  -- the id is looked up anew, for a drain too
  | .removing name remover, .go =>
    match σ.core.modules name with
    | none => some (σ, .returned (remover.answer name false))
    | some inst =>
      some ({ σ with core := σ.core.removeModule name }.emit
        (.removed name inst (σ.held.count (name, inst))), .clearing name inst remover)
  | .clearing name inst remover, .go =>
    some ({ σ with drainEvents := Function.update σ.drainEvents name none },
      .unloading name inst remover)
  | .unloading name inst remover, .go =>
    some (σ.emit (.onUnload inst), .returned (remover.answer name true))
  | .unloading _ inst _, .panicked => some (σ.emit (.onUnload inst), .crashed)
  -- under one write lock: the mark, the count, and the `Notify` of a drain that has to wait
  | .draining name, .go =>
    match σ.core.modules name with
    | none => some (σ, .returned (.drained name none false))
    | some inst =>
      if σ.core.refs name = 0 then
        some ({ σ with core := σ.core.setDraining name true }, .removing name (.drain inst true))
      else
        some ({ σ with
          core := σ.core.setDraining name true
          drainEvents := Function.update σ.drainEvents name (some σ.nextNote)
          nextNote := σ.nextNote + 1 }, .waiting name σ.nextNote inst)
  | .waiting name note began, .woken =>
    if σ.permits note then
      some ({ σ with permits := Function.update σ.permits note false },
        .undraining name began true)
    else none
  -- `timeout` looks for the permit before it looks at the clock
  | .waiting name note began, .timedOut =>
    if σ.permits note then none else some (σ, .undraining name began false)
  | .undraining name began clean, .go =>
    some ({ σ with core := σ.core.setDraining name false }, .forgetting name began clean)
  | .forgetting name began clean, .go =>
    some ({ σ with drainEvents := Function.update σ.drainEvents name none },
      .removing name (.drain began clean))
  -- whoever has the entry of the id by now is told
  | .notifying name, .go =>
    match σ.drainEvents name with
    | none => some (σ, .returned .released)
    | some note => some ({ σ with permits := Function.update σ.permits note true },
        .returned .released)
  | _, _ => none

/-- A thread at a new point, over what is shared then. -/
def State.advance (s : State) (t : Nat) (moved : Shared × Pc) : State where
  shared := moved.1
  threads := Function.update s.threads t moved.2

/-- One step of the system. -/
def step (s : State) : Label → Option State
  | .call t c =>
    if (s.threads t).resting then (begin s.shared c).map (s.advance t) else none
  | .act t choice => (next s.shared (s.threads t) choice).map (s.advance t)

/-- A registry of some modules, at rest. -/
def State.start (core : RegistryCore) (nextInst : Nat) : State where
  shared := { core, nextInst }
  threads _ := .idle

/-- `Registry::new`. -/
def State.initial : State := .start .new 0

/-! ## Calls that nothing stands in the way of -/

/-- A module with nothing declared. -/
def Loadable.inert : Loadable where
  streams := false
  version := none
  annotations := {}
  inputSchema := .null
  outputSchema := .null

/-- A thread registers a module. -/
def registerSteps (t : Nat) (name : String) : List Label :=
  [.call t (.registerModule name .inert), .act t (.verdict none), .act t .go, .act t .loaded,
    .act t .go, .act t .go]

/-- A thread adds a version to a registered id. -/
def addVersionSteps (t : Nat) (name version : String) : List Label :=
  [.call t (.registerVersioned name .inert (some version)), .act t .go, .act t (.verdict none),
    .act t .loaded, .act t .go]

/-- A thread unregisters a registered id. -/
def unregisterSteps (t : Nat) (name : String) : List Label :=
  [.call t (.unregister name), .act t .go, .act t .go, .act t .go]

/-- The rest of a drain that waits, once its waiting ends. -/
def endOfDrain (t : Nat) (ended : Choice) : List Label :=
  [.act t ended, .act t .go, .act t .go, .act t .go, .act t .go, .act t .go]

/-- A registry of one module. -/
def oneModule : RegistryCore := RegistryCore.new.insertModule "m" 0 (Loadable.inert.descriptor none)

end Registry

end Apcore
