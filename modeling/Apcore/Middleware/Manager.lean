import Mathlib.Data.List.InsertIdx
import Apcore.Lib.Locks
import Apcore.Lib.Lists

/-! # `Middleware.Manager` — the locks and vectors of `MiddlewareManager`

The manager keeps three parallel vectors and a map, each behind a mutex of its own. A call is a
program over these locks: its acts are to take a mutex, with what it does next under the mutexes it
has, and to give one back. Any number of threads make calls. -/

namespace Apcore

namespace ManagerLocks

/-- The mutexes of the manager. -/
inductive Lock where
  | middlewares | handles | identities | registeredIdentities
  deriving DecidableEq, Repr

/-- An `Arc<dyn Middleware>`, as far as the manager asks; `ref` tells instances apart. -/
structure MiddlewareRef where
  ref : Nat
  name : String
  priority : Nat
  deriving DecidableEq, Repr

/-- `Registration`, without the flag that only silences a warning. -/
structure Registration where
  identity : String
  location : String
  deriving DecidableEq, Repr

/-- What one registration puts into the three vectors. -/
structure Entry where
  handle : Nat
  middleware : MiddlewareRef
  identity : Option String
  deriving DecidableEq, Repr

/-- `MiddlewareManager`. The last three fields are not in the program: the live registrations in
pipeline order, the removals that have yet to take out their identity (by thread and index, the
earliest first), and the identities insertions have noted and not yet inserted. -/
structure Shared where
  middlewares : List MiddlewareRef
  handles : List Nat
  identities : List (Option String)
  nextHandle : Nat
  registeredIdentities : String → Option String
  live : List Entry
  pending : List (Nat × Nat)
  noted : List (Nat × String)

namespace Shared

/-- `MiddlewareManager::new`. -/
def new : Shared where
  middlewares := []
  handles := []
  identities := []
  nextHandle := 0
  registeredIdentities := fun _ => none
  live := []
  pending := []
  noted := []

/-- `note_identity`. -/
def noteIdentity (sh : Shared) (t : Nat) (registration : Registration) : Shared :=
  { sh with
    registeredIdentities :=
      match sh.registeredIdentities registration.identity with
      | some _ => sh.registeredIdentities
      | none =>
        Function.update sh.registeredIdentities registration.identity (some registration.location)
    noted := (t, registration.identity) :: sh.noted }

/-- What `insert` does under its three mutexes. Past the end of a vector `Vec::insert` panics, and
`insertIdx` leaves the vector as it is. -/
def insertEntry (sh : Shared) (t : Nat) (middleware : MiddlewareRef) (identity : Option String) :
    Shared :=
  let pos := sh.middlewares.stablePos (·.priority) middleware.priority
  let entry := { handle := sh.nextHandle, middleware, identity }
  { sh with
    middlewares := sh.middlewares.insertIdx pos middleware
    handles := sh.handles.insertIdx pos sh.nextHandle
    identities := sh.identities.insertIdx pos identity
    nextHandle := sh.nextHandle + 1
    live := sh.live.insertIdx pos entry
    noted := sh.noted.filter (·.1 != t) }

/-- `mws.remove(i)` in `remove`. -/
def cutMiddleware (sh : Shared) (i : Nat) : Shared :=
  { sh with middlewares := sh.middlewares.eraseIdx i }

/-- `handles.remove(i)` in `remove_handle`. -/
def cutHandle (sh : Shared) (i : Nat) : Shared := { sh with handles := sh.handles.eraseIdx i }

/-- `self.handles.lock().remove(i)` in `remove`, after which the registration is gone. -/
def dropHandle (sh : Shared) (t i : Nat) : Shared :=
  { sh with
    handles := sh.handles.eraseIdx i
    live := sh.live.eraseIdx i
    pending := sh.pending ++ [(t, i)] }

/-- `self.middlewares.lock().remove(i)` in `remove_handle`, after which the registration is gone. -/
def dropMiddleware (sh : Shared) (t i : Nat) : Shared :=
  { sh with
    middlewares := sh.middlewares.eraseIdx i
    live := sh.live.eraseIdx i
    pending := sh.pending ++ [(t, i)] }

/-- `forget_identity_at`, under the mutex of `identities`. -/
def forgetIdentityAt (sh : Shared) (t i : Nat) : Shared :=
  { sh with
    identities := sh.identities.eraseIdx i
    pending := sh.pending.filter (·.1 != t) }

/-- The identity `forget_identity_at` drops from `registered_identities`: the one it took out,
unless another registration has it. -/
def unshared (sh : Shared) (i : Nat) : Option String :=
  (sh.identities[i]?.join).filter fun identity => !(sh.identities.eraseIdx i).contains (some identity)

/-- `registered_identities.remove(identity)`. -/
def unregister (sh : Shared) (identity : String) : Shared :=
  { sh with registeredIdentities := Function.update sh.registeredIdentities identity none }

end Shared

/-! ## Calls and program counters -/

/-- What the read-only operations lock: `snapshot`, `find_by_name` and the snapshots of
`execute_before`, `execute_after` and `execute_on_error` the chain, `identity_registered` the map. -/
inductive Reader where
  | chain | identityRegistered
  deriving DecidableEq, Repr

def Reader.lock : Reader → Lock
  | chain => .middlewares
  | identityRegistered => .registeredIdentities

/-- The calls; the ways to add end in `insert`. -/
inductive Call where
  | insert (middleware : MiddlewareRef) (registration : Option Registration)
  | remove (name : String)
  | removeHandle (handle : Nat)
  | read (reader : Reader)
  deriving DecidableEq, Repr

/-- Where a thread stands. The counters of `forget_identity_at` say whether they are inside
`remove`, which keeps its mutex until it returns. -/
inductive Pc where
  | idle
  /-- `insert`: about to note the identity, and having noted it. -/
  | noting (middleware : MiddlewareRef) (registration : Registration)
  | noted (middleware : MiddlewareRef) (identity : String)
  /-- `insert`: about to take its three mutexes, one after the other. -/
  | inserting (middleware : MiddlewareRef) (identity : Option String)
  | insertHasMiddlewares (middleware : MiddlewareRef) (identity : Option String)
  | insertHasHandles (middleware : MiddlewareRef) (identity : Option String)
  | removing (name : String)
  | removedMiddleware (i : Nat)
  | removedHandle (i : Nat)
  | removingHandle (handle : Nat)
  | handleRemoved (i : Nat)
  | chainRemoved (i : Nat)
  | dropping (i : Nat)
  | forgetting (inRemove : Bool) (i : Nat)
  | forgot (inRemove : Bool) (identity : String)
  /-- The guards that are left go out of scope. -/
  | releasing (locks : List Lock)
  | reading (reader : Reader)
  deriving DecidableEq, Repr

namespace Pc

/-- What `remove` holds around `forget_identity_at`. -/
def outer (inRemove : Bool) : List Lock := if inRemove then [.middlewares] else []

/-- The locks a thread holds, the last one first. -/
def holds : Pc → List Lock
  | noted _ _ => [.registeredIdentities]
  | insertHasMiddlewares _ _ => [.middlewares]
  | insertHasHandles _ _ => [.handles, .middlewares]
  | removedMiddleware _ => [.middlewares]
  | removedHandle _ => [.handles, .middlewares]
  | handleRemoved _ => [.handles]
  | chainRemoved _ => [.middlewares, .handles]
  | dropping _ => [.handles]
  | forgetting inRemove _ => outer inRemove
  | forgot inRemove _ => .identities :: outer inRemove
  | releasing locks => locks
  | _ => []

/-- After the last guard the call returns. -/
def leave : List Lock → Pc
  | [] => idle
  | locks => releasing locks

@[simp] theorem holds_leave (locks : List Lock) : (leave locks).holds = locks := by
  cases locks <;> rfl

end Pc

abbrev State := Locks.State Lock Shared Pc

/-- A manager that nobody has called yet. -/
def init : State where
  shared := .new
  owner := fun _ => none
  pc := fun _ => .idle

/-- The first counter of a call. A priority above 1000 is refused before any mutex is taken. -/
def begin : Call → Pc
  | .insert middleware registration =>
    if middleware.priority > 1000 then .idle
    else match registration with
      | some registration => .noting middleware registration
      | none => .inserting middleware none
  | .remove name => .removing name
  | .removeHandle handle => .removingHandle handle
  | .read reader => .reading reader

/-- The next act of a thread. -/
def next (t : Nat) (sh : Shared) : Pc → Option (Locks.Act Lock Shared Pc)
  | .idle => none
  | .noting middleware registration => some
      (.acquire .registeredIdentities (sh.noteIdentity t registration)
        (.noted middleware registration.identity))
  | .noted middleware identity => some
      (.release .registeredIdentities (.inserting middleware (some identity)))
  | .inserting middleware identity => some
      (.acquire .middlewares sh (.insertHasMiddlewares middleware identity))
  | .insertHasMiddlewares middleware identity => some
      (.acquire .handles sh (.insertHasHandles middleware identity))
  | .insertHasHandles middleware identity => some
      (.acquire .identities (sh.insertEntry t middleware identity)
        (.releasing [.identities, .handles, .middlewares]))
  | .removing name =>
    match sh.middlewares.findIdx? (·.name == name) with
    | none => some (.acquire .middlewares sh (.releasing [.middlewares]))
    | some i => some (.acquire .middlewares (sh.cutMiddleware i) (.removedMiddleware i))
  | .removedMiddleware i =>
    -- `Vec::remove` past the end panics, and the guards go out of scope
    if i < sh.handles.length then some (.acquire .handles (sh.dropHandle t i) (.removedHandle i))
    else some (.acquire .handles sh (.releasing [.handles, .middlewares]))
  | .removedHandle i => some (.release .handles (.forgetting true i))
  | .removingHandle handle =>
    match sh.handles.findIdx? (· == handle) with
    | none => some (.acquire .handles sh (.releasing [.handles]))
    | some i => some (.acquire .handles (sh.cutHandle i) (.handleRemoved i))
  | .handleRemoved i =>
    if i < sh.middlewares.length then
      some (.acquire .middlewares (sh.dropMiddleware t i) (.chainRemoved i))
    else some (.acquire .middlewares sh (.releasing [.middlewares, .handles]))
  | .chainRemoved i => some (.release .middlewares (.dropping i))
  | .dropping i => some (.release .handles (.forgetting false i))
  | .forgetting inRemove i =>
    match sh.unshared i with
    | none => some
        (.acquire .identities (sh.forgetIdentityAt t i)
          (.releasing (.identities :: Pc.outer inRemove)))
    | some identity => some
        (.acquire .identities (sh.forgetIdentityAt t i) (.forgot inRemove identity))
  | .forgot inRemove identity => some
      (.acquire .registeredIdentities (sh.unregister identity)
        (.releasing (.registeredIdentities :: .identities :: Pc.outer inRemove)))
  | .releasing [] => none
  | .releasing (lock :: locks) => some (.release lock (Pc.leave locks))
  | .reading reader => some (.acquire reader.lock sh (.releasing [reader.lock]))

/-- A thread makes a call, or goes on with the one it is in. -/
inductive Label where
  | call (t : Nat) (c : Call)
  | go (t : Nat)
  deriving DecidableEq, Repr

def step (s : State) : Label → Option State
  | .call t c =>
    match s.pc t with
    | .idle => some { s with pc := Function.update s.pc t (begin c) }
    | _ => none
  | .go t => (next t s.shared (s.pc t)).bind (s.perform t)

/-- No call is in progress. -/
def Quiet (s : State) : Prop := ∀ t, s.pc t = .idle

/-! ## What a step does -/

theorem step_call {s s' : State} {t : Nat} {c : Call} (h : step s (.call t c) = some s') :
    s.pc t = .idle ∧ s' = { s with pc := Function.update s.pc t (begin c) } := by
  rw [step] at h
  split at h
  · next hidle => exact ⟨hidle, (Option.some.inj h).symm⟩
  · cases h

theorem step_go {s s' : State} {t : Nat} (h : step s (.go t) = some s') :
    ∃ act, next t s.shared (s.pc t) = some act ∧ s.perform t act = some s' :=
  Option.bind_eq_some_iff.mp h

/-- The acts take and give back locks as `holds` says. -/
theorem nested : Locks.Nested Pc.holds next := by
  constructor
  · intro t sh pc lock sh' pc' h
    cases pc
    case releasing locks => cases locks <;> simp [next] at h
    all_goals
      simp only [next] at h
      try split at h
      all_goals first | cases h; rfl | cases h
  · intro t sh pc lock pc' h
    cases pc
    case releasing locks =>
      cases locks with
      | nil => cases h
      | cons held rest =>
        cases h
        exact congrArg (_ :: ·) (Pc.holds_leave rest).symm
    all_goals
      simp only [next] at h
      try split at h
      all_goals first | cases h; rfl | cases h

@[simp] theorem holds_begin (c : Call) : (begin c).holds = [] := by
  cases c with
  | insert middleware registration =>
    simp only [begin]
    split_ifs
    · rfl
    · cases registration <;> rfl
  | remove name => rfl
  | removeHandle handle => rfl
  | read reader => rfl

/-- Owners stay right along every step. -/
theorem owned_step {s s' : State} {l : Label} (h : Locks.Owned Pc.holds s)
    (hstep : step s l = some s') : Locks.Owned Pc.holds s' := by
  cases l with
  | call t c =>
    obtain ⟨hidle, rfl⟩ := step_call hstep
    have hsame : ∀ u, (Function.update s.pc t (begin c) u).holds = (s.pc u).holds := by
      intro u
      by_cases hu : u = t
      · subst hu
        rw [Function.update_self, holds_begin, hidle]
        rfl
      · rw [Function.update_of_ne hu]
    exact ⟨fun u lock => by simp [hsame, h.owner], fun u => by simp [hsame, h.nodup]⟩
  | go t =>
    obtain ⟨act, hnext, hperform⟩ := step_go hstep
    exact h.perform nested hnext hperform

theorem owned_init : Locks.Owned Pc.holds init := by
  constructor
  · intro t lock
    simp [init, Pc.holds]
  · intro t
    exact List.nodup_nil

end ManagerLocks

end Apcore
