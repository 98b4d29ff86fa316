import Apcore.Lib.RwLocks
import Apcore.Lib.Transition

/-! # `Events.Emitter` — the locks and vectors of `EventEmitter`

The emitter keeps its subscribers and the handles of their registrations in two parallel vectors,
each behind a readers-writer lock, and the deliveries in flight behind a mutex. A call is a program
over these locks; any number of threads make calls. -/

namespace Apcore

namespace EmitterLocks

/-- The locks of the emitter. -/
inductive Lock where
  | subscribers | handles | pending
  deriving DecidableEq, Repr

/-- An `Arc<dyn EventSubscriber>` of one registration, as far as the removals ask. The handle that
was issued for the registration is not in the program. -/
structure Subscription where
  handle : Nat
  subscriberId : String
  eventTypeFilter : Option String
  deriving DecidableEq, Repr

/-- What one `unsubscribe_handle` did under the last lock it took. A result of `none` is a panic. -/
structure Removal where
  handle : Nat
  result : Option Bool
  before : List Subscription
  after : List Subscription
  deriving DecidableEq, Repr

/-- `EventEmitter`, and the history of its handles: those that `subscribe` has returned, and what
`unsubscribe_handle` did with them. The 64 bits of `next_handle` are taken never to run out. -/
structure Shared where
  subscribers : List Subscription
  handles : List Nat
  nextHandle : Nat
  issued : List Nat
  removals : List Removal
  deriving DecidableEq, Repr

namespace Shared

/-- `EventEmitter::new`. -/
def new : Shared where
  subscribers := []
  handles := []
  nextHandle := 0
  issued := []
  removals := []

/-- `next_handle.fetch_add(1)` and `subs.push(subscriber)`. -/
def pushSubscriber (sh : Shared) (subscriberId : String) (eventTypeFilter : Option String) :
    Shared :=
  { sh with
    subscribers := sh.subscribers ++ [{ handle := sh.nextHandle, subscriberId, eventTypeFilter }]
    nextHandle := sh.nextHandle + 1 }

/-- `self.handles.write().push(handle)`. -/
def pushHandle (sh : Shared) (handle : Nat) : Shared :=
  { sh with handles := sh.handles ++ [handle] }

/-- `subscribe` returns the handle. -/
def issue (sh : Shared) (handle : Nat) : Shared := { sh with issued := sh.issued ++ [handle] }

/-- `handles.remove(pos)`. -/
def cutHandle (sh : Shared) (pos : Nat) : Shared :=
  { sh with handles := sh.handles.eraseIdx pos }

/-- `unsubscribe_handle` is done, and leaves these subscribers. -/
def finish (sh : Shared) (handle : Nat) (result : Option Bool) (after : List Subscription) :
    Shared :=
  { sh with
    subscribers := after
    removals := sh.removals ++ [{ handle, result, before := sh.subscribers, after }] }

/-- The position `unsubscribe_by_id` finds. -/
def positionOfId (sh : Shared) (subscriberId : String) : Option Nat :=
  sh.subscribers.findIdx? (·.subscriberId == subscriberId)

/-- `unsubscribe_by_id`, under its lock. -/
def removeById (sh : Shared) (subscriberId : String) : Shared :=
  match sh.positionOfId subscriberId with
  | some pos => { sh with subscribers := sh.subscribers.eraseIdx pos }
  | none => sh

/-- `unsubscribe_by_event_type`, under its lock. -/
def retainOtherTypes (sh : Shared) (eventType : String) : Shared :=
  { sh with
    subscribers := sh.subscribers.filter fun s => s.eventTypeFilter.all (· != eventType) }

end Shared

/-! ## Calls and program counters -/

/-- The calls. The ways to emit differ here in whether they note the deliveries they start in
`pending`, as `emit` and `emit_delivery_semantics` do; `flush` takes `pending` a second time when
it was not done with all deliveries in its time. -/
inductive Call where
  | subscribe (subscriberId : String) (eventTypeFilter : Option String)
  | unsubscribeHandle (handle : Nat)
  | unsubscribe (subscriberId : String)
  | unsubscribeById (subscriberId : String)
  | unsubscribeByEventType (eventType : String)
  | emit (tracks : Bool)
  | flush (unfinished : Bool)
  deriving DecidableEq, Repr

/-- Where a thread stands. -/
inductive Pc where
  | idle
  | subscribing (subscriberId : String) (eventTypeFilter : Option String)
  | pushing (handle : Nat)
  | pushed (handle : Nat)
  | returning (handle : Nat)
  | removingHandle (handle : Nat)
  | handleRemoved (handle : Nat) (pos : Nat)
  | counting (subscriberId : String)
  | counted (subscriberId : String)
  | removingById (subscriberId : String)
  | removingByEventType (eventType : String)
  | emitting (tracks : Bool)
  | snapshotTaken (tracks : Bool)
  | tracking
  | flushing (unfinished : Bool)
  | taken (unfinished : Bool)
  /-- The guards that are left go out of scope. -/
  | releasing (locks : List Lock)
  deriving DecidableEq, Repr

namespace Pc

/-- The locks a thread holds, the last one first. -/
def holds : Pc → List (RwLocks.Mode × Lock)
  | pushing _ => [(.write, .subscribers)]
  | pushed _ => [(.write, .handles), (.write, .subscribers)]
  | returning _ => [(.write, .subscribers)]
  | handleRemoved _ _ => [(.write, .handles)]
  | counted _ => [(.read, .subscribers)]
  | snapshotTaken _ => [(.read, .subscribers)]
  | taken _ => [(.write, .pending)]
  | releasing locks => locks.map fun lock => (.write, lock)
  | _ => []

/-- After the last guard the call returns. -/
def leave : List Lock → Pc
  | [] => idle
  | locks => releasing locks

@[simp] theorem holds_leave (locks : List Lock) :
    (leave locks).holds = locks.map fun lock => (.write, lock) := by
  cases locks <;> rfl

end Pc

abbrev State := RwLocks.State Lock Shared Pc

/-- An emitter that nobody has called yet. -/
def init : State where
  shared := .new
  holders := fun _ => []
  pc := fun _ => .idle

/-- The `EventSubscriber::subscriber_id` trait default. -/
def DEFAULT_SUBSCRIBER_ID : String := "default"

/-- The first counter of a call. -/
def begin : Call → Pc
  | .subscribe subscriberId eventTypeFilter => .subscribing subscriberId eventTypeFilter
  | .unsubscribeHandle handle => .removingHandle handle
  | .unsubscribe subscriberId =>
    -- the trait default is counted first, for a warning
    if subscriberId = DEFAULT_SUBSCRIBER_ID then .counting subscriberId
    else .removingById subscriberId
  | .unsubscribeById subscriberId => .removingById subscriberId
  | .unsubscribeByEventType eventType => .removingByEventType eventType
  | .emit tracks => .emitting tracks
  | .flush unfinished => .flushing unfinished

/-- The next act of a thread. -/
def next (_ : Nat) (sh : Shared) : Pc → Option (RwLocks.Act Lock Shared Pc)
  | .idle => none
  | .subscribing subscriberId eventTypeFilter => some
      (.acquire .write .subscribers (sh.pushSubscriber subscriberId eventTypeFilter)
        (.pushing sh.nextHandle))
  | .pushing handle => some (.acquire .write .handles (sh.pushHandle handle) (.pushed handle))
  | .pushed handle => some (.release .write .handles sh (.returning handle))
  | .returning handle => some (.release .write .subscribers (sh.issue handle) .idle)
  | .removingHandle handle =>
    match sh.handles.findIdx? (· == handle) with
    | none => some
        (.acquire .write .handles (sh.finish handle (some false) sh.subscribers)
          (.releasing [.handles]))
    | some pos => some
        (.acquire .write .handles (sh.cutHandle pos) (.handleRemoved handle pos))
  | .handleRemoved handle pos =>
    -- `Vec::remove` past the end panics, and the guards go out of scope
    if pos < sh.subscribers.length then some
      (.acquire .write .subscribers (sh.finish handle (some true) (sh.subscribers.eraseIdx pos))
        (.releasing [.subscribers, .handles]))
    else some
      (.acquire .write .subscribers (sh.finish handle none sh.subscribers)
        (.releasing [.subscribers, .handles]))
  | .counting subscriberId => some (.acquire .read .subscribers sh (.counted subscriberId))
  | .counted subscriberId => some (.release .read .subscribers sh (.removingById subscriberId))
  | .removingById subscriberId => some
      (.acquire .write .subscribers (sh.removeById subscriberId) (.releasing [.subscribers]))
  | .removingByEventType eventType => some
      (.acquire .write .subscribers (sh.retainOtherTypes eventType) (.releasing [.subscribers]))
  | .emitting tracks => some (.acquire .read .subscribers sh (.snapshotTaken tracks))
  | .snapshotTaken tracks => some
      (.release .read .subscribers sh (if tracks then .tracking else .idle))
  | .tracking => some (.acquire .write .pending sh (.releasing [.pending]))
  | .flushing unfinished => some (.acquire .write .pending sh (.taken unfinished))
  | .taken unfinished => some
      (.release .write .pending sh (if unfinished then .flushing false else .idle))
  | .releasing [] => none
  | .releasing (lock :: locks) => some (.release .write lock sh (Pc.leave locks))

/-- A thread begins a call, or goes on with the one it is in. -/
inductive Label where
  | call (t : Nat) (c : Call)
  | go (t : Nat)
  deriving DecidableEq, Repr

/-- The handle is one that `subscribe` has returned: there is no other way to come by one. -/
def Call.known (c : Call) (sh : Shared) : Bool :=
  match c with
  | .unsubscribeHandle handle => sh.issued.contains handle
  | _ => true

def step (s : State) : Label → Option State
  | .call t c =>
    if s.pc t = .idle ∧ c.known s.shared then
      some { s with pc := Function.update s.pc t (begin c) }
    else none
  | .go t => (next t s.shared (s.pc t)).bind (s.perform t)

/-- A call of one thread and its acts, one after the other. -/
def callRun (t : Nat) (c : Call) (acts : Nat) : List Label := .call t c :: List.replicate acts (.go t)

theorem step_call {s s' : State} {t : Nat} {c : Call} (h : step s (.call t c) = some s') :
    s.pc t = .idle ∧ s' = { s with pc := Function.update s.pc t (begin c) } := by
  rw [step] at h
  split_ifs at h with hidle
  exact ⟨hidle.1, (Option.some.inj h).symm⟩

theorem step_go {s s' : State} {t : Nat} (h : step s (.go t) = some s') :
    ∃ act, next t s.shared (s.pc t) = some act ∧ s.perform t act = some s' :=
  Option.bind_eq_some_iff.mp h

/-! ## Who holds the locks -/

theorem nested : RwLocks.Nested Pc.holds next where
  acquire := by
    intro t sh pc mode lock sh' pc' h
    cases pc
    case releasing locks => cases locks <;> cases h
    case removingHandle =>
      simp only [next] at h
      split at h
      all_goals
        cases h
        exact ⟨rfl, by simp [Pc.holds]⟩
    case handleRemoved =>
      simp only [next] at h
      split_ifs at h
      all_goals
        cases h
        exact ⟨rfl, by simp [Pc.holds]⟩
    all_goals
      cases h <;> exact ⟨rfl, by simp [Pc.holds]⟩
  release := by
    intro t sh pc mode lock sh' pc' h
    cases pc
    case releasing locks =>
      cases locks with
      | nil => cases h
      | cons lock rest =>
        cases h
        rw [Pc.holds_leave]
        rfl
    case removingHandle =>
      simp only [next] at h
      split at h <;> cases h
    case handleRemoved =>
      simp only [next] at h
      split_ifs at h <;> cases h
    case snapshotTaken tracks =>
      cases tracks <;> cases h <;> rfl
    case taken unfinished =>
      cases unfinished <;> cases h <;> rfl
    all_goals cases h <;> rfl

theorem owned_init : RwLocks.Owned Pc.holds init where
  holder := by
    intro t lock mode
    simp [init, Pc.holds]
  alone := by
    intro t lock hmem
    cases hmem
  nodup := fun _ => List.nodup_nil
  once := fun _ => List.nodup_nil

theorem holds_begin (c : Call) : (begin c).holds = [] := by
  cases c
  case unsubscribe subscriberId =>
    simp only [begin]
    split_ifs <;> rfl
  all_goals rfl

theorem owned_step {s s' : State} {l : Label} (h : RwLocks.Owned Pc.holds s)
    (hstep : step s l = some s') : RwLocks.Owned Pc.holds s' := by
  cases l with
  | go t =>
    obtain ⟨act, hnext, hperform⟩ := step_go hstep
    exact h.perform nested hnext hperform
  | call t c =>
    obtain ⟨hidle, rfl⟩ := step_call hstep
    have hholds : ∀ u, (Function.update s.pc t (begin c) u).holds = (s.pc u).holds := by
      intro u
      by_cases hu : u = t
      · subst hu
        rw [Function.update_self, holds_begin, hidle]
        rfl
      · rw [Function.update_of_ne hu]
    refine { holder := fun u lock mode => ?_, alone := h.alone, nodup := h.nodup, once := fun u => ?_ }
    · show _ ↔ (mode, lock) ∈ (Function.update s.pc t (begin c) u).holds
      rw [hholds u]
      exact h.holder u lock mode
    · show (Function.update s.pc t (begin c) u).holds.Nodup
      rw [hholds u]
      exact h.once u

end EmitterLocks

end Apcore
