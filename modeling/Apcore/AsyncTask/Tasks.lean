import Mathlib.Logic.Function.Basic
import Apcore.Json
import Apcore.Lib.Transition

/-! # `AsyncTask.Tasks` — managers and their workers over one task store

A `TaskStore` is a map of records whose operations may fail. Everything else is a program that reads
a record, decides, and writes it back: the worker of a task (`run_task`), and the calls of any number
of managers (`submit`, `cancel`, `shutdown`, `cleanup` and the reaper's sweep). Each operation of the
store is a step, and the steps of the parties come in any order. -/

namespace Apcore

namespace Tasks

inductive TaskStatus where
  | pending | running | completed | failed | cancelled
  deriving DecidableEq, Repr

namespace TaskStatus

def isActive : TaskStatus → Bool
  | pending => true
  | running => true
  | _ => false

def isTerminal (status : TaskStatus) : Bool := !status.isActive

end TaskStatus

/-- `TaskInfo`, without the id it is stored under. -/
structure TaskInfo where
  moduleId : String
  status : TaskStatus
  submittedAt : ℚ
  startedAt : Option ℚ
  completedAt : Option ℚ
  result : Option Json
  error : Option String
  retryCount : Nat
  maxRetries : Nat

/-! ## Workers -/

/-- Where `run_task` stands. Its semaphore is never closed. -/
inductive WorkerPc where
  | absent
  | acquiring
  /-- With the permit: about to fetch the record, and to save it as running. -/
  | fetching
  | savingRunning (info : TaskInfo)
  /-- In `executor.call`, and with its outcome, the error as its text. -/
  | calling
  | refetching (outcome : Except String Json)
  /-- About to save a retry, and to save the outcome by `save_terminal_if_not_cancelled`. -/
  | savingPending (info : TaskInfo)
  | checking (info : TaskInfo)
  | savingTerminal (info : TaskInfo)
  /-- `run_task` has returned; the worker has deregistered itself, or was aborted. -/
  | returned
  | gone

/-- The record a worker has ready once it has fetched `info` after the call. -/
def settle (info : TaskInfo) (maxRetries : Nat) (now : ℚ) : Except String Json → WorkerPc
  | .ok output =>
    .checking
      { info with status := .completed, completedAt := some now, result := some output }
  | .error e =>
    if info.retryCount < maxRetries then
      .savingPending { info with retryCount := info.retryCount + 1, status := .pending }
    else .checking { info with status := .failed, completedAt := some now, error := some e }

/-- A step of `run_task`: what it saves, and where it goes on. `record` is what the store has for the
task, and the operation of the store fails unless `ok`. -/
def workerStep (maxRetries : Nat) (record : Option TaskInfo) (ok : Bool) (now : ℚ) :
    WorkerPc → Option (Option TaskInfo × WorkerPc)
  | .absent => none
  | .acquiring => some (none, .fetching)
  | .fetching =>
    match ok, record with
    | true, some info =>
      if info.status = .cancelled then some (none, .returned)
      else
        some (none, .savingRunning
          { info with status := .running, startedAt := some (info.startedAt.getD now) })
    | _, _ => some (none, .returned)
  | .savingRunning info => if ok then some (some info, .calling) else some (none, .returned)
  | .calling => none
  | .refetching outcome =>
    match ok, record with
    | true, some info =>
      if info.status = .cancelled then some (none, .returned)
      else some (none, settle info maxRetries now outcome)
    | _, _ => some (none, .returned)
  | .savingPending info => some (if ok then some info else none, .acquiring)
  | .checking info =>
    match ok, record with
    | true, some current =>
      if current.status = .cancelled then some (none, .returned)
      else some (none, .savingTerminal info)
    -- no record, or none that could be fetched: the outcome is saved all the same
    | _, _ => some (none, .savingTerminal info)
  | .savingTerminal info => some (if ok then some info else none, .returned)
  | .returned => some (none, .gone)
  | .gone => none

/-! ## Calls -/

/-- What a `cancel` is part of: itself; or `shutdown`, with the tasks that are left, which after
each `cancel` stops the task once more. -/
inductive Purpose where
  | cancel
  | shutdownCancel (rest : List Nat)
  | shutdownStop (rest : List Nat)
  deriving DecidableEq, Repr

/-- Where a call of manager `m` stands. -/
inductive CallPc where
  | idle
  /-- `submit`: about to take the admission lock; counting, with the records left to look at and the
  active ones found; about to save; to spawn the worker; to register its handle. -/
  | admitting (m id : Nat) (info : TaskInfo)
  | listing (m id : Nat) (info : TaskInfo) (left : List Nat) (active : Nat)
  | admitted (m id : Nat) (info : TaskInfo)
  | spawning (id : Nat)
  | registering (id : Nat)
  /-- `cancel`: about to take the cancellation lock; to fetch the record; to take the handle; waiting
  for the worker and for its executions; about to fetch the record again, and to save it. -/
  | locking (m id : Nat) (purpose : Purpose)
  | fetching (m id : Nat) (purpose : Purpose)
  | stopping (m id : Nat) (purpose : Purpose)
  | joining (m id : Nat) (purpose : Purpose)
  | draining (m id : Nat) (purpose : Purpose)
  | refetching (m id : Nat) (purpose : Purpose)
  | saving (m id : Nat) (purpose : Purpose) (info : TaskInfo)
  /-- `cleanup`, or a sweep of the reaper: the terminal records found so far, and those to delete. -/
  | collecting (m : Nat) (reaper : Bool) (ids : List Nat)
  | deleting (m : Nat) (reaper : Bool) (ids : List Nat)

/-- Where a `cancel` leads to when it returns. -/
def Purpose.next (m id : Nat) : Purpose → CallPc
  | cancel => .idle
  | shutdownCancel rest => .locking m id (.shutdownStop rest)
  | shutdownStop [] => .idle
  | shutdownStop (id' :: rest) => .locking m id' (.shutdownCancel rest)

/-- What is known of a task from its submission on: its manager, the `submit` it is from, and the
retries its worker is given. -/
structure Accepted where
  manager : Nat
  call : Nat
  maxRetries : Nat
  deriving DecidableEq, Repr

/-- The store, and the managers that share it. `settled` is not in the program: the first terminal
status that was saved for a task. -/
structure State where
  store : Nat → Option TaskInfo
  settled : Nat → Option TaskStatus
  nextTask : Nat
  accepted : Nat → Accepted
  workers : Nat → WorkerPc
  aborted : Nat → Bool
  /-- The task's handle is in the map of its manager. -/
  handles : Nat → Bool
  admissionLock : Nat → Option Nat
  cancellationLock : Nat → Option Nat
  nextCall : Nat
  calls : Nat → CallPc

def init : State where
  store := fun _ => none
  settled := fun _ => none
  nextTask := 0
  accepted := fun _ => { manager := 0, call := 0, maxRetries := 0 }
  workers := fun _ => .absent
  aborted := fun _ => false
  handles := fun _ => false
  admissionLock := fun _ => none
  cancellationLock := fun _ => none
  nextCall := 0
  calls := fun _ => .idle

namespace State

/-- `store.save`. -/
def save (s : State) (id : Nat) (info : TaskInfo) : State :=
  { s with
    store := Function.update s.store id (some info)
    settled :=
      if info.status.isTerminal ∧ s.settled id = none then
        Function.update s.settled id (some info.status)
      else s.settled }

section Save

variable {s : State} {id id' : Nat} {info : TaskInfo}

@[simp] theorem store_save_self : (s.save id info).store id = some info :=
  Function.update_self ..

@[simp] theorem store_save_of_ne (h : id' ≠ id) : (s.save id info).store id' = s.store id' :=
  Function.update_of_ne h _ _

@[simp] theorem settled_save_of_ne (h : id' ≠ id) :
    (s.save id info).settled id' = s.settled id' := by
  rw [save]
  dsimp only
  split_ifs
  · exact Function.update_of_ne h _ _
  · rfl

theorem settled_save_of_none (h : s.settled id = none) :
    (s.save id info).settled id =
      if info.status.isTerminal then some info.status else none := by
  rw [save]
  by_cases hterminal : info.status.isTerminal = true <;> simp [h, hterminal]

/-- The first terminal status stays. -/
theorem settled_save_of_some {status : TaskStatus} (h : s.settled id' = some status) :
    (s.save id info).settled id' = some status := by
  rw [save]
  dsimp only
  split_ifs with hnone
  · have hne : id' ≠ id := by
      rintro rfl
      rw [hnone.2] at h
      cases h
    rwa [Function.update_of_ne hne]
  · exact h

end Save

def setWorker (s : State) (id : Nat) (pc : WorkerPc) : State :=
  { s with workers := Function.update s.workers id pc }

def setCall (s : State) (n : Nat) (pc : CallPc) : State :=
  { s with calls := Function.update s.calls n pc }

def setHandle (s : State) (id : Nat) (there : Bool) : State :=
  { s with handles := Function.update s.handles id there }

/-- A `submit` returns under the admission lock, or goes on without it. -/
def leaveAdmission (s : State) (n m : Nat) (pc : CallPc) : State :=
  { s.setCall n pc with admissionLock := Function.update s.admissionLock m none }

/-- A `cancel` returns. -/
def leaveCancel (s : State) (n m id : Nat) (purpose : Purpose) : State :=
  { s.setCall n (purpose.next m id) with
    cancellationLock := Function.update s.cancellationLock m none }

/-- The manager has a handle of the task to abort. -/
def hasHandle (s : State) (m id : Nat) : Bool :=
  s.handles id && (s.accepted id).manager == m

def isGone (s : State) (id : Nat) : Bool :=
  match s.workers id with
  | .gone => true
  | _ => false

/-- The worker of a task goes on. -/
def worker (s : State) (id : Nat) (ok : Bool) (now : ℚ) : Option State :=
  (workerStep (s.accepted id).maxRetries (s.store id) ok now (s.workers id)).map
    fun (saved, pc) =>
      let s' := match saved with
        | some info => s.save id info
        | none => s
      match pc with
      | .gone => (s'.setWorker id pc).setHandle id false
      | _ => s'.setWorker id pc

/-- A `submit` goes on. -/
def submitStep (maxTasks : Nat → Nat) (s : State) (n : Nat) (ok : Bool) : CallPc → Option State
  | .admitting m id info =>
    if s.admissionLock m = none then
      some
        { s.setCall n (.listing m id info (List.range s.nextTask) 0) with
          admissionLock := Function.update s.admissionLock m (some n) }
    else none
  | .listing m id info left active =>
    if !ok then some (s.leaveAdmission n m .idle)
    else if !left.isEmpty then none
    else if active ≥ maxTasks m then some (s.leaveAdmission n m .idle)
    else some (s.setCall n (.admitted m id info))
  | .admitted m id info =>
    if ok then some ((s.save id info).leaveAdmission n m (.spawning id))
    else some (s.leaveAdmission n m .idle)
  | .spawning id => some ((s.setWorker id .acquiring).setCall n (.registering id))
  | .registering id =>
    -- a worker that has already deregistered itself is not registered any more
    if s.isGone id then some (s.setCall n .idle)
    else some ((s.setHandle id true).setCall n .idle)
  | _ => none

/-- A `cancel` goes on, by itself or in a `shutdown`. -/
def cancelStep (s : State) (n : Nat) (ok : Bool) (now : ℚ) : CallPc → Option State
  | .locking m id purpose =>
    if s.cancellationLock m = none then
      let pc := match purpose with
        | .shutdownStop _ => .stopping m id purpose
        | _ => .fetching m id purpose
      some
        { s.setCall n pc with cancellationLock := Function.update s.cancellationLock m (some n) }
    else none
  | .fetching m id purpose =>
    if ok && (s.store id).any (·.status.isActive) then some (s.setCall n (.stopping m id purpose))
    else some (s.leaveCancel n m id purpose)
  | .stopping m id purpose =>
    if s.hasHandle m id then
      some
        { (s.setHandle id false).setCall n (.joining m id purpose) with
          aborted := Function.update s.aborted id true }
    else some (s.setCall n (.draining m id purpose))
  | .joining m id purpose =>
    if s.isGone id then some (s.setCall n (.draining m id purpose)) else none
  | .draining m id purpose =>
    match purpose with
    | .shutdownStop _ => some (s.leaveCancel n m id purpose)
    | _ => some (s.setCall n (.refetching m id purpose))
  | .refetching m id purpose =>
    match ok, s.store id with
    | true, some info =>
      if info.status.isActive then
        some (s.setCall n
          (.saving m id purpose { info with status := .cancelled, completedAt := some now }))
      else some (s.leaveCancel n m id purpose)
    | _, _ => some (s.leaveCancel n m id purpose)
  | .saving m id purpose info =>
    if ok then some ((s.save id info).leaveCancel n m id purpose)
    else some (s.leaveCancel n m id purpose)
  | _ => none

/-- A `cleanup` goes on, or a sweep of the reaper. -/
def cleanupStep (s : State) (n : Nat) (ok : Bool) : CallPc → Option State
  | .collecting m reaper ids =>
    if ok then some (s.setCall n (.deleting m reaper ids)) else some (s.setCall n .idle)
  | .deleting _ _ [] => some (s.setCall n .idle)
  | .deleting m reaper (id :: ids) =>
    if ok then
      let s' := { s with store := Function.update s.store id none }
      -- only `cleanup` drops the handle, with the record
      let s' := if !reaper && s.hasHandle m id then s'.setHandle id false else s'
      some (s'.setCall n (.deleting m reaper ids))
    else if reaper then some (s.setCall n (.deleting m reaper ids))
    else some (s.setCall n .idle)
  | _ => none

/-- A call goes on. -/
def call (maxTasks : Nat → Nat) (s : State) (n : Nat) (ok : Bool) (now : ℚ) : Option State :=
  (s.submitStep maxTasks n ok (s.calls n)).or
    ((s.cancelStep n ok now (s.calls n)).or (s.cleanupStep n ok (s.calls n)))

/-- The listing of `submit` comes to the record of `id`; the order is that of the store. -/
def read (s : State) (n id : Nat) : Option State :=
  match s.calls n with
  | .listing m task info left active =>
    if id ∈ left then
      let active := if (s.store id).any (·.status.isActive) then active + 1 else active
      some (s.setCall n (.listing m task info (left.erase id) active))
    else none
  | _ => none

/-- The listing of `cleanup` comes to the record of `id`, and finds it terminal and old enough. -/
def collect (s : State) (n id : Nat) : Option State :=
  match s.calls n with
  | .collecting m reaper ids =>
    if (s.store id).any (·.status.isTerminal) then
      some (s.setCall n (.collecting m reaper (ids ++ [id])))
    else none
  | _ => none

/-- The future of a call is dropped at one of its awaits: it gives back its lock, and a handle whose
worker is not gone. -/
def dropCall (s : State) (n : Nat) : Option State :=
  let unlock (s : State) (m : Nat) : State :=
    { s.setCall n .idle with cancellationLock := Function.update s.cancellationLock m none }
  match s.calls n with
  | .admitting _ _ _ => some (s.setCall n .idle)
  | .listing m _ _ _ _ => some (s.leaveAdmission n m .idle)
  | .admitted m _ _ => some (s.leaveAdmission n m .idle)
  | .locking _ _ _ => some (s.setCall n .idle)
  | .fetching m _ _ => some (unlock s m)
  | .joining m id _ => some (unlock (if s.isGone id then s else s.setHandle id true) m)
  | .draining m _ _ => some (unlock s m)
  | .refetching m _ _ => some (unlock s m)
  | .saving m _ _ _ => some (unlock s m)
  | .collecting _ _ _ => some (s.setCall n .idle)
  | .deleting _ _ _ => some (s.setCall n .idle)
  | _ => none

/-- A call begins, under a number of its own. -/
def begin (s : State) (pc : CallPc) : State :=
  { s.setCall s.nextCall pc with nextCall := s.nextCall + 1 }

end State

inductive Label where
  | submit (m : Nat) (moduleId : String) (maxRetries : Nat) (now : ℚ)
  | cancel (m id : Nat)
  /-- `shutdown`, with the ids it has collected. -/
  | shutdown (m : Nat) (ids : List Nat)
  | cleanup (m : Nat) (reaper : Bool)
  | call (n : Nat) (ok : Bool) (now : ℚ)
  | read (n id : Nat)
  | collect (n id : Nat)
  | dropCall (n : Nat)
  | worker (id : Nat) (ok : Bool) (now : ℚ)
  /-- `executor.call` returns. -/
  | callReturns (id : Nat) (outcome : Except String Json)
  /-- An abort reaches the worker. -/
  | dropWorker (id : Nat)

def step (maxTasks : Nat → Nat) (s : State) : Label → Option State
  | .submit m moduleId maxRetries now =>
    let info : TaskInfo :=
      { moduleId, status := .pending, submittedAt := now, startedAt := none, completedAt := none
        result := none, error := none, retryCount := 0, maxRetries }
    some
      { s.begin (.admitting m s.nextTask info) with
        nextTask := s.nextTask + 1
        accepted := Function.update s.accepted s.nextTask
          { manager := m, call := s.nextCall, maxRetries } }
  | .cancel m id => some (s.begin (.locking m id .cancel))
  | .shutdown m ids =>
    match ids with
    | [] => some s
    | id :: rest => some (s.begin (.locking m id (.shutdownCancel rest)))
  | .cleanup m reaper => some (s.begin (.collecting m reaper []))
  | .call n ok now => s.call maxTasks n ok now
  | .read n id => s.read n id
  | .collect n id => s.collect n id
  | .dropCall n => s.dropCall n
  | .worker id ok now => s.worker id ok now
  | .callReturns id outcome =>
    match s.workers id with
    | .calling => some (s.setWorker id (.refetching outcome))
    | _ => none
  | .dropWorker id =>
    match s.aborted id, s.workers id with
    | true, .absent => none
    | true, .gone => none
    | true, _ => some (s.setWorker id .gone)
    | false, _ => none

end Tasks

end Apcore
