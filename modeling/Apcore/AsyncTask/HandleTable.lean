import Mathlib.Logic.Function.Basic
import Apcore.Lib.Transition

/-! # `AsyncTask.HandleTable` — who has the handle of a worker

`submit` spawns a worker and puts its handle in a table, the worker takes it out when it is done, and a
cancel takes it out to abort the worker and wait for it. The worker may be done before its handle is in
the table, and a cancel may be dropped while it waits. What a party does under the lock of the table is
one step here, and so is a store to the `finished` flag, which no lock guards. -/

namespace Apcore

namespace HandleTable

open Transition

/-- How far the worker of a task has come. -/
inductive Worker where
  | absent
  /-- In `run_task`, or waiting for its executions to drain. -/
  | running
  /-- It has set `finished`, and then taken itself out of the table. Neither waits for anything, so no
  abort lands here. -/
  | finished
  | removed
  /-- Its join handle is finished: it ran to completion, or it was aborted or panicked. -/
  | ended (completed : Bool)
  deriving DecidableEq

namespace Worker

/-- The `finished` flag. -/
def flag : Worker → Bool
  | finished => true
  | removed => true
  | ended completed => completed
  | _ => false

/-- `join.is_finished()`. -/
def joinFinished : Worker → Bool
  | ended _ => true
  | _ => false

/-- It ran to completion, and has taken itself out of the table. -/
def past : Worker → Bool
  | removed => true
  | ended completed => completed
  | _ => false

theorem flag_of_past {w : Worker} (h : w.past = true) : w.flag = true := by
  cases w with
  | removed => rfl
  | ended completed => exact h
  | _ => cases h

end Worker

/-- `TaskHandle`, by the task whose worker `join` waits for and whose flag `finished` is. -/
structure TaskHandle where
  worker : Nat
  deriving DecidableEq

/-- `PendingJoin`, of a cancel that waits. -/
structure PendingJoin where
  taskId : Nat
  handle : Option TaskHandle
  deriving DecidableEq

structure State where
  workers : Nat → Worker
  /-- `abort()` has been called. -/
  aborted : Nat → Bool
  /-- `submit` has the handle of the worker it has spawned, and has not returned. -/
  registering : Nat → Bool
  handles : Nat → Option TaskHandle
  joins : Nat → Option PendingJoin

def init : State where
  workers := fun _ => .absent
  aborted := fun _ => false
  registering := fun _ => false
  handles := fun _ => none
  joins := fun _ => none

namespace State

def setWorker (s : State) (id : Nat) (w : Worker) : State :=
  { s with workers := Function.update s.workers id w }

def setHandle (s : State) (id : Nat) (handle : Option TaskHandle) : State :=
  { s with handles := Function.update s.handles id handle }

def leaveJoin (s : State) (n : Nat) : State :=
  { s with joins := Function.update s.joins n none }

/-- The worker is at work, and its `submit` has returned. -/
def live (s : State) (id : Nat) : Bool := s.workers id = .running && !s.registering id

/-- A cancel has the handle of the worker, and waits for it. -/
def Held (s : State) (id : Nat) : Prop := ∃ n, s.joins n = some ⟨id, some ⟨id⟩⟩

end State

inductive Label where
  /-- `submit` spawns the worker of a new task, and registers its handle. -/
  | spawn (id : Nat)
  | register (id : Nat)
  /-- The worker stores to `finished`, takes itself out of the table, and is over. -/
  | finish (id : Nat)
  | remove (id : Nat)
  | exit (id : Nat)
  /-- The worker is aborted at one of its awaits, or it panics. -/
  | unwind (id : Nat) (panics : Bool)
  /-- `stop_local_task`, as call `n`: it takes the handle, aborts the worker and waits; the wait is over;
  the future is dropped while it waits. -/
  | stop (n id : Nat)
  | joined (n : Nat)
  | dropJoin (n : Nat)
  /-- `cleanup` drops the handle along with the record. -/
  | cleanup (id : Nat)
  deriving DecidableEq

def step (s : State) : Label → Option State
  | .spawn id =>
    if s.workers id = .absent then
      some { s.setWorker id .running with registering := Function.update s.registering id true }
    else none
  | .register id =>
    if s.registering id then
      let s' := { s with registering := Function.update s.registering id false }
      -- already terminal: registering now would strand the entry
      if (s.workers id).flag then some s' else some (s'.setHandle id (some ⟨id⟩))
    else none
  | .finish id => if s.workers id = .running then some (s.setWorker id .finished) else none
  | .remove id =>
    if s.workers id = .finished then some ((s.setWorker id .removed).setHandle id none) else none
  | .exit id => if s.workers id = .removed then some (s.setWorker id (.ended true)) else none
  | .unwind id panics =>
    if s.workers id = .running ∧ (panics || s.aborted id) then some (s.setWorker id (.ended false))
    else none
  | .stop n id =>
    if s.joins n = none then
      some
        { s.setHandle id none with
          joins := Function.update s.joins n (some ⟨id, s.handles id⟩)
          aborted := (s.handles id).elim s.aborted fun handle =>
            Function.update s.aborted handle.worker true }
    else none
  | .joined n =>
    match s.joins n with
    | some ⟨_, none⟩ => some (s.leaveJoin n)
    | some ⟨_, some handle⟩ =>
      if (s.workers handle.worker).joinFinished then some (s.leaveJoin n) else none
    | none => none
  | .dropJoin n =>
    match s.joins n with
    | some ⟨_, none⟩ => some (s.leaveJoin n)
    | some ⟨id, some handle⟩ =>
      let w := s.workers handle.worker
      if !w.flag && !w.joinFinished then some ((s.leaveJoin n).setHandle id (some handle))
      else some (s.leaveJoin n)
    | none => none
  | .cleanup id => some (s.setHandle id none)

/-! ## What a step can do -/

/-- The steps, by what comes of them. -/
inductive Move (s : State) : Label → State → Prop
  | spawn {id : Nat} (hworker : s.workers id = .absent) :
    Move s (.spawn id)
      { s.setWorker id .running with registering := Function.update s.registering id true }
  /-- `submit` returns, and the worker has finished before its handle is registered. -/
  | returns {id : Nat} (hflag : (s.workers id).flag = true) :
    Move s (.register id) { s with registering := Function.update s.registering id false }
  | register {id : Nat} (hflag : (s.workers id).flag = false) :
    Move s (.register id)
      (State.setHandle { s with registering := Function.update s.registering id false } id (some ⟨id⟩))
  | finish {id : Nat} (hworker : s.workers id = .running) :
    Move s (.finish id) (s.setWorker id .finished)
  | remove {id : Nat} (hworker : s.workers id = .finished) :
    Move s (.remove id) ((s.setWorker id .removed).setHandle id none)
  | exit {id : Nat} (hworker : s.workers id = .removed) : Move s (.exit id) (s.setWorker id (.ended true))
  | unwind {id : Nat} {panics : Bool} (hworker : s.workers id = .running) :
    Move s (.unwind id panics) (s.setWorker id (.ended false))
  | stop {n id : Nat} (hfree : s.joins n = none) :
    Move s (.stop n id)
      { s.setHandle id none with
        joins := Function.update s.joins n (some ⟨id, s.handles id⟩)
        aborted := (s.handles id).elim s.aborted fun handle =>
          Function.update s.aborted handle.worker true }
  /-- A cancel goes on or is dropped, and waits for no worker that is at work. -/
  | leave {l : Label} {n : Nat} (hover : ∀ id handle, s.joins n = some ⟨id, some handle⟩ →
      s.workers handle.worker ≠ .running) : Move s l (s.leaveJoin n)
  /-- A cancel that is dropped puts the handle back. -/
  | putBack {n id : Nat} {handle : TaskHandle} (hjoin : s.joins n = some ⟨id, some handle⟩)
    (hflag : (s.workers handle.worker).flag = false) :
    Move s (.dropJoin n) ((s.leaveJoin n).setHandle id (some handle))
  | cleanup {id : Nat} : Move s (.cleanup id) (s.setHandle id none)

/-- A cancel that has no handle, or the handle of a worker that is not at work. -/
theorem over_of_joins {s : State} {n id : Nat} {handle : Option TaskHandle}
    (hjoin : s.joins n = some ⟨id, handle⟩)
    (hover : ∀ handle', handle = some handle' → s.workers handle'.worker ≠ .running) (id' : Nat)
    (handle' : TaskHandle) (h : s.joins n = some ⟨id', some handle'⟩) :
    s.workers handle'.worker ≠ .running :=
  hover handle' (PendingJoin.mk.inj (Option.some.inj (hjoin.symm.trans h))).2

theorem move_of_step {s s' : State} {l : Label} (hstep : step s l = some s') : Move s l s' := by
  cases l with
  | spawn id =>
    simp only [step, Option.ite_none_right_eq_some, Option.some.injEq] at hstep
    obtain ⟨hworker, rfl⟩ := hstep
    exact .spawn hworker
  | register id =>
    simp only [step] at hstep
    split_ifs at hstep with hregistering hflag
    · obtain rfl := Option.some.inj hstep
      exact .returns hflag
    · obtain rfl := Option.some.inj hstep
      exact .register (Bool.not_eq_true _ ▸ hflag)
  | finish id =>
    simp only [step, Option.ite_none_right_eq_some, Option.some.injEq] at hstep
    obtain ⟨hworker, rfl⟩ := hstep
    exact .finish hworker
  | remove id =>
    simp only [step, Option.ite_none_right_eq_some, Option.some.injEq] at hstep
    obtain ⟨hworker, rfl⟩ := hstep
    exact .remove hworker
  | exit id =>
    simp only [step, Option.ite_none_right_eq_some, Option.some.injEq] at hstep
    obtain ⟨hworker, rfl⟩ := hstep
    exact .exit hworker
  | unwind id panics =>
    simp only [step, Option.ite_none_right_eq_some, Option.some.injEq] at hstep
    obtain ⟨⟨hworker, -⟩, rfl⟩ := hstep
    exact .unwind hworker
  | stop n id =>
    simp only [step, Option.ite_none_right_eq_some, Option.some.injEq] at hstep
    obtain ⟨hfree, rfl⟩ := hstep
    exact .stop hfree
  | joined n =>
    simp only [step] at hstep
    split at hstep
    · next id hjoin =>
      obtain rfl := Option.some.inj hstep
      exact .leave (over_of_joins hjoin fun handle h => absurd h.symm (Option.some_ne_none handle))
    · next id handle hjoin =>
      split_ifs at hstep with hfinished
      obtain rfl := Option.some.inj hstep
      refine .leave (over_of_joins hjoin fun handle' h hrunning => ?_)
      cases h
      rw [hrunning] at hfinished
      cases hfinished
    · cases hstep
  | dropJoin n =>
    simp only [step] at hstep
    split at hstep
    · next id hjoin =>
      obtain rfl := Option.some.inj hstep
      exact .leave (over_of_joins hjoin fun handle h => absurd h.symm (Option.some_ne_none handle))
    · next id handle hjoin =>
      split_ifs at hstep with hunfinished
      · obtain rfl := Option.some.inj hstep
        exact .putBack hjoin ((Bool.not_eq_true' _).mp (Bool.and_eq_true_iff.mp hunfinished).1)
      · obtain rfl := Option.some.inj hstep
        refine .leave (over_of_joins hjoin fun handle' h hrunning => hunfinished ?_)
        cases h
        rw [hrunning]
        rfl
    · cases hstep
  | cleanup id =>
    obtain rfl := Option.some.inj hstep
    exact .cleanup

/-! ## What holds in every state -/

/-- Every handle is the one of its task, a cancel that waits has aborted the worker, and no worker that
is past its removal has a handle in the table. -/
structure Inv (s : State) : Prop where
  own : ∀ id handle, s.handles id = some handle → handle.worker = id
  waits : ∀ n id handle, s.joins n = some ⟨id, some handle⟩ →
    handle.worker = id ∧ s.aborted id = true
  past : ∀ id, (s.workers id).past = true → s.handles id = none

theorem inv_init : Inv init where
  own := fun _ _ h => (by cases h)
  waits := fun _ _ _ h => (by cases h)
  past := fun _ _ => rfl

/-- A join that is left is gone, and the others stay. -/
theorem joins_leaveJoin {s : State} {n n' : Nat} {join : PendingJoin}
    (h : Function.update s.joins n none n' = some join) : s.joins n' = some join := by
  by_cases hn : n' = n
  · rw [hn, Function.update_self] at h
    cases h
  · rwa [Function.update_of_ne hn] at h

/-- An abort is not taken back. -/
theorem aborted_stays {aborted : Nat → Bool} {handle : Option TaskHandle} {id : Nat}
    (h : aborted id = true) :
    (handle.elim aborted fun handle => Function.update aborted handle.worker true) id = true := by
  cases handle with
  | none => exact h
  | some handle =>
    rw [Option.elim_some]
    by_cases hid : id = handle.worker
    · rw [hid, Function.update_self]
    · rwa [Function.update_of_ne hid]

namespace Inv

variable {s s' : State} {id : Nat}

/-- A worker goes on to where it may still have its handle in the table, or where it has none. -/
theorem setWorker (h : Inv s) {w : Worker} (hw : w.past = true → s.handles id = none) :
    Inv (s.setWorker id w) where
  own := h.own
  waits := h.waits
  past := (Function.forall_update_iff s.workers fun id w => w.past = true → s.handles id = none).mpr
    ⟨hw, fun id _ => h.past id⟩

/-- A handle is put in the table, or taken out of it. -/
theorem setHandle (h : Inv s) {handle : Option TaskHandle}
    (hown : ∀ handle', handle = some handle' → handle'.worker = id)
    (hpast : (s.workers id).past = true → handle = none) : Inv (s.setHandle id handle) where
  own := (Function.forall_update_iff s.handles fun id (handle : Option TaskHandle) =>
    ∀ handle', handle = some handle' → handle'.worker = id).mpr ⟨hown, fun id _ => h.own id⟩
  waits := h.waits
  past := (Function.forall_update_iff s.handles fun id handle =>
    (s.workers id).past = true → handle = none).mpr ⟨hpast, fun id _ => h.past id⟩

theorem takeOut (h : Inv s) (id : Nat) : Inv (s.setHandle id none) :=
  h.setHandle nofun fun _ => rfl

theorem leaveJoin (h : Inv s) (n : Nat) : Inv (s.leaveJoin n) where
  own := h.own
  waits := fun _ _ _ hjoin => h.waits _ _ _ (joins_leaveJoin hjoin)
  past := h.past

end Inv

theorem inv_step {s s' : State} {l : Label} (h : Inv s) (hstep : step s l = some s') : Inv s' := by
  cases move_of_step hstep with
  | @spawn id hworker =>
    have hw : Inv (s.setWorker id .running) := h.setWorker nofun
    exact ⟨hw.own, hw.waits, hw.past⟩
  | returns hflag => exact ⟨h.own, h.waits, h.past⟩
  | @register id hflag =>
    have hreturned : Inv { s with registering := Function.update s.registering id false } :=
      ⟨h.own, h.waits, h.past⟩
    refine hreturned.setHandle ?_ fun hpast => ?_
    · intro handle hhandle
      cases hhandle
      rfl
    · exact absurd (hflag.symm.trans (Worker.flag_of_past hpast)) Bool.false_ne_true
  | finish hworker => exact h.setWorker nofun
  | @remove id hworker => exact (h.takeOut id).setWorker fun _ => Function.update_self ..
  | exit hworker => exact h.setWorker fun _ => h.past _ (by rw [hworker]; rfl)
  | unwind hworker => exact h.setWorker nofun
  | @stop n id hfree =>
    have hout := h.takeOut id
    refine ⟨hout.own, ?_, hout.past⟩
    refine (Function.forall_update_iff s.joins fun _ (join : Option PendingJoin) =>
      ∀ id' handle, join = some ⟨id', some handle⟩ → handle.worker = id' ∧
        ((s.handles id).elim s.aborted fun handle =>
          Function.update s.aborted handle.worker true) id' = true).mpr
      ⟨?_, fun n _ id' handle hjoin => ⟨(h.waits n id' handle hjoin).1, ?_⟩⟩
    · intro id' handle hjoin
      obtain ⟨rfl, hhandle⟩ := PendingJoin.mk.inj (Option.some.inj hjoin)
      refine ⟨h.own id handle hhandle, ?_⟩
      rw [hhandle, Option.elim_some, h.own id handle hhandle, Function.update_self]
    · exact aborted_stays (h.waits n id' handle hjoin).2
  | leave hover => exact h.leaveJoin _
  | @putBack n id handle hjoin hflag =>
    have hworker := (h.waits n id handle hjoin).1
    refine (h.leaveJoin n).setHandle ?_ fun hpast => ?_
    · intro handle' hhandle
      cases hhandle
      exact hworker
    · -- a worker that is past its removal has set its flag
      rw [hworker] at hflag
      exact absurd (hflag.symm.trans (Worker.flag_of_past hpast)) Bool.false_ne_true
  | @cleanup id => exact h.takeOut id

/-! ## Reaching a worker -/

/-- A cancel reaches the worker through the table, or has its handle. -/
def Reaches (s : State) (id : Nat) : Prop :=
  s.live id = true → s.handles id = some ⟨id⟩ ∨ s.Held id

section Live

variable {s : State} {id id' : Nat} {w : Worker}

theorem live_iff : s.live id = true ↔ s.workers id = .running ∧ s.registering id = false := by
  simp [State.live]

/-- A worker that is not running any more is not live. -/
theorem live_setWorker (hw : w ≠ .running) (h : (s.setWorker id' w).live id = true) :
    s.live id = true := by
  obtain ⟨hworker, hregistering⟩ := live_iff.mp h
  by_cases hid : id = id'
  · subst hid
    exact absurd ((Function.update_self ..).symm.trans hworker) hw
  · exact live_iff.mpr ⟨(Function.update_of_ne hid ..).symm.trans hworker, hregistering⟩

end Live

namespace Reaches

variable {s s' : State} {id id' n : Nat}

/-- Nothing is done to the handle of a worker. -/
theorem same (h : Reaches s id) (hlive : s'.live id = true → s.live id = true)
    (hhandles : s'.handles id = s.handles id) (hjoins : s'.joins = s.joins) : Reaches s' id := by
  intro hs'
  rcases h (hlive hs') with hthere | ⟨n, hheld⟩
  · exact .inl (hhandles.trans hthere)
  · exact .inr ⟨n, (congrFun hjoins n).trans hheld⟩

/-- A call leaves, and has not the handle of a live worker, or puts it back. -/
theorem leaveJoin (h : Reaches s id) (hworkers : s'.workers = s.workers)
    (hregistering : s'.registering = s.registering) (hjoins : s'.joins = (s.leaveJoin n).joins)
    (hhandles : s'.handles id = s.handles id ∨ s'.handles id = some ⟨id⟩)
    (hback : s.live id = true → s.joins n = some ⟨id, some ⟨id⟩⟩ → s'.handles id = some ⟨id⟩) :
    Reaches s' id := by
  intro hs'
  have hlive : s.live id = true := by rwa [State.live, hworkers, hregistering] at hs'
  rcases hhandles with hsame | hthere
  · rcases h hlive with hthere | ⟨n', hheld⟩
    · exact .inl (hsame.trans hthere)
    · by_cases hn : n' = n
      · exact .inl (hback hlive (hn ▸ hheld))
      · exact .inr ⟨n', (congrFun hjoins n').trans ((Function.update_of_ne hn ..).trans hheld)⟩
  · exact .inl hthere

end Reaches

theorem reaches_step {s s' : State} {l : Label} {id : Nat} (hinv : Inv s) (h : Reaches s id)
    (hl : l ≠ .cleanup id) (hstep : step s l = some s') : Reaches s' id := by
  cases move_of_step hstep with
  | @spawn id' hworker =>
    refine h.same (fun hlive => ?_) rfl rfl
    obtain ⟨hrunning, hregistering⟩ := live_iff.mp hlive
    by_cases hid : id = id'
    · subst hid
      exact absurd ((Function.update_self ..).symm.trans hregistering) (by decide)
    · exact live_iff.mpr ⟨(Function.update_of_ne hid ..).symm.trans hrunning,
        (Function.update_of_ne hid ..).symm.trans hregistering⟩
  | @returns id' hflag =>
    refine h.same (fun hlive => ?_) rfl rfl
    obtain ⟨hrunning, hreturned⟩ := live_iff.mp hlive
    have hid : id ≠ id' := by
      -- the worker of the task that returns is past its flag
      rintro rfl
      have hrunning : s.workers id = .running := hrunning
      rw [hrunning] at hflag
      cases hflag
    exact live_iff.mpr ⟨hrunning, (Function.update_of_ne hid ..).symm.trans hreturned⟩
  | @register id' hflag =>
    by_cases hid : id = id'
    · subst hid
      exact fun _ => .inl (Function.update_self ..)
    · refine h.same (fun hlive => ?_) (Function.update_of_ne hid ..) rfl
      obtain ⟨hrunning, hreturned⟩ := live_iff.mp hlive
      exact live_iff.mpr ⟨hrunning, (Function.update_of_ne hid ..).symm.trans hreturned⟩
  | finish hworker => exact h.same (live_setWorker nofun) rfl rfl
  | @remove id' hworker =>
    intro hlive
    have hid : id ≠ id' := by
      rintro rfl
      have hrunning := (live_iff.mp hlive).1
      exact absurd ((Function.update_self ..).symm.trans hrunning) (by decide)
    exact h.same (live_setWorker nofun) (Function.update_of_ne hid ..) rfl hlive
  | exit hworker => exact h.same (live_setWorker nofun) rfl rfl
  | unwind hworker => exact h.same (live_setWorker nofun) rfl rfl
  | @stop n id' hfree =>
    intro hlive
    rcases h hlive with hthere | ⟨n', hheld⟩
    · by_cases hid : id = id'
      · -- from the table into the hands of the cancel
        subst hid
        exact .inr ⟨n, (Function.update_self ..).trans (by rw [hthere])⟩
      · exact .inl ((Function.update_of_ne hid ..).trans hthere)
    · have hn : n' ≠ n := by
        rintro rfl
        exact absurd (hheld.symm.trans hfree) (Option.some_ne_none _)
      exact .inr ⟨n', (Function.update_of_ne hn ..).trans hheld⟩
  | leave hover =>
    -- a live worker is waited for
    exact h.leaveJoin rfl rfl rfl (.inl rfl) fun hlive hheld =>
      absurd (live_iff.mp hlive).1 (hover id ⟨id⟩ hheld)
  | @putBack n id' handle hjoin hflag =>
    have hworker := (hinv.waits n id' handle hjoin).1
    have hback : id = id' → Function.update s.handles id' (some handle) id = some ⟨id⟩ := by
      rintro rfl
      rw [Function.update_self, ← hworker]
    refine h.leaveJoin rfl rfl rfl ?_ fun _ hheld => ?_
    · by_cases hid : id = id'
      · exact .inr (hback hid)
      · exact .inl (Function.update_of_ne hid ..)
    · exact hback (PendingJoin.mk.inj (Option.some.inj (hjoin.symm.trans hheld))).1.symm
  | @cleanup id' =>
    have hid : id ≠ id' := fun hid => hl (by rw [hid])
    exact h.same (fun hlive => hlive) (Function.update_of_ne hid ..) rfl

/-! ## The protocol -/

/-- A worker that is past its removal stays so. -/
theorem past_step {s s' : State} {l : Label} {id : Nat} (h : (s.workers id).past = true)
    (hstep : step s l = some s') : (s'.workers id).past = true := by
  have hmoves {id' : Nat} {w : Worker} (hw : s.workers id' = .removed → w.past = true)
      (hold : s.workers id' = .removed ∨ (s.workers id').past = false) :
      (Function.update s.workers id' w id).past = true := by
    by_cases hid : id = id'
    · subst hid
      rw [Function.update_self]
      rcases hold with hremoved | hnot
      · exact hw hremoved
      · exact absurd (hnot.symm.trans h) Bool.false_ne_true
    · rwa [Function.update_of_ne hid]
  cases move_of_step hstep with
  | spawn hworker =>
    exact hmoves (fun hremoved => absurd (hworker.symm.trans hremoved) (by decide))
      (.inr (by rw [hworker]; rfl))
  | finish hworker =>
    exact hmoves (fun hremoved => absurd (hworker.symm.trans hremoved) (by decide))
      (.inr (by rw [hworker]; rfl))
  | remove hworker => exact hmoves (fun _ => rfl) (.inr (by rw [hworker]; rfl))
  | exit hworker => exact hmoves (fun _ => rfl) (.inl hworker)
  | unwind hworker =>
    exact hmoves (fun hremoved => absurd (hworker.symm.trans hremoved) (by decide))
      (.inr (by rw [hworker]; rfl))
  | returns => exact h
  | register => exact h
  | stop => exact h
  | leave => exact h
  | putBack => exact h
  | cleanup => exact h

/-- What the table promises in a state that a run comes to. -/
structure Protocol (ls : List Label) (s : State) : Prop where
  /-- A worker that has taken itself out of the table is not there again. -/
  removed : ∀ id, (s.workers id).past = true →
    ∀ ls' s', exec step s ls' = some s' → s'.handles id = none
  /-- A live worker is in the table, or a cancel waits for it. -/
  live : ∀ id, s.live id = true → .cleanup id ∉ ls → s.handles id = some ⟨id⟩ ∨ s.Held id
  /-- A cancel takes a worker from the table, and aborts it. -/
  reached : ∀ n id, s.handles id = some ⟨id⟩ → s.joins n = none →
    ∃ s', step s (.stop n id) = some s' ∧ s'.aborted id = true ∧ s'.joins n = some ⟨id, some ⟨id⟩⟩
  /-- A cancel that has the handle of a live worker has aborted it, does not go on before the worker is
  over, and puts the handle back when it is dropped. -/
  waits : ∀ n id, s.live id = true → s.joins n = some ⟨id, some ⟨id⟩⟩ →
    s.aborted id = true ∧ step s (.joined n) = none ∧
      ∃ s', step s (.dropJoin n) = some s' ∧ s'.handles id = some ⟨id⟩

/-- **The protocol of the handle table, in every interleaving.** -/
theorem handle_protocol (ls : List Label) (s : State) (hrun : exec step init ls = some s) :
    Protocol ls s where
  removed := by
    intro id hpast ls' s' hrest
    have hinv' := exec_invariant (fun _ _ _ => inv_step) inv_init (exec_append hrun hrest)
    exact hinv'.past id (exec_invariant (fun _ _ _ => past_step) hpast hrest)
  live := by
    intro id hlive hcleanup
    have hinit : Inv init ∧ Reaches init id := ⟨inv_init, nofun⟩
    have hok : Along step (fun _ l => l ≠ .cleanup id) init ls :=
      along_of_forall (fun _ l hl => ne_of_mem_of_not_mem hl hcleanup) init
    have hreaches : Inv s ∧ Reaches s id := by
      refine exec_invariant_along (I := fun s => Inv s ∧ Reaches s id) (fun s l s' h hl hstep => ?_)
        hinit hok hrun
      exact ⟨inv_step h.1 hstep, reaches_step h.1 h.2 hl hstep⟩
    exact hreaches.2 hlive
  reached := by
    intro n id hthere hfree
    refine ⟨_, if_pos hfree, ?_, ?_⟩
    · simp only [hthere, Option.elim_some, Function.update_self]
    · simp only [hthere, Function.update_self]
  waits := by
    intro n id hlive hheld
    have hinv := exec_invariant (fun _ _ _ => inv_step) inv_init hrun
    have hworker := (live_iff.mp hlive).1
    refine ⟨(hinv.waits n id ⟨id⟩ hheld).2, ?_, ?_⟩
    · simp only [step, hheld, hworker]
      rfl
    · refine ⟨((s.leaveJoin n).setHandle id (some ⟨id⟩)), ?_, Function.update_self ..⟩
      simp only [step, hheld, hworker]
      rfl

/-- A cancel that is dropped while the worker is on its way to a place where it can be aborted, and the
worker finishes first. -/
def droppedCancel : List Label :=
  [.spawn 0, .register 0, .stop 0 0, .finish 0, .dropJoin 0, .remove 0, .exit 0]

theorem handle_protocol_droppedCancel : ∃ s, Protocol droppedCancel s :=
  ⟨_, handle_protocol droppedCancel _ rfl⟩

/-- While a cancel waits for a worker, the worker is not in the table. -/
theorem not_entry_while_live :
    ¬ ∀ (ls : List Label) (s : State), exec step init ls = some s →
      ∀ id, s.live id = true → .cleanup id ∉ ls → s.handles id ≠ none := by
  intro h
  exact h [.spawn 0, .register 0, .stop 0 0] _ rfl 0 rfl (by decide) rfl

end HandleTable

end Apcore
