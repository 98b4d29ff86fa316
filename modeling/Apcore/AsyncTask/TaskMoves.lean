import Apcore.AsyncTask.Tasks

/-! # `AsyncTask.TaskMoves` — what a step does to the records of the store

Few steps write a record: a `submit` that is admitted, a worker, a `cancel`, and a `cleanup`. All the
others move one party, and leave the store and the other parties as they are. -/

namespace Apcore

namespace Tasks

namespace CallPc

/-- The task a `submit` has not saved yet: its manager, its id and its record. -/
def unsaved : CallPc → Option (Nat × Nat × TaskInfo)
  | admitting m id info => some (m, id, info)
  | listing m id info _ _ => some (m, id, info)
  | admitted m id info => some (m, id, info)
  | _ => none

/-- The task a `submit` has not spawned the worker of yet. -/
def launches : CallPc → Option Nat
  | admitting _ id _ => some id
  | listing _ id _ _ _ => some id
  | admitted _ id _ => some id
  | spawning id => some id
  | _ => none

/-- The manager whose admission lock a `submit` has. -/
def admits : CallPc → Option Nat
  | listing m _ _ _ _ => some m
  | admitted m _ _ => some m
  | _ => none

/-- The task a `cancel` is about to save as cancelled, and its record. -/
def cancels : CallPc → Option (Nat × TaskInfo)
  | saving _ id _ info => some (id, info)
  | _ => none

/-- The tasks whose records a `cleanup` has found terminal. -/
def marked : CallPc → List Nat
  | collecting _ _ ids => ids
  | deleting _ _ ids => ids
  | _ => []

theorem launches_of_unsaved {pc : CallPc} {m id : Nat} {info : TaskInfo}
    (h : pc.unsaved = some (m, id, info)) : pc.launches = some id := by
  cases pc <;> cases h <;> rfl

end CallPc

/-- A record is there, and active. -/
def State.active (s : State) (id : Nat) : Bool := (s.store id).any (·.status.isActive)

/-- A record is there, and terminal. -/
def State.terminal (s : State) (id : Nat) : Bool := (s.store id).any (·.status.isTerminal)

/-- What a call that writes nothing may have come to. -/
structure QuietCall (maxTasks : Nat → Nat) (s s' : State) (n : Nat) (pc : CallPc) : Prop where
  calls : s'.calls = Function.update s.calls n pc
  unsaved : ∀ x, pc.unsaved = some x → (s.calls n).unsaved = some x
  launches : ∀ id, pc.launches = some id → (s.calls n).launches = some id
  cancels : ∀ id info, pc.cancels = some (id, info) →
    s.active id = true ∧ info.status = .cancelled
  marked : ∀ id ∈ pc.marked, id ∈ (s.calls n).marked ∨ s.terminal id = true
  lock : ∀ m, s'.admissionLock m = s.admissionLock m ∨ (s.calls n).admits = some m ∨
    s.admissionLock m = none ∧ s'.admissionLock m = some n
  admits : ∀ m, pc.admits = some m →
    s'.admissionLock m = some n ∨ (s.calls n).admits = some m ∧ s'.admissionLock = s.admissionLock
  listing : ∀ m id info left active, pc = .listing m id info left active →
    left = List.range s.nextTask ∨
      ∃ j left₀ active₀, s.calls n = .listing m id info left₀ active₀ ∧ left = left₀.erase j ∧
        active = if s.active j then active₀ + 1 else active₀
  admitted : ∀ m id info, pc = .admitted m id info →
    ∃ active, s.calls n = .listing m id info [] active ∧ active < maxTasks m

inductive Move (maxTasks : Nat → Nat) (s : State) : Label → State → Prop where
  /-- `submit` begins. -/
  | submit {s' : State} {l : Label} {m : Nat} {info : TaskInfo} (x : Accepted) (hstore : s'.store = s.store)
    (hcall : x.call = s.nextCall) (hpending : info.status = .pending) (hmanager : x.manager = m)
    (hsettled : s'.settled = s.settled) (hworkers : s'.workers = s.workers)
    (hnext : s'.nextTask = s.nextTask + 1) (hnextCall : s'.nextCall = s.nextCall + 1)
    (haccepted : s'.accepted = Function.update s.accepted s.nextTask x)
    (hlock : s'.admissionLock = s.admissionLock)
    (hcalls : s'.calls = Function.update s.calls s.nextCall (.admitting m s.nextTask info)) :
    Move maxTasks s l s'
  /-- A call goes on, or another one begins. -/
  | quiet {s' : State} {l : Label} {n : Nat} {pc : CallPc} (hstore : s'.store = s.store)
    (hsettled : s'.settled = s.settled) (hworkers : s'.workers = s.workers)
    (hnext : s'.nextTask = s.nextTask) (haccepted : s'.accepted = s.accepted)
    (hnextCall : s.nextCall ≤ s'.nextCall) (hn : pc = .idle ∨ n < s'.nextCall ∨ s.calls n ≠ .idle)
    (hquiet : QuietCall maxTasks s s' n pc) : Move maxTasks s l s'
  /-- `submit` saves its record. -/
  | saved {l : Label} {n m id : Nat} {info : TaskInfo} (hpc : s.calls n = .admitted m id info) :
    Move maxTasks s l ((s.save id info).leaveAdmission n m (.spawning id))
  /-- `submit` spawns its worker. -/
  | spawn {l : Label} {n id : Nat} (hpc : s.calls n = .spawning id) :
    Move maxTasks s l ((s.setWorker id .acquiring).setCall n (.registering id))
  /-- `cancel` saves its record. -/
  | cancel {n m id : Nat} {purpose : Purpose} {info : TaskInfo} {now : ℚ}
    (hpc : s.calls n = .saving m id purpose info) :
    Move maxTasks s (.call n true now) ((s.save id info).leaveCancel n m id purpose)
  /-- `cleanup` deletes a record. -/
  | delete {s' : State} {l : Label} {n m : Nat} {reaper : Bool} {id : Nat} {ids : List Nat}
    (hpc : s.calls n = .deleting m reaper (id :: ids))
    (hstore : s'.store = Function.update s.store id none)
    (hsettled : s'.settled = s.settled) (hworkers : s'.workers = s.workers)
    (hnext : s'.nextTask = s.nextTask) (hnextCall : s'.nextCall = s.nextCall)
    (haccepted : s'.accepted = s.accepted) (hlock : s'.admissionLock = s.admissionLock)
    (hcalls : s'.calls = Function.update s.calls n (.deleting m reaper ids)) : Move maxTasks s l s'
  /-- A worker goes on. -/
  | worker {s' : State} {id : Nat} {ok : Bool} {now : ℚ} {saved : Option TaskInfo} {pc : WorkerPc}
    (hpc : workerStep (s.accepted id).maxRetries (s.store id) ok now (s.workers id) = some (saved, pc))
    (hstore : s'.store = (saved.elim s (s.save id)).store)
    (hsettled : s'.settled = (saved.elim s (s.save id)).settled)
    (hworkers : s'.workers = Function.update s.workers id pc)
    (hnext : s'.nextTask = s.nextTask) (hnextCall : s'.nextCall = s.nextCall)
    (haccepted : s'.accepted = s.accepted) (hlock : s'.admissionLock = s.admissionLock)
    (hcalls : s'.calls = s.calls) : Move maxTasks s (.worker id ok now) s'
  /-- The call of a worker returns, or its abort lands. -/
  | moved {l : Label} {id : Nat} {pc : WorkerPc} (hpc : (∃ outcome, pc = .refetching outcome) ∨ pc = .gone)
    (hold : s.workers id ≠ .absent) (hreturned : (∃ outcome, pc = .refetching outcome) →
      s.workers id = .calling) : Move maxTasks s l (s.setWorker id pc)
  /-- A `shutdown` that has nothing to do. -/
  | none {l : Label} : Move maxTasks s l s

/-- A call that is in no part of a `submit` before its worker, about to save nothing, and has marked
nothing. -/
structure CallPc.Plain (pc : CallPc) : Prop where
  launches : pc.launches = none
  cancels : pc.cancels = none
  marked : pc.marked = []

theorem CallPc.admits_eq_none {pc : CallPc} (h : pc.launches = none) : pc.admits = none := by
  cases pc <;> first | rfl | cases h

/-- A call that is in no part of a `submit` before its worker. -/
theorem QuietCall.later {maxTasks : Nat → Nat} {s s' : State} {n : Nat} {pc : CallPc}
    (hcalls : s'.calls = Function.update s.calls n pc) (hlaunches : pc.launches = none)
    (hcancels : ∀ id info, pc.cancels = some (id, info) →
      s.active id = true ∧ info.status = .cancelled)
    (hmarked : ∀ id ∈ pc.marked, id ∈ (s.calls n).marked ∨ s.terminal id = true)
    (hlock : ∀ m, s'.admissionLock m = s.admissionLock m ∨ (s.calls n).admits = some m) :
    QuietCall maxTasks s s' n pc where
  calls := hcalls
  unsaved := fun (m, id, info) hid => by
    rw [CallPc.launches_of_unsaved hid] at hlaunches
    cases hlaunches
  launches := fun id hid => by
    rw [hlaunches] at hid
    cases hid
  cancels := hcancels
  marked := hmarked
  lock := fun m => (hlock m).imp_right .inl
  admits := fun m hm => by
    rw [CallPc.admits_eq_none hlaunches] at hm
    cases hm
  listing := fun m id info left active hpc => by
    subst hpc
    cases hlaunches
  admitted := fun m id info hpc => by
    subst hpc
    cases hlaunches

theorem QuietCall.plain {maxTasks : Nat → Nat} {s s' : State} {n : Nat} {pc : CallPc}
    (hcalls : s'.calls = Function.update s.calls n pc) (hplain : pc.Plain)
    (hlock : ∀ m, s'.admissionLock m = s.admissionLock m ∨ (s.calls n).admits = some m) :
    QuietCall maxTasks s s' n pc := by
  refine .later hcalls hplain.launches ?_ ?_ hlock
  · intro id info hid
    rw [hplain.cancels] at hid
    cases hid
  · intro id hid
    rw [hplain.marked] at hid
    cases hid

/-- A call that marks records. -/
theorem QuietCall.marks {maxTasks : Nat → Nat} {s s' : State} {n : Nat} {pc : CallPc}
    (hcalls : s'.calls = Function.update s.calls n pc) (hlaunches : pc.launches = none)
    (hcancels : pc.cancels = none)
    (hmarked : ∀ id ∈ pc.marked, id ∈ (s.calls n).marked ∨ s.terminal id = true)
    (hlock : s'.admissionLock = s.admissionLock) : QuietCall maxTasks s s' n pc := by
  refine .later hcalls hlaunches ?_ hmarked fun m => .inl (congrFun hlock m)
  intro id info hid
  rw [hcancels] at hid
  cases hid

/-- A `submit` before its worker. -/
theorem QuietCall.submits {maxTasks : Nat → Nat} {s s' : State} {n m : Nat} {pc : CallPc}
    (hcalls : s'.calls = Function.update s.calls n pc) (hunsaved : pc.unsaved = (s.calls n).unsaved)
    (hlaunches : pc.launches = (s.calls n).launches) (hcancels : pc.cancels = none)
    (hmarked : pc.marked = []) (hadmits : pc.admits = some m)
    (hlock : (s.calls n).admits = some m ∧ s'.admissionLock = s.admissionLock ∨
      s.admissionLock m = none ∧ s'.admissionLock = Function.update s.admissionLock m (some n))
    (hlisting : ∀ m id info left active, pc = .listing m id info left active →
      left = List.range s.nextTask ∨
        ∃ j left₀ active₀, s.calls n = .listing m id info left₀ active₀ ∧ left = left₀.erase j ∧
          active = if s.active j then active₀ + 1 else active₀)
    (hadmitted : ∀ m id info, pc = .admitted m id info →
      ∃ active, s.calls n = .listing m id info [] active ∧ active < maxTasks m) :
    QuietCall maxTasks s s' n pc where
  calls := hcalls
  unsaved := fun id hid => hunsaved ▸ hid
  launches := fun id hid => hlaunches ▸ hid
  cancels := fun id info hid => by
    rw [hcancels] at hid
    cases hid
  marked := fun id hid => by
    rw [hmarked] at hid
    cases hid
  lock := fun m' => by
    rcases hlock with ⟨-, hsame⟩ | ⟨hfree, hnew⟩
    · exact .inl (congrFun hsame m')
    · by_cases hm : m' = m
      · subst hm
        exact .inr (.inr ⟨hfree, hnew ▸ Function.update_self ..⟩)
      · exact .inl (hnew ▸ Function.update_of_ne hm _ _)
  admits := fun m' hm => by
    obtain rfl : m = m' := Option.some.inj (hadmits.symm.trans hm)
    rcases hlock with hsame | ⟨-, hnew⟩
    · exact .inr hsame
    · exact .inl (hnew ▸ Function.update_self ..)
  listing := hlisting
  admitted := hadmitted

theorem plain_next (m id : Nat) (purpose : Purpose) : (purpose.next m id).Plain := by
  cases purpose with
  | cancel => exact ⟨rfl, rfl, rfl⟩
  | shutdownCancel rest => exact ⟨rfl, rfl, rfl⟩
  | shutdownStop rest => cases rest <;> exact ⟨rfl, rfl, rfl⟩

section Quiet

variable {maxTasks : Nat → Nat} {s : State} {l : Label} {n : Nat}

/-- A call goes on to where it is plain, without a lock of admission. -/
theorem Move.plain {s' : State} {pc : CallPc} (hstore : s'.store = s.store)
    (hsettled : s'.settled = s.settled) (hworkers : s'.workers = s.workers)
    (hnext : s'.nextTask = s.nextTask) (haccepted : s'.accepted = s.accepted)
    (hnextCall : s'.nextCall = s.nextCall) (hcalls : s'.calls = Function.update s.calls n pc)
    (hlock : s'.admissionLock = s.admissionLock) (hold : s.calls n ≠ .idle) (hplain : pc.Plain) :
    Move maxTasks s l s' :=
  .quiet hstore hsettled hworkers hnext haccepted hnextCall.ge (.inr (.inr hold))
    (.plain hcalls hplain fun _ => .inl (congrFun hlock _))

/-- A `submit` gives up. -/
theorem Move.leaveAdmission {m : Nat} (hadmits : (s.calls n).admits = some m) :
    Move maxTasks s l (s.leaveAdmission n m .idle) := by
  refine .quiet rfl rfl rfl rfl rfl (Nat.le_refl _) (.inl rfl) (.plain rfl ⟨rfl, rfl, rfl⟩ fun m' => ?_)
  by_cases hm : m' = m
  · subst hm
    exact .inr hadmits
  · exact .inl (Function.update_of_ne hm _ _)

/-- A `cancel` returns. -/
theorem Move.leaveCancel {m id : Nat} {purpose : Purpose} (hold : s.calls n ≠ .idle) :
    Move maxTasks s l (s.leaveCancel n m id purpose) :=
  .plain rfl rfl rfl rfl rfl rfl rfl rfl hold (plain_next m id purpose)

/-- A call begins. -/
theorem Move.begin {pc : CallPc} (hplain : pc.Plain) : Move maxTasks s l (s.begin pc) :=
  .quiet rfl rfl rfl rfl rfl (Nat.le_succ _) (.inr (.inl (Nat.lt_succ_self _)))
    (.plain rfl hplain fun _ => .inl rfl)

end Quiet

theorem move_submitStep {maxTasks : Nat → Nat} {s s' : State} {l : Label} {n : Nat} {ok : Bool}
    (h : s.submitStep maxTasks n ok (s.calls n) = some s') :
    Move maxTasks s l s' := by
  rw [State.submitStep.eq_def] at h
  split at h
  · next m id info hpc =>
    have hold : s.calls n ≠ .idle := by rw [hpc]; exact nofun
    split_ifs at h with hfree
    obtain rfl := Option.some.inj h
    refine .quiet rfl rfl rfl rfl rfl (Nat.le_refl _) (.inr (.inr hold))
      (.submits rfl (hpc ▸ rfl) (hpc ▸ rfl) rfl rfl rfl (.inr ⟨hfree, rfl⟩) ?_ ?_)
    · intro m' id' info' left active heq
      cases heq
      exact .inl rfl
    · intro m' id' info' heq
      cases heq
  · next m id info left active hpc =>
    have hold : s.calls n ≠ .idle := by rw [hpc]; exact nofun
    have hadmits : (s.calls n).admits = some m := by rw [hpc]; rfl
    split_ifs at h with hok hleft hfull
    · obtain rfl := Option.some.inj h
      exact .leaveAdmission hadmits
    · obtain rfl := Option.some.inj h
      exact .leaveAdmission hadmits
    · obtain rfl := Option.some.inj h
      refine .quiet rfl rfl rfl rfl rfl (Nat.le_refl _) (.inr (.inr hold))
        (.submits rfl (hpc ▸ rfl) (hpc ▸ rfl) rfl rfl rfl (.inl ⟨hadmits, rfl⟩) ?_ ?_)
      · intro m' id' info' left' active' heq
        cases heq
      · intro m' id' info' heq
        cases heq
        obtain rfl : left = [] := by simpa using hleft
        exact ⟨active, hpc, by omega⟩
  · next m id info hpc =>
    split_ifs at h
    · obtain rfl := Option.some.inj h
      exact .saved hpc
    · obtain rfl := Option.some.inj h
      exact .leaveAdmission (by rw [hpc]; rfl)
  · next id hpc =>
    obtain rfl := Option.some.inj h
    exact .spawn hpc
  · next id hpc =>
    have hold : s.calls n ≠ .idle := by rw [hpc]; exact nofun
    split_ifs at h
    · obtain rfl := Option.some.inj h
      exact .plain rfl rfl rfl rfl rfl rfl rfl rfl hold ⟨rfl, rfl, rfl⟩
    · obtain rfl := Option.some.inj h
      exact .plain rfl rfl rfl rfl rfl rfl rfl rfl hold ⟨rfl, rfl, rfl⟩
  · cases h

theorem move_cancelStep {maxTasks : Nat → Nat} {s s' : State} {n : Nat} {ok : Bool} {now : ℚ}
    (h : s.cancelStep n ok now (s.calls n) = some s') :
    Move maxTasks s (.call n ok now) s' := by
  rw [State.cancelStep.eq_def] at h
  split at h
  · next m id purpose hpc =>
    have hold : s.calls n ≠ .idle := by rw [hpc]; exact nofun
    split_ifs at h
    obtain rfl := Option.some.inj h
    refine .plain rfl rfl rfl rfl rfl rfl rfl rfl hold ?_
    cases purpose <;> exact ⟨rfl, rfl, rfl⟩
  · next m id purpose hpc =>
    have hold : s.calls n ≠ .idle := by rw [hpc]; exact nofun
    split_ifs at h
    · obtain rfl := Option.some.inj h
      exact .plain rfl rfl rfl rfl rfl rfl rfl rfl hold ⟨rfl, rfl, rfl⟩
    · obtain rfl := Option.some.inj h
      exact .leaveCancel hold
  · next m id purpose hpc =>
    have hold : s.calls n ≠ .idle := by rw [hpc]; exact nofun
    split_ifs at h
    · obtain rfl := Option.some.inj h
      exact .plain rfl rfl rfl rfl rfl rfl rfl rfl hold ⟨rfl, rfl, rfl⟩
    · obtain rfl := Option.some.inj h
      exact .plain rfl rfl rfl rfl rfl rfl rfl rfl hold ⟨rfl, rfl, rfl⟩
  · next m id purpose hpc =>
    have hold : s.calls n ≠ .idle := by rw [hpc]; exact nofun
    split_ifs at h
    obtain rfl := Option.some.inj h
    exact .plain rfl rfl rfl rfl rfl rfl rfl rfl hold ⟨rfl, rfl, rfl⟩
  · next m id purpose hpc =>
    have hold : s.calls n ≠ .idle := by rw [hpc]; exact nofun
    split at h
    · obtain rfl := Option.some.inj h
      exact .leaveCancel hold
    · obtain rfl := Option.some.inj h
      exact .plain rfl rfl rfl rfl rfl rfl rfl rfl hold ⟨rfl, rfl, rfl⟩
  · next m id purpose hpc =>
    have hold : s.calls n ≠ .idle := by rw [hpc]; exact nofun
    split at h
    · next info hrecord =>
      split_ifs at h with hactive
      · obtain rfl := Option.some.inj h
        refine .quiet rfl rfl rfl rfl rfl (Nat.le_refl _) (.inr (.inr hold))
          (.later rfl rfl ?_ ?_ fun _ => .inl rfl)
        · intro id' info' hid'
          cases hid'
          exact ⟨by simp [State.active, hrecord, hactive], rfl⟩
        · intro id' hid'
          cases hid'
      · obtain rfl := Option.some.inj h
        exact .leaveCancel hold
    · obtain rfl := Option.some.inj h
      exact .leaveCancel hold
  · next m id purpose info hpc =>
    split_ifs at h with hok
    · obtain rfl := Option.some.inj h
      subst hok
      exact .cancel hpc
    · obtain rfl := Option.some.inj h
      exact .leaveCancel (by rw [hpc]; exact nofun)
  · cases h

theorem move_cleanupStep {maxTasks : Nat → Nat} {s s' : State} {l : Label} {n : Nat} {ok : Bool}
    (h : s.cleanupStep n ok (s.calls n) = some s') :
    Move maxTasks s l s' := by
  rw [State.cleanupStep.eq_def] at h
  split at h
  · next m reaper ids hpc =>
    have hold : s.calls n ≠ .idle := by rw [hpc]; exact nofun
    split_ifs at h
    · obtain rfl := Option.some.inj h
      refine .quiet rfl rfl rfl rfl rfl (Nat.le_refl _) (.inr (.inr hold))
        (.marks rfl rfl rfl ?_ rfl)
      intro id hid
      rw [hpc]
      exact .inl hid
    · obtain rfl := Option.some.inj h
      exact .plain rfl rfl rfl rfl rfl rfl rfl rfl hold ⟨rfl, rfl, rfl⟩
  · next m reaper hpc =>
    have hold : s.calls n ≠ .idle := by rw [hpc]; exact nofun
    obtain rfl := Option.some.inj h
    exact .plain rfl rfl rfl rfl rfl rfl rfl rfl hold ⟨rfl, rfl, rfl⟩
  · next m reaper id ids hpc =>
    have hold : s.calls n ≠ .idle := by rw [hpc]; exact nofun
    dsimp only at h
    split_ifs at h
    · obtain rfl := Option.some.inj h
      exact .delete hpc rfl rfl rfl rfl rfl rfl rfl rfl
    · obtain rfl := Option.some.inj h
      exact .delete hpc rfl rfl rfl rfl rfl rfl rfl rfl
    · obtain rfl := Option.some.inj h
      refine .quiet rfl rfl rfl rfl rfl (Nat.le_refl _) (.inr (.inr hold))
        (.marks rfl rfl rfl ?_ rfl)
      intro id' hid'
      rw [hpc]
      exact .inl (List.mem_cons_of_mem _ hid')
    · obtain rfl := Option.some.inj h
      exact .plain rfl rfl rfl rfl rfl rfl rfl rfl hold ⟨rfl, rfl, rfl⟩
  · cases h

theorem move_call {maxTasks : Nat → Nat} {s s' : State} {n : Nat} {ok : Bool} {now : ℚ}
    (h : s.call maxTasks n ok now = some s') : Move maxTasks s (.call n ok now) s' := by
  rcases Option.or_eq_some_iff.mp h with hsubmit | ⟨-, h⟩
  · exact move_submitStep hsubmit
  · rcases Option.or_eq_some_iff.mp h with hcancel | ⟨-, hcleanup⟩
    · exact move_cancelStep hcancel
    · exact move_cleanupStep hcleanup

theorem move_dropCall {maxTasks : Nat → Nat} {s s' : State} {l : Label} {n : Nat}
    (h : s.dropCall n = some s') : Move maxTasks s l s' := by
  simp only [State.dropCall] at h
  split at h
  · next hpc =>
    obtain rfl := Option.some.inj h
    exact .plain rfl rfl rfl rfl rfl rfl rfl rfl (by rw [hpc]; exact nofun) ⟨rfl, rfl, rfl⟩
  · next hpc =>
    obtain rfl := Option.some.inj h
    exact .leaveAdmission (by rw [hpc]; rfl)
  · next hpc =>
    obtain rfl := Option.some.inj h
    exact .leaveAdmission (by rw [hpc]; rfl)
  · next hpc =>
    obtain rfl := Option.some.inj h
    exact .plain rfl rfl rfl rfl rfl rfl rfl rfl (by rw [hpc]; exact nofun) ⟨rfl, rfl, rfl⟩
  · next m id purpose hpc =>
    obtain rfl := Option.some.inj h
    exact .plain rfl rfl rfl rfl rfl rfl rfl rfl (by rw [hpc]; exact nofun) ⟨rfl, rfl, rfl⟩
  · next m id purpose hpc =>
    have hold : s.calls n ≠ .idle := by rw [hpc]; exact nofun
    obtain rfl := Option.some.inj h
    -- the handle goes back to the map unless its worker is gone
    split
    · exact .plain rfl rfl rfl rfl rfl rfl rfl rfl hold ⟨rfl, rfl, rfl⟩
    · exact .plain rfl rfl rfl rfl rfl rfl rfl rfl hold ⟨rfl, rfl, rfl⟩
  · next m id purpose hpc =>
    obtain rfl := Option.some.inj h
    exact .plain rfl rfl rfl rfl rfl rfl rfl rfl (by rw [hpc]; exact nofun) ⟨rfl, rfl, rfl⟩
  · next m id purpose hpc =>
    obtain rfl := Option.some.inj h
    exact .plain rfl rfl rfl rfl rfl rfl rfl rfl (by rw [hpc]; exact nofun) ⟨rfl, rfl, rfl⟩
  · next m id purpose info hpc =>
    obtain rfl := Option.some.inj h
    exact .plain rfl rfl rfl rfl rfl rfl rfl rfl (by rw [hpc]; exact nofun) ⟨rfl, rfl, rfl⟩
  · next hpc =>
    obtain rfl := Option.some.inj h
    exact .plain rfl rfl rfl rfl rfl rfl rfl rfl (by rw [hpc]; exact nofun) ⟨rfl, rfl, rfl⟩
  · next hpc =>
    obtain rfl := Option.some.inj h
    exact .plain rfl rfl rfl rfl rfl rfl rfl rfl (by rw [hpc]; exact nofun) ⟨rfl, rfl, rfl⟩
  · cases h

theorem move_read {maxTasks : Nat → Nat} {s s' : State} {l : Label} {n id : Nat}
    (h : s.read n id = some s') : Move maxTasks s l s' := by
  simp only [State.read] at h
  split at h
  · next m task info left active hpc =>
    have hold : s.calls n ≠ .idle := by rw [hpc]; exact nofun
    have hadmits : (s.calls n).admits = some m := by rw [hpc]; rfl
    split_ifs at h with hleft hactive
    all_goals
      obtain rfl := Option.some.inj h
      refine .quiet rfl rfl rfl rfl rfl (Nat.le_refl _) (.inr (.inr hold))
        (.submits rfl (hpc ▸ rfl) (hpc ▸ rfl) rfl rfl rfl (.inl ⟨hadmits, rfl⟩) ?_ ?_)
      · intro m' task' info' left' active' heq
        cases heq
        exact .inr ⟨id, left, active, hpc, rfl, by simp [State.active, hactive]⟩
      · intro m' task' info' heq
        cases heq
  · cases h

theorem move_collect {maxTasks : Nat → Nat} {s s' : State} {l : Label} {n id : Nat}
    (h : s.collect n id = some s') : Move maxTasks s l s' := by
  simp only [State.collect] at h
  split at h
  · next m reaper ids hpc =>
    have hold : s.calls n ≠ .idle := by rw [hpc]; exact nofun
    split_ifs at h with hterminal
    obtain rfl := Option.some.inj h
    refine .quiet rfl rfl rfl rfl rfl (Nat.le_refl _) (.inr (.inr hold))
      (.marks rfl rfl rfl ?_ rfl)
    intro id' hid'
    rcases List.mem_append.mp hid' with hmem | hmem
    · rw [hpc]
      exact .inl hmem
    · obtain rfl := List.mem_singleton.mp hmem
      exact .inr hterminal
  · cases h

theorem move_worker {maxTasks : Nat → Nat} {s s' : State} {id : Nat} {ok : Bool} {now : ℚ}
    (h : s.worker id ok now = some s') : Move maxTasks s (.worker id ok now) s' := by
  obtain ⟨⟨saved, pc⟩, hpc, rfl⟩ := Option.map_eq_some_iff.mp h
  cases saved <;> cases pc <;> exact .worker hpc rfl rfl rfl rfl rfl rfl rfl rfl

/-- A step is one of the moves. -/
theorem move_of_step {maxTasks : Nat → Nat} {s s' : State} {l : Label}
    (h : step maxTasks s l = some s') : Move maxTasks s l s' := by
  cases l with
  | submit m moduleId maxRetries now =>
    obtain rfl := Option.some.inj h
    exact .submit { manager := m, call := s.nextCall, maxRetries } rfl rfl rfl rfl rfl rfl rfl rfl
      rfl rfl rfl
  | cancel m id =>
    obtain rfl := Option.some.inj h
    exact .begin ⟨rfl, rfl, rfl⟩
  | shutdown m ids =>
    cases ids with
    | nil =>
      obtain rfl := Option.some.inj h
      exact .none
    | cons id rest =>
      obtain rfl := Option.some.inj h
      exact .begin ⟨rfl, rfl, rfl⟩
  | cleanup m reaper =>
    obtain rfl := Option.some.inj h
    exact .begin ⟨rfl, rfl, rfl⟩
  | call n ok now => exact move_call h
  | read n id => exact move_read h
  | collect n id => exact move_collect h
  | dropCall n => exact move_dropCall h
  | worker id ok now => exact move_worker h
  | callReturns id outcome =>
    simp only [step] at h
    split at h
    · next hpc =>
      obtain rfl := Option.some.inj h
      exact .moved (.inl ⟨outcome, rfl⟩) (by rw [hpc]; exact nofun) fun _ => hpc
    · cases h
  | dropWorker id =>
    simp only [step] at h
    split at h
    · cases h
    · cases h
    · next habsent hgone =>
      obtain rfl := Option.some.inj h
      exact .moved (.inr rfl) habsent nofun
    · cases h

end Tasks

end Apcore
