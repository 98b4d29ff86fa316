import Apcore.AsyncTask.TaskRecords

/-! # `AsyncTask.Sticky` — the first terminal status of a task is its last

A worker and a `cancel` fetch a record, look at its status, and save the record they have made of it.
The status has become another one in between when the other of the two has saved first; then the save
writes over a terminal status. In a run in which no one saves between the two operations of the other,
a terminal status stays. -/

namespace Apcore

namespace Tasks

open Transition

/-- A `cancel` is about to save the task as cancelled. -/
def State.cancelling (s : State) (id : Nat) : Bool :=
  (List.range s.nextCall).any fun n => (s.calls n).cancels.any (·.1 == id)

/-- A `cancel` saves while the worker is about to save nothing; the worker saves its outcome while no
`cancel` is about to save, and after a fetch, unless the task has no terminal status yet. -/
def inTurn (s : State) : Label → Bool
  | .call n ok _ =>
    match s.calls n with
    | .saving _ id _ _ => !ok || !(s.workers id).saves
    | _ => true
  | .worker id ok _ =>
    match s.workers id with
    | .checking _ => (ok && (s.store id).isSome) || (s.settled id).isNone
    | .savingTerminal _ => !ok || !s.cancelling id
    | _ => true
  | _ => true

/-- What holds of the terminal statuses where the parties take turns. -/
structure Sticky (s : State) : Prop where
  agree : ∀ id info, s.store id = some info →
    s.settled id = if info.status.isTerminal then some info.status else none
  saves : ∀ id, (s.workers id).saves = true → s.settled id = none
  cancels : ∀ n id info, (s.calls n).cancels = some (id, info) →
    s.settled id = none ∨ s.settled id = some .cancelled
  ended : ∀ id, s.settled id = none ∨ s.settled id = some .cancelled ∨ (s.workers id).past = true

theorem sticky_init : Sticky init where
  agree := fun _ _ h => (by cases h)
  saves := fun _ h => (by cases h)
  cancels := fun _ _ _ h => (by cases h)
  ended := fun _ => .inl rfl

namespace Sticky

variable {s s' : State} {id : Nat}

/-- A call goes on, and may have deleted a record. -/
theorem goes (h : Sticky s) {n : Nat} {pc : CallPc}
    (hstore : ∀ id info, s'.store id = some info → s.store id = some info)
    (hsettled : s'.settled = s.settled) (hworkers : s'.workers = s.workers)
    (hcalls : s'.calls = Function.update s.calls n pc)
    (hcancels : ∀ id info, pc.cancels = some (id, info) →
      s.settled id = none ∨ s.settled id = some .cancelled) : Sticky s' := by
  refine ⟨?_, ?_, ?_, ?_⟩
  · intro id info hid
    rw [hsettled]
    exact h.agree id info (hstore id info hid)
  · rw [hsettled, hworkers]
    exact h.saves
  · rw [hsettled, hcalls]
    exact (Function.forall_update_iff s.calls fun _ c => ∀ id info, c.cancels = some (id, info) →
      s.settled id = none ∨ s.settled id = some .cancelled).mpr ⟨hcancels, fun n' _ => h.cancels n'⟩
  · rw [hsettled, hworkers]
    exact h.ended

/-- A worker goes on, before it saves. -/
theorem setWorker (h : Sticky s) {pc : WorkerPc} (hstore : s'.store = s.store)
    (hsettled : s'.settled = s.settled) (hcalls : s'.calls = s.calls)
    (hworkers : s'.workers = Function.update s.workers id pc)
    (hsaves : pc.saves = true → s.settled id = none)
    (hpast : (s.workers id).past = true → pc.past = true) : Sticky s' := by
  refine ⟨?_, ?_, ?_, ?_⟩
  · rw [hstore, hsettled]
    exact h.agree
  · rw [hsettled, hworkers]
    exact (Function.forall_update_iff s.workers fun id' w => w.saves = true → s.settled id' = none).mpr
      ⟨hsaves, fun id' _ => h.saves id'⟩
  · rw [hsettled, hcalls]
    exact h.cancels
  · rw [hsettled, hworkers]
    refine (Function.forall_update_iff s.workers fun id' w => s.settled id' = none ∨
      s.settled id' = some .cancelled ∨ w.past = true).mpr ⟨?_, fun id' _ => h.ended id'⟩
    exact (h.ended id).imp_right (Or.imp_right hpast)

/-- A record is saved by who is not about to save any more. -/
theorem save (h : Sticky s) {info : TaskInfo} (hstore : s'.store = (s.save id info).store)
    (hsettled : s'.settled = (s.save id info).settled) (hcalls : s'.calls = s.calls)
    (hworkers : s'.workers = s.workers)
    (hold : s.settled id = none ∨ s.settled id = some .cancelled ∧ info.status = .cancelled)
    (hsaves : (s.workers id).saves = false)
    (hnew : info.status.isActive = true ∨ info.status = .cancelled ∨
      (s.workers id).past = true ∧ ∀ n info', (s.calls n).cancels ≠ some (id, info')) :
    Sticky s' := by
  have hself : s'.settled id = if info.status.isTerminal then some info.status else none := by
    rw [hsettled]
    rcases hold with hnone | ⟨hsome, hstatus⟩
    · exact State.settled_save_of_none hnone
    · rw [State.settled_save_of_some hsome, hstatus]
      rfl
  have hother : ∀ id', id' ≠ id → s'.settled id' = s.settled id' := fun id' hne => by
    rw [hsettled, State.settled_save_of_ne hne]
  refine ⟨?_, ?_, ?_, ?_⟩
  · intro id' info' hid'
    rw [hstore] at hid'
    by_cases hne : id' = id
    · subst hne
      rw [State.store_save_self] at hid'
      obtain rfl : info = info' := Option.some.inj hid'
      exact hself
    · rw [State.store_save_of_ne hne] at hid'
      rw [hother id' hne]
      exact h.agree id' info' hid'
  · intro id' hid'
    rw [hworkers] at hid'
    have hne : id' ≠ id := by
      rintro rfl
      rw [hsaves] at hid'
      cases hid'
    rw [hother id' hne]
    exact h.saves id' hid'
  · intro n id' info' hid'
    rw [hcalls] at hid'
    by_cases hne : id' = id
    · subst hne
      rw [hself]
      rcases hnew with hactive | hcancelled | ⟨-, hnone⟩
      · exact .inl (by simp [TaskStatus.isTerminal, hactive])
      · rw [hcancelled]
        exact .inr rfl
      · exact absurd hid' (hnone n info')
    · rw [hother id' hne]
      exact h.cancels n id' info' hid'
  · intro id'
    rw [hworkers]
    by_cases hne : id' = id
    · subst hne
      rw [hself]
      rcases hnew with hactive | hcancelled | ⟨hpast, -⟩
      · exact .inl (by simp [TaskStatus.isTerminal, hactive])
      · rw [hcancelled]
        exact .inr (.inl rfl)
      · exact .inr (.inr hpast)
    · rw [hother id' hne]
      exact h.ended id'

/-- Where a record is fetched that is not cancelled, by a worker that is not over, the task has no
terminal status yet. -/
theorem settled_eq_none (h : Sticky s) {info : TaskInfo} (hinfo : s.store id = some info)
    (hstatus : info.status ≠ .cancelled) (hpast : (s.workers id).past = false) :
    s.settled id = none := by
  have hagree := h.agree id info hinfo
  rcases h.ended id with hnone | hcancelled | hover
  · exact hnone
  · rw [hcancelled] at hagree
    split_ifs at hagree
    exact absurd (Option.some.inj hagree).symm hstatus
  · rw [hover] at hpast
    cases hpast

end Sticky

theorem cancelling_eq_true {s : State} (h : Tracked s) {n id : Nat} {info : TaskInfo}
    (hcancels : (s.calls n).cancels = some (id, info)) : s.cancelling id = true := by
  have hlt : n < s.nextCall := by
    by_contra hle
    rw [h.later n (Nat.le_of_not_lt hle)] at hcancels
    cases hcancels
  refine List.any_eq_true.mpr ⟨n, List.mem_range.mpr hlt, ?_⟩
  rw [hcancels]
  exact beq_self_eq_true id

namespace Sticky

variable {s s' : State} {id : Nat}

/-- A worker goes on where the parties take turns. -/
theorem worker (ht : Tracked s) (h : Sticky s) {ok : Bool} {now : ℚ} {saved : Option TaskInfo}
    {pc : WorkerPc} (hok : inTurn s (.worker id ok now) = true)
    (hmove : WorkerMove (s.store id) ok (s.workers id) saved pc)
    (hstore : s'.store = (saved.elim s (s.save id)).store)
    (hsettled : s'.settled = (saved.elim s (s.save id)).settled)
    (hworkers : s'.workers = Function.update s.workers id pc) (hcalls : s'.calls = s.calls) :
    Sticky s' := by
  generalize hold : s.workers id = old at hmove
  cases hmove with
  | goes hpast hsaves =>
    refine h.setWorker hstore hsettled hcalls hworkers ?_ (hold ▸ hpast)
    rw [hsaves]
    exact nofun
  | fetches hrecord hstatus hpast =>
    -- the status it has seen is the one that is settled, and only a cancelled task has one so early
    have hpast' : (s.workers id).past = false := by rw [hold, hpast]
    refine h.setWorker hstore hsettled hcalls hworkers ?_ ?_
    · intro _
      exact h.settled_eq_none hrecord hstatus hpast'
    · rw [hpast']
      exact nofun
  | @blind info hmissing =>
    -- it has not seen the record, so the condition has to say that nothing is settled
    refine h.setWorker hstore hsettled hcalls hworkers ?_ ?_
    · intro _
      simp only [inTurn, hold] at hok
      rcases hmissing with rfl | hnone
      · simpa using hok
      · simpa [hnone] using hok
    · rw [hold]
      exact nofun
  | savesActive hok' hpc hactive hsaves =>
    -- the worker moves first: while it is about to save, the record is not to become terminal
    have hnone : s.settled id = none := by
      refine h.saves id ?_
      rw [hold, WorkerPc.saves, hpc, Bool.true_or]
    have hgone : Sticky (s.setWorker id pc) := by
      refine h.setWorker rfl rfl rfl rfl ?_ ?_
      · rw [hsaves]
        exact nofun
      · rw [hold, WorkerPc.past_eq_false hpc]
        exact nofun
    refine hgone.save hstore hsettled hcalls hworkers (.inl hnone) ?_ (.inl hactive)
    change (Function.update s.workers id pc id).saves = false
    rw [Function.update_self, hsaves]
  | @savesTerminal info hok' hstatus =>
    have hnone : s.settled id = none := by
      refine h.saves id ?_
      rw [hold]
      rfl
    have hgone : Sticky (s.setWorker id .returned) :=
      h.setWorker rfl rfl rfl rfl nofun fun _ => rfl
    have hreturned : (s.setWorker id .returned).workers id = .returned := Function.update_self ..
    refine hgone.save hstore hsettled hcalls hworkers (.inl hnone) ?_ (.inr (.inr ⟨?_, ?_⟩))
    · rw [hreturned]
      rfl
    · rw [hreturned]
      rfl
    · -- a `cancel` that is about to save would write over the outcome
      intro n info' hcancels
      simp only [inTurn, hold, hok', Bool.not_true, Bool.false_or, Bool.not_eq_true'] at hok
      rw [cancelling_eq_true ht hcancels] at hok
      cases hok

/-- What a step keeps where the parties take turns. -/
theorem of_move (ht : Tracked s) (h : Sticky s) {maxTasks : Nat → Nat} {l : Label}
    (hok : inTurn s l = true) (hmove : Move maxTasks s l s') : Sticky s' := by
  cases hmove with
  | submit x hstore _ _ _ hsettled hworkers _ _ _ _ hcalls =>
    refine h.goes (fun id info hid => hstore ▸ hid) hsettled hworkers hcalls ?_
    intro id info hid
    cases hid
  | quiet hstore hsettled hworkers _ _ _ _ hquiet =>
    refine h.goes (fun id info hid => hstore ▸ hid) hsettled hworkers hquiet.calls ?_
    intro id info hid
    obtain ⟨hactive, -⟩ := hquiet.cancels id info hid
    obtain ⟨info', hinfo', hactive'⟩ := (Option.any_eq_true _ _).mp hactive
    rw [h.agree id info' hinfo', TaskStatus.isTerminal, hactive']
    exact .inl rfl
  | @saved l n m id info hpc =>
    have hunsaved : (s.calls n).unsaved = some (m, id, info) := by rw [hpc]; rfl
    obtain ⟨hpending, -⟩ := ht.pending n m id info hunsaved
    have hnone := (ht.absent id (.inr ⟨n, m, info, hunsaved⟩)).2
    have hgone : Sticky (s.leaveAdmission n m (.spawning id)) := by
      refine h.goes (fun _ _ hid => hid) rfl rfl rfl ?_
      intro id' info' hid'
      cases hid'
    refine hgone.save rfl rfl rfl rfl (.inl hnone) ?_ (.inl (by rw [hpending]; rfl))
    change (s.workers id).saves = false
    rw [ht.worker_eq_absent (CallPc.launches_of_unsaved hunsaved)]
    rfl
  | @spawn l n id hpc =>
    have habsent : s.workers id = .absent := ht.worker_eq_absent (n := n) (by rw [hpc]; rfl)
    have hgone : Sticky (s.setWorker id .acquiring) := by
      refine h.setWorker rfl rfl rfl rfl nofun ?_
      rw [habsent]
      exact nofun
    refine hgone.goes (fun _ _ hid => hid) rfl rfl rfl ?_
    intro id' info' hid'
    cases hid'
  | @cancel n m id purpose info now hpc =>
    have hcancels : (s.calls n).cancels = some (id, info) := by rw [hpc]; rfl
    obtain ⟨-, hstatus⟩ := ht.cancels n id info hcancels
    have hgone : Sticky (s.leaveCancel n m id purpose) := by
      refine h.goes (fun _ _ hid => hid) rfl rfl rfl ?_
      intro id' info' hid'
      rw [(plain_next m id purpose).cancels] at hid'
      cases hid'
    refine hgone.save rfl rfl rfl rfl ?_ ?_ (.inr (.inl hstatus))
    · exact (h.cancels n id info hcancels).imp_right fun hsome => ⟨hsome, hstatus⟩
    · change (s.workers id).saves = false
      simpa [inTurn, hpc] using hok
  | @delete s' l n m reaper id ids hpc hstore hsettled hworkers _ _ _ _ hcalls =>
    refine h.goes ?_ hsettled hworkers hcalls ?_
    · intro id' info hid'
      rw [hstore] at hid'
      by_cases hne : id' = id
      · subst hne
        rw [Function.update_self] at hid'
        cases hid'
      · rwa [Function.update_of_ne hne] at hid'
    · intro id' info hid'
      cases hid'
  | worker hpc hstore hsettled hworkers _ _ _ _ hcalls =>
    exact h.worker ht hok (move_of_workerStep (ht.fits _) hpc) hstore hsettled hworkers hcalls
  | moved hpc hold hreturned =>
    refine h.setWorker rfl rfl rfl rfl ?_ ?_
    · rcases hpc with ⟨outcome, rfl⟩ | rfl <;> exact nofun
    · intro hpast
      rcases hpc with hcalled | rfl
      · rw [hreturned hcalled] at hpast
        cases hpast
      · rfl
  | none => exact h

end Sticky

/-- The first terminal status of a task is kept for good. -/
theorem settled_of_move {maxTasks : Nat → Nat} {s s' : State} {l : Label} {id : Nat}
    {status : TaskStatus} (h : s.settled id = some status) (hmove : Move maxTasks s l s') :
    s'.settled id = some status := by
  cases hmove with
  | submit _ _ _ _ _ hsettled => rwa [hsettled]
  | quiet _ hsettled => rwa [hsettled]
  | saved => exact State.settled_save_of_some h
  | spawn => exact h
  | cancel => exact State.settled_save_of_some h
  | delete _ _ hsettled => rwa [hsettled]
  | @worker s' id' ok now saved pc hpc hstore hsettled =>
    rw [hsettled]
    cases saved with
    | none => exact h
    | some info => exact State.settled_save_of_some h
  | moved => exact h
  | none => exact h

section Run

variable {maxTasks : Nat → Nat} {ls ls₁ ls₂ : List Label} {s s₁ : State}

theorem tracked_of_exec (hrun : exec (step maxTasks) init ls = some s) : Tracked s :=
  exec_invariant (fun _ _ _ h hstep => h.of_move (move_of_step hstep)) tracked_init hrun

theorem sticky_of_inTurn (hok : Along (step maxTasks) (fun s l => inTurn s l = true) init ls)
    (hrun : exec (step maxTasks) init ls = some s) : Sticky s := by
  have hboth : Tracked s ∧ Sticky s := by
    refine exec_invariant_along (I := fun s => Tracked s ∧ Sticky s) (fun s l s' h hl hstep => ?_)
      ⟨tracked_init, sticky_init⟩ hok hrun
    have hmove := move_of_step hstep
    exact ⟨h.1.of_move hmove, h.2.of_move h.1 hl hmove⟩
  exact hboth.2

theorem settled_of_run {id : Nat} {status : TaskStatus} (h : s₁.settled id = some status)
    (hrun : exec (step maxTasks) s₁ ls = some s) : s.settled id = some status :=
  exec_invariant (I := fun s => s.settled id = some status)
    (fun _ _ _ h hstep => settled_of_move h (move_of_step hstep)) h hrun

/-- The step with which a `cancel` saves, and returns that it was applied. -/
theorem step_saving {n m id : Nat} {purpose : Purpose} {info : TaskInfo} {now : ℚ}
    (hpc : s.calls n = .saving m id purpose info) :
    step maxTasks s (.call n true now) = some ((s.save id info).leaveCancel n m id purpose) := by
  simp only [step, State.call, hpc, State.submitStep, State.cancelStep, if_true, Option.none_or,
    Option.some_or]

/-- A terminal status that the store has for a task stays where the parties take turns, whatever they
do next; and after a `cancel` that was applied, the task is cancelled. -/
theorem sticky_of_run
    (hok : Along (step maxTasks) (fun s l => inTurn s l = true) init (ls₁ ++ ls₂))
    (hrun₁ : exec (step maxTasks) init ls₁ = some s₁)
    (hrun₂ : exec (step maxTasks) s₁ ls₂ = some s)
    {id : Nat} {info' : TaskInfo} (hinfo' : s.store id = some info') :
    (∀ info, s₁.store id = some info → info.status.isTerminal = true →
      info'.status = info.status) ∧
    ∀ n now ls m purpose info, ls₂ = .call n true now :: ls →
      s₁.calls n = .saving m id purpose info → info'.status = .cancelled := by
  have hsticky₁ := sticky_of_inTurn (along_of_append hok) hrun₁
  have hsticky := sticky_of_inTurn hok (exec_append hrun₁ hrun₂)
  have hlast : ∀ status, s.settled id = some status → info'.status = status := by
    intro status hstatus
    have hagree := hsticky.agree id info' hinfo'
    rw [hstatus] at hagree
    split_ifs at hagree
    exact (Option.some.inj hagree).symm
  constructor
  · intro info hinfo hterminal
    have hsettled : s₁.settled id = some info.status := by
      rw [hsticky₁.agree id info hinfo, if_pos hterminal]
    exact hlast _ (settled_of_run hsettled hrun₂)
  · rintro n now ls m purpose info rfl hpc
    have hcancels : (s₁.calls n).cancels = some (id, info) := by rw [hpc]; rfl
    obtain ⟨-, hstatus⟩ := (tracked_of_exec hrun₁).cancels n id info hcancels
    obtain ⟨s₂, hs₂, hrest⟩ := exec_cons.mp hrun₂
    obtain rfl := Option.some.inj ((step_saving hpc).symm.trans hs₂)
    have hsettled : ((s₁.save id info).leaveCancel n m id purpose).settled id =
        some .cancelled := by
      change (s₁.save id info).settled id = _
      rcases hsticky₁.cancels n id info hcancels with hnone | hsome
      · rw [State.settled_save_of_none hnone, hstatus]
        rfl
      · exact State.settled_save_of_some hsome
    exact hlast _ (settled_of_run hsettled hrest)

end Run

/-- A `submit` of manager 0, up to where its worker is spawned and the handle is still to be
registered. -/
def spawned : List Label :=
  [.submit 0 "export" 0 0, .call 0 true 0, .read 0 0, .call 0 true 0, .call 0 true 0, .call 0 true 0]

/-- The worker has fetched its record when a `cancel` of the task begins, which aborts the worker and
waits for it; the save of that `cancel` is left. -/
def cancelAborts : List Label :=
  spawned ++ [.call 0 true 0, .worker 0 true 0, .worker 0 true 0, .cancel 0 0, .call 1 true 0,
    .call 1 true 0, .call 1 true 0, .dropWorker 0, .call 1 true 0, .call 1 true 0, .call 1 true 0]

/-- The same before the handle is registered: there is nothing to abort. -/
def cancelMissesWorker : List Label :=
  spawned ++ [.worker 0 true 0, .worker 0 true 0, .cancel 0 0, .call 1 true 0, .call 1 true 0,
    .call 1 true 0, .call 1 true 0, .call 1 true 0, .call 1 true 0]

theorem sticky_cancelAborts :
    ∃ s₁ s info info', exec (step fun _ => 1) init cancelAborts = some s₁ ∧
      exec (step fun _ => 1) s₁ [.call 1 true 0, .cleanup 0 false, .call 2 true 0] = some s ∧
      s₁.calls 1 = .saving 0 0 .cancel info ∧ s.store 0 = some info' ∧
      info'.status = .cancelled := by
  have hok : Along (step fun _ => 1) (fun s l => inTurn s l = true) init
      (cancelAborts ++ [.call 1 true 0, .cleanup 0 false, .call 2 true 0]) := by decide
  refine ⟨_, _, _, _, rfl, rfl, rfl, rfl, ?_⟩
  exact (sticky_of_run hok rfl rfl rfl).2 1 0 _ 0 .cancel _ rfl rfl

/-- The worker saves the task as running once it is cancelled. -/
theorem cancel_overwritten :
    ∃ s₁ s info info', exec (step fun _ => 1) init cancelMissesWorker = some s₁ ∧
      exec (step fun _ => 1) s₁ [.worker 0 true 0] = some s ∧
      s₁.store 0 = some info ∧ info.status = .cancelled ∧
      s.store 0 = some info' ∧ info'.status = .running :=
  ⟨_, _, _, _, rfl, rfl, rfl, rfl, rfl, rfl⟩

end Tasks

end Apcore
