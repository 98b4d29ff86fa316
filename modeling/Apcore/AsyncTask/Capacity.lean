import Mathlib.Data.Finset.Card
import Mathlib.Data.Finset.Range
import Apcore.AsyncTask.TaskRecords

/-! # `AsyncTask.Capacity` — how many tasks of a manager are active

A `submit` counts the active records and saves its own under the admission lock, and no other step
makes a task of the manager active: a worker saves a task as running, or as pending once more, that is
active already. This is lost only where a `cancel` saves while the worker is about to. -/

namespace Apcore

namespace Tasks

open Transition

/-- A `cancel` saves while the worker is not about to save the task as running or pending. -/
def cancelInTurn (s : State) : Label → Bool
  | .call n ok _ =>
    match s.calls n with
    | .saving _ id _ _ => !ok || !(s.workers id).savesActive
    | _ => true
  | _ => true

/-- The active tasks that the manager has accepted. -/
def State.load (s : State) (m : Nat) : Finset Nat :=
  (Finset.range s.nextTask).filter fun id => s.active id = true ∧ (s.accepted id).manager = m

theorem mem_load {s : State} {m id : Nat} :
    id ∈ s.load m ↔ id < s.nextTask ∧ s.active id = true ∧ (s.accepted id).manager = m := by
  rw [State.load, Finset.mem_filter, Finset.mem_range]

/-! ## Active tasks -/

theorem active_save_self {s : State} {id : Nat} {info : TaskInfo} :
    (s.save id info).active id = info.status.isActive := by
  rw [State.active, State.store_save_self]
  rfl

theorem active_save_of_ne {s : State} {id id' : Nat} {info : TaskInfo} (h : id' ≠ id) :
    (s.save id info).active id' = s.active id' := by
  rw [State.active, State.store_save_of_ne h, State.active]

theorem active_congr {s s' : State} {id : Nat} (h : s'.store id = s.store id) :
    s'.active id = s.active id := by
  rw [State.active, h, State.active]

theorem active_of_none {s : State} {id : Nat} (h : s.store id = none) : s.active id = false := by
  rw [State.active, h]
  rfl

theorem active_of_terminal {s : State} {id : Nat} (h : s.terminal id = true) :
    s.active id = false := by
  obtain ⟨info, hinfo, hterminal⟩ := (Option.any_eq_true _ _).mp h
  rw [State.active, hinfo]
  simpa [TaskStatus.isTerminal] using hterminal

/-- What holds of the active tasks where no `cancel` saves while the worker is about to. -/
structure Renewed (s : State) : Prop where
  renews : ∀ id, (s.workers id).savesActive = true → s.active id = true
  ended : ∀ id info, s.store id = some info → info.status = .completed ∨ info.status = .failed →
    (s.workers id).past = true
  marked : ∀ n, ∀ id ∈ (s.calls n).marked, s.active id = false

theorem renewed_init : Renewed init where
  renews := fun _ h => (by cases h)
  ended := fun _ _ h => (by cases h)
  marked := fun _ _ h => (by cases h)

namespace Renewed

variable {s s' : State} {id : Nat}

/-- A call goes on, and may have deleted a record that is not active. -/
theorem goes (h : Renewed s) {n : Nat} {pc : CallPc}
    (hstore : ∀ id, s'.store id = s.store id ∨ s'.store id = none ∧ s.active id = false)
    (hworkers : s'.workers = s.workers) (hcalls : s'.calls = Function.update s.calls n pc)
    (hmarked : ∀ id ∈ pc.marked, s.active id = false) : Renewed s' := by
  have hactive : ∀ id, s'.active id = s.active id := by
    intro id
    rcases hstore id with hsame | ⟨hnone, hold⟩
    · exact active_congr hsame
    · rw [active_of_none hnone, hold]
  refine ⟨?_, ?_, ?_⟩
  · intro id hid
    rw [hactive]
    exact h.renews id (hworkers ▸ hid)
  · intro id info hinfo hstatus
    rw [hworkers]
    rcases hstore id with hsame | ⟨hnone, -⟩
    · exact h.ended id info (hsame ▸ hinfo) hstatus
    · rw [hnone] at hinfo
      cases hinfo
  · have hold : ∀ n', ∀ id ∈ (s'.calls n').marked, s.active id = false := by
      rw [hcalls]
      exact (Function.forall_update_iff s.calls fun _ c => ∀ id ∈ c.marked, s.active id = false).mpr
        ⟨hmarked, fun n' _ => h.marked n'⟩
    intro n' id hid
    rw [hactive]
    exact hold n' id hid

/-- A worker goes on, before it saves. -/
theorem setWorker (h : Renewed s) {pc : WorkerPc} (hstore : s'.store = s.store)
    (hcalls : s'.calls = s.calls) (hworkers : s'.workers = Function.update s.workers id pc)
    (hsaves : pc.savesActive = true → s.active id = true)
    (hpast : (s.workers id).past = true → pc.past = true) : Renewed s' := by
  have hactive : ∀ id, s'.active id = s.active id := fun id => active_congr (congrFun hstore id)
  refine ⟨?_, ?_, ?_⟩
  · have hold : ∀ id', (s'.workers id').savesActive = true → s.active id' = true := by
      rw [hworkers]
      exact (Function.forall_update_iff s.workers fun id' w => w.savesActive = true →
        s.active id' = true).mpr ⟨hsaves, fun id' _ => h.renews id'⟩
    intro id' hid'
    rw [hactive]
    exact hold id' hid'
  · have hold : ∀ id', (s.workers id').past = true → (s'.workers id').past = true := by
      rw [hworkers]
      exact (Function.forall_update_iff s.workers fun id' w => (s.workers id').past = true →
        w.past = true).mpr ⟨hpast, fun _ _ hid => hid⟩
    intro id' info hinfo hstatus
    exact hold id' (h.ended id' info (hstore ▸ hinfo) hstatus)
  · intro n id' hid'
    rw [hactive]
    exact h.marked n id' (hcalls ▸ hid')

/-- A record is saved: as active, where no `cleanup` has marked it; as cancelled, where the worker is
not about to save it; or by a worker that is over. -/
theorem save (h : Renewed s) {info : TaskInfo} (hstore : s'.store = (s.save id info).store)
    (hcalls : s'.calls = s.calls) (hworkers : s'.workers = s.workers)
    (hnew : info.status.isActive = true ∧ (∀ n, id ∉ (s.calls n).marked) ∨
      info.status = .cancelled ∧ (s.workers id).savesActive = false ∨
      info.status.isActive = false ∧ (s.workers id).past = true) : Renewed s' := by
  have hself : s'.active id = info.status.isActive :=
    (active_congr (congrFun hstore id)).trans active_save_self
  have hother : ∀ id', id' ≠ id → s'.active id' = s.active id' := fun id' hne =>
    (active_congr (congrFun hstore id')).trans (active_save_of_ne hne)
  refine ⟨?_, ?_, ?_⟩
  · intro id' hid'
    rw [hworkers] at hid'
    by_cases hne : id' = id
    · subst hne
      rw [hself]
      rcases hnew with ⟨hactive, -⟩ | ⟨-, hsaves⟩ | ⟨-, hpast⟩
      · exact hactive
      · rw [hsaves] at hid'
        cases hid'
      · rw [WorkerPc.past_eq_false hid'] at hpast
        cases hpast
    · rw [hother id' hne]
      exact h.renews id' hid'
  · intro id' info' hinfo' hstatus
    rw [hstore] at hinfo'
    rw [hworkers]
    by_cases hne : id' = id
    · subst hne
      rw [State.store_save_self] at hinfo'
      obtain rfl : info = info' := Option.some.inj hinfo'
      rcases hnew with ⟨hactive, -⟩ | ⟨hcancelled, -⟩ | ⟨-, hpast⟩
      · rcases hstatus with hstatus | hstatus <;> rw [hstatus] at hactive <;> cases hactive
      · rcases hstatus with hstatus | hstatus <;> rw [hstatus] at hcancelled <;> cases hcancelled
      · exact hpast
    · rw [State.store_save_of_ne hne] at hinfo'
      exact h.ended id' info' hinfo' hstatus
  · intro n id' hid'
    rw [hcalls] at hid'
    by_cases hne : id' = id
    · subst hne
      rw [hself]
      rcases hnew with ⟨-, hmarked⟩ | ⟨hcancelled, -⟩ | ⟨hinactive, -⟩
      · exact absurd hid' (hmarked n)
      · rw [hcancelled]
        rfl
      · exact hinactive
    · rw [hother id' hne]
      exact h.marked n id' hid'

/-- A worker that is not over fetches a record that is not cancelled: it is active. -/
theorem active_of_fetched (h : Renewed s) {info : TaskInfo} (hinfo : s.store id = some info)
    (hstatus : info.status ≠ .cancelled) (hpast : (s.workers id).past = false) :
    s.active id = true := by
  have hnot : ¬(info.status = .completed ∨ info.status = .failed) := by
    intro hover
    rw [h.ended id info hinfo hover] at hpast
    cases hpast
  rw [State.active, hinfo]
  cases hst : info.status with
  | pending => simp [hst, TaskStatus.isActive]
  | running => simp [hst, TaskStatus.isActive]
  | completed => exact absurd (.inl hst) hnot
  | failed => exact absurd (.inr hst) hnot
  | cancelled => exact absurd hst hstatus

/-- A worker goes on. -/
theorem worker (h : Renewed s) {ok : Bool} {saved : Option TaskInfo} {pc : WorkerPc}
    (hmove : WorkerMove (s.store id) ok (s.workers id) saved pc)
    (hstore : s'.store = (saved.elim s (s.save id)).store)
    (hworkers : s'.workers = Function.update s.workers id pc) (hcalls : s'.calls = s.calls) :
    Renewed s' := by
  generalize hold : s.workers id = old at hmove
  cases hmove with
  | goes hpast hsaves =>
    refine h.setWorker hstore hcalls hworkers ?_ (hold ▸ hpast)
    rw [WorkerPc.savesActive_of_saves hsaves]
    exact nofun
  | fetches hrecord hstatus hpast =>
    have hpast' : (s.workers id).past = false := by rw [hold, hpast]
    refine h.setWorker hstore hcalls hworkers ?_ ?_
    · intro _
      exact h.active_of_fetched hrecord hstatus hpast'
    · rw [hpast']
      exact nofun
  | blind hmissing =>
    refine h.setWorker hstore hcalls hworkers nofun ?_
    rw [hold]
    exact nofun
  | savesActive hok hpc hactive hsaves =>
    have hrenews : s.active id = true := h.renews id (by rw [hold, hpc])
    have hgone : Renewed (s.setWorker id pc) := by
      refine h.setWorker rfl rfl rfl ?_ ?_
      · intro _
        exact hrenews
      · rw [hold, WorkerPc.past_eq_false hpc]
        exact nofun
    -- a `cleanup` has marked it only if it was terminal, and it is active
    refine hgone.save hstore hcalls hworkers (.inl ⟨hactive, fun n hmarked => ?_⟩)
    rw [h.marked n id hmarked] at hrenews
    cases hrenews
  | savesTerminal hok hstatus =>
    have hgone : Renewed (s.setWorker id .returned) :=
      h.setWorker rfl rfl rfl nofun fun _ => rfl
    have hreturned : (s.setWorker id .returned).workers id = .returned := Function.update_self ..
    refine hgone.save hstore hcalls hworkers (.inr (.inr ⟨?_, by rw [hreturned]; rfl⟩))
    rcases hstatus with hstatus | hstatus <;> rw [hstatus] <;> rfl

/-- What a step keeps. -/
theorem of_move (ht : Tracked s) (h : Renewed s) {maxTasks : Nat → Nat} {l : Label}
    (hok : cancelInTurn s l = true) (hmove : Move maxTasks s l s') : Renewed s' := by
  cases hmove with
  | submit x hstore _ _ _ _ hworkers _ _ _ _ hcalls =>
    refine h.goes (fun id => .inl (congrFun hstore id)) hworkers hcalls ?_
    intro id hid
    cases hid
  | quiet hstore _ hworkers _ _ _ _ hquiet =>
    refine h.goes (fun id => .inl (congrFun hstore id)) hworkers hquiet.calls ?_
    intro id hid
    rcases hquiet.marked id hid with hold | hterminal
    · exact h.marked _ id hold
    · exact active_of_terminal hterminal
  | @saved l n m id info hpc =>
    have hunsaved : (s.calls n).unsaved = some (m, id, info) := by rw [hpc]; rfl
    obtain ⟨hpending, -⟩ := ht.pending n m id info hunsaved
    have hgone : Renewed (s.leaveAdmission n m (.spawning id)) := by
      refine h.goes (fun id => .inl rfl) rfl rfl ?_
      intro id' hid'
      cases hid'
    refine hgone.save rfl rfl rfl (.inl ⟨by rw [hpending]; rfl, fun n' hmarked => ?_⟩)
    change id ∈ (Function.update s.calls n (.spawning id) n').marked at hmarked
    by_cases hne : n' = n
    · subst hne
      rw [Function.update_self] at hmarked
      cases hmarked
    · rw [Function.update_of_ne hne] at hmarked
      exact ht.marked n' id hmarked (.inr ⟨n, m, info, hunsaved⟩)
  | @spawn l n id hpc =>
    have habsent : s.workers id = .absent := ht.worker_eq_absent (n := n) (by rw [hpc]; rfl)
    have hgone : Renewed (s.setWorker id .acquiring) := by
      refine h.setWorker rfl rfl rfl nofun ?_
      rw [habsent]
      exact nofun
    refine hgone.goes (fun id => .inl rfl) rfl rfl ?_
    intro id' hid'
    cases hid'
  | @cancel n m id purpose info now hpc =>
    have hcancels : (s.calls n).cancels = some (id, info) := by rw [hpc]; rfl
    obtain ⟨-, hstatus⟩ := ht.cancels n id info hcancels
    have hgone : Renewed (s.leaveCancel n m id purpose) := by
      refine h.goes (fun id => .inl rfl) rfl rfl ?_
      intro id' hid'
      rw [(plain_next m id purpose).marked] at hid'
      cases hid'
    refine hgone.save rfl rfl rfl (.inr (.inl ⟨hstatus, ?_⟩))
    change (s.workers id).savesActive = false
    simpa [cancelInTurn, hpc] using hok
  | @delete s' l n m reaper id ids hpc hstore _ hworkers _ _ _ _ hcalls =>
    have hmarked : ∀ id' ∈ id :: ids, s.active id' = false := by
      intro id' hid'
      refine h.marked n id' ?_
      rw [hpc]
      exact hid'
    refine h.goes ?_ hworkers hcalls fun id' hid' => hmarked id' (List.mem_cons_of_mem _ hid')
    intro id'
    rw [hstore]
    by_cases hne : id' = id
    · subst hne
      exact .inr ⟨Function.update_self .., hmarked id' List.mem_cons_self⟩
    · exact .inl (Function.update_of_ne hne _ _)
  | worker hpc hstore _ hworkers _ _ _ _ hcalls =>
    exact h.worker (move_of_workerStep (ht.fits _) hpc) hstore hworkers hcalls
  | moved hpc hold hreturned =>
    refine h.setWorker rfl rfl rfl ?_ ?_
    · rcases hpc with ⟨outcome, rfl⟩ | rfl <;> exact nofun
    · intro hpast
      rcases hpc with hcalled | rfl
      · rw [hreturned hcalled] at hpast
        cases hpast
      · rfl
  | none => exact h

end Renewed

/-! ## The load of a manager -/

section Load

variable {maxTasks : Nat → Nat} {s s' : State} {l : Label}

/-- A step makes a task active only where its `submit` saves it. -/
theorem active_of_move (ht : Tracked s) (h : Renewed s) (hmove : Move maxTasks s l s') {id : Nat}
    (hid : s'.active id = true) :
    s.active id = true ∨
      ∃ n m info, s.calls n = .admitted m id info ∧ (s'.calls n).admits = none := by
  cases hmove with
  | submit _ hstore => exact .inl (active_congr (congrFun hstore id) ▸ hid)
  | quiet hstore => exact .inl (active_congr (congrFun hstore id) ▸ hid)
  | @saved l n m id' info hpc =>
    by_cases hne : id = id'
    · subst hne
      refine .inr ⟨n, m, info, hpc, ?_⟩
      change (Function.update s.calls n (.spawning id) n).admits = none
      rw [Function.update_self]
      rfl
    · exact .inl ((active_save_of_ne hne).symm.trans hid)
  | spawn => exact .inl hid
  | @cancel n m id' purpose info now hpc =>
    by_cases hne : id = id'
    · subst hne
      obtain ⟨-, hstatus⟩ := ht.cancels n id info (by rw [hpc]; rfl)
      change (s.save id info).active id = true at hid
      rw [active_save_self, hstatus] at hid
      cases hid
    · exact .inl ((active_save_of_ne hne).symm.trans hid)
  | @delete s' l n m reaper id' ids hpc hstore =>
    by_cases hne : id = id'
    · subst hne
      rw [active_of_none (by rw [hstore, Function.update_self])] at hid
      cases hid
    · have hsame : s'.store id = s.store id := by rw [hstore, Function.update_of_ne hne]
      exact .inl (active_congr hsame ▸ hid)
  | @worker s' id' ok now saved pc hpc hstore =>
    refine .inl ?_
    rw [active_congr (congrFun hstore id)] at hid
    have hmove := move_of_workerStep (ht.fits id') hpc
    generalize hold : s.workers id' = old at hmove
    cases hmove with
    | goes => exact hid
    | fetches => exact hid
    | blind => exact hid
    | @savesActive _ _ info hok hsaves =>
      by_cases hne : id = id'
      · subst hne
        exact h.renews id (by rw [hold, hsaves])
      · exact (active_save_of_ne hne).symm.trans hid
    | @savesTerminal info hok hstatus =>
      by_cases hne : id = id'
      · subst hne
        rw [Option.elim_some, active_save_self] at hid
        rcases hstatus with hstatus | hstatus <;> rw [hstatus] at hid <;> cases hid
      · exact (active_save_of_ne hne).symm.trans hid
  | moved => exact .inl hid
  | none => exact .inl hid

/-- A step keeps what is known of the tasks that are accepted. -/
theorem accepted_of_move (hmove : Move maxTasks s l s') {id : Nat} (hid : id < s.nextTask) :
    s'.accepted id = s.accepted id := by
  cases hmove with
  | submit _ _ _ _ _ _ _ _ _ haccepted => rw [haccepted, Function.update_of_ne hid.ne]
  | quiet _ _ _ _ haccepted => rw [haccepted]
  | saved => rfl
  | spawn => rfl
  | cancel => rfl
  | delete _ _ _ _ _ _ haccepted => rw [haccepted]
  | worker _ _ _ _ _ _ haccepted => rw [haccepted]
  | moved => rfl
  | none => rfl

theorem mem_load_of_move (ht : Tracked s) (h : Renewed s) (hmove : Move maxTasks s l s') {m id : Nat}
    (hid : id ∈ s'.load m) :
    id ∈ s.load m ∨ ∃ n info, s.calls n = .admitted m id info ∧ (s'.calls n).admits = none := by
  obtain ⟨-, hactive, hmanager⟩ := mem_load.mp hid
  rcases active_of_move ht h hmove hactive with hold | ⟨n, m', info, hpc, hadmits⟩
  · have hlt : id < s.nextTask := by
      by_contra hle
      exact ht.saved_of_active hold (.inl (Nat.le_of_not_lt hle))
    rw [accepted_of_move hmove hlt] at hmanager
    exact .inl (mem_load.mpr ⟨hlt, hold, hmanager⟩)
  · have hunsaved : (s.calls n).unsaved = some (m', id, info) := by rw [hpc]; rfl
    obtain ⟨hlt, -⟩ := ht.launch n id (CallPc.launches_of_unsaved hunsaved)
    rw [accepted_of_move hmove hlt, (ht.pending n m' id info hunsaved).2] at hmanager
    subst hmanager
    exact .inr ⟨n, info, hpc, hadmits⟩

end Load

/-- What holds of the `submit`s that have the admission lock of their manager, and of its load. -/
structure Admits (maxTasks : Nat → Nat) (s : State) : Prop where
  lock : ∀ n m, (s.calls n).admits = some m → s.admissionLock m = some n
  listing : ∀ n m id info left active, s.calls n = .listing m id info left active →
    ((s.load m).filter (· ∉ left)).card ≤ active
  admitted : ∀ n m id info, s.calls n = .admitted m id info → (s.load m).card < maxTasks m
  capacity : ∀ m, (s.load m).card ≤ maxTasks m

theorem admits_init (maxTasks : Nat → Nat) : Admits maxTasks init where
  lock := fun _ _ h => (by cases h)
  listing := fun _ _ _ _ _ _ h => (by cases h)
  admitted := fun _ _ _ _ h => (by cases h)
  capacity := fun m => Nat.zero_le (maxTasks m)

namespace Admits

variable {maxTasks : Nat → Nat} {s s' : State} {l : Label}

/-- The admission lock has one owner. -/
theorem owner (h : Admits maxTasks s) {n n' m : Nat} (hn : (s.calls n).admits = some m)
    (hn' : (s.calls n').admits = some m) : n = n' :=
  Option.some.inj ((h.lock n m hn).symm.trans (h.lock n' m hn'))

/-- The calls that have an admission lock stay where they are, but for those that give it back. -/
theorem kept (ht : Tracked s) (hr : Renewed s) (h : Admits maxTasks s)
    (hmove : Move maxTasks s l s')
    (hcalls : ∀ n, s'.calls n = s.calls n ∨ (s'.calls n).admits = none)
    (hlock : ∀ m, s'.admissionLock m = s.admissionLock m ∨
      ∃ n, (s.calls n).admits = some m ∧ (s'.calls n).admits = none) : Admits maxTasks s' := by
  -- while a `submit` has the lock, no other one leaves, and the load does not grow
  have hstays : ∀ n m, (s'.calls n).admits = some m → s'.calls n = s.calls n ∧
      ∀ n', (s.calls n').admits = some m → (s'.calls n').admits ≠ none := by
    intro n m hn
    have hsame : s'.calls n = s.calls n := by
      rcases hcalls n with hsame | hnone
      · exact hsame
      · rw [hnone] at hn
        cases hn
    refine ⟨hsame, fun n' hn' hleft => ?_⟩
    obtain rfl := h.owner (hsame ▸ hn) hn'
    rw [hleft] at hn
    cases hn
  have hload : ∀ n m, (s'.calls n).admits = some m → s'.load m ⊆ s.load m := by
    intro n m hn id hid
    rcases mem_load_of_move ht hr hmove hid with hold | ⟨n', info, hpc, hleft⟩
    · exact hold
    · exact absurd hleft ((hstays n m hn).2 n' (by rw [hpc]; rfl))
  refine ⟨?_, ?_, ?_, ?_⟩
  · intro n m hn
    obtain ⟨hsame, hothers⟩ := hstays n m hn
    rcases hlock m with hkept | ⟨n', hn', hleft⟩
    · rw [hkept]
      exact h.lock n m (hsame ▸ hn)
    · exact absurd hleft (hothers n' hn')
  · intro n m id info left active hpc
    have hn : (s'.calls n).admits = some m := by rw [hpc]; rfl
    have hold := h.listing n m id info left active ((hstays n m hn).1 ▸ hpc)
    exact (Finset.card_le_card (Finset.filter_subset_filter _ (hload n m hn))).trans hold
  · intro n m id info hpc
    have hn : (s'.calls n).admits = some m := by rw [hpc]; rfl
    have hold := h.admitted n m id info ((hstays n m hn).1 ▸ hpc)
    exact (Finset.card_le_card (hload n m hn)).trans_lt hold
  · intro m
    by_cases hleaves : ∃ n id info, s.calls n = .admitted m id info ∧ (s'.calls n).admits = none
    · -- the one task that is saved now was not counted in the load that was below the capacity
      obtain ⟨n, id, info, hpc, -⟩ := hleaves
      have hsub : s'.load m ⊆ insert id (s.load m) := by
        intro id' hid'
        rcases mem_load_of_move ht hr hmove hid' with hold | ⟨n', info', hpc', -⟩
        · exact Finset.mem_insert_of_mem hold
        · obtain rfl : n = n' := h.owner (m := m) (by rw [hpc]; rfl) (by rw [hpc']; rfl)
          rw [hpc] at hpc'
          cases hpc'
          exact Finset.mem_insert_self ..
      have hcard := (Finset.card_le_card hsub).trans (Finset.card_insert_le ..)
      have hbelow := h.admitted n m id info hpc
      omega
    · have hsub : s'.load m ⊆ s.load m := by
        intro id hid
        rcases mem_load_of_move ht hr hmove hid with hold | ⟨n, info, hpc, hleft⟩
        · exact hold
        · exact absurd ⟨n, id, info, hpc, hleft⟩ hleaves
      exact (Finset.card_le_card hsub).trans (h.capacity m)

/-- The listing comes to the next record. -/
theorem card_listed {load : Finset Nat} {left : List Nat} {active j : Nat} {isActive : Bool}
    (h : (load.filter (· ∉ left)).card ≤ active) (hj : j ∈ load → isActive = true) :
    (load.filter (· ∉ left.erase j)).card ≤ if isActive then active + 1 else active := by
  have hsub : ∀ id ∈ load.filter (· ∉ left.erase j), id ≠ j → id ∈ load.filter (· ∉ left) := by
    intro id hid hne
    obtain ⟨hload, hleft⟩ := Finset.mem_filter.mp hid
    exact Finset.mem_filter.mpr ⟨hload, fun hmem => hleft ((List.mem_erase_of_ne hne).mpr hmem)⟩
  cases hactive : isActive with
  | true =>
    have hinsert : load.filter (· ∉ left.erase j) ⊆ insert j (load.filter (· ∉ left)) := by
      intro id hid
      by_cases hne : id = j
      · subst hne
        exact Finset.mem_insert_self ..
      · exact Finset.mem_insert_of_mem (hsub id hid hne)
    have hcard := (Finset.card_le_card hinsert).trans (Finset.card_insert_le ..)
    rw [if_pos rfl]
    omega
  | false =>
    refine (Finset.card_le_card fun id hid => hsub id hid ?_).trans h
    rintro rfl
    rw [hj (Finset.mem_filter.mp hid).1] at hactive
    cases hactive

/-- A `submit` counts. -/
theorem counts (h : Admits maxTasks s) {n : Nat} {pc : CallPc} (hstore : s'.store = s.store)
    (hnext : s'.nextTask = s.nextTask) (haccepted : s'.accepted = s.accepted)
    (hquiet : QuietCall maxTasks s s' n pc) : Admits maxTasks s' := by
  have hload : ∀ m, s'.load m = s.load m := fun m => Finset.ext fun id => by
    simp only [mem_load, State.active, hstore, hnext, haccepted]
  have hself : s'.calls n = pc := by rw [hquiet.calls, Function.update_self]
  have hother : ∀ n', n' ≠ n → s'.calls n' = s.calls n' := fun n' hne => by
    rw [hquiet.calls, Function.update_of_ne hne]
  refine ⟨?_, ?_, ?_, ?_⟩
  · intro n' m hn'
    by_cases hne : n' = n
    · subst hne
      rw [hself] at hn'
      rcases hquiet.admits m hn' with hnew | ⟨hold, hsame⟩
      · exact hnew
      · rw [hsame]
        exact h.lock n' m hold
    · rw [hother n' hne] at hn'
      have hold := h.lock n' m hn'
      rcases hquiet.lock m with hsame | hn | ⟨hfree, -⟩
      · rw [hsame, hold]
      · exact absurd (h.owner hn' hn) hne
      · rw [hfree] at hold
        cases hold
  · intro n' m id info left active hpc
    rw [hload]
    by_cases hne : n' = n
    · subst hne
      rcases hquiet.listing m id info left active (hself.symm.trans hpc) with
        rfl | ⟨j, left₀, active₀, hold, rfl, rfl⟩
      · -- nothing has been looked at yet
        have hnone : (s.load m).filter (· ∉ List.range s.nextTask) = ∅ := by
          refine Finset.filter_eq_empty_iff.mpr fun id hid => ?_
          exact not_not_intro (List.mem_range.mpr (mem_load.mp hid).1)
        rw [hnone, Finset.card_empty]
        exact Nat.zero_le _
      · exact card_listed (h.listing n' m id info left₀ active₀ hold) fun hj => (mem_load.mp hj).2.1
    · exact h.listing n' m id info left active (hother n' hne ▸ hpc)
  · intro n' m id info hpc
    rw [hload]
    by_cases hne : n' = n
    · subst hne
      obtain ⟨active, hold, hlt⟩ := hquiet.admitted m id info (hself.symm.trans hpc)
      have hcount := h.listing n' m id info [] active hold
      rw [Finset.filter_true_of_mem fun id _ => List.not_mem_nil] at hcount
      exact hcount.trans_lt hlt
    · exact h.admitted n' m id info (hother n' hne ▸ hpc)
  · intro m
    rw [hload]
    exact h.capacity m

/-- One call goes on to where it has no admission lock. -/
theorem calls_kept {n : Nat} {pc : CallPc} (hcalls : s'.calls = Function.update s.calls n pc)
    (hpc : pc.admits = none) (n' : Nat) :
    s'.calls n' = s.calls n' ∨ (s'.calls n').admits = none := by
  rw [hcalls]
  by_cases hne : n' = n
  · subst hne
    exact .inr (by rwa [Function.update_self])
  · exact .inl (Function.update_of_ne hne _ _)

/-- What a step keeps. -/
theorem of_move (ht : Tracked s) (hr : Renewed s) (h : Admits maxTasks s)
    (hmove : Move maxTasks s l s') : Admits maxTasks s' := by
  have hkept := h.kept ht hr hmove
  cases hmove with
  | submit _ _ _ _ _ _ _ _ _ _ hlock hcalls =>
    exact hkept (calls_kept hcalls rfl) fun m => .inl (congrFun hlock m)
  | quiet hstore _ _ hnext haccepted _ _ hquiet => exact h.counts hstore hnext haccepted hquiet
  | @saved l n m id info hpc =>
    refine hkept (calls_kept rfl rfl) fun m' => ?_
    by_cases hne : m' = m
    · subst hne
      refine .inr ⟨n, by rw [hpc]; rfl, ?_⟩
      change (Function.update s.calls n (.spawning id) n).admits = none
      rw [Function.update_self]
      rfl
    · exact .inl (Function.update_of_ne hne _ _)
  | spawn => exact hkept (calls_kept rfl rfl) fun _ => .inl rfl
  | @cancel n m id purpose =>
    have hpc := CallPc.admits_eq_none (plain_next m id purpose).launches
    exact hkept (calls_kept rfl hpc) fun _ => .inl rfl
  | delete _ _ _ _ _ _ _ hlock hcalls =>
    exact hkept (calls_kept hcalls rfl) fun m => .inl (congrFun hlock m)
  | worker _ _ _ _ _ _ _ hlock hcalls =>
    exact hkept (fun n => .inl (congrFun hcalls n)) fun m => .inl (congrFun hlock m)
  | moved => exact hkept (fun _ => .inl rfl) fun _ => .inl rfl
  | none => exact h

end Admits

section Run

variable {maxTasks : Nat → Nat} {ls : List Label} {s : State}

/-- The pending and running tasks of a manager are never more than its `max_tasks`, where no `cancel`
saves while the worker is about to save the task as running or pending. -/
theorem load_le_of_run
    (hok : Along (step maxTasks) (fun s l => cancelInTurn s l = true) init ls)
    (hrun : exec (step maxTasks) init ls = some s) (m : Nat) : (s.load m).card ≤ maxTasks m := by
  have hall : Tracked s ∧ Renewed s ∧ Admits maxTasks s := by
    refine exec_invariant_along (I := fun s => Tracked s ∧ Renewed s ∧ Admits maxTasks s)
      (fun s l s' ⟨ht, hr, ha⟩ hl hstep => ?_) ⟨tracked_init, renewed_init, admits_init maxTasks⟩
      hok hrun
    have hmove := move_of_step hstep
    exact ⟨ht.of_move hmove, hr.of_move ht hl hmove, ha.of_move ht hr hmove⟩
  exact hall.2.2.capacity m

end Run

/-- With the only place taken by a worker that has fetched its record, a `cancel` of the task begins
before its handle is registered, and the next `submit` after it; the worker has not saved yet. -/
def placeTakenTwice : List Label :=
  [.submit 0 "export" 0 0, .call 0 true 0, .read 0 0, .call 0 true 0, .call 0 true 0, .call 0 true 0,
    .worker 0 true 0, .worker 0 true 0, .cancel 0 0, .call 1 true 0, .call 1 true 0, .call 1 true 0,
    .call 1 true 0, .call 1 true 0, .call 1 true 0, .submit 0 "export" 0 0, .call 2 true 0, .read 2 1,
    .read 2 0, .call 2 true 0, .call 2 true 0]

/-- Two `submit`s for one place: the second finds the first one's record, and gives up. -/
def placeTakenOnce : List Label :=
  [.submit 0 "export" 0 0, .submit 0 "export" 0 0, .call 1 true 0, .read 1 0, .read 1 1, .call 1 true 0,
    .call 1 true 0, .call 0 true 0, .read 0 1, .read 0 0, .call 0 true 0, .call 1 true 0]

theorem load_placeTakenOnce : ∃ s, exec (step fun _ => 1) init placeTakenOnce = some s ∧
    (s.load 0).card ≤ 1 := by
  have hok : Along (step fun _ => 1) (fun s l => cancelInTurn s l = true) init placeTakenOnce := by
    decide
  exact ⟨_, rfl, load_le_of_run hok rfl 0⟩

/-- The worker saves the task as running once its place is given to the next one. -/
theorem capacity_exceeded :
    ∃ s, exec (step fun _ => 1) init (placeTakenTwice ++ [.worker 0 true 0]) = some s ∧
      1 < (s.load 0).card :=
  ⟨_, rfl, by decide⟩

end Tasks

end Apcore
