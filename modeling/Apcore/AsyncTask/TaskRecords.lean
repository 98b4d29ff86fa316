import Apcore.AsyncTask.TaskMoves

/-! # `AsyncTask.TaskRecords` — what holds of the tasks in every run

Whatever the parties do to each other's records, a task has no record before its `submit` has saved
one, and no worker before its `submit` has spawned it; and what a worker or a `cancel` has ready to be
saved has the status it is to be saved with. -/

namespace Apcore

namespace Tasks

/-! ## Workers -/

namespace WorkerPc

/-- About to save the task as running, or as pending once more. -/
def savesActive : WorkerPc → Bool
  | savingRunning _ => true
  | savingPending _ => true
  | _ => false

/-- About to save the outcome. -/
def savesTerminal : WorkerPc → Bool
  | savingTerminal _ => true
  | _ => false

def saves (pc : WorkerPc) : Bool := pc.savesActive || pc.savesTerminal

/-- `run_task` is over. -/
def past : WorkerPc → Bool
  | returned => true
  | gone => true
  | _ => false

/-- The record a worker has ready has the status it is saved with. -/
def Fits : WorkerPc → Prop
  | savingRunning info => info.status = .running
  | savingPending info => info.status = .pending
  | checking info => info.status = .completed ∨ info.status = .failed
  | savingTerminal info => info.status = .completed ∨ info.status = .failed
  | _ => True

theorem past_eq_false {pc : WorkerPc} (h : pc.savesActive = true) : pc.past = false := by
  cases pc <;> first | rfl | cases h

theorem savesActive_of_saves {pc : WorkerPc} (h : pc.saves = false) : pc.savesActive = false :=
  (Bool.or_eq_false_iff.mp h).1

end WorkerPc

/-- What a step of `run_task` comes to, as far as the records go. -/
inductive WorkerMove (record : Option TaskInfo) (ok : Bool) :
    WorkerPc → Option TaskInfo → WorkerPc → Prop where
  /-- Nothing is saved, nor about to be. -/
  | goes {pc pc' : WorkerPc} (hpast : pc.past = true → pc'.past = true) (hsaves : pc'.saves = false) :
    WorkerMove record ok pc none pc'
  /-- A record is fetched, and about to be saved. -/
  | fetches {pc pc' : WorkerPc} {info : TaskInfo} (hrecord : record = some info)
    (hstatus : info.status ≠ .cancelled) (hpast : pc.past = false) :
    WorkerMove record ok pc none pc'
  /-- The outcome is about to be saved, whatever the record is. -/
  | blind {info : TaskInfo} (hmissing : ok = false ∨ record = none) :
    WorkerMove record ok (.checking info) none (.savingTerminal info)
  | savesActive {pc pc' : WorkerPc} {info : TaskInfo} (hok : ok = true) (hpc : pc.savesActive = true)
    (hactive : info.status.isActive = true) (hsaves : pc'.saves = false) :
    WorkerMove record ok pc (some info) pc'
  | savesTerminal {info : TaskInfo} (hok : ok = true)
    (hstatus : info.status = .completed ∨ info.status = .failed) :
    WorkerMove record ok (.savingTerminal info) (some info) .returned

section Worker

variable {maxRetries : Nat} {record saved : Option TaskInfo} {ok : Bool} {now : ℚ}
  {pc pc' : WorkerPc}

theorem fits_settle (info : TaskInfo) (maxRetries : Nat) (now : ℚ) (outcome : Except String Json) :
    (settle info maxRetries now outcome).Fits := by
  cases outcome with
  | ok output => exact .inl rfl
  | error e =>
    rw [settle]
    split_ifs
    · exact rfl
    · exact .inr rfl

theorem not_absent_of_workerStep (h : workerStep maxRetries record ok now pc = some (saved, pc')) :
    pc ≠ .absent := by
  rintro rfl
  cases h

theorem fits_of_workerStep (hfits : pc.Fits)
    (h : workerStep maxRetries record ok now pc = some (saved, pc')) : pc'.Fits := by
  rw [workerStep.eq_def] at h
  split at h
  · cases h
  · cases h
    trivial
  · split at h
    · split_ifs at h
      · cases h
        trivial
      · cases h
        exact rfl
    · cases h
      trivial
  · split_ifs at h <;> cases h <;> trivial
  · cases h
  · split at h
    · split_ifs at h
      · cases h
        trivial
      · cases h
        exact fits_settle ..
    · cases h
      trivial
  · cases h
    trivial
  · split at h
    · split_ifs at h
      · cases h
        trivial
      · cases h
        exact hfits
    · cases h
      exact hfits
  · cases h
    trivial
  · cases h
    trivial
  · cases h

theorem move_of_workerStep (hfits : pc.Fits)
    (h : workerStep maxRetries record ok now pc = some (saved, pc')) :
    WorkerMove record ok pc saved pc' := by
  rw [workerStep.eq_def] at h
  split at h
  · cases h
  · cases h
    exact .goes nofun rfl
  · split at h
    · split_ifs at h with hcancelled
      · cases h
        exact .goes nofun rfl
      · cases h
        exact .fetches rfl hcancelled rfl
    · cases h
      exact .goes nofun rfl
  · split_ifs at h with hok
    · cases h
      exact .savesActive hok rfl (by rw [(hfits : _ = _)]; rfl) rfl
    · cases h
      exact .goes nofun rfl
  · cases h
  · split at h
    · split_ifs at h with hcancelled
      · cases h
        exact .goes nofun rfl
      · cases h
        exact .fetches rfl hcancelled rfl
    · cases h
      exact .goes nofun rfl
  · cases h
    split_ifs with hok
    · exact .savesActive hok rfl (by rw [(hfits : _ = _)]; rfl) rfl
    · exact .goes nofun rfl
  · split at h
    · split_ifs at h with hcancelled
      · cases h
        exact .goes nofun rfl
      · cases h
        exact .fetches rfl hcancelled rfl
    · next hmissing =>
      cases h
      refine .blind ?_
      cases ok with
      | false => exact .inl rfl
      | true =>
        cases record with
        | none => exact .inr rfl
        | some current => exact (hmissing current rfl rfl).elim
  · cases h
    split_ifs with hok
    · exact .savesTerminal hok hfits
    · exact .goes nofun rfl
  · cases h
    exact .goes (fun _ => rfl) rfl
  · cases h

end Worker

/-! ## Tasks that are not saved yet -/

/-- No `submit` has saved a record under the id. -/
def State.Unsaved (s : State) (id : Nat) : Prop :=
  s.nextTask ≤ id ∨ ∃ n m info, (s.calls n).unsaved = some (m, id, info)

/-- The `submit` of the task has gone on to spawn its worker. -/
def State.Launched (s : State) (id : Nat) : Prop :=
  id < s.nextTask ∧ ∀ n, (s.calls n).launches ≠ some id

/-- What holds of the tasks in every run. -/
structure Tracked (s : State) : Prop where
  absent : ∀ id, s.Unsaved id → s.store id = none ∧ s.settled id = none
  spawned : ∀ id, s.workers id ≠ .absent → s.Launched id
  launch : ∀ n id, (s.calls n).launches = some id → id < s.nextTask ∧ (s.accepted id).call = n
  pending : ∀ n m id info, (s.calls n).unsaved = some (m, id, info) →
    info.status = .pending ∧ (s.accepted id).manager = m
  cancels : ∀ n id info, (s.calls n).cancels = some (id, info) →
    ¬s.Unsaved id ∧ info.status = .cancelled
  marked : ∀ n, ∀ id ∈ (s.calls n).marked, ¬s.Unsaved id
  fits : ∀ id, (s.workers id).Fits
  later : ∀ n, s.nextCall ≤ n → s.calls n = .idle

theorem tracked_init : Tracked init where
  absent := fun _ _ => ⟨rfl, rfl⟩
  spawned := fun _ h => (h rfl).elim
  launch := fun _ _ h => (by cases h)
  pending := fun _ _ _ _ h => (by cases h)
  cancels := fun _ _ _ h => (by cases h)
  marked := fun _ _ h => (by cases h)
  fits := fun _ => trivial
  later := fun _ _ => rfl

namespace Tracked

variable {s s' : State} {id : Nat}

theorem not_unsaved_of_launched (h : s.Launched id) : ¬s.Unsaved id := by
  rintro (hnext | ⟨n, m, info, hcall⟩)
  · exact absurd h.1 (Nat.not_lt.mpr hnext)
  · exact h.2 n (CallPc.launches_of_unsaved hcall)

theorem saved_of_active (h : Tracked s) (hactive : s.active id = true) : ¬s.Unsaved id := by
  intro hunsaved
  rw [State.active, (h.absent id hunsaved).1] at hactive
  cases hactive

theorem saved_of_terminal (h : Tracked s) (hterminal : s.terminal id = true) : ¬s.Unsaved id := by
  intro hunsaved
  rw [State.terminal, (h.absent id hunsaved).1] at hterminal
  cases hterminal

/-- Records change, but none that is not saved yet. -/
theorem records (h : Tracked s) (hworkers : s'.workers = s.workers)
    (hnext : s'.nextTask = s.nextTask) (haccepted : s'.accepted = s.accepted)
    (hnextCall : s'.nextCall = s.nextCall) (hcalls : s'.calls = s.calls)
    (hrecord : ∀ id, s.Unsaved id → s'.store id = s.store id ∧ s'.settled id = s.settled id) :
    Tracked s' := by
  have hunsaved : ∀ id, s'.Unsaved id ↔ s.Unsaved id := fun id => by
    rw [State.Unsaved, hnext, hcalls]
    rfl
  refine ⟨?_, ?_, ?_, ?_, ?_, ?_, ?_, ?_⟩
  · intro id hid
    have hid' := (hunsaved id).mp hid
    rw [(hrecord id hid').1, (hrecord id hid').2]
    exact h.absent id hid'
  · intro id hid
    rw [State.Launched, hnext, hcalls]
    exact h.spawned id (hworkers ▸ hid)
  · rw [hnext, haccepted, hcalls]
    exact h.launch
  · rw [haccepted, hcalls]
    exact h.pending
  · intro n id info hcall
    rw [hunsaved]
    exact h.cancels n id info (hcalls ▸ hcall)
  · intro n id hid
    rw [hunsaved]
    exact h.marked n id (hcalls ▸ hid)
  · rw [hworkers]
    exact h.fits
  · rw [hnextCall, hcalls]
    exact h.later

theorem save (h : Tracked s) (hid : ¬s.Unsaved id) (info : TaskInfo) : Tracked (s.save id info) := by
  refine h.records rfl rfl rfl rfl rfl fun id' hid' => ?_
  have hne : id' ≠ id := by
    rintro rfl
    exact hid hid'
  exact ⟨State.store_save_of_ne hne, State.settled_save_of_ne hne⟩

/-- The worker of a launched task goes on. -/
theorem setWorker (h : Tracked s) {pc : WorkerPc} (hid : s.Launched id) (hfits : pc.Fits)
    (hstore : s'.store = s.store) (hsettled : s'.settled = s.settled)
    (hworkers : s'.workers = Function.update s.workers id pc)
    (hnext : s'.nextTask = s.nextTask) (haccepted : s'.accepted = s.accepted)
    (hnextCall : s'.nextCall = s.nextCall) (hcalls : s'.calls = s.calls) : Tracked s' := by
  have hunsaved : ∀ id, s'.Unsaved id ↔ s.Unsaved id := fun id => by
    rw [State.Unsaved, hnext, hcalls]
    rfl
  refine ⟨?_, ?_, ?_, ?_, ?_, ?_, ?_, ?_⟩
  · intro id' hid'
    rw [hstore, hsettled]
    exact h.absent id' ((hunsaved id').mp hid')
  · have hold : ∀ id', s'.workers id' ≠ .absent → s.Launched id' := by
      rw [hworkers]
      exact (Function.forall_update_iff s.workers fun id' w => w ≠ .absent → s.Launched id').mpr
        ⟨fun _ => hid, fun id' _ => h.spawned id'⟩
    intro id' hid'
    rw [State.Launched, hnext, hcalls]
    exact hold id' hid'
  · rw [hnext, haccepted, hcalls]
    exact h.launch
  · rw [haccepted, hcalls]
    exact h.pending
  · intro n id' info hcall
    rw [hunsaved]
    exact h.cancels n id' info (hcalls ▸ hcall)
  · intro n id' hid'
    rw [hunsaved]
    exact h.marked n id' (hcalls ▸ hid')
  · rw [hworkers]
    exact (Function.forall_update_iff s.workers fun _ w => w.Fits).mpr ⟨hfits, fun id' _ => h.fits id'⟩
  · rw [hnextCall, hcalls]
    exact h.later

/-- A call goes on, or another one begins. -/
theorem goes (h : Tracked s) {n : Nat} {pc : CallPc} (hstore : s'.store = s.store)
    (hsettled : s'.settled = s.settled) (hworkers : s'.workers = s.workers)
    (hnext : s'.nextTask = s.nextTask) (haccepted : s'.accepted = s.accepted)
    (hnextCall : s.nextCall ≤ s'.nextCall) (hn : pc = .idle ∨ n < s'.nextCall ∨ s.calls n ≠ .idle)
    (hcalls : s'.calls = Function.update s.calls n pc)
    (hpc : ∀ x, pc.unsaved = some x → (s.calls n).unsaved = some x)
    (hlaunches : ∀ id, pc.launches = some id → (s.calls n).launches = some id)
    (hcancels : ∀ id info, pc.cancels = some (id, info) →
      ¬s.Unsaved id ∧ info.status = .cancelled)
    (hmarked : ∀ id ∈ pc.marked, ¬s.Unsaved id) : Tracked s' := by
  have hback : ∀ n' x, (s'.calls n').unsaved = some x → (s.calls n').unsaved = some x := by
    rw [hcalls]
    exact (Function.forall_update_iff s.calls fun n' c =>
      ∀ x, c.unsaved = some x → (s.calls n').unsaved = some x).mpr ⟨hpc, fun _ _ _ hx => hx⟩
  have hlaunch : ∀ n' id, (s'.calls n').launches = some id → (s.calls n').launches = some id := by
    rw [hcalls]
    exact (Function.forall_update_iff s.calls fun n' c =>
      ∀ id, c.launches = some id → (s.calls n').launches = some id).mpr
        ⟨hlaunches, fun _ _ _ hid => hid⟩
  have hunsaved : ∀ id, s'.Unsaved id → s.Unsaved id := by
    rintro id (hle | ⟨n', m, info, hcall⟩)
    · exact .inl (hnext ▸ hle)
    · exact .inr ⟨n', m, info, hback n' _ hcall⟩
  refine ⟨?_, ?_, ?_, ?_, ?_, ?_, ?_, ?_⟩
  · intro id hid
    rw [hstore, hsettled]
    exact h.absent id (hunsaved id hid)
  · intro id hid
    rw [hworkers] at hid
    obtain ⟨hlt, hnone⟩ := h.spawned id hid
    exact ⟨hnext ▸ hlt, fun n' hn' => hnone n' (hlaunch n' id hn')⟩
  · intro n' id hid
    rw [hnext, haccepted]
    exact h.launch n' id (hlaunch n' id hid)
  · intro n' m id info hcall
    rw [haccepted]
    exact h.pending n' m id info (hback n' _ hcall)
  · have hold : ∀ n' id info, (s'.calls n').cancels = some (id, info) →
        ¬s.Unsaved id ∧ info.status = .cancelled := by
      rw [hcalls]
      exact (Function.forall_update_iff s.calls fun _ c =>
        ∀ id info, c.cancels = some (id, info) → ¬s.Unsaved id ∧ info.status = .cancelled).mpr
          ⟨hcancels, fun n' _ => h.cancels n'⟩
    intro n' id info hcall
    obtain ⟨hsaved, hstatus⟩ := hold n' id info hcall
    exact ⟨fun hid => hsaved (hunsaved id hid), hstatus⟩
  · have hold : ∀ n', ∀ id ∈ (s'.calls n').marked, ¬s.Unsaved id := by
      rw [hcalls]
      exact (Function.forall_update_iff s.calls fun _ c => ∀ id ∈ c.marked, ¬s.Unsaved id).mpr
        ⟨hmarked, fun n' _ => h.marked n'⟩
    intro n' id hid hid'
    exact hold n' id hid (hunsaved id hid')
  · rw [hworkers]
    exact h.fits
  · intro n' hn'
    have hidle := h.later n' (hnextCall.trans hn')
    rw [hcalls]
    by_cases hne : n' = n
    · subst hne
      rw [Function.update_self]
      rcases hn with hpc | hlt | hbusy
      · exact hpc
      · exact absurd hlt (Nat.not_lt.mpr hn')
      · exact absurd hidle hbusy
    · rwa [Function.update_of_ne hne]

/-- A call goes on to where it is plain. -/
theorem goes_plain (h : Tracked s) {n : Nat} {pc : CallPc} (hplain : pc.Plain)
    (hold : s.calls n ≠ .idle) (hstore : s'.store = s.store) (hsettled : s'.settled = s.settled)
    (hworkers : s'.workers = s.workers) (hnext : s'.nextTask = s.nextTask)
    (haccepted : s'.accepted = s.accepted) (hnextCall : s'.nextCall = s.nextCall)
    (hcalls : s'.calls = Function.update s.calls n pc) : Tracked s' := by
  refine h.goes hstore hsettled hworkers hnext haccepted hnextCall.ge (.inr (.inr hold)) hcalls
    ?_ ?_ ?_ ?_
  · rintro ⟨m, id, info⟩ hid
    have hnone := CallPc.launches_of_unsaved hid
    rw [hplain.launches] at hnone
    cases hnone
  · intro id hid
    rw [hplain.launches] at hid
    cases hid
  · intro id info hid
    rw [hplain.cancels] at hid
    cases hid
  · intro id hid
    rw [hplain.marked] at hid
    cases hid

/-- The task of a `submit` that begins. -/
theorem submit (h : Tracked s) {m : Nat} {info : TaskInfo} {x : Accepted}
    (hpending : info.status = .pending) (hmanager : x.manager = m) (hcall : x.call = s.nextCall)
    (hstore : s'.store = s.store) (hsettled : s'.settled = s.settled)
    (hworkers : s'.workers = s.workers) (hnext : s'.nextTask = s.nextTask + 1)
    (hnextCall : s'.nextCall = s.nextCall + 1)
    (haccepted : s'.accepted = Function.update s.accepted s.nextTask x)
    (hcalls : s'.calls = Function.update s.calls s.nextCall (.admitting m s.nextTask info)) :
    Tracked s' := by
  have hself : s'.calls s.nextCall = .admitting m s.nextTask info := by
    rw [hcalls, Function.update_self]
  have hother : ∀ n, n ≠ s.nextCall → s'.calls n = s.calls n := fun n hn => by
    rw [hcalls, Function.update_of_ne hn]
  have hold : ∀ id, id < s.nextTask → s'.accepted id = s.accepted id := fun id hid => by
    rw [haccepted, Function.update_of_ne hid.ne]
  have hnew : s'.accepted s.nextTask = x := by rw [haccepted, Function.update_self]
  have hunsaved : ∀ id, s'.Unsaved id → s.Unsaved id := by
    rintro id (hle | ⟨n, m', info', hn⟩)
    · exact .inl (by omega)
    · by_cases hne : n = s.nextCall
      · subst hne
        rw [hself] at hn
        cases hn
        exact .inl (Nat.le_refl _)
      · rw [hother n hne] at hn
        exact .inr ⟨n, m', info', hn⟩
  refine ⟨?_, ?_, ?_, ?_, ?_, ?_, ?_, ?_⟩
  · intro id hid
    rw [hstore, hsettled]
    exact h.absent id (hunsaved id hid)
  · intro id hid
    rw [hworkers] at hid
    obtain ⟨hlt, hnone⟩ := h.spawned id hid
    refine ⟨by omega, fun n hn => ?_⟩
    by_cases hne : n = s.nextCall
    · subst hne
      rw [hself] at hn
      obtain rfl : s.nextTask = id := Option.some.inj hn
      exact (Nat.lt_irrefl _ hlt)
    · exact hnone n (hother n hne ▸ hn)
  · intro n id hid
    by_cases hne : n = s.nextCall
    · subst hne
      rw [hself] at hid
      obtain rfl : s.nextTask = id := Option.some.inj hid
      exact ⟨by omega, hnew ▸ hcall⟩
    · obtain ⟨hlt, heq⟩ := h.launch n id (hother n hne ▸ hid)
      exact ⟨by omega, by rw [hold id hlt, heq]⟩
  · intro n m' id info' hid
    by_cases hne : n = s.nextCall
    · subst hne
      rw [hself] at hid
      cases hid
      exact ⟨hpending, hnew ▸ hmanager⟩
    · rw [hother n hne] at hid
      have hlt := (h.launch n id (CallPc.launches_of_unsaved hid)).1
      rw [hold id hlt]
      exact h.pending n m' id info' hid
  · intro n id info' hid
    have hne : n ≠ s.nextCall := by
      rintro rfl
      rw [hself] at hid
      cases hid
    obtain ⟨hsaved, hstatus⟩ := h.cancels n id info' (hother n hne ▸ hid)
    exact ⟨fun hid' => hsaved (hunsaved id hid'), hstatus⟩
  · intro n id hid hid'
    have hne : n ≠ s.nextCall := by
      rintro rfl
      rw [hself] at hid
      cases hid
    exact h.marked n id (hother n hne ▸ hid) (hunsaved id hid')
  · rw [hworkers]
    exact h.fits
  · intro n hn
    rw [hother n (by omega)]
    exact h.later n (by omega)

/-- A task is launched by the one `submit` it is from. -/
theorem not_launches (h : Tracked s) {n n' : Nat} (hn : (s.calls n).launches = some id)
    (hne : n' ≠ n) : (s.calls n').launches ≠ some id := by
  intro hn'
  exact hne ((h.launch n' id hn').2.symm.trans (h.launch n id hn).2)

theorem worker_eq_absent (h : Tracked s) {n : Nat} (hn : (s.calls n).launches = some id) :
    s.workers id = .absent := by
  by_contra hworker
  exact (h.spawned id hworker).2 n hn

/-- What a step keeps. -/
theorem of_move (h : Tracked s) {maxTasks : Nat → Nat} {l : Label} (hmove : Move maxTasks s l s') :
    Tracked s' := by
  cases hmove with
  | submit x hstore hcall hpending hmanager hsettled hworkers hnext hnextCall haccepted hlock hcalls =>
    exact h.submit hpending hmanager hcall hstore hsettled hworkers hnext hnextCall haccepted hcalls
  | quiet hstore hsettled hworkers hnext haccepted hnextCall hn hquiet =>
    refine h.goes hstore hsettled hworkers hnext haccepted hnextCall hn hquiet.calls hquiet.unsaved
      hquiet.launches ?_ ?_
    · intro id info hcancels
      obtain ⟨hactive, hstatus⟩ := hquiet.cancels id info hcancels
      exact ⟨h.saved_of_active hactive, hstatus⟩
    · intro id hmarked
      rcases hquiet.marked id hmarked with hold | hterminal
      · exact h.marked _ id hold
      · exact h.saved_of_terminal hterminal
  | @saved l n m id info hpc =>
    have hlaunches : (s.calls n).launches = some id := by rw [hpc]; rfl
    have hold : s.calls n ≠ .idle := by rw [hpc]; exact nofun
    -- the call moves first: with the record saved, the task is not one that it has yet to save
    have hgone : Tracked (s.leaveAdmission n m (.spawning id)) := by
      refine h.goes rfl rfl rfl rfl rfl (Nat.le_refl _) (.inr (.inr hold)) rfl ?_ ?_ ?_ ?_
      · intro x hx
        cases hx
      · intro id' hid'
        rwa [hlaunches]
      · intro id' info' hid'
        cases hid'
      · intro id' hid'
        cases hid'
    have hsaved : ¬(s.leaveAdmission n m (.spawning id)).Unsaved id := by
      rintro (hle | ⟨n', m', info', hn'⟩)
      · exact absurd (h.launch n id hlaunches).1 (Nat.not_lt.mpr hle)
      · change (Function.update s.calls n (.spawning id) n').unsaved = _ at hn'
        by_cases hne : n' = n
        · subst hne
          rw [Function.update_self] at hn'
          cases hn'
        · rw [Function.update_of_ne hne] at hn'
          exact h.not_launches hlaunches hne (CallPc.launches_of_unsaved hn')
    exact hgone.save hsaved info
  | @spawn l n id hpc =>
    have hlaunches : (s.calls n).launches = some id := by rw [hpc]; rfl
    have hold : s.calls n ≠ .idle := by rw [hpc]; exact nofun
    have hgone : Tracked (s.setCall n (.registering id)) :=
      h.goes_plain ⟨rfl, rfl, rfl⟩ hold rfl rfl rfl rfl rfl rfl rfl
    have hlaunched : (s.setCall n (.registering id)).Launched id := by
      refine ⟨(h.launch n id hlaunches).1, fun n' hn' => ?_⟩
      change (Function.update s.calls n (.registering id) n').launches = _ at hn'
      by_cases hne : n' = n
      · subst hne
        rw [Function.update_self] at hn'
        cases hn'
      · rw [Function.update_of_ne hne] at hn'
        exact h.not_launches hlaunches hne hn'
    have hfits : WorkerPc.acquiring.Fits := trivial
    exact hgone.setWorker hlaunched hfits rfl rfl rfl rfl rfl rfl rfl
  | @cancel n m id purpose info now hpc =>
    have hid := (h.cancels n id info (by rw [hpc]; rfl)).1
    have hold : (s.save id info).calls n ≠ .idle := by
      change s.calls n ≠ .idle
      rw [hpc]
      exact nofun
    exact (h.save hid info).goes_plain (plain_next m id purpose) hold rfl rfl rfl rfl rfl rfl rfl
  | @delete s' l n m reaper id ids hpc hstore hsettled hworkers hnext hnextCall haccepted hlock hcalls =>
    -- a task that is not saved yet has no record to delete
    have hdeleted : Tracked { s with store := Function.update s.store id none } := by
      refine h.records rfl rfl rfl rfl rfl fun id' hid' => ⟨?_, rfl⟩
      by_cases hne : id' = id
      · subst hne
        exact (Function.update_self ..).trans (h.absent id' hid').1.symm
      · exact Function.update_of_ne hne _ _
    have hold : s.calls n ≠ .idle := by rw [hpc]; exact nofun
    refine hdeleted.goes hstore hsettled hworkers hnext haccepted hnextCall.ge (.inr (.inr hold))
      hcalls ?_ ?_ ?_ ?_
    · intro x hx
      cases hx
    · intro id' hid'
      cases hid'
    · intro id' info' hid'
      cases hid'
    · intro id' hid'
      refine h.marked n id' ?_
      rw [hpc]
      exact List.mem_cons_of_mem _ hid'
  | @worker s' id ok now saved pc hpc hstore hsettled hworkers hnext hnextCall haccepted hlock hcalls =>
    have hlaunched := h.spawned id (not_absent_of_workerStep hpc)
    have hfits := fits_of_workerStep (h.fits id) hpc
    cases saved with
    | none => exact h.setWorker hlaunched hfits hstore hsettled hworkers hnext haccepted hnextCall hcalls
    | some info =>
      exact (h.save (not_unsaved_of_launched hlaunched) info).setWorker hlaunched hfits hstore
        hsettled hworkers hnext haccepted hnextCall hcalls
  | @moved l id pc hpc hold hreturned =>
    refine h.setWorker (h.spawned id hold) ?_ rfl rfl rfl rfl rfl rfl rfl
    rcases hpc with ⟨outcome, rfl⟩ | rfl <;> trivial
  | none => exact h

end Tracked

end Tasks

end Apcore
