import Apcore.Cancel.Aborts

/-! # `Cancel.Drain` — drains return from empty scopes, and miss no completion

A `drain` that sleeps has an execution in its scope, or a notification of it, to come. Together with
the aborts this is what a scope promises, in every state that any run reaches. -/

namespace Apcore

namespace Executions

/-- The scope has a record, or an execution that has left it is about to notify it. -/
def Due (s : State) (scope : Nat) : Prop :=
  (∃ id, (s.record scope id).isSome) ∨
    ∃ id e left, s.executions id = some e ∧ e.task = .notifying scope left

/-- What the calls wait for. -/
structure Woken (s : State) : Prop where
  enabled : ∀ d aborted scope changed, s.calls d = .draining aborted scope (.enabled changed) ∨
    s.calls d = .draining aborted scope (.waiting changed) → changed ≠ .created
  asleep : ∀ d aborted scope, s.calls d = .draining aborted scope (.waiting .enabled) → Due s scope

/-- A scope stays due while records go only to be notified, and notifications stay under way. -/
theorem Due.frame {s s' : State} {scope : Nat} (h : Due s scope)
    (hrecord : ∀ id, (s.record scope id).isSome → Due s' scope)
    (htask : ∀ id e left, s.executions id = some e → e.task = .notifying scope left →
      ∃ e', s'.executions id = some e' ∧ e'.task = .notifying scope left) : Due s' scope := by
  rcases h with ⟨id, hid⟩ | ⟨id, e, left, he, hpc⟩
  · exact hrecord id hid
  · obtain ⟨e', he', hpc'⟩ := htask id e left he hpc
    exact .inr ⟨id, e', left, he', hpc'⟩

theorem notifying_update {executions : Nat → Option Execution} {id scope : Nat} {e e' : Execution}
    (he : executions id = some e)
    (hsame : ∀ left, e.task = .notifying scope left → e'.task = .notifying scope left) :
    ∀ j x left, executions j = some x → x.task = .notifying scope left →
      ∃ x', Function.update executions id (some e') j = some x' ∧
        x'.task = .notifying scope left := by
  intro j x left hx htask
  by_cases hj : j = id
  · subst hj
    obtain rfl : e = x := Option.some.inj (he.symm.trans hx)
    exact ⟨e', Function.update_self .., hsame left htask⟩
  · exact ⟨x, by rwa [Function.update_of_ne hj], htask⟩

/-- A scope stays due along the moves of an execution, unless it is the one that is notified. -/
theorem Due.execution {notify : Notify} {s s' : State} {id : Nat} {e : Execution} {scope : Nat}
    (h : Due s scope) (hrecorded : Recorded s id e) (he : s.executions id = some e)
    (hmove : ExecutionMove notify s id e s') :
    Due s' scope ∨ ∀ d, s'.calls d = State.notifyCall notify scope (s.calls d) := by
  have hset : ∀ other r j, (s.record scope j).isSome → r.isSome = true →
      ((s.setRecord other id r).record scope j).isSome := by
    intro other r j hj hr
    by_cases hsame : scope = other ∧ j = id
    · obtain ⟨rfl, rfl⟩ := hsame
      rwa [record_setRecord_self]
    · rwa [record_setRecord_of_ne _ _ _ (not_and_or.mp hsame)]
  cases hmove with
  | insert hpc =>
    left
    exact h.frame (fun j hj => .inl ⟨j, hset _ _ j hj rfl⟩) (notifying_update he fun _ htask => htask)
  | run hpc =>
    left
    refine h.frame (fun j hj => .inl ⟨j, hj⟩) (notifying_update he fun left htask => ?_)
    rw [hrecorded.unspawned _ hpc] at htask
    cases htask
  | arm hpc hrecord =>
    left
    exact h.frame (fun j hj => .inl ⟨j, hset _ _ j hj rfl⟩) (notifying_update he fun _ htask => htask)
  | pass hpc hrecord =>
    left
    exact h.frame (fun j hj => .inl ⟨j, hj⟩) (notifying_update he fun _ htask => htask)
  | finish hpc =>
    left
    refine h.frame (fun j hj => .inl ⟨j, hj⟩) (notifying_update he fun left htask => ?_)
    rw [hpc] at htask
    cases htask
  | @remove other left hpc =>
    left
    refine h.frame (fun j hj => ?_) (notifying_update he fun left htask => ?_)
    · by_cases hsame : scope = other ∧ j = id
      · -- the record is gone, and its notification under way
        obtain ⟨rfl, rfl⟩ := hsame
        exact .inr ⟨j, _, left, Function.update_self .., rfl⟩
      · refine .inl ⟨j, ?_⟩
        rwa [record_setExecution, record_setRecord_of_ne _ _ _ (not_and_or.mp hsame)]
    · rw [hpc] at htask
      cases htask
  | @notify other left hpc =>
    by_cases hsame : other = scope
    · subst hsame
      exact .inr fun _ => rfl
    · left
      refine h.frame (fun j hj => .inl ⟨j, hj⟩) (notifying_update he fun left' htask => ?_)
      rw [hpc] at htask
      exact absurd (TaskPc.notifying.inj htask).1 hsame

/-- A move of an execution leaves the calls, or notifies those of one scope. -/
theorem ExecutionMove.calls {notify : Notify} {s s' : State} {id : Nat} {e : Execution}
    (h : ExecutionMove notify s id e s') :
    s'.calls = s.calls ∨ ∃ scope, s'.calls = fun d => State.notifyCall notify scope (s.calls d) := by
  cases h with
  | @notify scope left hpc => exact .inr ⟨scope, rfl⟩
  | _ => exact .inl rfl

/-- What a notification makes of a future that is enabled. -/
theorem Notify.wakes (notify : Notify) {w : Notified} (h : w ≠ .created) :
    notify.notifyWaiters w = .complete := by
  cases w with
  | created => exact absurd rfl h
  | enabled => exact notify.notifyWaiters_enabled
  | complete => exact notify.notifyWaiters_complete

/-- The future of a call that looks at its scope, or sleeps, before and after a notification. -/
theorem notifyCall_inv {notify : Notify} {scope scope' : Nat} {aborted : Bool} {pc : CallPc}
    {ctor : Notified → DrainPc} (hctor : ctor = .enabled ∨ ctor = .waiting) {w : Notified}
    (h : State.notifyCall notify scope pc = .draining aborted scope' (ctor w)) :
    ∃ w₀, pc = .draining aborted scope' (ctor w₀) ∧
      w = if scope' = scope then notify.notifyWaiters w₀ else w₀ := by
  cases pc with
  | draining aborted' scope'' pc =>
    cases pc <;> rcases hctor with rfl | rfl <;> cases h <;> exact ⟨_, rfl, rfl⟩
  | _ => rcases hctor with rfl | rfl <;> cases h

theorem Woken.frame {s s' : State} (h : Woken s) (hcalls : s'.calls = s.calls)
    (hdue : ∀ scope, Due s scope → Due s' scope) : Woken s' := by
  constructor
  · rw [hcalls]
    exact h.enabled
  · intro d aborted scope hd
    rw [hcalls] at hd
    exact hdue scope (h.asleep d aborted scope hd)

theorem Woken.execution {notify : Notify} {s s' : State} {id : Nat} {e : Execution} (h : Woken s)
    (hrecorded : Recorded s id e) (he : s.executions id = some e)
    (hmove : ExecutionMove notify s id e s') : Woken s' := by
  constructor
  · intro d aborted scope w hd
    rcases hmove.calls with hsame | ⟨other, hnotified⟩
    · rw [hsame] at hd
      exact h.enabled d aborted scope w hd
    · rw [hnotified] at hd
      have hback : ∃ w₀, w₀ ≠ .created ∧
          w = if scope = other then notify.notifyWaiters w₀ else w₀ := by
        rcases hd with hd | hd
        · obtain ⟨w₀, hpc, hw⟩ := notifyCall_inv (.inl rfl) hd
          exact ⟨w₀, h.enabled d aborted scope w₀ (.inl hpc), hw⟩
        · obtain ⟨w₀, hpc, hw⟩ := notifyCall_inv (.inr rfl) hd
          exact ⟨w₀, h.enabled d aborted scope w₀ (.inr hpc), hw⟩
      obtain ⟨w₀, hw₀, rfl⟩ := hback
      split_ifs
      · rw [notify.wakes hw₀]
        exact nofun
      · exact hw₀
  · intro d aborted scope hd
    have hdue : Due s scope := by
      rcases hmove.calls with hsame | ⟨other, hnotified⟩
      · rw [hsame] at hd
        exact h.asleep d aborted scope hd
      · rw [hnotified] at hd
        obtain ⟨w₀, hpc, hw⟩ := notifyCall_inv (.inr rfl) hd
        split_ifs at hw with hscope
        · rw [notify.wakes (h.enabled d aborted scope w₀ (.inr hpc))] at hw
          cases hw
        · subst hw
          exact h.asleep d aborted scope hpc
    rcases hdue.execution hrecorded he hmove with hdue' | hnotified
    · exact hdue'
    · -- the notification of this scope would have woken the call
      rw [hnotified] at hd
      obtain ⟨w₀, hpc, hw⟩ := notifyCall_inv (.inr rfl) hd
      rw [if_pos rfl, notify.wakes (h.enabled d aborted scope w₀ (.inr hpc))] at hw
      cases hw

/-- A call that moves on, where its scope stays as it is. -/
theorem Woken.call {s s' : State} {d : Nat} {pc : CallPc} (h : Woken s)
    (hcalls : ∀ d', s'.calls d' = if d' = d then pc else s.calls d')
    (hdue : ∀ scope, Due s scope → Due s' scope)
    (henabled : ∀ aborted scope changed, pc = .draining aborted scope (.enabled changed) ∨
      pc = .draining aborted scope (.waiting changed) → changed ≠ .created)
    (hasleep : ∀ aborted scope, pc = .draining aborted scope (.waiting .enabled) → Due s scope) :
    Woken s' := by
  constructor
  · intro d' aborted scope w hd
    rw [hcalls] at hd
    split_ifs at hd
    · exact henabled aborted scope w hd
    · exact h.enabled d' aborted scope w hd
  · intro d' aborted scope hd
    rw [hcalls] at hd
    split_ifs at hd
    · exact hdue scope (hasleep aborted scope hd)
    · exact hdue scope (h.asleep d' aborted scope hd)

theorem hasActiveExecutions_iff {s : State} (h : Registered s) {scope : Nat} :
    s.hasActiveExecutions scope = true ↔ ∃ id, (s.record scope id).isSome := by
  rw [State.hasActiveExecutions, List.any_eq_true]
  constructor
  · rintro ⟨id, -, hid⟩
    exact ⟨id, hid⟩
  · rintro ⟨id, hid⟩
    refine ⟨id, List.mem_range.mpr ?_, hid⟩
    cases he : s.executions id with
    | none =>
      rw [h.unknown id he scope] at hid
      cases hid
    | some e => exact (h.known id e he).1

theorem Woken.move {notify : Notify} {s s' : State} (hregistered : Registered s) (h : Woken s)
    (hmove : Move notify s s') : Woken s' := by
  cases hmove with
  | derive hflag hancestors => exact h.frame rfl fun scope hdue => hdue
  | @spawn token htoken =>
    refine h.frame rfl fun scope hdue => hdue.frame (fun id hid => .inl ⟨id, hid⟩) ?_
    intro id e left he htask
    have hid : id ≠ s.nextExecution := (hregistered.known id e he).1.ne
    exact ⟨e, (Function.update_of_ne hid _ _).trans he, htask⟩
  | @execution _ id e he hexecution => exact h.execution (hregistered.known id e he).2 he hexecution
  | @call d pc hcall =>
    refine h.call (fun d' => calls_setCall ..) (fun scope hdue => hdue) ?_ ?_
    · intro aborted scope w hpc
      generalize hold : s.calls d = old at hcall
      cases hcall with
      | enable =>
        rcases hpc with hpc | hpc <;> cases hpc
        exact notify.enable_ne_created _
      | wait hactive =>
        rcases hpc with hpc | hpc <;> cases hpc
        exact h.enabled d aborted scope w (.inl hold)
      | _ => rcases hpc with hpc | hpc <;> cases hpc
    · intro aborted scope hpc
      generalize hold : s.calls d = old at hcall
      cases hcall with
      | wait hactive =>
        cases hpc
        exact .inl ((hasActiveExecutions_iff hregistered).mp hactive)
      | _ => cases hpc
  | @request d scope hpc =>
    refine h.call (fun d' => calls_setCall ..) (fun other hdue => ?_) (by simp)
      fun _ _ hpc' => (by cases hpc')
    refine hdue.frame (fun id hid => .inl ⟨id, ?_⟩) fun id e left he htask => ⟨e, he, htask⟩
    by_cases hother : other = scope
    · subst hother
      simpa [State.record, State.setScope, State.setCall] using hid
    · simpa [State.record, State.setScope, State.setCall, hother] using hid
  | @mark d scope hpc =>
    refine h.call (fun d' => calls_setCall ..) (fun other hdue => ?_) (by simp)
      fun _ _ hpc' => (by cases hpc')
    refine hdue.frame (fun id hid => .inl ⟨id, ?_⟩) fun id e left he htask => ⟨e, he, htask⟩
    by_cases hother : other = scope
    · subst hother
      simpa [State.record, State.mark, State.setScope, State.setCall] using hid
    · simpa [State.record, State.mark, State.setScope, State.setCall, hother] using hid
  | @abort d scope id aborts e hpc he hid =>
    refine h.call (fun d' => calls_setCall ..) (fun other hdue => ?_) (by simp)
      fun _ _ hpc' => (by cases hpc')
    exact hdue.frame (fun j hj => .inl ⟨j, hj⟩) (notifying_update he fun _ htask => htask)

theorem woken_init : Woken init := ⟨by simp [init], nofun⟩

/-! ## Runs -/

structure Inv (s : State) : Prop where
  registered : Registered s
  swept : Swept s
  woken : Woken s

theorem Inv.step {notify : Notify} {s s' : State} {l : Label} (h : Inv s)
    (hstep : step notify s l = some s') : Inv s' := by
  have hmove := move_of_step hstep
  exact ⟨h.registered.move hmove, h.swept.move h.registered hmove, h.woken.move h.registered hmove⟩

/-- What a scope promises: an execution whose `spawn_tracked` has returned is aborted or has ended
once a call of `abort_owned_executions` has gone through its handles, however the two came; a `drain`
returns only when every execution that was entered has ended; and where a `drain` sleeps although its
scope is empty, a notification that wakes it is under way. -/
structure Tracked (notify : Notify) (s : State) : Prop where
  aborted : ∀ d scope, (s.calls d).sweeps = some (scope, []) →
    ∀ id e, s.executions id = some e → scope ∈ e.token.cells → e.spawner = .arming [] →
      e.aborted = true ∨ e.task.Ended
  drained : ∀ d aborted scope s', Executions.step notify s (.go d) = some s' →
    s'.calls d = .draining aborted scope .returned →
      ∀ id e, s'.executions id = some e → e.Entered scope → e.task.Ended
  awake : ∀ d aborted scope changed, s.calls d = .draining aborted scope (.waiting changed) →
    changed ≠ .complete → s.hasActiveExecutions scope = false →
      ∃ id s', Executions.step notify s (.unregister id) = some s' ∧
        s'.calls d = .draining aborted scope (.waiting .complete)

/-- The registration of an execution leaves its scopes when its future is dropped. -/
theorem Recorded.ended {s : State} {id : Nat} {e : Execution} {scope : Nat} (h : Recorded s id e)
    (hentered : e.Entered scope) (hnone : s.record scope id = none) : e.task.Ended := by
  have hnot : ¬e.task.Kept scope := by
    intro hkept
    have hsome := (h.active scope).mpr ⟨hentered, hkept⟩
    rw [hnone] at hsome
    cases hsome
  cases htask : e.task with
  | unspawned =>
    rw [htask] at hnot
    exact absurd trivial hnot
  | running =>
    rw [htask] at hnot
    exact absurd trivial hnot
  | dropping left => trivial
  | notifying other left => trivial

theorem returned_inv {notify : Notify} {s s' : State} {d scope : Nat} {aborted : Bool}
    (hstep : step notify s (.go d) = some s')
    (hreturned : s'.calls d = .draining aborted scope .returned) :
    s'.executions = s.executions ∧ s.hasActiveExecutions scope = false := by
  simp only [step, State.go] at hstep
  split at hstep
  · cases hstep
  · obtain rfl := Option.some.inj hstep
    simp at hreturned
  · obtain rfl := Option.some.inj hstep
    simp at hreturned
  · obtain rfl := Option.some.inj hstep
    simp at hreturned
  · cases hstep
  · split at hstep
    · obtain rfl := Option.some.inj hstep
      simp at hreturned
    · obtain rfl := Option.some.inj hstep
      simp at hreturned
    · split_ifs at hstep with hactive
      · obtain rfl := Option.some.inj hstep
        simp at hreturned
      · obtain rfl := Option.some.inj hstep
        obtain ⟨-, rfl⟩ : _ ∧ _ := by simpa using hreturned
        exact ⟨rfl, Bool.eq_false_iff.mpr hactive⟩
    · obtain rfl := Option.some.inj hstep
      simp at hreturned
    · cases hstep
    · cases hstep

/-- **Every scope keeps its promises in every state that a run reaches.** -/
theorem tracked_of_run {notify : Notify} {ls : List Label} {s : State}
    (hrun : Transition.exec (step notify) init ls = some s) : Tracked notify s := by
  have hinv : Inv s := Transition.exec_invariant (fun s l s' h hstep => h.step hstep)
    ⟨registered_init, swept_init, woken_init⟩ hrun
  have hempty : ∀ scope, s.hasActiveExecutions scope = false → ∀ id, s.record scope id = none := by
    intro scope hfalse id
    by_contra hsome
    have hactive := (hasActiveExecutions_iff hinv.registered).mpr
      ⟨id, Option.isSome_iff_ne_none.mpr hsome⟩
    rw [hfalse] at hactive
    cases hactive
  constructor
  · intro d scope hswept id e he hcell harmed
    obtain ⟨-, hrecorded⟩ := hinv.registered.known id e he
    cases hr : s.record scope id with
    | none => exact .inr (hrecorded.ended ⟨hcell, harmed ▸ trivial⟩ hr)
    | some r =>
      have hhandle := hrecorded.armed scope r hr (harmed ▸ List.not_mem_nil)
      have hor := hinv.swept.aborted d scope [] hswept id r e hr he hhandle
      exact .inl (hor.resolve_right List.not_mem_nil)
  · intro d aborted scope s' hstep hreturned id e he hentered
    obtain ⟨hexecutions, hfalse⟩ := returned_inv hstep hreturned
    rw [hexecutions] at he
    exact (hinv.registered.known id e he).2.ended hentered (hempty scope hfalse id)
  · intro d aborted scope changed hd hchanged hfalse
    have henabled := hinv.woken.enabled d aborted scope changed (.inr hd)
    obtain rfl : changed = .enabled := by
      cases changed with
      | created => exact absurd rfl henabled
      | enabled => rfl
      | complete => exact absurd rfl hchanged
    rcases hinv.woken.asleep d aborted scope hd with ⟨id, hid⟩ | ⟨id, e, left, he, htask⟩
    · rw [hempty scope hfalse id] at hid
      cases hid
    · let s' : State :=
        { s.setExecution id { e with task := .dropping left } with
          calls := fun d => State.notifyCall notify scope (s.calls d) }
      refine ⟨id, s', ?_, ?_⟩
      · simp only [step, he, Option.bind_some, State.unregister, htask, s']
      · simp [s', hd, State.notifyCall, notify.notifyWaiters_enabled]

/-! ## An abort between registration and spawn -/

/-- The futures of a `Notify` that also reaches those that are not enabled yet. -/
def tokioNotify : Notify where
  enable
    | .created => .enabled
    | w => w
  notifyWaiters := fun _ => .complete
  enable_ne_created := by
    intro w
    cases w <;> exact nofun
  notifyWaiters_enabled := rfl
  notifyWaiters_complete := rfl

def rootToken : CancelToken := { flag := 0, ancestors := [] }
def childToken : CancelToken := rootToken.child 1

/-- An execution of the child enters both scopes; the root is aborted before the task is spawned. -/
def abortWhileSpawning : List Label :=
  [.derive none, .derive (some rootToken), .spawn childToken, .spawner 1, .spawner 1,
    .abortOwned 0 rootToken, .go 0, .go 0, .go 0, .spawner 1, .spawner 1, .spawner 1, .go 0, .go 0,
    .go 0, .finish 1, .unregister 1, .unregister 1, .unregister 1]

theorem tracked_abortWhileSpawning :
    ∃ s, Transition.exec (step tokioNotify) init abortWhileSpawning = some s ∧
      Tracked tokioNotify s := by
  have hruns : (Transition.exec (step tokioNotify) init abortWhileSpawning).isSome = true := by decide
  obtain ⟨s, hrun⟩ := Option.isSome_iff_exists.mp hruns
  exact ⟨s, hrun, tracked_of_run hrun⟩

end Executions

end Apcore
