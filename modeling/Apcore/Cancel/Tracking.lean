import Apcore.Cancel.Executions

/-! # `Cancel.Tracking` — what a scope knows of its executions

An execution is in the active records of a scope from the moment it entered it until its registration
leaves it. A request to abort reaches every record, whether by the handles it finds or by the mark
that `spawn_tracked` sees; and a `drain` that sleeps has an execution, or a notification, to come. -/

namespace Apcore

namespace Executions

/-! ## Where an execution is registered -/

/-- The scope is entered. -/
def SpawnPc.Entered : SpawnPc → Nat → Prop
  | inserting left, scope => scope ∉ left
  | arming _, _ => True

/-- The scope was given the abort handle. -/
def SpawnPc.Armed : SpawnPc → Nat → Prop
  | inserting _, _ => False
  | arming left, scope => scope ∉ left

def SpawnPc.left : SpawnPc → List Nat
  | inserting left => left
  | arming left => left

/-- The registration has not left the scope. -/
def TaskPc.Kept : TaskPc → Nat → Prop
  | unspawned, _ => True
  | running, _ => True
  | dropping left, scope => scope ∈ left
  | notifying _ left, scope => scope ∈ left

/-- The future is dropped: the execution has completed, or was aborted. -/
def TaskPc.Ended : TaskPc → Prop
  | unspawned => False
  | running => False
  | dropping _ => True
  | notifying _ _ => True

def TaskPc.left : TaskPc → List Nat
  | unspawned => []
  | running => []
  | dropping left => left
  | notifying scope left => scope :: left

/-- The execution was entered into the scope. -/
def Execution.Entered (e : Execution) (scope : Nat) : Prop :=
  scope ∈ e.token.cells ∧ e.spawner.Entered scope

/-- The record of an execution in a scope. -/
def State.record (s : State) (scope id : Nat) : Option ExecutionRecord := (s.scopes scope).active id

section Records

variable (s : State) (scope id : Nat)

@[simp] theorem record_setExecution (j : Nat) (e : Execution) :
    (s.setExecution j e).record scope id = s.record scope id := rfl

theorem record_setRecord_self (r : Option ExecutionRecord) :
    (s.setRecord scope id r).record scope id = r := by
  simp [State.record, State.setRecord, State.setScope]

theorem record_setRecord_of_ne {scope' id' : Nat} (h : scope' ≠ scope ∨ id' ≠ id)
    (r : Option ExecutionRecord) :
    (s.setRecord scope id r).record scope' id' = s.record scope' id' := by
  by_cases hscope : scope' = scope
  · subst hscope
    have hid : id' ≠ id := h.resolve_left fun hne => hne rfl
    simp [State.record, State.setRecord, State.setScope, hid]
  · simp [State.record, State.setRecord, State.setScope, hscope]

@[simp] theorem calls_setCall (d d' : Nat) (pc : CallPc) :
    (s.setCall d pc).calls d' = if d' = d then pc else s.calls d' := Function.update_apply ..

end Records

/-- What the records of an execution say of it. -/
structure Recorded (s : State) (id : Nat) (e : Execution) : Prop where
  nodup : e.token.cells.Nodup
  spawner : e.spawner.left <:+ e.token.cells
  task : e.task.left <:+ e.token.cells
  unspawned : ∀ left, e.spawner = .inserting left → e.task = .unspawned
  active : ∀ scope, (s.record scope id).isSome ↔ e.Entered scope ∧ e.task.Kept scope
  handle : ∀ scope r, s.record scope id = some r → ∀ j, r.abort = some j → j = id
  armed : ∀ scope r, s.record scope id = some r → e.spawner.Armed scope → r.abort = some id

structure Registered (s : State) : Prop where
  tokens : ∀ token ∈ s.tokens, token.cells.Nodup ∧ ∀ cell ∈ token.cells, cell < s.nextCell
  known : ∀ id e, s.executions id = some e → id < s.nextExecution ∧ Recorded s id e
  unknown : ∀ id, s.executions id = none → ∀ scope, s.record scope id = none

theorem Recorded.congr {s s' : State} {id : Nat} {e : Execution} (h : Recorded s id e)
    (hrecord : ∀ scope, s'.record scope id = s.record scope id) : Recorded s' id e where
  nodup := h.nodup
  spawner := h.spawner
  task := h.task
  unspawned := h.unspawned
  active := fun scope => by rw [hrecord]; exact h.active scope
  handle := fun scope r hr => h.handle scope r (by rwa [← hrecord])
  armed := fun scope r hr => h.armed scope r (by rwa [← hrecord])

/-- A step of one execution. -/
theorem Registered.update {s s' : State} {id : Nat} {e : Execution} (h : Registered s)
    (htokens : s'.tokens = s.tokens) (hcell : s'.nextCell = s.nextCell)
    (hnext : s.nextExecution ≤ s'.nextExecution) (hid : id < s'.nextExecution)
    (hexecutions : s'.executions = Function.update s.executions id (some e))
    (hothers : ∀ scope j, j ≠ id → s'.record scope j = s.record scope j)
    (hself : Recorded s' id e) : Registered s' := by
  constructor
  · rw [htokens, hcell]
    exact h.tokens
  · intro j x hx
    rw [hexecutions] at hx
    by_cases hj : j = id
    · subst hj
      rw [Function.update_self] at hx
      obtain rfl := Option.some.inj hx
      exact ⟨hid, hself⟩
    · rw [Function.update_of_ne hj] at hx
      obtain ⟨hlt, hrecorded⟩ := h.known j x hx
      exact ⟨by omega, hrecorded.congr fun scope => hothers scope j hj⟩
  · intro j hx scope
    rw [hexecutions] at hx
    by_cases hj : j = id
    · subst hj
      rw [Function.update_self] at hx
      cases hx
    · rw [Function.update_of_ne hj] at hx
      rw [hothers scope j hj]
      exact h.unknown j hx scope

/-- A step that changes no execution, and no record but its mark. -/
theorem Registered.frame {s s' : State} (h : Registered s)
    (htokens : ∀ token ∈ s'.tokens, token.cells.Nodup ∧ ∀ cell ∈ token.cells, cell < s'.nextCell)
    (hnext : s'.nextExecution = s.nextExecution) (hexecutions : s'.executions = s.executions)
    (hrecord : ∀ scope id, (s'.record scope id).map (·.abort) = (s.record scope id).map (·.abort)) :
    Registered s' := by
  have hback : ∀ scope id r, s'.record scope id = some r →
      ∃ r₀, s.record scope id = some r₀ ∧ r₀.abort = r.abort := by
    intro scope id r hr
    have heq := hrecord scope id
    rw [hr] at heq
    exact Option.map_eq_some_iff.mp heq.symm
  refine ⟨htokens, ?_, ?_⟩
  · intro id e he
    rw [hexecutions] at he
    obtain ⟨hlt, hrecorded⟩ := h.known id e he
    refine ⟨by omega, { hrecorded with active := ?_, handle := ?_, armed := ?_ }⟩
    · intro scope
      have hsome := congrArg Option.isSome (hrecord scope id)
      rw [Option.isSome_map, Option.isSome_map] at hsome
      rw [hsome]
      exact hrecorded.active scope
    · intro scope r hr j hj
      obtain ⟨r₀, hr₀, hsame⟩ := hback scope id r hr
      exact hrecorded.handle scope r₀ hr₀ j (hsame.trans hj)
    · intro scope r hr harmed
      obtain ⟨r₀, hr₀, hsame⟩ := hback scope id r hr
      rw [← hsame]
      exact hrecorded.armed scope r₀ hr₀ harmed
  · intro id hid scope
    rw [hexecutions] at hid
    have heq := hrecord scope id
    rw [h.unknown id hid scope] at heq
    exact Option.map_eq_none_iff.mp heq

/-! ## Registrations along the steps -/

theorem Recorded.ne_of_suffix {left : List Nat} {scope : Nat} {token : CancelToken}
    (hnodup : token.cells.Nodup) (hsuffix : scope :: left <:+ token.cells) : scope ∉ left :=
  (List.nodup_cons.mp (hnodup.sublist hsuffix.sublist)).1

/-- A move of an execution leaves the records of the others. -/
theorem ExecutionMove.others {notify : Notify} {s s' : State} {id : Nat} {e : Execution}
    (h : ExecutionMove notify s id e s') (scope j : Nat) (hj : j ≠ id) :
    s'.record scope j = s.record scope j := by
  cases h with
  | insert hpc => exact record_setRecord_of_ne s _ _ (.inr hj) _
  | arm hpc hrecord => exact record_setRecord_of_ne s _ _ (.inr hj) _
  | remove hpc => exact record_setRecord_of_ne s _ _ (.inr hj) _
  | _ => rfl

/-- A move of an execution keeps what its records say. -/
theorem Recorded.move {notify : Notify} {s s' : State} {id : Nat} {e : Execution}
    (h : Recorded s id e) (hmove : ExecutionMove notify s id e s') :
    ∃ e', s'.executions = Function.update s.executions id (some e') ∧ Recorded s' id e' := by
  cases hmove with
  | @insert scope left hpc =>
    have hsuffix : scope :: left <:+ e.token.cells := by
      have hspawner := h.spawner
      rwa [hpc] at hspawner
    have hnot : scope ∉ left := Recorded.ne_of_suffix h.nodup hsuffix
    have htask : e.task = .unspawned := h.unspawned _ hpc
    refine ⟨_, rfl, h.nodup, (List.suffix_cons scope left).trans hsuffix, h.task,
      fun _ _ => htask, ?_, ?_, nofun⟩
    · intro other
      by_cases hother : other = scope
      · subst hother
        rw [record_setExecution, record_setRecord_self]
        have hmem : other ∈ e.token.cells := hsuffix.subset List.mem_cons_self
        refine iff_of_true rfl ⟨⟨hmem, hnot⟩, ?_⟩
        rw [htask]
        trivial
      · rw [record_setExecution, record_setRecord_of_ne _ _ _ (.inl hother), h.active other]
        simp [Execution.Entered, hpc, SpawnPc.Entered, hother]
    · intro other r hr j hj
      by_cases hother : other = scope
      · subst hother
        rw [record_setExecution, record_setRecord_self] at hr
        obtain rfl := Option.some.inj hr
        cases hj
      · rw [record_setExecution, record_setRecord_of_ne _ _ _ (.inl hother)] at hr
        exact h.handle other r hr j hj
  | run hpc =>
    have htask : e.task = .unspawned := h.unspawned _ hpc
    refine ⟨_, rfl, h.nodup, List.suffix_refl _, List.nil_suffix, nofun, ?_, h.handle, ?_⟩
    · intro other
      rw [record_setExecution, h.active other]
      simp [Execution.Entered, hpc, htask, SpawnPc.Entered, TaskPc.Kept]
    · intro other r hr harmed
      have hactive := (h.active other).mp (by rw [← record_setExecution, hr]; rfl)
      exact absurd hactive.1.1 harmed
  | @arm scope left record hpc hrecord =>
    have hsuffix : scope :: left <:+ e.token.cells := by
      have hspawner := h.spawner
      rwa [hpc] at hspawner
    refine ⟨_, rfl, h.nodup, (List.suffix_cons scope left).trans hsuffix, h.task, nofun, ?_, ?_, ?_⟩
    · intro other
      have hsame : e.Entered other ↔
          Execution.Entered { e with spawner := .arming left } other := by
        simp [Execution.Entered, hpc, SpawnPc.Entered]
      by_cases hother : other = scope
      · subst hother
        have hactive := (h.active other).mp (by rw [State.record, hrecord]; rfl)
        rw [record_setExecution, record_setRecord_self]
        exact iff_of_true rfl ⟨hsame.mp hactive.1, hactive.2⟩
      · rw [record_setExecution, record_setRecord_of_ne _ _ _ (.inl hother), h.active other, hsame]
        rfl
    · intro other r hr j hj
      by_cases hother : other = scope
      · subst hother
        rw [record_setExecution, record_setRecord_self] at hr
        obtain rfl := Option.some.inj hr
        exact (Option.some.inj hj).symm
      · rw [record_setExecution, record_setRecord_of_ne _ _ _ (.inl hother)] at hr
        exact h.handle other r hr j hj
    · intro other r hr harmed
      by_cases hother : other = scope
      · subst hother
        rw [record_setExecution, record_setRecord_self] at hr
        obtain rfl := Option.some.inj hr
        rfl
      · rw [record_setExecution, record_setRecord_of_ne _ _ _ (.inl hother)] at hr
        refine h.armed other r hr ?_
        rw [hpc]
        exact List.not_mem_cons_of_ne_of_not_mem hother harmed
  | @pass scope left hpc hrecord =>
    have hsuffix : scope :: left <:+ e.token.cells := by
      have hspawner := h.spawner
      rwa [hpc] at hspawner
    refine ⟨_, rfl, h.nodup, (List.suffix_cons scope left).trans hsuffix, h.task, nofun, ?_,
      h.handle, ?_⟩
    · intro other
      rw [record_setExecution, h.active other]
      simp [Execution.Entered, hpc, SpawnPc.Entered]
    · intro other r hr harmed
      refine h.armed other r hr ?_
      rw [hpc]
      refine List.not_mem_cons_of_ne_of_not_mem ?_ harmed
      rintro rfl
      rw [record_setExecution, State.record, hrecord] at hr
      cases hr
  | finish hpc =>
    refine ⟨_, rfl, h.nodup, h.spawner, List.suffix_refl _, ?_, ?_, h.handle, h.armed⟩
    · intro left hleft
      rw [h.unspawned left hleft] at hpc
      cases hpc
    · intro other
      rw [record_setExecution, h.active other]
      simp only [Execution.Entered, hpc, TaskPc.Kept, and_true]
      exact ⟨fun hentered => ⟨hentered, hentered.1⟩, And.left⟩
  | @remove scope left hpc =>
    have hsuffix : scope :: left <:+ e.token.cells := by
      have htask := h.task
      rwa [hpc] at htask
    have hnot : scope ∉ left := Recorded.ne_of_suffix h.nodup hsuffix
    refine ⟨_, rfl, h.nodup, h.spawner, hsuffix, ?_, ?_, ?_, ?_⟩
    · intro left' hleft
      rw [h.unspawned left' hleft] at hpc
      cases hpc
    · intro other
      by_cases hother : other = scope
      · subst hother
        rw [record_setExecution, record_setRecord_self]
        exact iff_of_false nofun fun hkept => hnot hkept.2
      · rw [record_setExecution, record_setRecord_of_ne _ _ _ (.inl hother), h.active other, hpc]
        simp [TaskPc.Kept, Execution.Entered, hother]
    · intro other r hr
      by_cases hother : other = scope
      · subst hother
        rw [record_setExecution, record_setRecord_self] at hr
        cases hr
      · rw [record_setExecution, record_setRecord_of_ne _ _ _ (.inl hother)] at hr
        exact h.handle other r hr
    · intro other r hr
      by_cases hother : other = scope
      · subst hother
        rw [record_setExecution, record_setRecord_self] at hr
        cases hr
      · rw [record_setExecution, record_setRecord_of_ne _ _ _ (.inl hother)] at hr
        exact h.armed other r hr
  | @notify scope left hpc =>
    have hsuffix : scope :: left <:+ e.token.cells := by
      have htask := h.task
      rwa [hpc] at htask
    refine ⟨_, rfl, h.nodup, h.spawner, (List.suffix_cons scope left).trans hsuffix, ?_, ?_,
      h.handle, h.armed⟩
    · intro left' hleft
      rw [h.unspawned left' hleft] at hpc
      cases hpc
    · intro other
      have hactive := h.active other
      rw [hpc] at hactive
      exact hactive

/-- An execution that is about to enter its first scope. -/
theorem recorded_new {s : State} {token : CancelToken} {id : Nat} (hnodup : token.cells.Nodup)
    (hunknown : ∀ scope, s.record scope id = none) :
    Recorded s id
      { token, spawner := .inserting token.cells, task := .unspawned, aborted := false } := by
  refine ⟨hnodup, List.suffix_refl _, List.nil_suffix, fun _ _ => rfl, ?_, ?_, nofun⟩
  · intro scope
    rw [hunknown scope]
    refine iff_of_false nofun ?_
    rintro ⟨⟨hmem, hnot⟩, -⟩
    exact hnot hmem
  · intro scope r hr
    rw [hunknown scope] at hr
    cases hr

theorem Registered.move {notify : Notify} {s s' : State} (h : Registered s)
    (hmove : Move notify s s') : Registered s' := by
  cases hmove with
  | @derive token hflag hancestors =>
    refine h.frame ?_ rfl rfl fun _ _ => rfl
    intro other hother
    rcases List.mem_cons.mp hother with rfl | hold
    · rcases hancestors with hroot | ⟨parent, hparent, hcells⟩
      · simp [CancelToken.cells, hroot, hflag]
      · obtain ⟨hnodup, hlt⟩ := h.tokens parent hparent
        rw [CancelToken.cells, hcells, hflag]
        refine ⟨List.nodup_cons.mpr ⟨fun hmem => Nat.lt_irrefl _ (hlt _ hmem), hnodup⟩, ?_⟩
        intro cell hcell
        rcases List.mem_cons.mp hcell with rfl | hcell
        · exact Nat.lt_succ_self _
        · exact Nat.lt_succ_of_lt (hlt cell hcell)
    · obtain ⟨hnodup, hlt⟩ := h.tokens other hold
      exact ⟨hnodup, fun cell hcell => Nat.lt_succ_of_lt (hlt cell hcell)⟩
  | @spawn token htoken =>
    have hnone : s.executions s.nextExecution = none := by
      cases he : s.executions s.nextExecution with
      | none => rfl
      | some e => exact absurd (h.known _ e he).1 (Nat.lt_irrefl _)
    exact h.update rfl rfl (Nat.le_succ _) (Nat.lt_succ_self _) rfl (fun _ _ _ => rfl)
      (recorded_new (h.tokens token htoken).1 (h.unknown _ hnone))
  | @execution _ id e he hexecution =>
    obtain ⟨hlt, hrecorded⟩ := h.known id e he
    obtain ⟨e', hexecutions, hrecorded'⟩ := hrecorded.move hexecution
    have hsame : s'.tokens = s.tokens ∧ s'.nextCell = s.nextCell ∧
        s'.nextExecution = s.nextExecution := by cases hexecution <;> exact ⟨rfl, rfl, rfl⟩
    obtain ⟨htokens, hcell, hnext⟩ := hsame
    exact h.update htokens hcell hnext.ge (by omega) hexecutions hexecution.others hrecorded'
  | call hcall => exact h.frame h.tokens rfl rfl fun _ _ => rfl
  | @request d scope hpc =>
    refine h.frame h.tokens rfl rfl fun other id => ?_
    by_cases hother : other = scope
    · subst hother
      simp [State.record, State.setScope, State.setCall]
    · simp [State.record, State.setScope, State.setCall, hother]
  | @mark d scope hpc =>
    refine h.frame h.tokens rfl rfl fun other id => ?_
    by_cases hother : other = scope
    · subst hother
      simp [State.record, State.mark, State.setScope, State.setCall, Function.comp_def]
    · simp [State.record, State.mark, State.setScope, State.setCall, hother]
  | @abort d scope id aborts e hpc he hid =>
    obtain ⟨hlt, hrecorded⟩ := h.known id e he
    refine h.update rfl rfl le_rfl hlt rfl (fun _ _ _ => rfl) ?_
    exact { hrecorded with }

theorem registered_init : Registered init := ⟨nofun, nofun, fun _ _ _ => rfl⟩

end Executions

end Apcore
