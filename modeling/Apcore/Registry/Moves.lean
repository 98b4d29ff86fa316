import Apcore.Registry.Threads

/-! # `Registry.Moves` — what one step can do

`next` and `begin` are taken apart once. `Quiet` lists the moves of a registration that leave the
maps alone; `Move` lists the others, with the state each of them leads to. -/

namespace Apcore

namespace Registry

/-- A registration goes on with nothing in the maps changed; an event may be logged, and the
reservation of the id may change. -/
inductive Quiet (σ : Shared) : Pc → Option Event → (String → Bool) → Pc → Prop
  | chooseVersion (r : Registration) (explicit : Bool) :
    Quiet σ (.choosing r explicit) none σ.inFlight (.versionCheck r)
  | chooseRegister (r : Registration) (explicit : Bool) :
    Quiet σ (.choosing r explicit) none σ.inFlight (.conflicts { r with path := .register })
  | versionRejected (r : Registration) (answer : Answer)
      (hanswer : answer.failed = some r.inst ∧ answer.succeeded = none) :
    Quiet σ (.versionCheck r) (some (.rejected r.inst)) σ.inFlight (.returned answer)
  | versionPassed (r : Registration) (hvalid : toLowercase r.name = r.name) :
    Quiet σ (.versionCheck r) none σ.inFlight (.versionLoading r)
  | versionLoaded (r : Registration) :
    Quiet σ (.versionLoading r) (some (.onLoad r.inst true)) σ.inFlight (.versionPush r)
  | versionFailed (r : Registration) (e : ModuleError) :
    Quiet σ (.versionLoading r) (some (.onLoad r.inst false)) σ.inFlight
      (.returned (r.answer (.error e)))
  | versionPanicked (r : Registration) :
    Quiet σ (.versionLoading r) (some (.onLoad r.inst false)) σ.inFlight .crashed
  | fellBack (r : Registration) :
    Quiet σ (.versionPush r) (some (.fellBack r.inst)) σ.inFlight
      (.conflicts { r with path := .fallback })
  | rejected (r : Registration) (answer : Answer)
      (hanswer : answer.failed = some r.inst ∧ answer.succeeded = none) :
    Quiet σ (.conflicts r) (some (.rejected r.inst)) σ.inFlight (.returned answer)
  | passed (r : Registration) (hvalid : toLowercase r.name = r.name) :
    Quiet σ (.conflicts r) none σ.inFlight (.reserving r)
  | reservedAlready (r : Registration) :
    Quiet σ (.reserving r) (some (.rejected r.inst)) σ.inFlight
      (.returned (r.answer (.error (.duplicateModuleId r.name))))
  | reserved (r : Registration) :
    Quiet σ (.reserving r) none (Function.update σ.inFlight r.name true) (.loading r)
  | loaded (r : Registration) :
    Quiet σ (.loading r) (some (.onLoad r.inst true)) σ.inFlight (.publishing r)
  | failed (r : Registration) (e : ModuleError) :
    Quiet σ (.loading r) (some (.onLoad r.inst false)) σ.inFlight (.loadFailed r e)
  | panicked (r : Registration) :
    Quiet σ (.loading r) (some (.onLoad r.inst false)) σ.inFlight .crashed
  | refused (r : Registration) :
    Quiet σ (.publishing r) (some (.refused r.inst)) σ.inFlight (.releasing r false)
  | released (r : Registration) (published : Bool) :
    Quiet σ (.releasing r published) none (Function.update σ.inFlight r.name false)
      (.returned (r.answer (if published then .ok () else .error (.duplicateModuleId r.name))))
  | rolledBack (r : Registration) (e : ModuleError) :
    Quiet σ (.loadFailed r e) none (Function.update σ.inFlight r.name false)
      (.returned (r.answer (.error e)))

/-- A thread goes on. -/
inductive Move (σ : Shared) : Pc → Choice → Shared → Pc → Prop
  | quiet {pc pc' : Pc} {choice : Choice} {event : Option Event} {inFlight : String → Bool}
      (h : Quiet σ pc event inFlight pc') :
    Move σ pc choice { σ with inFlight, log := event.toList ++ σ.log } pc'
  | duplicate (r : Registration) (current : Instance) (descriptor : RegisteredDescriptor)
      (hmodule : σ.core.modules r.name = some current)
      (hdescriptor : σ.core.descriptors r.name = some descriptor) :
    Move σ (.versionPush r) .go
      { σ with
        core := { σ.core with
          versions := Function.update σ.core.versions r.name
            (some (σ.core.entriesOf r.name current descriptor)) }
        log := .refused r.inst :: σ.log } (.returned (r.answer (.error r.duplicateVersion)))
  | added (r : Registration) (current : Instance) (descriptor : RegisteredDescriptor)
      (hmodule : σ.core.modules r.name = some current)
      (hdescriptor : σ.core.descriptors r.name = some descriptor)
      (hnew : (σ.core.entriesOf r.name current descriptor).any
        (·.version == r.descriptor.version) = false) :
    Move σ (.versionPush r) .go
      { σ with
        core := σ.core.installEntries r.name (σ.core.entriesOf r.name current descriptor ++
          [{ version := r.descriptor.version, module := r.inst, descriptor := r.descriptor }])
        log := .versioned r.name r.inst :: σ.log } (.returned (r.answer (.ok ())))
  | committed (r : Registration) (source : String) (hpath : r.path = .discovered source) :
    Move σ (.publishing r) .go
      { σ with
        core := σ.core.commitDiscovered r.name r.inst r.descriptor source
        log := .published r.name r.inst :: σ.log } (.releasing r true)
  | published (r : Registration) (hfree : σ.core.modules r.name = none) :
    Move σ (.publishing r) .go
      { σ with
        core := σ.core.insertModule r.name r.inst r.descriptor
        log := .published r.name r.inst :: σ.log } (.releasing r true)
  | notFound (name : String) (remover : Remover) (hfree : σ.core.modules name = none) :
    Move σ (.removing name remover) .go σ (.returned (remover.answer name false))
  | removed (name : String) (remover : Remover) (inst : Instance)
      (hmodule : σ.core.modules name = some inst) :
    Move σ (.removing name remover) .go
      { σ with
        core := σ.core.removeModule name
        log := .removed name inst (σ.held.count (name, inst)) :: σ.log }
      (.clearing name inst remover)
  | cleared (name : String) (inst : Instance) (remover : Remover) :
    Move σ (.clearing name inst remover) .go
      { σ with drainEvents := Function.update σ.drainEvents name none }
      (.unloading name inst remover)
  | unloaded (name : String) (inst : Instance) (remover : Remover) :
    Move σ (.unloading name inst remover) .go { σ with log := .onUnload inst :: σ.log }
      (.returned (remover.answer name true))
  | unloadPanicked (name : String) (inst : Instance) (remover : Remover) :
    Move σ (.unloading name inst remover) .panicked { σ with log := .onUnload inst :: σ.log }
      .crashed
  | drainNotFound (name : String) (hfree : σ.core.modules name = none) :
    Move σ (.draining name) .go σ (.returned (.drained name none false))
  | drainNow (name : String) (inst : Instance) (hmodule : σ.core.modules name = some inst)
      (hrefs : σ.core.refs name = 0) :
    Move σ (.draining name) .go { σ with core := σ.core.setDraining name true }
      (.removing name (.drain inst true))
  | drainWait (name : String) (inst : Instance) (hmodule : σ.core.modules name = some inst)
      (hrefs : σ.core.refs name ≠ 0) :
    Move σ (.draining name) .go
      { σ with
        core := σ.core.setDraining name true
        drainEvents := Function.update σ.drainEvents name (some σ.nextNote)
        nextNote := σ.nextNote + 1 } (.waiting name σ.nextNote inst)
  | woken (name : String) (note : Nat) (began : Instance) (hpermit : σ.permits note = true) :
    Move σ (.waiting name note began) .woken
      { σ with permits := Function.update σ.permits note false } (.undraining name began true)
  | timedOut (name : String) (note : Nat) (began : Instance) (hpermit : σ.permits note = false) :
    Move σ (.waiting name note began) .timedOut σ (.undraining name began false)
  | undrained (name : String) (began : Instance) (clean : Bool) :
    Move σ (.undraining name began clean) .go
      { σ with core := σ.core.setDraining name false } (.forgetting name began clean)
  | forgotten (name : String) (began : Instance) (clean : Bool) :
    Move σ (.forgetting name began clean) .go
      { σ with drainEvents := Function.update σ.drainEvents name none }
      (.removing name (.drain began clean))
  | notified (name : String) (note : Nat) (hnote : σ.drainEvents name = some note) :
    Move σ (.notifying name) .go { σ with permits := Function.update σ.permits note true }
      (.returned .released)
  | noWaiter (name : String) (hnote : σ.drainEvents name = none) :
    Move σ (.notifying name) .go σ (.returned .released)

/-- The critical section of `add_version`, by what it finds. -/
theorem addVersion_cases (core : RegistryCore) (name : String) (inst : Instance)
    (descriptor : RegisteredDescriptor) :
    core.addVersion name inst descriptor = .missing ∨
      ∃ current currentDescriptor, core.modules name = some current ∧
        core.descriptors name = some currentDescriptor ∧
        (core.addVersion name inst descriptor = .duplicate { core with
            versions := Function.update core.versions name
              (some (core.entriesOf name current currentDescriptor)) } ∨
          (core.entriesOf name current currentDescriptor).any
              (·.version == descriptor.version) = false ∧
            core.addVersion name inst descriptor = .added (core.installEntries name
              (core.entriesOf name current currentDescriptor ++
                [{ version := descriptor.version, module := inst, descriptor := descriptor }]))) := by
  unfold RegistryCore.addVersion
  cases hmodule : core.modules name with
  | none => exact .inl rfl
  | some current =>
    cases hdescriptor : core.descriptors name with
    | none => exact .inl rfl
    | some currentDescriptor =>
      refine .inr ⟨current, currentDescriptor, rfl, rfl, ?_⟩
      dsimp only
      split_ifs with hany
      · exact .inl rfl
      · exact .inr ⟨by simpa using hany, rfl⟩

/-- What the critical section of `add_version` does with a version that is not there. -/
theorem addVersion_added {core : RegistryCore} {name : String} (inst : Instance)
    {current : Instance} {descriptor currentDescriptor : RegisteredDescriptor}
    (hmodule : core.modules name = some current)
    (hdescriptor : core.descriptors name = some currentDescriptor)
    (hnew : (core.entriesOf name current currentDescriptor).any
      (·.version == descriptor.version) = false) :
    core.addVersion name inst descriptor = .added (core.installEntries name
      (core.entriesOf name current currentDescriptor ++
        [{ version := descriptor.version, module := inst, descriptor := descriptor }])) := by
  rw [RegistryCore.addVersion, hmodule, hdescriptor]
  dsimp only
  rw [if_neg]
  rw [hnew]
  exact Bool.false_ne_true

theorem move_of_next {σ σ' : Shared} {pc pc' : Pc} {choice : Choice}
    (h : next σ pc choice = some (σ', pc')) : Move σ pc choice σ' pc' := by
  -- by the point the thread is at; each takes one or two of the choices
  cases pc with
  | idle => cases choice <;> cases h
  | returned answer => cases choice <;> cases h
  | crashed => cases choice <;> cases h
  | choosing r explicit =>
    cases choice with
    | go =>
      simp only [next] at h
      split_ifs at h
      · cases h
        exact .quiet (.chooseVersion r explicit)
      · cases h
        exact .quiet (.chooseRegister r explicit)
    | _ => cases h
  | versionCheck r =>
    cases choice with
    | verdict messages =>
      simp only [next] at h
      cases hchecks : r.checks messages with
      | error answer =>
        rw [hchecks] at h
        cases h
        exact .quiet (.versionRejected r answer (Registration.failed_of_checks hchecks))
      | ok u =>
        rw [hchecks] at h
        dsimp only at h
        split_ifs at h
        · cases h
          exact .quiet (.versionRejected r _ ⟨r.failed_answer_error _, r.succeeded_answer_error _⟩)
        · cases h
          exact .quiet (.versionPassed r (Registration.lowercase_of_checks hchecks))
    | _ => cases h
  | versionLoading r =>
    cases choice with
    | loaded =>
      cases h
      exact .quiet (.versionLoaded r)
    | loadFailed e =>
      cases h
      exact .quiet (.versionFailed r e)
    | panicked =>
      cases h
      exact .quiet (.versionPanicked r)
    | _ => cases h
  | versionPush r =>
    cases choice with
    | go =>
      simp only [next] at h
      rcases addVersion_cases σ.core r.name r.inst r.descriptor with hmissing |
        ⟨current, descriptor, hmodule, hdescriptor, hduplicate | ⟨hnew, hadded⟩⟩
      · rw [hmissing] at h
        cases h
        exact .quiet (.fellBack r)
      · rw [hduplicate] at h
        cases h
        exact .duplicate r current descriptor hmodule hdescriptor
      · rw [hadded] at h
        cases h
        exact .added r current descriptor hmodule hdescriptor hnew
    | _ => cases h
  | conflicts r =>
    cases choice with
    | verdict messages =>
      simp only [next] at h
      cases hchecks : r.checks messages with
      | error answer =>
        rw [hchecks] at h
        cases h
        exact .quiet (.rejected r answer (Registration.failed_of_checks hchecks))
      | ok u =>
        rw [hchecks] at h
        cases hconflict : r.conflict σ.core with
        | some e =>
          rw [hconflict] at h
          cases h
          exact .quiet (.rejected r _ ⟨r.failed_answer_error _, r.succeeded_answer_error _⟩)
        | none =>
          rw [hconflict] at h
          cases h
          exact .quiet (.passed r (Registration.lowercase_of_checks hchecks))
    | _ => cases h
  | reserving r =>
    cases choice with
    | go =>
      simp only [next] at h
      split_ifs at h
      · cases h
        exact .quiet (.reservedAlready r)
      · cases h
        exact .quiet (.reserved r)
    | _ => cases h
  | loading r =>
    cases choice with
    | loaded =>
      cases h
      exact .quiet (.loaded r)
    | loadFailed e =>
      cases h
      exact .quiet (.failed r e)
    | panicked =>
      cases h
      exact .quiet (.panicked r)
    | _ => cases h
  | publishing r =>
    cases choice with
    | go =>
      simp only [next] at h
      split at h
      · rename_i source hpath
        cases h
        exact .committed r source hpath
      · split_ifs at h with hcontains
        · cases h
          exact .quiet (.refused r)
        · cases h
          exact .published r (by simpa [RegistryCore.contains] using hcontains)
    | _ => cases h
  | releasing r published =>
    cases choice with
    | go =>
      cases h
      exact .quiet (.released r published)
    | _ => cases h
  | loadFailed r e =>
    cases choice with
    | go =>
      cases h
      exact .quiet (.rolledBack r e)
    | _ => cases h
  | removing name remover =>
    cases choice with
    | go =>
      simp only [next] at h
      cases hmodule : σ.core.modules name with
      | none =>
        rw [hmodule] at h
        cases h
        exact .notFound name remover hmodule
      | some inst =>
        rw [hmodule] at h
        cases h
        exact .removed name remover inst hmodule
    | _ => cases h
  | clearing name inst remover =>
    cases choice with
    | go =>
      cases h
      exact .cleared name inst remover
    | _ => cases h
  | unloading name inst remover =>
    cases choice with
    | go =>
      cases h
      exact .unloaded name inst remover
    | panicked =>
      cases h
      exact .unloadPanicked name inst remover
    | _ => cases h
  | draining name =>
    cases choice with
    | go =>
      simp only [next] at h
      cases hmodule : σ.core.modules name with
      | none =>
        rw [hmodule] at h
        cases h
        exact .drainNotFound name hmodule
      | some inst =>
        rw [hmodule] at h
        dsimp only at h
        split_ifs at h with hrefs
        · cases h
          exact .drainNow name inst hmodule hrefs
        · cases h
          exact .drainWait name inst hmodule hrefs
    | _ => cases h
  | waiting name note began =>
    cases choice with
    | woken =>
      simp only [next] at h
      split_ifs at h with hpermit
      cases h
      exact .woken name note began hpermit
    | timedOut =>
      simp only [next] at h
      split_ifs at h with hpermit
      cases h
      exact .timedOut name note began (by simpa using hpermit)
    | _ => cases h
  | undraining name began clean =>
    cases choice with
    | go =>
      cases h
      exact .undrained name began clean
    | _ => cases h
  | forgetting name began clean =>
    cases choice with
    | go =>
      cases h
      exact .forgotten name began clean
    | _ => cases h
  | notifying name =>
    cases choice with
    | go =>
      simp only [next] at h
      cases hnote : σ.drainEvents name with
      | none =>
        rw [hnote] at h
        cases h
        exact .noWaiter name hnote
      | some note =>
        rw [hnote] at h
        cases h
        exact .notified name note hnote
    | _ => cases h

/-! ## Calls -/

/-- A call begins. -/
inductive Begins (σ : Shared) : Call → Shared → Pc → Prop
  | choosing (c : Call) (r : Registration) (explicit : Bool) (hcall : c.operation = .registration)
      (hinst : r.inst = σ.nextInst) : Begins σ c σ.arrive (.choosing r explicit)
  | registering (c : Call) (r : Registration) (hcall : c.operation = .registration)
      (hinst : r.inst = σ.nextInst) : Begins σ c σ.arrive (.conflicts r)
  | unregister (name : String) : Begins σ (.unregister name) σ (.removing name .unregister)
  | safeUnregister (name : String) : Begins σ (.safeUnregister name) σ (.draining name)
  | acquireFailed (name : String) (e : ModuleError) :
    Begins σ (.acquire name) σ (.returned (.acquired name (.error e)))
  | acquired (name : String) (inst : Instance) (hdraining : σ.core.draining name = false)
      (hmodule : σ.core.modules name = some inst) :
    Begins σ (.acquire name)
      { σ with
        core := { σ.core with
          refCounts := Function.update σ.core.refCounts name (some (σ.core.refs name + 1)) }
        held := (name, inst) :: σ.held } (.returned (.acquired name (.ok inst)))
  | releasedNone (name : String) (reference : Option Instance)
      (hheld : ∀ inst, reference = some inst → (name, inst) ∈ σ.held)
      (hcount : σ.core.refCounts name = none) :
    Begins σ (.release name reference) { σ with held := giveBack σ.held name reference }
      (.returned .released)
  | releasedLast (name : String) (reference : Option Instance) (count : Nat)
      (hheld : ∀ inst, reference = some inst → (name, inst) ∈ σ.held)
      (hcount : σ.core.refCounts name = some count) (hlast : count - 1 = 0) :
    Begins σ (.release name reference)
      { σ with
        core := { σ.core with refCounts := Function.update σ.core.refCounts name none }
        held := giveBack σ.held name reference } (.notifying name)
  | releasedOne (name : String) (reference : Option Instance) (count : Nat)
      (hheld : ∀ inst, reference = some inst → (name, inst) ∈ σ.held)
      (hcount : σ.core.refCounts name = some count) (hmore : count - 1 ≠ 0) :
    Begins σ (.release name reference)
      { σ with
        core := { σ.core with
          refCounts := Function.update σ.core.refCounts name (some (count - 1)) }
        held := giveBack σ.held name reference } (.returned .released)
  | toggleFailed (name : String) (enabled : Bool) (e : ModuleError) :
    Begins σ (.setEnabled name enabled) σ (.returned (.toggled (.error e)))
  | toggled (name : String) (enabled : Bool) (descriptor : RegisteredDescriptor)
      (hdescriptor : σ.core.descriptors name = some descriptor) :
    Begins σ (.setEnabled name enabled)
      { σ with
        core := { σ.core with
          descriptors := Function.update σ.core.descriptors name
            (some { descriptor with enabled }) } } (.returned (.toggled (.ok ())))

theorem begins_of_begin {σ σ' : Shared} {c : Call} {pc : Pc} (h : begin σ c = some (σ', pc)) :
    Begins σ c σ' pc := by
  cases c with
  | register name module descriptor =>
    cases h
    exact .registering _ _ rfl rfl
  | registerModule name module =>
    cases h
    exact .registering _ _ rfl rfl
  | registerInternal name module descriptor =>
    cases h
    exact .registering _ _ rfl rfl
  | reinstateInternal name module descriptor =>
    cases h
    exact .registering _ _ rfl rfl
  | registerVersioned name module version =>
    cases h
    exact .choosing _ _ _ rfl rfl
  | registerDiscovered name module descriptor source =>
    cases h
    exact .registering _ _ rfl rfl
  | unregister name =>
    cases h
    exact .unregister name
  | safeUnregister name =>
    cases h
    exact .safeUnregister name
  | acquire name =>
    simp only [begin, RegistryCore.acquire] at h
    split_ifs at h with hdraining
    · cases h
      exact .acquireFailed name _
    · cases hmodule : σ.core.modules name with
      | none =>
        rw [hmodule] at h
        cases h
        exact .acquireFailed name _
      | some inst =>
        rw [hmodule] at h
        cases h
        exact .acquired name inst (by simpa using hdraining) hmodule
  | release name reference =>
    simp only [begin] at h
    by_cases hheld : ∀ inst, reference = some inst → (name, inst) ∈ σ.held
    -- what was not acquired is not released
    case neg =>
      rw [if_neg hheld] at h
      cases h
    rw [if_pos hheld] at h
    cases hcount : σ.core.refCounts name with
    | none =>
      have hrelease : σ.core.release name = (σ.core, false) := by
        rw [RegistryCore.release, hcount]
      rw [hrelease] at h
      cases h
      exact .releasedNone name reference hheld hcount
    | some count =>
      by_cases hlast : count - 1 = 0
      · have hrelease : σ.core.release name = ({ σ.core with
            refCounts := Function.update σ.core.refCounts name none }, true) := by
          rw [RegistryCore.release, hcount]
          exact if_pos hlast
        rw [hrelease] at h
        cases h
        exact .releasedLast name reference count hheld hcount hlast
      · have hrelease : σ.core.release name = ({ σ.core with
            refCounts := Function.update σ.core.refCounts name (some (count - 1)) }, false) := by
          rw [RegistryCore.release, hcount]
          exact if_neg hlast
        rw [hrelease] at h
        cases h
        exact .releasedOne name reference count hheld hcount hlast
  | setEnabled name enabled =>
    simp only [begin, RegistryCore.setEnabled] at h
    cases hdescriptor : σ.core.descriptors name with
    | none =>
      rw [hdescriptor] at h
      cases h
      exact .toggleFailed name enabled _
    | some descriptor =>
      rw [hdescriptor] at h
      cases h
      exact .toggled name enabled descriptor hdescriptor

/-- Every step is one thread beginning a call or going on. -/
theorem step_cases {s s' : State} {l : Label} (h : step s l = some s') :
    ∃ t σ pc, s' = s.advance t (σ, pc) ∧
      ((∃ c, l = .call t c ∧ (s.threads t).resting = true ∧ Begins s.shared c σ pc) ∨
        ∃ choice, l = .act t choice ∧ Move s.shared (s.threads t) choice σ pc) := by
  cases l with
  | call t c =>
    simp only [step] at h
    split_ifs at h with hresting
    obtain ⟨⟨σ, pc⟩, hbegin, rfl⟩ := Option.map_eq_some_iff.mp h
    exact ⟨t, σ, pc, rfl, .inl ⟨c, rfl, hresting, begins_of_begin hbegin⟩⟩
  | act t choice =>
    obtain ⟨⟨σ, pc⟩, hnext, rfl⟩ := Option.map_eq_some_iff.mp h
    exact ⟨t, σ, pc, rfl, .inr ⟨choice, rfl, move_of_next hnext⟩⟩

/-! ## Threads -/

theorem discovering_publishing {r : Registration} {source : String}
    (h : r.path = .discovered source) : (Pc.publishing r).discovering = some r := by
  rw [Pc.discovering, h]

@[simp] theorem advance_shared (s : State) (t : Nat) (σ : Shared) (pc : Pc) :
    (s.advance t (σ, pc)).shared = σ := rfl

theorem advance_threads (s : State) (t t' : Nat) (σ : Shared) (pc : Pc) :
    (s.advance t (σ, pc)).threads t' = if t' = t then pc else s.threads t' := by
  show Function.update s.threads t pc t' = _
  rw [Function.update_apply]

/-- What holds of every thread holds of every thread still, if it does of the one that moved. -/
theorem forall_advance {P : Pc → Prop} {s : State} {t : Nat} {σ : Shared} {pc : Pc}
    (h : ∀ t', P (s.threads t')) (hpc : P pc) (t' : Nat) :
    P ((s.advance t (σ, pc)).threads t') := by
  rw [advance_threads]
  split_ifs
  · exact hpc
  · exact h t'

/-! ## References -/

theorem mem_of_giveBack {held : List (String × Instance)} {name : String}
    {reference : Option Instance} {p : String × Instance} (h : p ∈ giveBack held name reference) :
    p ∈ held := by
  cases reference with
  | none => exact h
  | some inst => exact List.mem_of_mem_erase h

/-- Giving a reference back leaves those to other ids. -/
theorem count_giveBack_of_ne {held : List (String × Instance)} {name other : String}
    {inst : Instance} (reference : Option Instance) (hne : other ≠ name) :
    (giveBack held name reference).count (other, inst) = held.count (other, inst) := by
  cases reference with
  | none => rfl
  | some given =>
    refine List.count_erase_of_ne ?_
    intro heq
    cases heq
    exact hne rfl

/-- So does taking one. -/
theorem count_hold_of_ne {held : List (String × Instance)} {name other : String}
    {taken inst : Instance} (hne : other ≠ name) :
    ((name, taken) :: held).count (other, inst) = held.count (other, inst) := by
  refine List.count_cons_of_ne ?_
  intro heq
  cases heq
  exact hne rfl

theorem count_giveBack_le (held : List (String × Instance)) (name : String)
    (reference : Option Instance) (p : String × Instance) :
    (giveBack held name reference).count p ≤ held.count p := by
  cases reference with
  | none => exact le_rfl
  | some given => exact List.Sublist.count_le _ List.erase_sublist

end Registry

end Apcore
