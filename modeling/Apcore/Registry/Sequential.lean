import Apcore.Registry.Threads

/-! # `Registry.Sequential` — a call that no other thread interrupts

A thread that is alone takes the critical sections of its call one after the other. What the user
code answers on the way is the `Conduct` of the module the call is about; what the call does then
is one of a few cases, and later modules use these only. -/

namespace Apcore

namespace Registry

/-- How `on_load` ends. -/
inductive LoadResult where
  | loaded
  | failed (e : ModuleError)
  | panicked

def LoadResult.choice : LoadResult → Choice
  | .loaded => .loaded
  | .failed e => .loadFailed e
  | .panicked => .panicked

/-- How the code that is called for a module behaves: the validator, and the hooks. -/
structure Conduct where
  verdict : Option (List String) := none
  load : LoadResult := .loaded
  unloadPanics : Bool := false

/-- What the user code answers at a point of a call. -/
def Conduct.choice (conduct : Conduct) : Pc → Choice
  | .conflicts _ | .versionCheck _ => .verdict conduct.verdict
  | .loading _ | .versionLoading _ => conduct.load.choice
  | .unloading .. => if conduct.unloadPanics then .panicked else .go
  | _ => .go

/-- No hook of the module panics. -/
def Conduct.Calm (conduct : Conduct) : Prop :=
  conduct.load ≠ .panicked ∧ conduct.unloadPanics = false

/-- A thread that is alone goes on for so many steps, or until its call is over. -/
def settle (conduct : Conduct) : Nat → Shared → Pc → Shared × Pc
  | 0, σ, pc => (σ, pc)
  | fuel + 1, σ, pc =>
    match next σ pc (conduct.choice pc) with
    | some (σ', pc') => settle conduct fuel σ' pc'
    | none => (σ, pc)

/-- More critical sections than any of the calls below has. -/
def sections : Nat := 6

/-- What a thread has answered; `none` where user code panicked. -/
def Pc.answer : Pc → Option Answer
  | .returned answer => some answer
  | _ => none

/-- A call, from its beginning to its end. -/
def perform (σ : Shared) (conduct : Conduct) (c : Call) : Shared × Option Answer :=
  match begin σ c with
  | none => (σ, none)
  | some (σ', pc) =>
    let (σ'', pc') := settle conduct sections σ' pc
    (σ'', pc'.answer)

/-! ## A call is a run of the system -/

theorem step_act {s : State} {t : Nat} {choice : Choice} {moved : Shared × Pc}
    (h : next s.shared (s.threads t) choice = some moved) :
    step s (.act t choice) = some (s.advance t moved) := by
  rw [step, h]
  rfl

/-- What a thread does alone, it does as a run in which only it takes steps. -/
theorem exists_exec_settle (conduct : Conduct) (t : Nat) (fuel : Nat) (s : State) :
    ∃ choices : List Choice, ∃ s', Transition.exec step s (choices.map (.act t)) = some s' ∧
      (s'.shared, s'.threads t) = settle conduct fuel s.shared (s.threads t) := by
  induction fuel generalizing s with
  | zero => exact ⟨[], s, rfl, rfl⟩
  | succ fuel ih =>
    rw [settle]
    cases hnext : next s.shared (s.threads t) (conduct.choice (s.threads t)) with
    | none => exact ⟨[], s, rfl, rfl⟩
    | some moved =>
      obtain ⟨choices, s', hrun, hend⟩ := ih (s.advance t moved)
      refine ⟨conduct.choice (s.threads t) :: choices, s', ?_, ?_⟩
      · rw [List.map_cons]
        exact Transition.exec_cons.mpr ⟨_, step_act hnext, hrun⟩
      · rw [hend]
        simp [State.advance]

/-- A call by itself is a run of the system, in any state in which the thread is at rest. -/
theorem exists_exec_perform {s : State} {t : Nat} (hrest : (s.threads t).resting) (conduct : Conduct)
    {c : Call} (hbegins : (begin s.shared c).isSome) :
    ∃ choices : List Choice, ∃ s',
      Transition.exec step s (.call t c :: choices.map (.act t)) = some s' ∧
        (s'.shared, (s'.threads t).answer) = perform s.shared conduct c := by
  obtain ⟨begun, hbegin⟩ := Option.isSome_iff_exists.mp hbegins
  have hcall : step s (.call t c) = some (s.advance t begun) := by
    rw [step, if_pos hrest, hbegin]
    rfl
  obtain ⟨choices, s', hrun, hend⟩ := exists_exec_settle conduct t sections (s.advance t begun)
  refine ⟨choices, s', Transition.exec_cons.mpr ⟨_, hcall, hrun⟩, ?_⟩
  have hthread : (s.advance t begun).threads t = begun.2 := by simp [State.advance]
  rw [hthread] at hend
  rw [perform, hbegin]
  dsimp only
  rw [show settle conduct sections begun.1 begun.2 = (s'.shared, s'.threads t) from hend.symm]

/-! ## What a call does -/

/-- `register` of a module, by what comes of it. -/
inductive Registers (σ : Shared) (name : String) (descriptor : RegisteredDescriptor)
    (conduct : Conduct) : Shared → Option Answer → Prop
  | published (σ' : Shared) (hfree : σ.core.modules name = none)
      (hcore : σ'.core = σ.core.insertModule name σ.nextInst descriptor)
      (hnext : σ'.nextInst = σ.nextInst + 1) :
    Registers σ name descriptor conduct σ' (some (.registration name σ.nextInst (.ok ())))
  | failed (σ' : Shared) (e : ModuleError) (hcore : σ'.core = σ.core) :
    Registers σ name descriptor conduct σ' (some (.registration name σ.nextInst (.error e)))
  | panicked (σ' : Shared) (hpanics : conduct.load = .panicked) :
    Registers σ name descriptor conduct σ' none

/-- An id without a conflict is free. -/
theorem modules_eq_none_of_conflict {r : Registration} {core : RegistryCore}
    (h : r.conflict core = none) : core.modules r.name = none := by
  unfold Registration.conflict detectIdConflicts at h
  by_cases hcontains : core.contains r.name = true
  · rw [if_pos hcontains] at h
    simp at h
  · simpa [RegistryCore.contains] using hcontains

/-- A `register` that fails a check answers with an error. -/
theorem checks_register {r : Registration} (hpath : r.path = .register)
    {verdict : Option (List String)} {answer : Answer} (h : r.checks verdict = .error answer) :
    ∃ e, answer = .registration r.name r.inst (.error e) := by
  have hanswer : ∀ result, r.answer result = .registration r.name r.inst result := by
    intro result
    rw [Registration.answer, hpath]
  simp only [Registration.checks, hanswer, hpath] at h
  rw [if_neg (by simp)] at h
  split at h
  · cases h
  · cases h
    exact ⟨_, rfl⟩

theorem registers_perform (σ : Shared) (conduct : Conduct) (name : String) (module : Loadable)
    (descriptor : RegisteredDescriptor) :
    let (σ', answer) := perform σ conduct (.register name module descriptor)
    Registers σ name descriptor conduct σ' answer := by
  dsimp only
  -- section by section, and out at the first one that ends the call
  generalize hr : ({ inst := σ.nextInst, name, path := .register, streams := module.streams
                     descriptor } : Registration) = r
  have hname : r.name = name := by rw [← hr]
  have hinst : r.inst = σ.nextInst := by rw [← hr]
  have hpath : r.path = .register := by rw [← hr]
  have hdescriptor : r.descriptor = descriptor := by rw [← hr]
  have hanswer : ∀ result, r.answer result = .registration name σ.nextInst result := by
    intro result
    rw [Registration.answer, hpath, hname, hinst]
  simp only [perform, begin, hr, sections]
  rw [settle]
  simp only [Conduct.choice, next]
  cases hchecks : r.checks conduct.verdict with
  | error answer =>
    obtain ⟨e, rfl⟩ := checks_register hpath hchecks
    simp only [settle, next, Pc.answer, hname, hinst]
    exact .failed _ e rfl
  | ok u =>
    dsimp only
    cases hconflict : r.conflict σ.arrive.core with
    | some e =>
      simp only [settle, next, Pc.answer, hanswer]
      exact .failed _ e rfl
    | none =>
      have hfree : σ.core.modules name = none := by
        have h := modules_eq_none_of_conflict hconflict
        rwa [hname] at h
      dsimp only
      rw [settle]
      simp only [Conduct.choice, next]
      split_ifs with hflight
      · simp only [settle, next, Pc.answer, hanswer]
        exact .failed _ _ rfl
      · dsimp only
        rw [settle]
        simp only [Conduct.choice]
        cases hload : conduct.load with
        | panicked =>
          simp only [LoadResult.choice, settle, next, Pc.answer]
          exact .panicked _ hload
        | failed e =>
          simp only [LoadResult.choice, settle, next, Conduct.choice, Pc.answer, hanswer]
          exact .failed _ e rfl
        | loaded =>
          have hcontains : ¬ σ.core.contains name = true := by
            simp [RegistryCore.contains, hfree]
          simp only [LoadResult.choice, next]
          rw [settle]
          simp only [Conduct.choice, next, hpath, hname, Shared.emit, Shared.arrive]
          rw [if_neg hcontains]
          simp only [settle, next, Conduct.choice, Pc.answer, hanswer]
          exact .published _ hfree (by rw [hinst, hdescriptor]) rfl

/-- `unregister`, by what comes of it. -/
inductive Unregisters (σ : Shared) (name : String) (conduct : Conduct) :
    Shared → Option Answer → Prop
  | notFound (hfree : σ.core.modules name = none) :
    Unregisters σ name conduct σ (some (.unregistered false))
  | removed (σ' : Shared) (inst : Instance) (hmodule : σ.core.modules name = some inst)
      (hcore : σ'.core = σ.core.removeModule name) :
    Unregisters σ name conduct σ' (some (.unregistered true))
  | panicked (σ' : Shared) (hpanics : conduct.unloadPanics = true) :
    Unregisters σ name conduct σ' none

theorem unregisters_perform (σ : Shared) (conduct : Conduct) (name : String) :
    let (σ', answer) := perform σ conduct (.unregister name)
    Unregisters σ name conduct σ' answer := by
  dsimp only
  simp only [perform, begin, sections]
  rw [settle]
  simp only [Conduct.choice, next]
  cases hmodule : σ.core.modules name with
  | none =>
    simp only [settle, next, Pc.answer, Remover.answer]
    exact .notFound hmodule
  | some inst =>
    dsimp only
    rw [settle]
    simp only [Conduct.choice, next]
    rw [settle]
    simp only [Conduct.choice]
    split_ifs with hpanics
    · simp only [next, settle, Pc.answer]
      exact .panicked _ hpanics
    · simp only [next, settle, Pc.answer, Remover.answer]
      exact .removed _ inst hmodule rfl

end Registry

end Apcore
