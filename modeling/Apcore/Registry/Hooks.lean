import Apcore.Registry.Custody

/-! # `Registry.Hooks` — how often the hooks of a module are called

Every registration makes its checks before `on_load`, so one that fails them calls no hook. The
others call `on_load` once, and `unregister` calls `on_unload` once on what it takes out of the
maps. -/

namespace Apcore

namespace Registry

/-- A thread has come back from the registration that brought the object. -/
def Pc.Ended (pc : Pc) (inst : Instance) : Prop :=
  ∃ answer, pc = .returned answer ∧
    (answer.failed = some inst ∨ ∃ name, answer.succeeded = some (name, inst))

/-- What every run makes of the hooks of one object. -/
structure HooksPaired (s : State) (inst : Instance) : Prop where
  /-- Rejected before `on_load`: no hook is called. -/
  rejected : .rejected inst ∈ s.shared.log → .fellBack inst ∉ s.shared.log →
    loads inst s.shared.log = 0 ∧ unloads inst s.shared.log = 0
  /-- Otherwise `on_load` is called exactly once by the end of the registration. -/
  loaded : .rejected inst ∉ s.shared.log → .fellBack inst ∉ s.shared.log →
    ∀ t, (s.threads t).Ended inst → loads inst s.shared.log = 1
  /-- At no time has it been called twice. -/
  loads_le : .fellBack inst ∉ s.shared.log → loads inst s.shared.log ≤ 1
  unloads_le : unloads inst s.shared.log ≤ 1
  /-- `on_unload` comes after an `on_load` that succeeded. -/
  ordered : ∀ later earlier, s.shared.log = later ++ .onUnload inst :: earlier →
    .onLoad inst true ∈ earlier
  /-- What is unregistered is unloaded exactly once by the time that the call ends. -/
  unloaded : ∀ name outstanding, .removed name inst outstanding ∈ s.shared.log →
    unloads inst s.shared.log = 1 ∨ ∃ t, (s.threads t).unloads = some inst

/-- What came earlier in a legal log is legal. -/
theorem stage_suffix {inst : Instance} {later earlier : List Event} {st : Stage}
    (h : stage inst (later ++ earlier) = some st) : ∃ st', stage inst earlier = some st' := by
  -- on what came later, each event of which was legal when it came
  induction later generalizing st with
  | nil => exact ⟨st, h⟩
  | cons event later ih =>
    rcases stage_cons h with ⟨-, hrest⟩ | ⟨-, before, hbefore, -⟩
    · exact ih hrest
    · exact ih hbefore

theorem Stage.loads_le (st : Stage) : st.loads ≤ 1 := by
  cases st <;> decide

/-- `on_unload` is called on an object that was loaded before. -/
theorem onLoad_before_onUnload {inst : Instance} {later earlier : List Event} {st : Stage}
    (h : stage inst (later ++ .onUnload inst :: earlier) = some st) :
    .onLoad inst true ∈ earlier := by
  obtain ⟨st', hst'⟩ := stage_suffix h
  rcases stage_cons hst' with ⟨hne, -⟩ | ⟨-, before, hbefore, hnext⟩
  · exact absurd rfl hne
  · have hremoved : before = .removed := by
      cases before <;> first | rfl | cases hnext
    rw [hremoved] at hbefore
    exact (tally hbefore).loaded trivial

theorem hooks_pair_up (ls : List Label) (s : State)
    (hrun : Transition.exec step State.initial ls = some s) (inst : Instance) :
    HooksPaired s inst := by
  have hs := custody_of_run hrun
  obtain ⟨st, hst⟩ := hs.legal inst
  have ht := tally hst
  have hunloads : unloads inst s.shared.log ≤ 1 := by
    rw [ht.unloads]
    split_ifs <;> omega
  refine ⟨?_, ?_, ?_, hunloads, ?_, ?_⟩
  · intro hrejected hfell
    obtain rfl : st = .rejected := ht.rejected.mp hrejected
    exact ⟨ht.loads hfell, ht.unloads⟩
  · rintro hrejected hfell t ⟨answer, hpc, hanswer⟩
    rw [ht.loads hfell]
    have hnot : st ≠ .rejected := fun heq => hrejected (ht.rejected.mpr heq)
    -- a failed registration is still in the thread's hands, a successful one is in the log
    rcases hanswer with hfailed | ⟨name, hsucceeded⟩
    · obtain ⟨-, st', hst', hexpects⟩ := hs.hands t inst (by rw [hpc]; exact hfailed)
      obtain rfl : st = st' := Option.some.inj (hst.symm.trans hst')
      rw [hpc] at hexpects
      change st.Ended at hexpects
      cases st <;> first | rfl | exact absurd rfl hnot | exact hexpects.elim
    · have hin := hs.reports t name inst (by rw [hpc]; exact hsucceeded)
      have hwas := ht.introduced.mp ⟨name, hin⟩
      cases st <;> first | rfl | exact hwas.elim
  · intro hfell
    rw [ht.loads hfell]
    exact st.loads_le
  · intro later earlier hlog
    rw [hlog] at hst
    exact onLoad_before_onUnload hst
  · intro name outstanding hremoved
    rcases ht.removed.mp ⟨name, outstanding, hremoved⟩ with rfl | rfl
    · exact .inr (hs.unloading inst hst)
    · exact .inl ht.unloads

theorem hooks_pair_up_unregister : ∃ s, Transition.exec step State.initial
    (registerSteps 0 "m" ++ unregisterSteps 1 "m") = some s ∧
      .removed "m" 0 0 ∈ s.shared.log ∧ HooksPaired s 0 := by
  obtain ⟨s, hrun, hlog⟩ : ∃ s, Transition.exec step State.initial
      (registerSteps 0 "m" ++ unregisterSteps 1 "m") = some s ∧
        s.shared.log = [.onUnload 0, .removed "m" 0 0, .published "m" 0, .onLoad 0 true] :=
    ⟨_, rfl, rfl⟩
  refine ⟨s, hrun, ?_, hooks_pair_up _ s hrun 0⟩
  rw [hlog]
  simp

/-- A registration under no id ends before `on_load`. -/
theorem rejected_not_loaded : ∃ s answer, Transition.exec step State.initial
    [.call 0 (.registerModule "" .inert), .act 0 (.verdict none)] = some s ∧
      s.threads 0 = .returned answer ∧ answer.failed = some 0 ∧ loads 0 s.shared.log = 0 :=
  ⟨_, _, rfl, rfl, rfl, rfl⟩

end Registry

end Apcore
