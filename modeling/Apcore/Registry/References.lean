import Apcore.Registry.Custody

/-! # `Registry.References` — the reference counts of a registry

The count of an id is of the module that is registered under it. A reference outlives its module,
and a release names the id only, so the counts are exact as long as no reference to an earlier
module is released while there is a count. -/

namespace Apcore

namespace Registry

/-- The references held to what is registered under an id. -/
def outstanding (σ : Shared) (name : String) : Nat :=
  match σ.core.modules name with
  | some inst => σ.held.count (name, inst)
  | none => 0

theorem outstanding_of_module {σ : Shared} {name : String} {inst : Instance}
    (h : σ.core.modules name = some inst) :
    outstanding σ name = σ.held.count (name, inst) := by
  rw [outstanding, h]

theorem outstanding_of_free {σ : Shared} {name : String} (h : σ.core.modules name = none) :
    outstanding σ name = 0 := by
  rw [outstanding, h]

/-- A release is of a reference to the registered module, or finds no count; and what is
registered is not replaced, by a version or by discovery. -/
def ReleasesCurrent (s : State) : Label → Prop
  | .call _ (.release name reference) => s.shared.core.refCounts name = none ∨
      reference.isSome ∧ reference = s.shared.core.modules name
  | .call _ _ => True
  | .act t _ => (∀ r ∈ (s.threads t).discovering, s.shared.core.contains r.name = false) ∧
      ∀ r ∈ (s.threads t).pushing, s.shared.core.contains r.name = false

instance : ∀ s l, Decidable (ReleasesCurrent s l)
  | s, .call _ (.release name reference) => inferInstanceAs (Decidable
      (s.shared.core.refCounts name = none ∨
        reference.isSome ∧ reference = s.shared.core.modules name))
  | s, .act t _ => inferInstanceAs (Decidable
      ((∀ r ∈ (s.threads t).discovering, s.shared.core.contains r.name = false) ∧
        ∀ r ∈ (s.threads t).pushing, s.shared.core.contains r.name = false))
  | _, .call _ (.register ..) | _, .call _ (.registerModule ..) | _, .call _ (.registerInternal ..)
  | _, .call _ (.reinstateInternal ..) | _, .call _ (.registerVersioned ..)
  | _, .call _ (.registerDiscovered ..) | _, .call _ (.unregister _) | _, .call _ (.safeUnregister _)
  | _, .call _ (.acquire _) | _, .call _ (.setEnabled ..) => .isTrue trivial

/-- Every count is of the references held to what is registered. -/
def CountsExact (σ : Shared) : Prop := ∀ name, σ.core.refs name = outstanding σ name

/-- An id without a module has no count. -/
theorem CountsExact.refs_eq_zero {σ : Shared} (h : CountsExact σ) {name : String}
    (hfree : σ.core.modules name = none) : σ.core.refs name = 0 := by
  rw [h name, outstanding_of_free hfree]

/-- Where the registered modules, the counts and the references are the same, the counts stay
exact. -/
theorem CountsExact.frame {σ σ' : Shared} (h : CountsExact σ)
    (hmodules : σ'.core.modules = σ.core.modules) (hrefs : σ'.core.refCounts = σ.core.refCounts)
    (hheld : σ'.held = σ.held) : CountsExact σ' := by
  intro name
  have hold := h name
  unfold RegistryCore.refs outstanding at *
  rw [hmodules, hrefs, hheld]
  exact hold

/-- A module that nobody has a reference to is registered under a free id. -/
theorem CountsExact.register {σ σ' : Shared} (h : CountsExact σ) {name : String} {inst : Instance}
    (hfree : σ.core.modules name = none) (hunseen : (name, inst) ∉ σ.held)
    (hmodules : σ'.core.modules = Function.update σ.core.modules name (some inst))
    (hrefs : σ'.core.refCounts = σ.core.refCounts) (hheld : σ'.held = σ.held) :
    CountsExact σ' := by
  intro other
  have hcount : σ'.core.refs other = σ.core.refs other := by
    rw [RegistryCore.refs, RegistryCore.refs, hrefs]
  rw [hcount]
  by_cases heq : other = name
  · subst heq
    have hmodule : σ'.core.modules other = some inst := by rw [hmodules, Function.update_self]
    rw [h.refs_eq_zero hfree, outstanding_of_module hmodule, hheld]
    exact (List.count_eq_zero.mpr hunseen).symm
  · rw [h other, outstanding, outstanding, hmodules, hheld, Function.update_of_ne heq]

/-- The count of one id, its module and the references to it change, and no others. -/
theorem CountsExact.recount {σ σ' : Shared} (h : CountsExact σ) {name : String} (count : Option Nat)
    (hmodules : ∀ other, other ≠ name → σ'.core.modules other = σ.core.modules other)
    (hrefs : ∀ other, other ≠ name → σ'.core.refCounts other = σ.core.refCounts other)
    (hheld : ∀ other inst, other ≠ name →
      σ'.held.count (other, inst) = σ.held.count (other, inst))
    (hcount : σ'.core.refCounts name = count)
    (hsome : ∀ inst, σ'.core.modules name = some inst →
      σ'.held.count (name, inst) = count.getD 0)
    (hnone : σ'.core.modules name = none → count.getD 0 = 0) : CountsExact σ' := by
  intro other
  by_cases heq : other = name
  · rw [heq, RegistryCore.refs, hcount]
    cases hmodule : σ'.core.modules name with
    | none => rw [outstanding_of_free hmodule, hnone hmodule]
    | some inst => rw [outstanding_of_module hmodule, hsome inst hmodule]
  · have hold := h other
    unfold RegistryCore.refs outstanding at *
    rw [hrefs other heq, hmodules other heq, hold]
    cases σ.core.modules other with
    | none => rfl
    | some inst => exact (hheld other inst heq).symm

/-- A call keeps the counts exact, if it is no release of an earlier module's reference. -/
theorem countsExact_begins {s : State} {σ : Shared} {pc : Pc} {t : Nat} {c : Call}
    (hs : CountsExact s.shared) (hok : ReleasesCurrent s (.call t c))
    (hbegin : Begins s.shared c σ pc) : CountsExact σ := by
  have hother : ∀ name (count : Option Nat) other, other ≠ name →
      Function.update s.shared.core.refCounts name count other = s.shared.core.refCounts other :=
    fun name count other hne => Function.update_of_ne hne ..
  -- a release that finds a count is of a reference to what is registered
  have hgiven : ∀ name reference count, s.shared.core.refCounts name = some count →
      (∀ inst, reference = some inst → (name, inst) ∈ s.shared.held) →
      ReleasesCurrent s (.call t (.release name reference)) →
      ∃ inst, s.shared.core.modules name = some inst ∧
        (giveBack s.shared.held name reference).count (name, inst) = count - 1 := by
    intro name reference count hcount hheld hrelease
    rcases hrelease with hnone | ⟨hsome, hcurrent⟩
    · rw [hcount] at hnone
      cases hnone
    · obtain ⟨inst, rfl⟩ := Option.isSome_iff_exists.mp hsome
      have hexact := hs name
      rw [outstanding_of_module hcurrent.symm, RegistryCore.refs, hcount] at hexact
      refine ⟨inst, hcurrent.symm, ?_⟩
      rw [giveBack, List.count_erase_self, ← hexact]
      rfl
  cases hbegin with
  | acquired name inst hdraining hmodule =>
    refine hs.recount (some (s.shared.core.refs name + 1)) (fun _ _ => rfl) (hother name _)
      (fun _ _ hne => count_hold_of_ne hne) (Function.update_self ..) ?_ ?_
    · intro inst' hmodule'
      obtain rfl : inst = inst' := Option.some.inj (hmodule.symm.trans hmodule')
      show ((name, inst) :: s.shared.held).count (name, inst) = _
      rw [List.count_cons_self, ← outstanding_of_module hmodule, ← hs name]
      rfl
    · intro hfree
      change s.shared.core.modules name = none at hfree
      rw [hmodule] at hfree
      cases hfree
  | releasedNone name reference hheld hcount =>
    have hzero : s.shared.core.refs name = 0 := by
      rw [RegistryCore.refs, hcount]
      rfl
    refine hs.recount none (fun _ _ => rfl) (fun _ _ => rfl)
      (fun _ _ hne => count_giveBack_of_ne reference hne) hcount ?_ (fun _ => rfl)
    intro inst hmodule
    change s.shared.core.modules name = some inst at hmodule
    rw [hs name, outstanding_of_module hmodule] at hzero
    have hle := count_giveBack_le s.shared.held name reference (name, inst)
    show (giveBack s.shared.held name reference).count (name, inst) = 0
    omega
  | releasedLast name reference count hheld hcount hlast =>
    obtain ⟨inst, hmodule, hback⟩ := hgiven name reference count hcount hheld hok
    refine hs.recount none (fun _ _ => rfl) (hother name _)
      (fun _ _ hne => count_giveBack_of_ne reference hne) (Function.update_self ..) ?_
      (fun _ => rfl)
    intro inst' hmodule'
    obtain rfl : inst = inst' := Option.some.inj (hmodule.symm.trans hmodule')
    exact hback.trans hlast
  | releasedOne name reference count hheld hcount hmore =>
    obtain ⟨inst, hmodule, hback⟩ := hgiven name reference count hcount hheld hok
    refine hs.recount (some (count - 1)) (fun _ _ => rfl) (hother name _)
      (fun _ _ hne => count_giveBack_of_ne reference hne) (Function.update_self ..) ?_ ?_
    · intro inst' hmodule'
      obtain rfl : inst = inst' := Option.some.inj (hmodule.symm.trans hmodule')
      exact hback
    · intro hfree
      change s.shared.core.modules name = none at hfree
      rw [hmodule] at hfree
      cases hfree
  | _ => exact hs.frame rfl rfl rfl

/-- A thread that goes on keeps the counts exact, if it replaces nothing that is registered. -/
theorem countsExact_move {s : State} {σ : Shared} {pc : Pc} {t : Nat} {choice : Choice}
    (hcustody : Custody s) (hs : CountsExact s.shared) (hok : ReleasesCurrent s (.act t choice))
    (hmove : Move s.shared (s.threads t) choice σ pc) : CountsExact σ := by
  -- an object about to be published was never in the maps, so nobody acquired it
  have hunseen : ∀ r, s.threads t = .publishing r → (r.name, r.inst) ∉ s.shared.held := by
    intro r hpc hheld
    obtain ⟨-, st, hst, hexpects⟩ := hcustody.hands t r.inst (by rw [hpc]; rfl)
    rw [hpc] at hexpects
    obtain rfl : st = .loaded := hexpects
    exact (tally hst).introduced.mp ⟨r.name, hcustody.held r.name r.inst hheld⟩
  generalize hpc : s.threads t = here at hmove
  cases hmove with
  | added r current descriptor hmodule hdescriptor hnew =>
    have hcontains := hok.2 r (by rw [hpc]; rfl)
    rw [RegistryCore.contains, hmodule] at hcontains
    cases hcontains
  | committed r source hpath =>
    have hcontains := hok.1 r (by rw [hpc]; exact discovering_publishing hpath)
    have hfree : s.shared.core.modules r.name = none := by
      simpa [RegistryCore.contains] using hcontains
    exact hs.register hfree (hunseen r hpc) rfl rfl rfl
  | published r hfree => exact hs.register hfree (hunseen r hpc) rfl rfl rfl
  | removed name remover inst hmodule =>
    have hgone : ∀ other, other ≠ name →
        Function.update s.shared.core.modules name none other = s.shared.core.modules other :=
      fun other hne => Function.update_of_ne hne ..
    have hcounts : ∀ other, other ≠ name → Function.update s.shared.core.refCounts name none other =
        s.shared.core.refCounts other := fun other hne => Function.update_of_ne hne ..
    refine hs.recount none hgone hcounts (fun _ _ _ => rfl) (Function.update_self ..) ?_
      (fun _ => rfl)
    intro inst' hmodule'
    change Function.update _ name _ name = _ at hmodule'
    rw [Function.update_self] at hmodule'
    cases hmodule'
  | _ => exact hs.frame rfl rfl rfl

theorem countsExact_step {s s' : State} {l : Label} (hcustody : Custody s)
    (hs : CountsExact s.shared) (hok : ReleasesCurrent s l) (hstep : step s l = some s') :
    CountsExact s'.shared := by
  obtain ⟨t, σ, pc, rfl, hmove⟩ := step_cases hstep
  rcases hmove with ⟨c, rfl, hresting, hbegin⟩ | ⟨choice, rfl, hmove⟩
  · exact countsExact_begins hs hok hbegin
  · exact countsExact_move hcustody hs hok hmove

/-- The counts are exact in every state that such runs reach. -/
theorem counts_exact_of_run (ls : List Label) (s : State)
    (hok : Transition.Along step ReleasesCurrent State.initial ls)
    (hrun : Transition.exec step State.initial ls = some s) (name : String) :
    s.shared.core.refs name = outstanding s.shared name :=
  (Transition.exec_invariant_along (I := fun s => Custody s ∧ CountsExact s.shared)
    (fun _ _ _ hs hl hstep => ⟨custody_step hs.1 hstep, countsExact_step hs.1 hs.2 hl hstep⟩)
    ⟨custody_initial, fun _ => rfl⟩ hok hrun).2 name

/-- A module is unloaded by force, and registered anew after the reference to it came back. -/
def forcedUnload : List Label :=
  registerSteps 0 "m" ++ [.call 1 (.acquire "m"), .call 2 (.safeUnregister "m"), .act 2 .go,
    .act 2 .timedOut, .act 2 .go, .act 2 .go, .act 2 .go, .act 2 .go, .act 2 .go,
    .call 1 (.release "m" (some 0))] ++ registerSteps 0 "m" ++ [.call 1 (.acquire "m")]

theorem counts_exact_of_forcedUnload : ∃ s, Transition.exec step State.initial forcedUnload =
    some s ∧ s.shared.core.modules "m" = some 1 ∧ s.shared.core.refs "m" = 1 ∧
      s.shared.core.refs "m" = outstanding s.shared "m" := by
  obtain ⟨s, hrun, hmodule, hrefs⟩ : ∃ s, Transition.exec step State.initial forcedUnload =
      some s ∧ s.shared.core.modules "m" = some 1 ∧ s.shared.core.refs "m" = 1 :=
    ⟨_, rfl, rfl, rfl⟩
  exact ⟨s, hrun, hmodule, hrefs, counts_exact_of_run _ s (by decide) hrun "m"⟩

/-- A reference that outlives its module takes the count of the next one with it. -/
theorem stale_release_lowers_count : ∃ s, Transition.exec step State.initial
    (registerSteps 0 "m" ++ [.call 1 (.acquire "m")] ++ unregisterSteps 0 "m" ++
      registerSteps 0 "m" ++ [.call 2 (.acquire "m"), .call 1 (.release "m" (some 0))]) =
      some s ∧ s.shared.core.modules "m" = some 1 ∧ s.shared.held = [("m", 1)] ∧
      s.shared.core.refs "m" ≠ outstanding s.shared "m" := by
  obtain ⟨s, hrun, hmodule, hheld, hrefs⟩ : ∃ s, Transition.exec step State.initial
      (registerSteps 0 "m" ++ [.call 1 (.acquire "m")] ++ unregisterSteps 0 "m" ++
        registerSteps 0 "m" ++ [.call 2 (.acquire "m"), .call 1 (.release "m" (some 0))]) =
        some s ∧ s.shared.core.modules "m" = some 1 ∧ s.shared.held = [("m", 1)] ∧
        s.shared.core.refs "m" = 0 := ⟨_, rfl, rfl, rfl, rfl⟩
  refine ⟨s, hrun, hmodule, hheld, ?_⟩
  rw [hrefs, outstanding_of_module hmodule, hheld]
  decide

end Registry

end Apcore
