import Apcore.Registry.Moves

/-! # `Registry.Disabled` — how long a module stays disabled

`disable` sets the flag of the descriptor that is looked up. The version table of the id keeps
copies of descriptors, each with a flag of its own, and a new version puts one of them, or its own
descriptor, in place of the one looked up. So does a commit of discovery. No other step, apart from
`enable` and a removal, changes the flag. -/

namespace Apcore

namespace RegistryCore

/-- `is_enabled`. -/
def isEnabled (core : RegistryCore) (name : String) : Option Bool :=
  (core.descriptors name).map (·.enabled)

/-- Modules and descriptors are kept of the same ids, and there is no empty version table. -/
structure Paired (core : RegistryCore) : Prop where
  descriptors : ∀ name, (core.descriptors name).isSome = core.contains name
  versions : ∀ name, core.versions name ≠ some []

theorem Paired.exists_module {core : RegistryCore} (h : core.Paired) {name : String} {flag : Bool}
    (henabled : core.isEnabled name = some flag) : ∃ inst, core.modules name = some inst := by
  obtain ⟨descriptor, hdescriptor, -⟩ := Option.map_eq_some_iff.mp henabled
  have hcontains := h.descriptors name
  rw [hdescriptor] at hcontains
  exact Option.isSome_iff_exists.mp hcontains.symm

theorem Paired.entriesOf_ne_nil {core : RegistryCore} (h : core.Paired) (name : String)
    (current : Instance) (descriptor : RegisteredDescriptor) :
    core.entriesOf name current descriptor ≠ [] := by
  unfold entriesOf
  cases hversions : core.versions name with
  | none => exact List.cons_ne_nil _ _
  | some entries =>
    rintro rfl
    exact h.versions name hversions

/-- Setting both maps at an id keeps them paired. -/
theorem paired_update {core : RegistryCore} (h : core.Paired) (name : String)
    {inst : Option Instance} {descriptor : Option RegisteredDescriptor}
    (hboth : descriptor.isSome = inst.isSome) (other : String) :
    (Function.update core.descriptors name descriptor other).isSome =
      (Function.update core.modules name inst other).isSome := by
  simp only [Function.update_apply]
  split_ifs
  · exact hboth
  · exact h.descriptors other

/-- No version table becomes empty. -/
theorem versions_update {core : RegistryCore} (h : core.Paired) (name : String)
    {entries : Option (List VersionEntry)} (hentries : entries ≠ some []) (other : String) :
    Function.update core.versions name entries other ≠ some [] := by
  rw [Function.update_apply]
  split_ifs
  · exact hentries
  · exact h.versions other

/-- The flags, once the descriptor of an id is replaced. -/
theorem isEnabled_of_update {core core' : RegistryCore} {name : String}
    {descriptor : Option RegisteredDescriptor}
    (h : core'.descriptors = Function.update core.descriptors name descriptor) (other : String) :
    core'.isEnabled other =
      if other = name then descriptor.map (·.enabled) else core.isEnabled other := by
  rw [isEnabled, h, Function.update_apply]
  split_ifs
  · rfl
  · rfl

/-- The flags, once a version table goes in: that of the id is the flag of the highest version. -/
theorem isEnabled_installEntries {core : RegistryCore} {name : String}
    {entries : List VersionEntry} {latest : VersionEntry}
    (h : latestVersion entries = some latest) (other : String) :
    (core.installEntries name entries).isEnabled other =
      if other = name then some latest.descriptor.enabled else core.isEnabled other := by
  rw [installEntries_eq h]
  exact @isEnabled_of_update core _ name (some latest.descriptor) rfl other

end RegistryCore

/-- A version that is added is the latest, or the latest of the others is. -/
theorem latestVersion_append {entries : List VersionEntry} {best : VersionEntry}
    (h : latestVersion entries = some best) (entry : VersionEntry) :
    latestVersion (entries ++ [entry]) =
      some (if parseSemver best.version ≤ parseSemver entry.version then entry else best) := by
  cases entries with
  | nil => cases h
  | cons first rest =>
    rw [List.cons_append, latestVersion, List.foldl_append, Option.some.inj h]
    rfl

namespace Registry

/-- Modules and descriptors stay paired in every run. -/
theorem paired_step {s s' : State} {l : Label} (hs : s.shared.core.Paired)
    (hstep : step s l = some s') : s'.shared.core.Paired := by
  obtain ⟨t, σ, pc, rfl, hmove⟩ := step_cases hstep
  rw [advance_shared]
  rcases hmove with ⟨c, rfl, hresting, hbegin⟩ | ⟨choice, rfl, hmove⟩
  · cases hbegin with
    | toggled name enabled descriptor hdescriptor =>
      refine ⟨fun other => ?_, hs.versions⟩
      show (Function.update s.shared.core.descriptors name _ other).isSome =
        s.shared.core.contains other
      rw [← hs.descriptors other, Function.update_apply]
      split_ifs with heq
      · rw [heq, hdescriptor]
        rfl
      · rfl
    | _ => exact ⟨hs.descriptors, hs.versions⟩
  · generalize hpc : s.threads t = here at hmove
    cases hmove with
    | duplicate r current descriptor hmodule hdescriptor =>
      refine ⟨hs.descriptors, RegistryCore.versions_update hs r.name ?_⟩
      exact fun h => hs.entriesOf_ne_nil _ _ _ (Option.some.inj h)
    | added r current descriptor hmodule hdescriptor hnew =>
      obtain ⟨best, hbest⟩ := exists_latestVersion (hs.entriesOf_ne_nil r.name current descriptor)
      rw [RegistryCore.installEntries_eq (latestVersion_append hbest _)]
      refine ⟨RegistryCore.paired_update hs r.name rfl, RegistryCore.versions_update hs r.name ?_⟩
      simp
    | committed r source hpath => exact ⟨RegistryCore.paired_update hs r.name rfl, hs.versions⟩
    | published r hfree => exact ⟨RegistryCore.paired_update hs r.name rfl, hs.versions⟩
    | removed name remover inst hmodule =>
      exact ⟨RegistryCore.paired_update hs name rfl,
        RegistryCore.versions_update hs name (by simp)⟩
    | _ => exact ⟨hs.descriptors, hs.versions⟩

theorem paired_of_run {ls : List Label} {s : State}
    (hrun : Transition.exec step State.initial ls = some s) : s.shared.core.Paired :=
  Transition.exec_invariant (I := fun s : State => s.shared.core.Paired)
    (fun _ _ _ hs hstep => paired_step hs hstep) ⟨fun _ => rfl, fun _ h => (by cases h)⟩ hrun

/-! ## What changes the flag -/

/-- The id that a thread is about to take out of the maps. -/
def Pc.removes : Pc → Option String
  | .removing name _ => some name
  | _ => none

/-- The step neither enables the id nor unregisters it. -/
def LeavesAlone (name : String) (s : State) : Label → Prop
  | .call _ (.setEnabled other true) => other ≠ name
  | .call _ _ => True
  | .act t _ => (s.threads t).removes ≠ some name

instance (name : String) : ∀ s l, Decidable (LeavesAlone name s l)
  | _, .call _ (.setEnabled other true) => inferInstanceAs (Decidable (other ≠ name))
  | s, .act t _ => inferInstanceAs (Decidable ((s.threads t).removes ≠ some name))
  | _, .call _ (.setEnabled _ false) | _, .call _ (.register ..) | _, .call _ (.registerModule ..)
  | _, .call _ (.registerInternal ..) | _, .call _ (.reinstateInternal ..)
  | _, .call _ (.registerVersioned ..) | _, .call _ (.registerDiscovered ..)
  | _, .call _ (.unregister _) | _, .call _ (.safeUnregister _) | _, .call _ (.acquire _)
  | _, .call _ (.release ..) => .isTrue trivial

/-- The flag that the lookup gets from a new version: of the version itself, where it is as high as
the versions kept so far, else of the copy that is kept of the highest one. -/
def versionFlag (r : Registration) (best : VersionEntry) : Bool :=
  if parseSemver best.version ≤ parseSemver r.descriptor.version then r.descriptor.enabled
  else best.descriptor.enabled

/-- The registration, once it is published as a version, turns the flag of its id on. -/
def TurnsOn (core : RegistryCore) (r : Registration) : Prop :=
  ∃ current descriptor best, core.modules r.name = some current ∧
    core.descriptors r.name = some descriptor ∧
    latestVersion (core.entriesOf r.name current descriptor) = some best ∧
    core.versionRegistered r.name r.descriptor.version = false ∧ versionFlag r best = true

/-- The step publishes no enabled descriptor of the id: no version with an enabled descriptor that
is the highest, no version below one of which an enabled copy is kept, and no enabled descriptor
that was discovered. -/
def KeepsDisabled (name : String) (s : State) : Label → Prop
  | .call _ _ => True
  | .act t _ => (∀ r ∈ (s.threads t).pushing, r.name = name → ¬ TurnsOn s.shared.core r) ∧
      ∀ r ∈ (s.threads t).discovering, r.name = name → r.descriptor.enabled = false

/-- The maps are paired, and the id is disabled in them. -/
structure IsDisabled (name : String) (core : RegistryCore) : Prop where
  paired : core.Paired
  disabled : core.isEnabled name = some false

section Steps

variable {name : String} {σ σ' : Shared} {pc pc' : Pc} {choice : Choice}

/-- What the critical section of `add_version` makes of the flag. -/
theorem isEnabled_versionPush {r : Registration} (hs : IsDisabled name σ.core)
    (h : next σ (.versionPush r) choice = some (σ', pc')) :
    (r.name = name → ¬ TurnsOn σ.core r) ↔ σ'.core.isEnabled name = some false := by
  by_cases hname : r.name = name
  · subst hname
    obtain ⟨current, hmodule⟩ := hs.paired.exists_module hs.disabled
    obtain ⟨descriptor, hdescriptor, -⟩ := Option.map_eq_some_iff.mp hs.disabled
    obtain ⟨best, hbest⟩ :=
      exists_latestVersion (hs.paired.entriesOf_ne_nil r.name current descriptor)
    cases choice with
    | go =>
      simp only [next, RegistryCore.addVersion, hmodule, hdescriptor] at h
      split_ifs at h with hany
      · -- the version is there, so neither the flag nor the condition is touched
        cases h
        refine iff_of_true (fun _ => ?_) hs.disabled
        rintro ⟨_, _, _, -, -, -, hnew, -⟩
        rw [RegistryCore.versionRegistered_eq hdescriptor, hany] at hnew
        cases hnew
      · cases h
        have hturns : TurnsOn σ.core r ↔ versionFlag r best = true := by
          constructor
          · rintro ⟨current', descriptor', best', hmodule', hdescriptor', hbest', -, hflag⟩
            rw [hmodule] at hmodule'
            rw [hdescriptor] at hdescriptor'
            cases hmodule'
            cases hdescriptor'
            rw [hbest] at hbest'
            cases hbest'
            exact hflag
          · intro hflag
            refine ⟨current, descriptor, best, hmodule, hdescriptor, hbest, ?_, hflag⟩
            rw [RegistryCore.versionRegistered_eq hdescriptor]
            simpa using hany
        show _ ↔ (σ.core.installEntries r.name _).isEnabled r.name = some false
        rw [RegistryCore.isEnabled_installEntries (latestVersion_append hbest _), if_pos rfl,
          hturns, apply_ite (fun entry : VersionEntry => some entry.descriptor.enabled)]
        unfold versionFlag
        split_ifs <;> simp
    | _ => cases h
  · refine iff_of_true (fun h => absurd h hname) ?_
    rw [← hs.disabled]
    cases move_of_next h with
    | quiet h => rfl
    | duplicate r current descriptor hmodule hdescriptor => rfl
    | added r current descriptor hmodule hdescriptor hnew =>
      obtain ⟨best, hbest⟩ :=
        exists_latestVersion (hs.paired.entriesOf_ne_nil r.name current descriptor)
      rw [RegistryCore.isEnabled_installEntries (latestVersion_append hbest _),
        if_neg (Ne.symm hname)]

/-- What the publication of a registration makes of the flag. -/
theorem isEnabled_publishing {r : Registration} (hs : IsDisabled name σ.core)
    (h : next σ (.publishing r) choice = some (σ', pc')) :
    (∀ r' ∈ (Pc.publishing r).discovering, r'.name = name → r'.descriptor.enabled = false) ↔
      σ'.core.isEnabled name = some false := by
  have hdisabled := hs.disabled
  obtain ⟨inst, hmodule⟩ := hs.paired.exists_module hdisabled
  cases choice with
  | go =>
    simp only [next] at h
    split at h
    · rename_i source hpath
      cases h
      show _ ↔ (σ.core.commitDiscovered r.name r.inst r.descriptor source).isEnabled name = _
      rw [discovering_publishing hpath, @RegistryCore.isEnabled_of_update σ.core _ r.name
        (some r.descriptor) rfl name]
      split_ifs with hname
      · simp [hname]
      · simp [Ne.symm hname, hdisabled]
    · rename_i hpath
      have hnone : (Pc.publishing r).discovering = none := by
        simp only [Pc.discovering]
      refine iff_of_true (by simp [hnone]) ?_
      split_ifs at h with hcontains
      · cases h
        exact hdisabled
      · -- the id is registered, so it is another one that is published
        have hne : name ≠ r.name := by
          rintro rfl
          rw [RegistryCore.contains, hmodule] at hcontains
          exact hcontains rfl
        cases h
        show (σ.core.insertModule r.name r.inst r.descriptor).isEnabled name = _
        rw [@RegistryCore.isEnabled_of_update σ.core _ r.name (some r.descriptor) rfl name,
          if_neg hne]
        exact hdisabled
  | _ => cases h

/-- What any other step of a call makes of the flag. -/
theorem isEnabled_other (hs : IsDisabled name σ.core) (hpush : ∀ r, pc ≠ .versionPush r)
    (hpublish : ∀ r, pc ≠ .publishing r) (hremove : pc.removes ≠ some name)
    (h : next σ pc choice = some (σ', pc')) : σ'.core.isEnabled name = some false := by
  have hdisabled := hs.disabled
  cases move_of_next h with
  | duplicate r | added r => exact absurd rfl (hpush r)
  | committed r | published r => exact absurd rfl (hpublish r)
  | removed other remover inst hmodule =>
    rw [RegistryCore.isEnabled_of_update rfl, if_neg]
    · exact hdisabled
    · rintro rfl
      exact hremove rfl
  | _ => exact hdisabled

end Steps

/-- One step keeps the id disabled exactly where it meets the condition. -/
theorem isEnabled_step {name : String} {s s' : State} {l : Label}
    (hs : IsDisabled name s.shared.core) (halone : LeavesAlone name s l)
    (hstep : step s l = some s') :
    KeepsDisabled name s l ↔ s'.shared.core.isEnabled name = some false := by
  cases l with
  | call t c =>
    refine iff_of_true trivial ?_
    obtain ⟨t', σ, pc, rfl, ⟨c', hcall, -, hbegin⟩ | ⟨choice, hact, -⟩⟩ := step_cases hstep
    · cases hcall
      have hdisabled := hs.disabled
      cases hbegin with
      | toggled other enabled descriptor hdescriptor =>
        rw [advance_shared, RegistryCore.isEnabled_of_update rfl]
        split_ifs with heq
        · cases enabled with
          | true => exact absurd heq.symm halone
          | false => rfl
        · exact hdisabled
      | _ => exact hdisabled
    · cases hact
  | act t choice =>
    obtain ⟨⟨σ, pc⟩, hnext, rfl⟩ := Option.map_eq_some_iff.mp hstep
    rw [advance_shared]
    show (_ ∧ _) ↔ _
    cases hpc : s.threads t with
    | versionPush r =>
      rw [hpc] at hnext
      rw [← isEnabled_versionPush hs hnext]
      simp [Pc.pushing, Pc.discovering]
    | publishing r =>
      rw [hpc] at hnext
      rw [← isEnabled_publishing hs hnext]
      simp [Pc.pushing]
    | _ =>
      refine iff_of_true ⟨by simp [Pc.pushing], by simp [Pc.discovering]⟩ ?_
      refine isEnabled_other hs ?_ ?_ halone hnext
      · simp [hpc]
      · simp [hpc]

/-- A disabled id, from the moment it is disabled on, stays disabled exactly along the runs that
publish no enabled descriptor of it. -/
theorem disabled_persists_iff {done rest : List Label} {t : Nat} {name : String}
    {s₀ s₁ s₂ : State} (hdone : Transition.exec step State.initial done = some s₀)
    (hdisable : step s₀ (.call t (.setEnabled name false)) = some s₁)
    (hok : s₁.threads t = .returned (.toggled (.ok ())))
    (halone : Transition.Along step (LeavesAlone name) s₁ rest)
    (hrun : Transition.exec step s₁ rest = some s₂) :
    Transition.Along step (KeepsDisabled name) s₁ rest ↔
      ∀ rest' s, rest' <+: rest → Transition.exec step s₁ rest' = some s →
        s.shared.core.isEnabled name = some false := by
  have hpaired : s₁.shared.core.Paired := paired_step (paired_of_run hdone) hdisable
  have hdisabled : s₁.shared.core.isEnabled name = some false := by
    obtain ⟨t', σ, pc, rfl, ⟨c', hcall, -, hbegin⟩ | ⟨choice, hact, -⟩⟩ := step_cases hdisable
    · cases hcall
      cases hbegin with
      | choosing _ r explicit hcall => cases hcall
      | registering _ r hcall => cases hcall
      | toggled _ _ descriptor hdescriptor =>
        rw [advance_shared, RegistryCore.isEnabled_of_update rfl, if_pos rfl]
        rfl
      | toggleFailed _ _ e =>
        rw [advance_threads, if_pos rfl] at hok
        cases hok
    · cases hact
  refine Transition.along_iff_forall_prefix_of_along (I := fun s => s.shared.core.Paired)
    (P := fun s => s.shared.core.isEnabled name = some false) ?_ hpaired hdisabled halone hrun
  intro s l s' hI hP hside hstep
  exact ⟨paired_step hI hstep, isEnabled_step ⟨hI, hP⟩ hside hstep⟩

theorem disabled_persists_iff_lower : ∃ s₀ s₁ s₂,
    Transition.exec step State.initial (registerSteps 0 "m") = some s₀ ∧
      step s₀ (.call 0 (.setEnabled "m" false)) = some s₁ ∧
      Transition.exec step s₁ (addVersionSteps 0 "m" "0.5.0") = some s₂ ∧
      (Transition.Along step (KeepsDisabled "m") s₁ (addVersionSteps 0 "m" "0.5.0") ↔
        ∀ rest' s, rest' <+: addVersionSteps 0 "m" "0.5.0" →
          Transition.exec step s₁ rest' = some s →
          s.shared.core.isEnabled "m" = some false) := by
  obtain ⟨s₀, hdone, s₁, hdisable, hok, s₂, hrun, halone⟩ : ∃ s₀,
      Transition.exec step State.initial (registerSteps 0 "m") = some s₀ ∧ ∃ s₁,
        step s₀ (.call 0 (.setEnabled "m" false)) = some s₁ ∧
        s₁.threads 0 = .returned (.toggled (.ok ())) ∧ ∃ s₂,
        Transition.exec step s₁ (addVersionSteps 0 "m" "0.5.0") = some s₂ ∧
          Transition.Along step (LeavesAlone "m") s₁ (addVersionSteps 0 "m" "0.5.0") :=
    ⟨_, rfl, _, rfl, rfl, _, rfl, by decide⟩
  exact ⟨s₀, s₁, s₂, hdone, hdisable, hrun, disabled_persists_iff hdone hdisable hok halone hrun⟩

/-- A version below the others brings back the copy of the highest one, made before it was
disabled. -/
theorem not_disabled_persists : ¬ ∀ (done rest : List Label) (t : Nat) (name : String)
    (s₀ s₁ s₂ : State), Transition.exec step State.initial done = some s₀ →
      step s₀ (.call t (.setEnabled name false)) = some s₁ →
      s₁.threads t = .returned (.toggled (.ok ())) →
      Transition.Along step (LeavesAlone name) s₁ rest →
      Transition.exec step s₁ rest = some s₂ → s₂.shared.core.isEnabled name = some false := by
  intro h
  obtain ⟨s₀, hdone, s₁, hdisable, hok, s₂, hrun, halone, henabled⟩ : ∃ s₀,
      Transition.exec step State.initial
        (registerSteps 0 "m" ++ addVersionSteps 0 "m" "2.0.0") = some s₀ ∧ ∃ s₁,
        step s₀ (.call 0 (.setEnabled "m" false)) = some s₁ ∧
        s₁.threads 0 = .returned (.toggled (.ok ())) ∧ ∃ s₂,
        Transition.exec step s₁ (addVersionSteps 0 "m" "0.5.0") = some s₂ ∧
          Transition.Along step (LeavesAlone "m") s₁ (addVersionSteps 0 "m" "0.5.0") ∧
          s₂.shared.core.isEnabled "m" = some true :=
    ⟨_, rfl, _, rfl, rfl, _, rfl, by decide, rfl⟩
  have hdisabled := h _ _ 0 "m" s₀ s₁ s₂ hdone hdisable hok halone hrun
  rw [henabled] at hdisabled
  cases hdisabled

end Registry

end Apcore
