import Apcore.Registry.Moves

/-! # `Registry.Consistency` — the maps of a registry agree

Eight maps are kept in step by hand. Each critical section keeps them in step but two: a commit of
discovery overwrites an id without a look at its versions, and `enable` and `disable` change the
descriptor of an id and not the one in its versions. `core_consistent_of_run` is over runs in which
neither meets an id with versions. -/

namespace Apcore

namespace RegistryCore

/-- The maps agree on what is registered. -/
structure Consistent (core : RegistryCore) : Prop where
  descriptors : ∀ name, (core.descriptors name).isSome = core.contains name
  schemaCache : ∀ name, core.schemaCache name = (core.descriptors name).map (·.schema)
  lowercase : ∀ name, core.contains name = true → toLowercase name = name
  lowercaseMap : ∀ key name, core.lowercaseMap key = some name ↔
    toLowercase name = key ∧ core.contains name = true
  versions : ∀ name, core.contains name = false → core.versions name = none
  sources : ∀ name, core.contains name = false → core.sources name = none
  refCounts : ∀ name, core.contains name = false → core.refCounts name = none
  draining : ∀ name, core.contains name = false → core.draining name = false
  latest : ∀ name entries, core.versions name = some entries → ∃ latest,
    IsLatest entries latest ∧ core.modules name = some latest.module ∧
      core.descriptors name = some latest.descriptor

theorem contains_of_module {core : RegistryCore} {name : String} {inst : Instance}
    (h : core.modules name = some inst) : core.contains name = true := by
  rw [contains, h]
  rfl

/-- A map that is set to a value at an id has it there, and where it had it. -/
theorem update_eq_of {β : Type} {f : String → β} {name other : String} {value : β}
    (h : other = name ∨ f other = value) : Function.update f name value other = value := by
  rw [Function.update_apply]
  split_ifs with heq
  · rfl
  · exact h.resolve_left heq

theorem consistent_new : new.Consistent where
  descriptors _ := rfl
  schemaCache _ := rfl
  lowercase _ h := by cases h
  lowercaseMap _ _ := ⟨fun h => (by cases h), fun h => (by cases h.2)⟩
  versions _ _ := rfl
  sources _ _ := rfl
  refCounts _ _ := rfl
  draining _ _ := rfl
  latest _ _ h := by cases h

section Operations

variable {core : RegistryCore} (hcore : core.Consistent)
include hcore

/-- A module goes into the maps, where no versions are kept of its id. -/
theorem Consistent.insertModule {name : String} (hname : toLowercase name = name)
    (hversions : core.versions name = none) (inst : Instance)
    (descriptor : RegisteredDescriptor) :
    (core.insertModule name inst descriptor).Consistent := by
  have hcontains : ∀ other, (core.insertModule name inst descriptor).contains other =
      if other = name then true else core.contains other := by
    intro other
    simp only [contains, RegistryCore.insertModule, Function.update_apply]
    split_ifs <;> rfl
  have hother : ∀ other, (core.insertModule name inst descriptor).contains other = false →
      core.contains other = false := by
    intro other h
    rw [hcontains] at h
    split_ifs at h
    exact h
  constructor
  case descriptors =>
    intro other
    rw [hcontains]
    simp only [RegistryCore.insertModule, Function.update_apply]
    split_ifs with h
    · rfl
    · exact hcore.descriptors other
  case schemaCache =>
    intro other
    simp only [RegistryCore.insertModule, Function.update_apply]
    split_ifs with h
    · rfl
    · exact hcore.schemaCache other
  case lowercase =>
    intro other h
    rw [hcontains] at h
    split_ifs at h with heq
    · rw [heq, hname]
    · exact hcore.lowercase other h
  case lowercaseMap =>
    intro key other
    rw [hcontains]
    simp only [RegistryCore.insertModule, Function.update_apply, hname]
    -- a valid id is its own lower case, so the entry is under the id itself
    by_cases hkey : key = name
    · rw [if_pos hkey, hkey]
      constructor
      · intro h
        rw [← Option.some.inj h]
        exact ⟨hname, if_pos rfl⟩
      · rintro ⟨hlower, h⟩
        split_ifs at h with heq
        · rw [heq]
        · rw [← hlower, hcore.lowercase other h]
    · rw [if_neg hkey, hcore.lowercaseMap]
      refine and_congr_right fun hlower => ?_
      have hne : other ≠ name := by
        intro heq
        rw [heq, hname] at hlower
        exact hkey hlower.symm
      rw [if_neg hne]
  case versions => exact fun other h => hcore.versions other (hother other h)
  case sources => exact fun other h => hcore.sources other (hother other h)
  case refCounts => exact fun other h => hcore.refCounts other (hother other h)
  case draining => exact fun other h => hcore.draining other (hother other h)
  case latest =>
    intro other entries hentries
    change core.versions other = some entries at hentries
    have hne : other ≠ name := by
      intro heq
      rw [heq, hversions] at hentries
      cases hentries
    simp only [RegistryCore.insertModule, Function.update_of_ne hne]
    exact hcore.latest other entries hentries

theorem Consistent.commitDiscovered {name : String} (hname : toLowercase name = name)
    (hversions : core.versions name = none) (inst : Instance)
    (descriptor : RegisteredDescriptor) (source : String) :
    (core.commitDiscovered name inst descriptor source).Consistent := by
  have hinsert := hcore.insertModule hname hversions inst descriptor
  refine ⟨hinsert.descriptors, hinsert.schemaCache, hinsert.lowercase, hinsert.lowercaseMap,
    hinsert.versions, ?_, hinsert.refCounts, hinsert.draining, hinsert.latest⟩
  intro other h
  have hne : other ≠ name := by
    rintro rfl
    have hmodule : (core.commitDiscovered other inst descriptor source).modules other = some inst :=
      Function.update_self ..
    rw [contains_of_module hmodule] at h
    cases h
  simp only [RegistryCore.commitDiscovered, Function.update_of_ne hne]
  exact hinsert.sources other h

/-- The entries of an id, new or not, hold what is registered as their latest. -/
theorem Consistent.entriesOf_latest {name : String} {current : Instance}
    {descriptor : RegisteredDescriptor} (hmodule : core.modules name = some current)
    (hdescriptor : core.descriptors name = some descriptor) :
    ∃ latest, IsLatest (core.entriesOf name current descriptor) latest ∧
      latest.module = current ∧ latest.descriptor = descriptor := by
  cases hversions : core.versions name with
  | none =>
    rw [entriesOf, hversions]
    refine ⟨_, ⟨List.mem_singleton_self _, ?_⟩, rfl, rfl⟩
    intro entry hentry
    rw [List.mem_singleton.mp hentry]
  | some entries =>
    obtain ⟨latest, hlatest, hm, hd⟩ := hcore.latest name entries hversions
    rw [entriesOf, hversions]
    refine ⟨latest, hlatest, ?_, ?_⟩
    · exact Option.some.inj (hm.symm.trans hmodule)
    · exact Option.some.inj (hd.symm.trans hdescriptor)

/-- A version that is there already may leave new entries behind. -/
theorem Consistent.newEntries {name : String} {current : Instance}
    {descriptor : RegisteredDescriptor} (hmodule : core.modules name = some current)
    (hdescriptor : core.descriptors name = some descriptor) :
    Consistent { core with
      versions := Function.update core.versions name
        (some (core.entriesOf name current descriptor)) } := by
  refine ⟨hcore.descriptors, hcore.schemaCache, hcore.lowercase, hcore.lowercaseMap, ?_,
    hcore.sources, hcore.refCounts, hcore.draining, ?_⟩
  · intro other h
    have hne : other ≠ name := by
      rintro rfl
      have hcontains := contains_of_module hmodule
      rw [show core.contains other = false from h] at hcontains
      cases hcontains
    simp only [Function.update_of_ne hne]
    exact hcore.versions other h
  · intro other entries hentries
    simp only [Function.update_apply] at hentries
    split_ifs at hentries with heq
    · obtain ⟨latest, hlatest, hm, hd⟩ := hcore.entriesOf_latest hmodule hdescriptor
      subst heq
      rw [← Option.some.inj hentries]
      exact ⟨latest, hlatest, by rw [hm]; exact hmodule, by rw [hd]; exact hdescriptor⟩
    · exact hcore.latest other entries hentries

/-- Entries go in with their latest version in the other maps. -/
theorem Consistent.installEntries {name : String} (hname : core.contains name = true)
    {entries : List VersionEntry} (hentries : entries ≠ []) :
    (core.installEntries name entries).Consistent := by
  obtain ⟨latest, hlatest⟩ := exists_latestVersion hentries
  have hinstall := @RegistryCore.installEntries_eq core name _ _ hlatest
  have hcontains : ∀ other, (core.installEntries name entries).contains other =
      core.contains other := by
    intro other
    rw [hinstall]
    simp only [contains, Function.update_apply]
    split_ifs with heq
    · rw [heq]
      exact hname.symm
    · rfl
  constructor
  case descriptors =>
    intro other
    rw [hcontains, hinstall]
    simp only [Function.update_apply]
    split_ifs with heq
    · rw [heq, hname]
      rfl
    · exact hcore.descriptors other
  case schemaCache =>
    intro other
    rw [hinstall]
    simp only [Function.update_apply]
    split_ifs with heq
    · rfl
    · exact hcore.schemaCache other
  case lowercase => exact fun other h => hcore.lowercase other (by rwa [hcontains] at h)
  case lowercaseMap =>
    intro key other
    rw [hcontains, hinstall]
    exact hcore.lowercaseMap key other
  case versions =>
    intro other h
    rw [hcontains] at h
    have hne : other ≠ name := by
      rintro rfl
      rw [hname] at h
      cases h
    rw [hinstall]
    simp only [Function.update_of_ne hne]
    exact hcore.versions other h
  case sources =>
    intro other h
    rw [hinstall]
    exact hcore.sources other (by rwa [hcontains] at h)
  case refCounts =>
    intro other h
    rw [hinstall]
    exact hcore.refCounts other (by rwa [hcontains] at h)
  case draining =>
    intro other h
    rw [hinstall]
    exact hcore.draining other (by rwa [hcontains] at h)
  case latest =>
    intro other others hothers
    rw [hinstall] at hothers ⊢
    simp only [Function.update_apply] at hothers ⊢
    split_ifs at hothers ⊢ with heq
    · rw [← Option.some.inj hothers]
      exact ⟨latest, isLatest_of_latestVersion hlatest, rfl, rfl⟩
    · exact hcore.latest other others hothers

/-- A registered id goes out of all the maps. -/
theorem Consistent.removeModule {name : String} (hname : core.contains name = true) :
    (core.removeModule name).Consistent := by
  have hlower := hcore.lowercase name hname
  have hcontains : ∀ other, (core.removeModule name).contains other =
      if other = name then false else core.contains other := by
    intro other
    simp only [contains, RegistryCore.removeModule, Function.update_apply]
    split_ifs <;> rfl
  -- what is not registered afterwards is the removed id, or was not registered before
  have hgone : ∀ other, (core.removeModule name).contains other = false →
      other = name ∨ core.contains other = false := by
    intro other h
    rw [hcontains] at h
    split_ifs at h with heq
    · exact .inl heq
    · exact .inr h
  constructor
  case descriptors =>
    intro other
    rw [hcontains]
    simp only [RegistryCore.removeModule, Function.update_apply]
    split_ifs
    · rfl
    · exact hcore.descriptors other
  case schemaCache =>
    intro other
    simp only [RegistryCore.removeModule, Function.update_apply]
    split_ifs
    · rfl
    · exact hcore.schemaCache other
  case lowercase =>
    intro other h
    rw [hcontains] at h
    split_ifs at h
    exact hcore.lowercase other h
  case lowercaseMap =>
    intro key other
    rw [hcontains]
    simp only [RegistryCore.removeModule, Function.update_apply, hlower]
    by_cases hkey : key = name
    · rw [if_pos hkey]
      constructor
      · intro h
        cases h
      · rintro ⟨hlow, h⟩
        split_ifs at h with heq
        rw [hcore.lowercase other h] at hlow
        exact absurd (hlow.trans hkey) heq
    · rw [if_neg hkey, hcore.lowercaseMap]
      refine and_congr_right fun hlow => ?_
      have hne : other ≠ name := by
        intro heq
        rw [heq, hlower] at hlow
        exact hkey hlow.symm
      rw [if_neg hne]
  case versions =>
    exact fun other h => update_eq_of ((hgone other h).imp_right (hcore.versions other))
  case sources =>
    exact fun other h => update_eq_of ((hgone other h).imp_right (hcore.sources other))
  case refCounts =>
    exact fun other h => update_eq_of ((hgone other h).imp_right (hcore.refCounts other))
  case draining =>
    exact fun other h => update_eq_of ((hgone other h).imp_right (hcore.draining other))
  case latest =>
    intro other entries hentries
    simp only [RegistryCore.removeModule, Function.update_apply] at hentries ⊢
    split_ifs at hentries ⊢
    exact hcore.latest other entries hentries

/-- The flag of a registered id is set, or any flag is taken away. -/
theorem Consistent.setDraining {name : String} {draining : Bool}
    (h : core.contains name = true ∨ draining = false) :
    (core.setDraining name draining).Consistent := by
  refine ⟨hcore.descriptors, hcore.schemaCache, hcore.lowercase, hcore.lowercaseMap,
    hcore.versions, hcore.sources, hcore.refCounts, ?_, hcore.latest⟩
  intro other hfree
  change core.contains other = false at hfree
  simp only [RegistryCore.setDraining, Function.update_apply]
  split_ifs with heq
  · rcases h with hname | hoff
    · rw [heq, hname] at hfree
      cases hfree
    · exact hoff
  · exact hcore.draining other hfree

/-- The count of a registered id changes, or any count is taken away. -/
theorem Consistent.setRefCount {name : String} {count : Option Nat}
    (h : core.contains name = true ∨ count = none) :
    Consistent { core with refCounts := Function.update core.refCounts name count } := by
  refine ⟨hcore.descriptors, hcore.schemaCache, hcore.lowercase, hcore.lowercaseMap,
    hcore.versions, hcore.sources, ?_, hcore.draining, hcore.latest⟩
  intro other hfree
  change core.contains other = false at hfree
  simp only [Function.update_apply]
  split_ifs with heq
  · rcases h with hname | hnone
    · rw [heq, hname] at hfree
      cases hfree
    · exact hnone
  · exact hcore.refCounts other hfree

/-- A count is of a registered id. -/
theorem Consistent.contains_of_count {name : String} {count : Nat}
    (h : core.refCounts name = some count) : core.contains name = true := by
  by_contra hnot
  have hnone := hcore.refCounts name (by simpa using hnot)
  rw [hnone] at h
  cases h

/-- `enabled` of an id changes, where no versions are kept of it or nothing changes. -/
theorem Consistent.setEnabled {name : String} {descriptor : RegisteredDescriptor} {enabled : Bool}
    (hdescriptor : core.descriptors name = some descriptor)
    (h : core.versions name = none ∨ descriptor.enabled = enabled) :
    Consistent { core with
      descriptors := Function.update core.descriptors name
        (some { descriptor with enabled }) } := by
  refine ⟨?_, ?_, hcore.lowercase, hcore.lowercaseMap, hcore.versions, hcore.sources,
    hcore.refCounts, hcore.draining, ?_⟩
  · intro other
    show _ = core.contains other
    rw [← hcore.descriptors other]
    simp only [Function.update_apply]
    split_ifs with heq
    · rw [heq, hdescriptor]
      rfl
    · rfl
  · intro other
    show core.schemaCache other = _
    rw [hcore.schemaCache other]
    simp only [Function.update_apply]
    split_ifs with heq
    · rw [heq, hdescriptor]
      rfl
    · rfl
  · intro other entries hentries
    obtain ⟨latest, hlatest, hm, hd⟩ := hcore.latest other entries hentries
    refine ⟨latest, hlatest, hm, ?_⟩
    simp only [Function.update_apply]
    split_ifs with heq
    · -- the versions keep a descriptor of their own, which has to agree still
      rcases h with hnone | hsame
      · change core.versions other = some entries at hentries
        rw [heq, hnone] at hentries
        cases hentries
      · rw [← hsame, ← hd, heq, hdescriptor]
    · exact hd

end Operations

end RegistryCore

namespace Registry

/-- The registration of a thread that has passed its checks and may change the maps. -/
def Pc.checked : Pc → Option Registration
  | .versionLoading r | .versionPush r | .reserving r | .loading r | .publishing r => some r
  | _ => none

/-- The maps agree, and whoever is about to change them has a valid id. -/
structure CoreInvariant (s : State) : Prop where
  core : s.shared.core.Consistent
  checked : ∀ t r, (s.threads t).checked = some r → toLowercase r.name = r.name

/-- The steps that meet no versions they would disagree with: a commit of discovery finds none of
its id, and `enable` or `disable` finds none or changes nothing. -/
def KeepsVersions (s : State) : Label → Prop
  | .act t _ => ∀ r ∈ (s.threads t).discovering, (s.shared.core.versions r.name).isNone
  | .call _ (.setEnabled name enabled) => (s.shared.core.versions name).isNone ∨
      ∀ descriptor ∈ s.shared.core.descriptors name, descriptor.enabled = enabled
  | .call _ _ => True

instance : ∀ s l, Decidable (KeepsVersions s l)
  | s, .act t _ => inferInstanceAs
      (Decidable (∀ r ∈ (s.threads t).discovering, (s.shared.core.versions r.name).isNone))
  | s, .call _ (.setEnabled name enabled) => inferInstanceAs
      (Decidable ((s.shared.core.versions name).isNone ∨
        ∀ descriptor ∈ s.shared.core.descriptors name, descriptor.enabled = enabled))
  | _, .call _ (.register ..) | _, .call _ (.registerModule ..) | _, .call _ (.registerInternal ..)
  | _, .call _ (.reinstateInternal ..) | _, .call _ (.registerVersioned ..)
  | _, .call _ (.registerDiscovered ..) | _, .call _ (.unregister _) | _, .call _ (.safeUnregister _)
  | _, .call _ (.acquire _) | _, .call _ (.release ..) => .isTrue trivial

/-- A quiet move passes a valid id on. -/
theorem Quiet.checked {σ : Shared} {pc pc' : Pc} {event : Option Event}
    {inFlight : String → Bool} (h : Quiet σ pc event inFlight pc')
    (hpc : ∀ r, pc.checked = some r → toLowercase r.name = r.name) :
    ∀ r, pc'.checked = some r → toLowercase r.name = r.name := by
  intro r' hr'
  cases h with
  | versionPassed r hvalid =>
    rw [← Option.some.inj hr']
    exact hvalid
  | passed r hvalid =>
    rw [← Option.some.inj hr']
    exact hvalid
  | versionLoaded r => exact hpc r' hr'
  | reserved r => exact hpc r' hr'
  | loaded r => exact hpc r' hr'
  | _ => cases hr'

theorem coreInvariant_step {s s' : State} {l : Label} (hs : CoreInvariant s)
    (hok : KeepsVersions s l) (hstep : step s l = some s') : CoreInvariant s' := by
  obtain ⟨t, σ, pc, rfl, hmove⟩ := step_cases hstep
  have hcore := hs.core
  -- the other threads stand where they stood
  suffices h : σ.core.Consistent ∧ ∀ r, pc.checked = some r → toLowercase r.name = r.name by
    exact ⟨h.1, forall_advance
      (P := fun pc => ∀ r, pc.checked = some r → toLowercase r.name = r.name) hs.checked h.2⟩
  rcases hmove with ⟨c, rfl, hresting, hbegin⟩ | ⟨choice, rfl, hmove⟩
  · cases hbegin with
    | choosing c r explicit hcall hinst => exact ⟨hcore, fun r h => (by cases h)⟩
    | registering c r hcall hinst => exact ⟨hcore, fun r h => (by cases h)⟩
    | unregister name => exact ⟨hcore, fun r h => (by cases h)⟩
    | safeUnregister name => exact ⟨hcore, fun r h => (by cases h)⟩
    | acquireFailed name e => exact ⟨hcore, fun r h => (by cases h)⟩
    | acquired name inst hdraining hmodule =>
      exact ⟨hcore.setRefCount (.inl (RegistryCore.contains_of_module hmodule)),
        fun r h => (by cases h)⟩
    | releasedNone name reference hheld hcount => exact ⟨hcore, fun r h => (by cases h)⟩
    | releasedLast name reference count hheld hcount hlast =>
      exact ⟨hcore.setRefCount (.inr rfl), fun r h => (by cases h)⟩
    | releasedOne name reference count hheld hcount hmore =>
      exact ⟨hcore.setRefCount (.inl (hcore.contains_of_count hcount)),
        fun r h => (by cases h)⟩
    | toggleFailed name enabled e => exact ⟨hcore, fun r h => (by cases h)⟩
    | toggled name enabled descriptor hdescriptor =>
      refine ⟨hcore.setEnabled hdescriptor ?_, fun r h => (by cases h)⟩
      exact hok.imp Option.isNone_iff_eq_none.mp fun h => h descriptor hdescriptor
  · generalize hpc : s.threads t = here at hmove
    cases hmove with
    | quiet h => exact ⟨hcore, h.checked fun r hr => hs.checked t r (by rw [hpc]; exact hr)⟩
    | duplicate r current descriptor hmodule hdescriptor =>
      exact ⟨hcore.newEntries hmodule hdescriptor, fun r h => (by cases h)⟩
    | added r current descriptor hmodule hdescriptor hnew =>
      exact ⟨hcore.installEntries (RegistryCore.contains_of_module hmodule) (by simp),
        fun r h => (by cases h)⟩
    | committed r source hpath =>
      have hname : toLowercase r.name = r.name := hs.checked t r (by rw [hpc]; rfl)
      have hversions : s.shared.core.versions r.name = none :=
        Option.isNone_iff_eq_none.mp (hok r (by rw [hpc]; exact discovering_publishing hpath))
      exact ⟨hcore.commitDiscovered hname hversions r.inst r.descriptor source,
        fun r h => (by cases h)⟩
    | published r hfree =>
      have hname : toLowercase r.name = r.name := hs.checked t r (by rw [hpc]; rfl)
      have hversions := hcore.versions r.name (by rw [RegistryCore.contains, hfree]; rfl)
      exact ⟨hcore.insertModule hname hversions r.inst r.descriptor, fun r h => (by cases h)⟩
    | removed name remover inst hmodule =>
      exact ⟨hcore.removeModule (RegistryCore.contains_of_module hmodule),
        fun r h => (by cases h)⟩
    | drainNow name inst hmodule hrefs =>
      exact ⟨hcore.setDraining (.inl (RegistryCore.contains_of_module hmodule)),
        fun r h => (by cases h)⟩
    | drainWait name inst hmodule hrefs =>
      exact ⟨hcore.setDraining (.inl (RegistryCore.contains_of_module hmodule)),
        fun r h => (by cases h)⟩
    | undrained name began clean => exact ⟨hcore.setDraining (.inr rfl), fun r h => (by cases h)⟩
    | notFound | cleared | unloaded | unloadPanicked | drainNotFound | woken | timedOut | forgotten
    | notified | noWaiter => exact ⟨hcore, fun r h => (by cases h)⟩

theorem coreInvariant_initial : CoreInvariant State.initial :=
  ⟨RegistryCore.consistent_new, fun _ _ h => (by cases h)⟩

/-- The maps agree in every state that such runs reach. -/
theorem core_consistent_of_run (ls : List Label) (s : State)
    (hok : Transition.Along step KeepsVersions State.initial ls)
    (hrun : Transition.exec step State.initial ls = some s) : s.shared.core.Consistent :=
  (Transition.exec_invariant_along (fun _ _ _ hs hl hstep => coreInvariant_step hs hl hstep)
    coreInvariant_initial hok hrun).core

theorem core_consistent_of_versions : ∃ s, Transition.exec step State.initial
    (registerSteps 0 "m" ++ addVersionSteps 0 "m" "2.0.0") = some s ∧
      s.shared.core.modules "m" = some 1 ∧ s.shared.core.Consistent := by
  obtain ⟨s, hrun, hmodule⟩ : ∃ s, Transition.exec step State.initial
      (registerSteps 0 "m" ++ addVersionSteps 0 "m" "2.0.0") = some s ∧
        s.shared.core.modules "m" = some 1 := ⟨_, rfl, rfl⟩
  exact ⟨s, hrun, hmodule, core_consistent_of_run _ s (by decide) hrun⟩

/-- `disable` changes the descriptor of an id, and not the one that its versions keep. -/
theorem disable_breaks_versions : ∃ s, Transition.exec step State.initial
    (registerSteps 0 "m" ++ addVersionSteps 0 "m" "2.0.0" ++ [.call 0 (.setEnabled "m" false)]) =
      some s ∧ ¬ s.shared.core.Consistent := by
  obtain ⟨s, hrun, hversions, hdescriptor⟩ : ∃ s, Transition.exec step State.initial
      (registerSteps 0 "m" ++ addVersionSteps 0 "m" "2.0.0" ++ [.call 0 (.setEnabled "m" false)]) =
        some s ∧
      (s.shared.core.versions "m").map (·.map (·.descriptor.enabled)) = some [true, true] ∧
      (s.shared.core.descriptors "m").map (·.enabled) = some false := ⟨_, rfl, rfl, rfl⟩
  refine ⟨s, hrun, fun h => ?_⟩
  obtain ⟨entries, hentries, henabled⟩ := Option.map_eq_some_iff.mp hversions
  obtain ⟨latest, hlatest, -, hd⟩ := h.latest "m" entries hentries
  have hmem : latest.descriptor.enabled ∈ entries.map (·.descriptor.enabled) :=
    List.mem_map_of_mem hlatest.1
  rw [hd] at hdescriptor
  have hoff : latest.descriptor.enabled = false := Option.some.inj hdescriptor
  rw [henabled, hoff] at hmem
  exact absurd hmem (by decide)

end Registry

end Apcore
