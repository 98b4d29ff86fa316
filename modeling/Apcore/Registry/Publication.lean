import Apcore.Registry.Custody

/-! # `Registry.Publication` — one registration publishes an id at a time

`register_core` looks again, under the lock, whether the id was taken while `on_load` ran, and
`add_version` puts a new module in the place of the registered one only where it is the latest. A
commit of discovery does not look, and a version that is written differently and ranks the same is
the latest by its position. -/

namespace Apcore

namespace RegistryCore

/-- What is registered under an id with versions is the latest of them. -/
structure Current (core : RegistryCore) : Prop where
  registered : ∀ name, core.modules name = none → core.versions name = none
  exact : ∀ name entries, core.versions name = some entries →
    ∀ entry ∈ entries, entry.descriptor.version = entry.version
  latest : ∀ name entries, core.versions name = some entries → ∃ latest descriptor,
    latestVersion entries = some latest ∧ core.modules name = some latest.module ∧
      core.descriptors name = some descriptor ∧ descriptor.version = latest.version

/-- A further version is the latest where it ranks at least as high. -/
theorem latestVersion_append {entries : List VersionEntry} {latest : VersionEntry}
    (h : latestVersion entries = some latest) (entry : VersionEntry) :
    latestVersion (entries ++ [entry]) =
      some (if parseSemver latest.version ≤ parseSemver entry.version then entry else latest) := by
  cases entries with
  | nil => cases h
  | cons first rest =>
    rw [← Option.some.inj h, List.cons_append]
    simp only [latestVersion, List.foldl_append, List.foldl_cons, List.foldl_nil]

theorem current_new : new.Current where
  registered _ _ := rfl
  exact _ _ h := by cases h
  latest _ _ h := by cases h

section Operations

variable {core : RegistryCore} (hcore : core.Current)
include hcore

theorem Current.insertModule {name : String} (hfree : core.modules name = none)
    (inst : Instance) (descriptor : RegisteredDescriptor) :
    (core.insertModule name inst descriptor).Current := by
  have hversions := hcore.registered name hfree
  refine ⟨?_, hcore.exact, ?_⟩
  · intro other h
    change Function.update core.modules name (some inst) other = none at h
    rw [Function.update_apply] at h
    split_ifs at h
    exact hcore.registered other h
  · intro other entries hentries
    change core.versions other = some entries at hentries
    have hne : other ≠ name := by
      intro heq
      rw [heq, hversions] at hentries
      cases hentries
    simp only [RegistryCore.insertModule, Function.update_of_ne hne]
    exact hcore.latest other entries hentries

/-- The entries of an id, new or not, are exact, and their latest is what is registered. -/
theorem Current.entriesOf {name : String} {current : Instance}
    {descriptor : RegisteredDescriptor} (hmodule : core.modules name = some current)
    (hdescriptor : core.descriptors name = some descriptor) :
    (∀ entry ∈ core.entriesOf name current descriptor,
        entry.descriptor.version = entry.version) ∧
      ∃ latest, latestVersion (core.entriesOf name current descriptor) = some latest ∧
        latest.module = current ∧ latest.version = descriptor.version := by
  unfold RegistryCore.entriesOf
  cases hversions : core.versions name with
  | none =>
    refine ⟨?_, _, rfl, rfl, rfl⟩
    intro entry hentry
    rw [List.mem_singleton.mp hentry]
  | some entries =>
    obtain ⟨latest, descriptor', hlatest, hm, hd, hv⟩ := hcore.latest name entries hversions
    refine ⟨hcore.exact name entries hversions, latest, hlatest, ?_, ?_⟩
    · exact Option.some.inj (hm.symm.trans hmodule)
    · rw [← hv, Option.some.inj (hd.symm.trans hdescriptor)]

theorem Current.newEntries {name : String} {current : Instance}
    {descriptor : RegisteredDescriptor} (hmodule : core.modules name = some current)
    (hdescriptor : core.descriptors name = some descriptor) :
    Current { core with
      versions := Function.update core.versions name
        (some (core.entriesOf name current descriptor)) } := by
  obtain ⟨hexact, latest, hlatest, hm, hv⟩ := hcore.entriesOf hmodule hdescriptor
  constructor
  case registered =>
    intro other h
    simp only [Function.update_apply]
    split_ifs with heq
    · change core.modules other = none at h
      rw [heq, hmodule] at h
      cases h
    · exact hcore.registered other h
  case exact =>
    intro other entries hentries
    simp only [Function.update_apply] at hentries
    split_ifs at hentries with heq
    · rw [← Option.some.inj hentries]
      exact hexact
    · exact hcore.exact other entries hentries
  case latest =>
    intro other entries hentries
    simp only [Function.update_apply] at hentries
    split_ifs at hentries with heq
    · rw [← Option.some.inj hentries]
      refine ⟨latest, descriptor, hlatest, ?_, ?_, hv.symm⟩
      · rw [hm, heq]
        exact hmodule
      · rw [heq]
        exact hdescriptor
    · exact hcore.latest other entries hentries

theorem Current.installEntries {name : String} {entries : List VersionEntry}
    (hexact : ∀ entry ∈ entries, entry.descriptor.version = entry.version)
    {latest : VersionEntry} (hlatest : latestVersion entries = some latest) :
    (core.installEntries name entries).Current := by
  rw [RegistryCore.installEntries_eq hlatest]
  constructor
  case registered =>
    intro other h
    simp only [Function.update_apply] at h ⊢
    split_ifs at h ⊢
    exact hcore.registered other h
  case exact =>
    intro other others hothers
    simp only [Function.update_apply] at hothers
    split_ifs at hothers
    · rw [← Option.some.inj hothers]
      exact hexact
    · exact hcore.exact other others hothers
  case latest =>
    intro other others hothers
    simp only [Function.update_apply] at hothers ⊢
    split_ifs at hothers ⊢
    · rw [← Option.some.inj hothers]
      exact ⟨latest, latest.descriptor, hlatest, rfl, rfl,
        hexact latest (isLatest_of_latestVersion hlatest).1⟩
    · exact hcore.latest other others hothers

theorem Current.removeModule (name : String) : (core.removeModule name).Current := by
  constructor
  case registered =>
    intro other h
    simp only [RegistryCore.removeModule, Function.update_apply] at h ⊢
    split_ifs at h ⊢
    · rfl
    · exact hcore.registered other h
  case exact =>
    intro other entries hentries
    simp only [RegistryCore.removeModule, Function.update_apply] at hentries
    split_ifs at hentries
    exact hcore.exact other entries hentries
  case latest =>
    intro other entries hentries
    simp only [RegistryCore.removeModule, Function.update_apply] at hentries ⊢
    split_ifs at hentries ⊢
    exact hcore.latest other entries hentries

theorem Current.setEnabled {name : String} {descriptor : RegisteredDescriptor} {enabled : Bool}
    (hdescriptor : core.descriptors name = some descriptor) :
    Current { core with
      descriptors := Function.update core.descriptors name
        (some { descriptor with enabled }) } := by
  refine ⟨hcore.registered, hcore.exact, ?_⟩
  intro other entries hentries
  obtain ⟨latest, descriptor', hlatest, hm, hd, hv⟩ := hcore.latest other entries hentries
  simp only [Function.update_apply]
  split_ifs with heq
  · rw [heq, hdescriptor] at hd
    rw [← Option.some.inj hd] at hv
    exact ⟨latest, _, hlatest, hm, rfl, hv⟩
  · exact ⟨latest, descriptor', hlatest, hm, hd, hv⟩

end Operations

end RegistryCore

namespace Registry

/-! ## What a step does to what is registered -/

/-- The events that say what is registered. -/
def Event.Registers : Event → Prop
  | .published .. | .versioned .. | .removed .. => True
  | _ => False

/-- What a step can do to what is looked up. -/
inductive Lookup (s : State) (l : Label) (s' : State) : Prop
  | same (hmodules : s'.shared.core.modules = s.shared.core.modules) (quiet : List Event)
      (hquiet : ∀ event ∈ quiet, ¬ event.Registers)
      (hlog : s'.shared.log = quiet ++ s.shared.log)
  | removed (name : String) (inst : Instance) (outstanding : Nat)
      (hmodule : s.shared.core.modules name = some inst)
      (hmodules : s'.shared.core.modules = Function.update s.shared.core.modules name none)
      (hlog : s'.shared.log = .removed name inst outstanding :: s.shared.log)
  | published (t : Nat) (choice : Choice) (r : Registration) (hlabel : l = .act t choice)
      (hfree : s.shared.core.modules r.name = none ∨ r ∈ (s.threads t).discovering)
      (hmodules : s'.shared.core.modules = Function.update s.shared.core.modules r.name
        (some r.inst))
      (hlog : s'.shared.log = .published r.name r.inst :: s.shared.log)
  | versioned (t : Nat) (choice : Choice) (r : Registration) (current : Instance)
      (descriptor : RegisteredDescriptor) (hlabel : l = .act t choice)
      (hpushing : r ∈ (s.threads t).pushing)
      (hmodule : s.shared.core.modules r.name = some current)
      (hdescriptor : s.shared.core.descriptors r.name = some descriptor)
      (hnew : (s.shared.core.entriesOf r.name current descriptor).any
        (·.version == r.descriptor.version) = false)
      (hcore : s'.shared.core = s.shared.core.installEntries r.name
        (s.shared.core.entriesOf r.name current descriptor ++
          [{ version := r.descriptor.version, module := r.inst, descriptor := r.descriptor }]))
      (hlog : s'.shared.log = .versioned r.name r.inst :: s.shared.log)

/-- A quiet move logs nothing about what is registered. -/
theorem Quiet.not_registers {σ : Shared} {pc pc' : Pc} {event : Option Event}
    {inFlight : String → Bool} (h : Quiet σ pc event inFlight pc') :
    ∀ e ∈ event.toList, ¬ e.Registers := by
  cases h <;> simp [Event.Registers]

theorem lookup_step {s s' : State} {l : Label} (h : step s l = some s') : Lookup s l s' := by
  obtain ⟨t, σ, pc, rfl, hmove⟩ := step_cases h
  rcases hmove with ⟨c, rfl, hresting, hbegin⟩ | ⟨choice, rfl, hmove⟩
  · cases hbegin <;> exact .same rfl [] (by simp) rfl
  · generalize hpc : s.threads t = here at hmove
    cases hmove with
    | quiet h => exact .same rfl _ h.not_registers rfl
    | duplicate r current descriptor hmodule hdescriptor =>
      exact .same rfl [_] (by simp [Event.Registers]) rfl
    | added r current descriptor hmodule hdescriptor hnew =>
      exact .versioned t _ r current descriptor rfl (by rw [hpc]; rfl) hmodule hdescriptor hnew
        rfl rfl
    | committed r source hpath =>
      refine .published t _ r rfl (.inr ?_) rfl rfl
      rw [hpc]
      exact discovering_publishing hpath
    | published r hfree => exact .published t _ r rfl (.inl hfree) rfl rfl
    | removed name remover inst hmodule => exact .removed name inst _ hmodule rfl rfl
    | unloaded name inst remover => exact .same rfl [_] (by simp [Event.Registers]) rfl
    | unloadPanicked name inst remover => exact .same rfl [_] (by simp [Event.Registers]) rfl
    | _ => exact .same rfl [] (by simp) rfl

/-! ## Runs in which nobody meets a rival -/

/-- A commit of discovery finds its id unregistered, and a version that is added ranks the same as
the registered one only where it is refused as a duplicate. -/
def MeetsNoRival (s : State) : Label → Prop
  | .act t _ => (∀ r ∈ (s.threads t).discovering, s.shared.core.contains r.name = false) ∧
      ∀ r ∈ (s.threads t).pushing, ∀ descriptor ∈ s.shared.core.descriptors r.name,
        parseSemver descriptor.version = parseSemver r.descriptor.version →
          s.shared.core.versionRegistered r.name r.descriptor.version = true
  | .call _ _ => True

instance : ∀ s l, Decidable (MeetsNoRival s l)
  | s, .act t _ => inferInstanceAs (Decidable
      ((∀ r ∈ (s.threads t).discovering, s.shared.core.contains r.name = false) ∧
        ∀ r ∈ (s.threads t).pushing, ∀ descriptor ∈ s.shared.core.descriptors r.name,
          parseSemver descriptor.version = parseSemver r.descriptor.version →
            s.shared.core.versionRegistered r.name r.descriptor.version = true))
  | _, .call _ _ => .isTrue trivial

theorem current_step {s s' : State} {l : Label} (hs : s.shared.core.Current)
    (hok : MeetsNoRival s l) (hstep : step s l = some s') : s'.shared.core.Current := by
  obtain ⟨t, σ, pc, rfl, hmove⟩ := step_cases hstep
  rw [advance_shared]
  rcases hmove with ⟨c, rfl, hresting, hbegin⟩ | ⟨choice, rfl, hmove⟩
  · cases hbegin with
    | toggled name enabled descriptor hdescriptor => exact hs.setEnabled hdescriptor
    | _ => exact ⟨hs.registered, hs.exact, hs.latest⟩
  · generalize hpc : s.threads t = here at hmove
    cases hmove with
    | duplicate r current descriptor hmodule hdescriptor => exact hs.newEntries hmodule hdescriptor
    | added r current descriptor hmodule hdescriptor hnew =>
      obtain ⟨hexact, latest, hlatest, -, -⟩ := hs.entriesOf hmodule hdescriptor
      refine hs.installEntries ?_ (RegistryCore.latestVersion_append hlatest _)
      intro entry hentry
      rcases List.mem_append.mp hentry with hold | hlast
      · exact hexact entry hold
      · rw [List.mem_singleton.mp hlast]
    | committed r source hpath =>
      have hfree : s.shared.core.modules r.name = none := by
        have hcontains := hok.1 r (by rw [hpc]; exact discovering_publishing hpath)
        simpa [RegistryCore.contains] using hcontains
      have hinsert := hs.insertModule hfree r.inst r.descriptor
      exact ⟨hinsert.registered, hinsert.exact, hinsert.latest⟩
    | published r hfree => exact hs.insertModule hfree r.inst r.descriptor
    | removed name remover inst hmodule => exact hs.removeModule name
    | _ => exact ⟨hs.registered, hs.exact, hs.latest⟩

/-- What is looked up changes only by `unregister`, or to a version that is strictly higher. -/
def ReplacedRightly (s s' : State) : Prop :=
  ∀ name inst, s.shared.core.modules name = some inst →
    s'.shared.core.modules name ≠ some inst →
    (s'.shared.core.modules name = none ∧
      ∃ k, s'.shared.log = .removed name inst k :: s.shared.log) ∨
    ∃ new descriptor descriptor', s'.shared.core.modules name = some new ∧
      s'.shared.log = .versioned name new :: s.shared.log ∧
      s.shared.core.descriptors name = some descriptor ∧
      s'.shared.core.descriptors name = some descriptor' ∧
      parseSemver descriptor.version < parseSemver descriptor'.version

theorem replacedRightly_step {s s' : State} {l : Label} (hs : s.shared.core.Current)
    (hok : MeetsNoRival s l) (hstep : step s l = some s') : ReplacedRightly s s' := by
  intro name inst hmodule hne
  cases lookup_step hstep with
  | same hmodules quiet hquiet hlog =>
    rw [hmodules] at hne
    exact absurd hmodule hne
  | removed other inst' k hother hmodules hlog =>
    rw [hmodules, Function.update_apply] at hne ⊢
    split_ifs at hne ⊢ with heq
    · subst heq
      obtain rfl : inst' = inst := Option.some.inj (hother.symm.trans hmodule)
      exact .inl ⟨rfl, k, hlog⟩
    · exact absurd hmodule hne
  | published t choice r hlabel hfree hmodules hlog =>
    rw [hmodules, Function.update_apply] at hne
    split_ifs at hne with heq
    · subst heq hlabel
      -- only a commit of discovery could put it where something is registered
      rcases hfree with hfree | hdiscovering
      · rw [hfree] at hmodule
        cases hmodule
      · have hcontains := hok.1 r hdiscovering
        rw [RegistryCore.contains, hmodule] at hcontains
        cases hcontains
    · exact absurd hmodule hne
  | versioned t choice r current descriptor hlabel hpushing hcurrent hdescriptor hnew hcore hlog =>
    obtain ⟨-, latest, hlatest, hm, hv⟩ := hs.entriesOf hcurrent hdescriptor
    have happend := RegistryCore.latestVersion_append hlatest
      { version := r.descriptor.version, module := r.inst, descriptor := r.descriptor }
    rw [RegistryCore.installEntries_eq happend] at hcore
    rw [hcore] at hne ⊢
    simp only [Function.update_apply] at hne ⊢
    split_ifs at hne ⊢ with heq hle
    · -- the new version is the latest; its rank is not that of the registered one
      subst heq hlabel
      refine .inr ⟨r.inst, descriptor, r.descriptor, rfl, hlog, hdescriptor, rfl, ?_⟩
      rw [← hv]
      refine lt_of_le_of_ne hle fun hrank => ?_
      rw [hv] at hrank
      have hthere := hok.2 r hpushing descriptor hdescriptor hrank
      rw [RegistryCore.versionRegistered_eq hdescriptor, hnew] at hthere
      cases hthere
    · -- the registered one stays the latest
      rw [heq, hcurrent] at hmodule
      rw [hm] at hne
      exact absurd hmodule hne
    · exact absurd hmodule hne

/-! ## Publications between removals -/

/-- The unversioned registrations of an id in a log. -/
def publications (name : String) (log : List Event) : Nat :=
  log.countP fun
    | .published other _ => other == name
    | _ => false

/-- Those after its last removal. -/
def sinceRemoval (name : String) : List Event → Nat
  | [] => 0
  | .published other _ :: log => sinceRemoval name log + if other = name then 1 else 0
  | .removed other _ _ :: log => if other = name then 0 else sinceRemoval name log
  | .onLoad _ _ :: log | .onUnload _ :: log | .rejected _ :: log | .refused _ :: log
  | .fellBack _ :: log | .versioned _ _ :: log => sinceRemoval name log

theorem sinceRemoval_quiet {quiet : List Event} (hquiet : ∀ event ∈ quiet, ¬ event.Registers)
    (name : String) (log : List Event) :
    sinceRemoval name (quiet ++ log) = sinceRemoval name log := by
  induction quiet with
  | nil => rfl
  | cons event quiet ih =>
    have hrest := ih fun e he => hquiet e (List.mem_cons_of_mem _ he)
    have hevent := hquiet event List.mem_cons_self
    cases event <;> first | exact hrest | exact absurd trivial hevent

/-- After a removal the publications since then are all of them. -/
theorem sinceRemoval_between {name : String} {mid : List Event}
    (hmid : ∀ inst k, .removed name inst k ∉ mid) (inst : Instance) (k : Nat)
    (earlier : List Event) :
    sinceRemoval name (mid ++ .removed name inst k :: earlier) = publications name mid := by
  induction mid with
  | nil => simp [sinceRemoval, publications]
  | cons event mid ih =>
    have hrest := ih fun i j h => hmid i j (List.mem_cons_of_mem _ h)
    rw [List.cons_append, publications, List.countP_cons, ← publications, ← hrest]
    cases event with
    | published other inst => simp [sinceRemoval]
    | removed other inst' k' =>
      have hne : other ≠ name := by
        rintro rfl
        exact hmid inst' k' List.mem_cons_self
      simp [sinceRemoval, hne]
    | _ => rfl

/-- A removal in a longer log was logged last, or is in the shorter one. -/
theorem removal_cons {event : Event} {log later earlier : List Event} {name : String}
    {inst : Instance} {k : Nat} (h : event :: log = later ++ .removed name inst k :: earlier) :
    event = .removed name inst k ∧ log = earlier ∨
      ∃ later', log = later' ++ .removed name inst k :: earlier := by
  cases later with
  | nil => exact .inl (List.cons.inj h)
  | cons first later => exact .inr ⟨later, (List.cons.inj h).2⟩

theorem removal_quiet {quiet : List Event} (hquiet : ∀ event ∈ quiet, ¬ event.Registers)
    {log later earlier : List Event} {name : String} {inst : Instance} {k : Nat}
    (h : quiet ++ log = later ++ .removed name inst k :: earlier) :
    ∃ later', log = later' ++ .removed name inst k :: earlier := by
  -- on the quiet events, each of which leaves one less to split off
  induction quiet generalizing later with
  | nil => exact ⟨later, h⟩
  | cons event quiet ih =>
    rcases removal_cons h with ⟨heq, -⟩ | ⟨later', hlater⟩
    · have hevent := hquiet event List.mem_cons_self
      rw [heq] at hevent
      exact absurd trivial hevent
    · exact ih (fun e he => hquiet e (List.mem_cons_of_mem _ he)) hlater

/-- Publications and removals of an id take turns. -/
structure TakesTurns (s : State) : Prop where
  current : s.shared.core.Current
  since : ∀ name, sinceRemoval name s.shared.log =
    if (s.shared.core.modules name).isSome then 1 else 0
  removals : ∀ name later inst k earlier,
    s.shared.log = later ++ .removed name inst k :: earlier → sinceRemoval name earlier = 1

theorem takesTurns_initial : TakesTurns State.initial where
  current := RegistryCore.current_new
  since _ := rfl
  removals _ later _ _ _ h := by
    have hlog : ([] : List Event) = _ := h
    simp at hlog

theorem takesTurns_step {s s' : State} {l : Label} (hs : TakesTurns s) (hok : MeetsNoRival s l)
    (hstep : step s l = some s') : TakesTurns s' := by
  have hcurrent := current_step hs.current hok hstep
  -- of the removals in the longer log only one that was logged now has to be looked at
  have hlast : ∀ event name later inst k earlier, (event = .removed name inst k →
      sinceRemoval name s.shared.log = 1) →
      event :: s.shared.log = later ++ .removed name inst k :: earlier →
      sinceRemoval name earlier = 1 := by
    intro event name later inst k earlier hevent h
    rcases removal_cons h with ⟨heq, rfl⟩ | ⟨later', hlater⟩
    · exact hevent heq
    · exact hs.removals name later' inst k earlier hlater
  cases lookup_step hstep with
  | same hmodules quiet hquiet hlog =>
    refine ⟨hcurrent, fun name => ?_, fun name later inst k earlier h => ?_⟩
    · rw [hlog, hmodules, sinceRemoval_quiet hquiet]
      exact hs.since name
    · rw [hlog] at h
      obtain ⟨later', hlater⟩ := removal_quiet hquiet h
      exact hs.removals name later' inst k earlier hlater
  | removed other inst k hmodule hmodules hlog =>
    refine ⟨hcurrent, fun name => ?_, fun name later inst' k' earlier h => ?_⟩
    · rw [hlog, hmodules, sinceRemoval, Function.update_apply]
      by_cases heq : other = name
      · rw [if_pos heq, if_pos heq.symm]
        rfl
      · rw [if_neg heq, if_neg (Ne.symm heq)]
        exact hs.since name
    · rw [hlog] at h
      refine hlast _ name later inst' k' earlier (fun heq => ?_) h
      cases heq
      rw [hs.since, hmodule]
      rfl
  | published t choice r hlabel hfree hmodules hlog =>
    have hnone : s.shared.core.modules r.name = none := by
      rcases hfree with hfree | hdiscovering
      · exact hfree
      · subst hlabel
        have hcontains := hok.1 r hdiscovering
        simpa [RegistryCore.contains] using hcontains
    refine ⟨hcurrent, fun name => ?_, fun name later inst' k' earlier h => ?_⟩
    · rw [hlog, hmodules, sinceRemoval, Function.update_apply]
      by_cases heq : r.name = name
      · rw [if_pos heq, if_pos heq.symm, hs.since, ← heq, hnone]
        rfl
      · rw [if_neg heq, if_neg (Ne.symm heq)]
        exact hs.since name
    · rw [hlog] at h
      exact hlast _ name later inst' k' earlier (fun heq => (by cases heq)) h
  | versioned t choice r current descriptor hlabel hpushing hmodule hdescriptor hnew hcore hlog =>
    have hentries : s.shared.core.entriesOf r.name current descriptor ++
        [{ version := r.descriptor.version, module := r.inst, descriptor := r.descriptor }] ≠ [] :=
      List.append_ne_nil_of_right_ne_nil _ (List.cons_ne_nil _ _)
    obtain ⟨latest, hlatest⟩ := exists_latestVersion hentries
    have hsame : ∀ name, (s'.shared.core.modules name).isSome =
        (s.shared.core.modules name).isSome := by
      intro name
      rw [hcore, RegistryCore.installEntries_eq hlatest]
      simp only [Function.update_apply]
      split_ifs with heq
      · rw [heq, hmodule]
        rfl
      · rfl
    refine ⟨hcurrent, fun name => ?_, fun name later inst' k' earlier h => ?_⟩
    · rw [hlog, hsame]
      exact hs.since name
    · rw [hlog] at h
      exact hlast _ name later inst' k' earlier (fun heq => (by cases heq)) h

/-- What publication is like in a state that a run reaches. -/
structure PublicationExclusive (s : State) : Prop where
  /-- The next step that meets no rival replaces what is looked up only rightly. -/
  replaced : ∀ l s', MeetsNoRival s l → step s l = some s' → ReplacedRightly s s'
  /-- Between two removals of an id one unversioned registration is published. -/
  once : ∀ name later mid earlier inst inst' k k',
    s.shared.log =
      later ++ .removed name inst k :: (mid ++ .removed name inst' k' :: earlier) →
    (∀ other j, .removed name other j ∉ mid) → publications name mid = 1
  /-- A registration that reports success was put into the maps, by itself or as a version. -/
  succeeded : ∀ t answer name inst, s.threads t = .returned answer →
    answer.succeeded = some (name, inst) → Introduced s.shared.log name inst
  /-- One that reports a failure was not. -/
  failed : ∀ t answer inst, s.threads t = .returned answer → answer.failed = some inst →
    ∀ name, ¬ Introduced s.shared.log name inst

theorem publication_exclusive_of_run (ls : List Label) (s : State)
    (hok : Transition.Along step MeetsNoRival State.initial ls)
    (hrun : Transition.exec step State.initial ls = some s) : PublicationExclusive s := by
  have hturns := Transition.exec_invariant_along
    (fun _ _ _ hs hl hstep => takesTurns_step hs hl hstep) takesTurns_initial hok hrun
  have hcustody := custody_of_run hrun
  refine ⟨fun l s' hl hstep => replacedRightly_step hturns.current hl hstep, ?_, ?_, ?_⟩
  · intro name later mid earlier inst inst' k k' hlog hmid
    have hone := hturns.removals name later inst k _ hlog
    rw [sinceRemoval_between hmid] at hone
    exact hone
  · intro t answer name inst hpc hanswer
    exact hcustody.reports t name inst (by rw [hpc]; exact hanswer)
  · intro t answer inst hpc hanswer name hin
    obtain ⟨-, st, hst, hexpects⟩ := hcustody.hands t inst (by rw [hpc]; exact hanswer)
    have hwas := (tally hst).introduced.mp ⟨name, hin⟩
    rw [hpc] at hexpects
    change st.Ended at hexpects
    cases st <;> first | exact hwas.elim | exact hexpects.elim

theorem publication_exclusive_of_reregistration : ∃ s, Transition.exec step State.initial
    (registerSteps 0 "m" ++ addVersionSteps 1 "m" "2.0.0" ++ unregisterSteps 0 "m" ++
      registerSteps 1 "m") = some s ∧
      s.shared.core.modules "m" = some 2 ∧ PublicationExclusive s := by
  obtain ⟨s, hrun, hmodule⟩ : ∃ s, Transition.exec step State.initial
      (registerSteps 0 "m" ++ addVersionSteps 1 "m" "2.0.0" ++ unregisterSteps 0 "m" ++
        registerSteps 1 "m") = some s ∧ s.shared.core.modules "m" = some 2 := ⟨_, rfl, rfl⟩
  exact ⟨s, hrun, hmodule, publication_exclusive_of_run _ s (by decide) hrun⟩

/-- An entry of discovery, up to its commit, with a registration of the id in between. -/
def overtakenDiscovery : List Label :=
  [.call 1 (.registerDiscovered "m" .inert (Loadable.inert.descriptor none) "m.rs"),
    .act 1 (.verdict none)] ++ registerSteps 0 "m" ++ [.act 1 .go, .act 1 .loaded]

/-- A commit of discovery replaces a module that was registered while its own was loaded. -/
theorem discovery_replaces_published : ∃ s s', Transition.exec step State.initial
    overtakenDiscovery = some s ∧ step s (.act 1 .go) = some s' ∧
      s.shared.core.modules "m" = some 1 ∧ ¬ ReplacedRightly s s' := by
  obtain ⟨s, s', hrun, hstep, hmodule, hmodule', hlog⟩ : ∃ s s', Transition.exec step
      State.initial overtakenDiscovery = some s ∧ step s (.act 1 .go) = some s' ∧
      s.shared.core.modules "m" = some 1 ∧ s'.shared.core.modules "m" = some 0 ∧
      s'.shared.log.head? = some (.published "m" 0) := ⟨_, _, rfl, rfl, rfl, rfl, rfl⟩
  refine ⟨s, s', hrun, hstep, hmodule, fun h => ?_⟩
  have hne : s'.shared.core.modules "m" ≠ some 1 := by
    rw [hmodule']
    decide
  rcases h "m" 1 hmodule hne with ⟨hnone, -⟩ | ⟨new, -, -, -, hversioned, -⟩
  · rw [hmodule'] at hnone
    cases hnone
  · rw [hversioned] at hlog
    cases hlog

end Registry

end Apcore
