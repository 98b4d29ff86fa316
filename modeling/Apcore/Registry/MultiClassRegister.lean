import Apcore.Registry.MultiClass
import Apcore.Registry.Sequential

/-! # `Registry.MultiClassRegister` — registering the classes of one file

`register_multi_class` derives the ids first and then registers one module after the other; a
registration that fails undoes those before it. While it runs, the ids it has registered are the
only difference to the registry it found (`Added`), and undoing them takes the difference away. -/

namespace Apcore

namespace Registry

/-- `MultiClassEntry`, with how its module behaves. -/
structure MultiClassEntry where
  className : String
  module : Loadable
  multiClass : Bool
  conduct : Conduct

/-- The candidate that stands for an entry. -/
def MultiClassEntry.discovered (entry : MultiClassEntry) : DiscoveredClass where
  name := entry.className
  implementsModule := true
  multiClass := entry.multiClass

/-- The descriptor that an entry is registered with. -/
def MultiClassEntry.descriptor (entry : MultiClassEntry) : RegisteredDescriptor where
  annotations := some {}
  enabled := true
  version := defaultModuleVersion
  inputSchema := entry.module.inputSchema
  outputSchema := entry.module.outputSchema

/-- The loop that undoes a batch, and whether it gets to its end: `on_unload` may panic. -/
def rollBack : Shared → List (String × Conduct) → Shared × Bool
  | σ, [] => (σ, true)
  | σ, (prior, conduct) :: rest =>
    match perform σ conduct (.unregister prior) with
    | (σ', some _) => rollBack σ' rest
    | (σ', none) => (σ', false)

/-- The loop of `register_multi_class`, over the ids and entries that are left; `none` where user
code panicked. -/
def registerEach : Shared → List (String × Conduct) → List (String × MultiClassEntry) →
    Shared × Option (Except ModuleError Unit)
  | σ, _, [] => (σ, some (.ok ()))
  | σ, registered, (moduleId, entry) :: rest =>
    match perform σ entry.conduct (.register moduleId entry.module entry.descriptor) with
    | (σ', some (.registration _ _ (.ok ()))) =>
      registerEach σ' (registered ++ [(moduleId, entry.conduct)]) rest
    | (σ', some (.registration _ _ (.error e))) =>
      let (σ'', done) := rollBack σ' registered
      (σ'', if done then some (.error e) else none)
    | (σ', _) => (σ', none)

/-- `register_multi_class`. -/
def registerMultiClass (σ : Shared) (filePath extensionsRoot : String)
    (entries : List MultiClassEntry) : Shared × Option (Except ModuleError (List String)) :=
  match deriveModuleIds filePath extensionsRoot (entries.map (·.discovered)) with
  | .error e => (σ, some (.error e))
  | .ok moduleIds =>
    let multiClass := decide (1 < entries.length) && entries.any (·.multiClass)
    let participants := entries.filter fun entry => !multiClass || entry.multiClass
    let (σ', result) := registerEach σ [] (moduleIds.zip participants)
    (σ', result.map fun r => r.map fun _ => moduleIds)

/-! ## What the loops do -/

/-- The maps `core'` have the modules of `core`, and modules under the names besides. -/
structure Added (core core' : RegistryCore) (names : List String) : Prop where
  fresh : ∀ name ∈ names, core.modules name = none
  others : ∀ name ∉ names, core'.modules name = core.modules name

theorem Added.refl (core : RegistryCore) : Added core core [] := ⟨by simp, fun _ _ => rfl⟩

/-- Nothing but the names was added, so nothing is left once they are gone. -/
theorem Added.modules_eq {core core' : RegistryCore} (h : Added core core' []) :
    core'.modules = core.modules := by
  funext name
  exact h.others name (by simp)

theorem Added.insert {core core' : RegistryCore} {names : List String} {name : String}
    (h : Added core core' names) (hfree : core'.modules name = none) (inst : Instance)
    (descriptor : RegisteredDescriptor) :
    Added core (core'.insertModule name inst descriptor) (names ++ [name]) := by
  constructor
  case fresh =>
    intro other hother
    by_cases hmem : other ∈ names
    · exact h.fresh other hmem
    · obtain rfl : other = name := by simpa [hmem] using hother
      rw [← h.others other hmem]
      exact hfree
  case others =>
    intro other hother
    rw [List.mem_append, List.mem_singleton, not_or] at hother
    rw [← h.others other hother.1]
    exact Function.update_of_ne hother.2 ..

theorem Added.remove {core core' : RegistryCore} {names : List String} {name : String}
    (h : Added core core' (name :: names)) : Added core (core'.removeModule name) names := by
  constructor
  case fresh => exact fun other hother => h.fresh other (List.mem_cons_of_mem _ hother)
  case others =>
    intro other hother
    by_cases heq : other = name
    · subst heq
      rw [h.fresh other List.mem_cons_self]
      exact Function.update_self ..
    · rw [← h.others other (by simp [heq, hother])]
      exact Function.update_of_ne heq ..

/-- An id that is not registered needs no removal. -/
theorem Added.skip {core core' : RegistryCore} {names : List String} {name : String}
    (h : Added core core' (name :: names)) (hfree : core'.modules name = none) :
    Added core core' names := by
  refine ⟨fun other hother => h.fresh other (List.mem_cons_of_mem _ hother), fun other hother => ?_⟩
  by_cases heq : other = name
  · subst heq
    rw [hfree, h.fresh other List.mem_cons_self]
  · exact h.others other (by simp [heq, hother])

/-- Undoing a batch to its end restores the modules. -/
theorem modules_rollBack {core : RegistryCore} {σ : Shared} {registered : List (String × Conduct)}
    (h : Added core σ.core (registered.map (·.1))) (hdone : (rollBack σ registered).2 = true) :
    (rollBack σ registered).1.core.modules = core.modules := by
  induction registered generalizing σ with
  | nil => exact h.modules_eq
  | cons entry rest ih =>
    obtain ⟨prior, conduct⟩ := entry
    have hcall := unregisters_perform σ conduct prior
    rw [rollBack] at hdone ⊢
    generalize perform σ conduct (.unregister prior) = performed at hcall hdone ⊢
    obtain ⟨σ', answer⟩ := performed
    cases hcall with
    | notFound hfree => exact ih (h.skip hfree) hdone
    | removed _ inst hmodule hcore =>
      refine ih ?_ hdone
      rw [hcore]
      exact h.remove
    | panicked _ hpanics => cases hdone

theorem rollBack_calm {σ : Shared} {registered : List (String × Conduct)}
    (hcalm : ∀ entry ∈ registered, entry.2.Calm) : (rollBack σ registered).2 = true := by
  induction registered generalizing σ with
  | nil => rfl
  | cons entry rest ih =>
    obtain ⟨prior, conduct⟩ := entry
    have hcall := unregisters_perform σ conduct prior
    have hrest : ∀ entry ∈ rest, entry.2.Calm := fun entry hentry =>
      hcalm entry (List.mem_cons_of_mem _ hentry)
    rw [rollBack]
    generalize perform σ conduct (.unregister prior) = performed at hcall ⊢
    obtain ⟨σ', answer⟩ := performed
    cases hcall with
    | notFound hfree => exact ih hrest
    | removed _ inst hmodule hcore => exact ih hrest
    | panicked _ hpanics =>
      have hno := (hcalm _ List.mem_cons_self).2
      rw [hpanics] at hno
      cases hno

/-- A batch that ends with an error leaves the modules as they were. -/
theorem modules_registerEach_error {core : RegistryCore} {σ : Shared}
    {registered : List (String × Conduct)} {pairs : List (String × MultiClassEntry)}
    {e : ModuleError} (h : Added core σ.core (registered.map (·.1)))
    (herror : (registerEach σ registered pairs).2 = some (.error e)) :
    (registerEach σ registered pairs).1.core.modules = core.modules := by
  -- on the entries that are left: those before it are what was added
  induction pairs generalizing σ registered with
  | nil => cases herror
  | cons pair rest ih =>
    obtain ⟨moduleId, entry⟩ := pair
    have hcall := registers_perform σ entry.conduct moduleId entry.module entry.descriptor
    rw [registerEach] at herror ⊢
    generalize perform σ entry.conduct (.register moduleId entry.module entry.descriptor) =
      performed at hcall herror ⊢
    obtain ⟨σ', answer⟩ := performed
    cases hcall with
    | published hfree hcore hnext =>
      refine ih ?_ herror
      rw [hcore, List.map_append]
      exact h.insert hfree _ _
    | failed e' hcore =>
      rw [← hcore] at h
      dsimp only at herror ⊢
      split_ifs at herror with hdone
      exact modules_rollBack h hdone
    | panicked hpanics => cases herror

theorem registerEach_calm {σ : Shared} {registered : List (String × Conduct)}
    {pairs : List (String × MultiClassEntry)} (hregistered : ∀ entry ∈ registered, entry.2.Calm)
    (hpairs : ∀ pair ∈ pairs, pair.2.conduct.Calm) :
    (registerEach σ registered pairs).2.isSome := by
  induction pairs generalizing σ registered with
  | nil => rfl
  | cons pair rest ih =>
    obtain ⟨moduleId, entry⟩ := pair
    have hentry : entry.conduct.Calm := hpairs _ List.mem_cons_self
    have hcall := registers_perform σ entry.conduct moduleId entry.module entry.descriptor
    rw [registerEach]
    generalize perform σ entry.conduct (.register moduleId entry.module entry.descriptor) =
      performed at hcall ⊢
    obtain ⟨σ', answer⟩ := performed
    cases hcall with
    | published hfree hcore hnext =>
      refine ih (fun other hother => ?_) fun other hother =>
        hpairs other (List.mem_cons_of_mem _ hother)
      rcases List.mem_append.mp hother with hold | hnew
      · exact hregistered other hold
      · rw [List.mem_singleton.mp hnew]
        exact hentry
    | failed e hcore =>
      dsimp only
      rw [if_pos (rollBack_calm hregistered)]
      rfl
    | panicked hpanics => exact absurd hpanics hentry.1

/-- The entries are registered under their ids, one module object after the other, and nothing else
is. -/
structure Registered (σ σ' : Shared) (pairs : List (String × MultiClassEntry)) : Prop where
  fresh : ∀ pair ∈ pairs, σ.core.contains pair.1 = false
  module : ∀ (k : Nat) (hk : k < pairs.length),
    σ'.core.modules pairs[k].1 = some (σ.nextInst + k) ∧
      σ'.core.descriptors pairs[k].1 = some pairs[k].2.descriptor
  others : ∀ name ∉ pairs.map (·.1), σ'.core.modules name = σ.core.modules name ∧
    σ'.core.descriptors name = σ.core.descriptors name

theorem Registered.nil (σ : Shared) : Registered σ σ [] :=
  ⟨by simp, fun k hk => absurd hk (Nat.not_lt_zero k), fun _ _ => ⟨rfl, rfl⟩⟩

/-- One entry is registered, and then the others. -/
theorem Registered.cons {σ σ₁ σ' : Shared} {moduleId : String} {entry : MultiClassEntry}
    {rest : List (String × MultiClassEntry)} (hfree : σ.core.modules moduleId = none)
    (hcore : σ₁.core = σ.core.insertModule moduleId σ.nextInst entry.descriptor)
    (hnext : σ₁.nextInst = σ.nextInst + 1) (h : Registered σ₁ σ' rest) :
    Registered σ σ' ((moduleId, entry) :: rest) := by
  have hself : σ₁.core.modules moduleId = some σ.nextInst ∧
      σ₁.core.descriptors moduleId = some entry.descriptor := by
    rw [hcore]
    exact ⟨Function.update_self .., Function.update_self ..⟩
  have hother : ∀ name, name ≠ moduleId → σ₁.core.modules name = σ.core.modules name ∧
      σ₁.core.descriptors name = σ.core.descriptors name := by
    intro name hne
    rw [hcore]
    exact ⟨Function.update_of_ne hne .., Function.update_of_ne hne ..⟩
  -- the id is taken by now, so none of the others is registered under it
  have hapart : ∀ pair ∈ rest, pair.1 ≠ moduleId := by
    rintro pair hpair rfl
    have hcontains := h.fresh pair hpair
    rw [RegistryCore.contains, hself.1] at hcontains
    cases hcontains
  constructor
  case fresh =>
    rintro pair (_ | ⟨_, hpair⟩)
    · rw [RegistryCore.contains, hfree]
      rfl
    · have hcontains := h.fresh pair hpair
      rw [RegistryCore.contains, (hother _ (hapart pair hpair)).1] at hcontains
      exact hcontains
  case module =>
    intro k hk
    cases k with
    | zero =>
      have hrest : moduleId ∉ rest.map (·.1) := by
        intro hmem
        obtain ⟨pair, hpair, heq⟩ := List.mem_map.mp hmem
        exact hapart pair hpair heq
      have hkept := h.others moduleId hrest
      rw [hself.1, hself.2] at hkept
      exact hkept
    | succ k =>
      have hlater := h.module k (Nat.lt_of_succ_lt_succ hk)
      rw [hnext, Nat.add_assoc, Nat.add_comm 1 k] at hlater
      exact hlater
  case others =>
    intro name hname
    rw [List.map_cons, List.mem_cons, not_or] at hname
    have hkept := h.others name hname.2
    rw [(hother name hname.1).1, (hother name hname.1).2] at hkept
    exact hkept

theorem registered_registerEach {σ : Shared} {registered : List (String × Conduct)}
    {pairs : List (String × MultiClassEntry)}
    (hok : (registerEach σ registered pairs).2 = some (.ok ())) :
    Registered σ (registerEach σ registered pairs).1 pairs := by
  induction pairs generalizing σ registered with
  | nil => exact .nil σ
  | cons pair rest ih =>
    obtain ⟨moduleId, entry⟩ := pair
    have hcall := registers_perform σ entry.conduct moduleId entry.module entry.descriptor
    rw [registerEach] at hok ⊢
    generalize perform σ entry.conduct (.register moduleId entry.module entry.descriptor) =
      performed at hcall hok ⊢
    obtain ⟨σ', answer⟩ := performed
    cases hcall with
    | published hfree hcore hnext => exact .cons hfree hcore hnext (ih hok)
    | failed e hcore =>
      dsimp only at hok
      split_ifs at hok <;> cases hok
    | panicked hpanics => cases hok

/-! ## The whole call -/

/-- Of several entries, some are marked. -/
def multiClassEntries (entries : List MultiClassEntry) : Bool :=
  decide (1 < entries.length) && entries.any (·.multiClass)

/-- The entries that take part: all marked ones of several, else the first one. -/
def participatingEntries (entries : List MultiClassEntry) : List MultiClassEntry :=
  if multiClassEntries entries then entries.filter (·.multiClass) else entries.take 1

/-- The id that is derived for an entry. -/
def entryId (filePath extensionsRoot : String) (entries : List MultiClassEntry)
    (entry : MultiClassEntry) : String :=
  derivedId filePath extensionsRoot (entries.map (·.discovered)) entry.discovered

theorem filter_discovered (entries : List MultiClassEntry) :
    (entries.map (·.discovered)).filter (·.implementsModule) = entries.map (·.discovered) := by
  refine List.filter_eq_self.mpr fun cls hcls => ?_
  obtain ⟨entry, -, rfl⟩ := List.mem_map.mp hcls
  rfl

theorem multiClassFile_discovered (entries : List MultiClassEntry) :
    multiClassFile (entries.map (·.discovered)) = multiClassEntries entries := by
  rw [multiClassFile, filter_discovered, multiClassEntries, List.length_map, List.any_map]
  rfl

/-- The classes that get an id are those of the participating entries. -/
theorem participating_discovered (entries : List MultiClassEntry) :
    participating (entries.map (·.discovered)) =
      (participatingEntries entries).map (·.discovered) := by
  rw [participating, participatingEntries, multiClassFile_discovered, filter_discovered]
  split_ifs
  · rw [List.filter_map]
    rfl
  · rw [List.map_take]

/-- Each derived id is paired with the entry it is derived for. -/
theorem zip_participants {filePath extensionsRoot : String} {entries : List MultiClassEntry}
    {moduleIds : List String}
    (h : deriveModuleIds filePath extensionsRoot (entries.map (·.discovered)) = .ok moduleIds) :
    moduleIds.zip (entries.filter fun entry => !multiClassEntries entries || entry.multiClass) =
      (participatingEntries entries).map fun entry =>
        (entryId filePath extensionsRoot entries entry, entry) := by
  have hids := (derivedIds_of_deriveModuleIds h).eq_map
  rw [participating_discovered, List.map_map] at hids
  rw [hids, participatingEntries]
  cases hmulti : multiClassEntries entries with
  | true =>
    simp only [Bool.not_true, Bool.false_or, if_true]
    rw [← List.map_prod_right_eq_zip]
    rfl
  | false =>
    cases entries with
    | nil => rfl
    | cons entry rest => rfl

theorem mem_of_mem_participatingEntries {entries : List MultiClassEntry} {entry : MultiClassEntry}
    (h : entry ∈ participatingEntries entries) : entry ∈ entries := by
  unfold participatingEntries at h
  split_ifs at h
  · exact List.mem_of_mem_filter h
  · exact List.mem_of_mem_take h

/-- What becomes of a multi-class registration. -/
theorem registerMultiClass_atomic (σ : Shared) (filePath extensionsRoot : String)
    (entries : List MultiClassEntry) :
    (∀ e, (registerMultiClass σ filePath extensionsRoot entries).2 = some (.error e) →
      (registerMultiClass σ filePath extensionsRoot entries).1.core.modules = σ.core.modules) ∧
    (∀ moduleIds, (registerMultiClass σ filePath extensionsRoot entries).2 = some (.ok moduleIds) →
      moduleIds = (participatingEntries entries).map (entryId filePath extensionsRoot entries) ∧
        Registered σ (registerMultiClass σ filePath extensionsRoot entries).1
          ((participatingEntries entries).map fun entry =>
            (entryId filePath extensionsRoot entries entry, entry))) ∧
    ((∀ entry ∈ entries, entry.conduct.Calm) →
      (registerMultiClass σ filePath extensionsRoot entries).2.isSome) := by
  unfold registerMultiClass
  cases hderive : deriveModuleIds filePath extensionsRoot (entries.map (·.discovered)) with
  | error e => exact ⟨fun _ _ => rfl, fun _ h => (by cases h), fun _ => rfl⟩
  | ok moduleIds =>
    have hzip := zip_participants hderive
    unfold multiClassEntries at hzip
    dsimp only
    rw [hzip]
    generalize hpairs : ((participatingEntries entries).map fun entry =>
      (entryId filePath extensionsRoot entries entry, entry)) = pairs
    -- the loop's result decides, and only an error of the loop is an error here
    have hresult : ∀ result, (registerEach σ [] pairs).2 = result →
        (∀ e, result.map (fun r => r.map fun _ => moduleIds) = some (.error e) →
          result = some (.error e)) ∧
        ∀ ids, result.map (fun r => r.map fun _ => moduleIds) = some (.ok ids) →
          result = some (.ok ()) ∧ moduleIds = ids := by
      rintro (_ | (e | u)) -
      · exact ⟨fun e h => (by cases h), fun ids h => (by cases h)⟩
      · refine ⟨fun e h => ?_, fun ids h => (by cases h)⟩
        cases h
        rfl
      · refine ⟨fun e h => (by cases h), fun ids h => ?_⟩
        cases h
        exact ⟨rfl, rfl⟩
    obtain ⟨herror, hok⟩ := hresult _ rfl
    refine ⟨fun e he => ?_, fun ids hids => ?_, fun hcalm => ?_⟩
    · exact modules_registerEach_error (.refl σ.core) (herror e he)
    · obtain ⟨hloop, rfl⟩ := hok ids hids
      have heq := (derivedIds_of_deriveModuleIds hderive).eq_map
      rw [participating_discovered, List.map_map] at heq
      exact ⟨heq, registered_registerEach hloop⟩
    · have hsome : (registerEach σ [] pairs).2.isSome := by
        refine registerEach_calm (by simp) fun pair hpair => ?_
        rw [← hpairs] at hpair
        obtain ⟨entry, hentry, rfl⟩ := List.mem_map.mp hpair
        exact hcalm entry (mem_of_mem_participatingEntries hentry)
      rw [Option.isSome_map]
      exact hsome

/-- A marked class. -/
def markedEntry (className : String) (load : LoadResult) : MultiClassEntry where
  className
  module := .inert
  multiClass := true
  conduct := { load }

/-- The second module does not load, and the first is taken out again. -/
theorem registerMultiClass_atomic_undone :
    (registerMultiClass State.initial.shared "extensions/math.rs" "extensions"
      [markedEntry "AddOp" .loaded,
        markedEntry "MulOp" (.failed (.new .moduleLoadError ""))]).1.core.modules =
      State.initial.shared.core.modules := by
  have hrun : (registerMultiClass State.initial.shared "extensions/math.rs" "extensions"
      [markedEntry "AddOp" .loaded,
        markedEntry "MulOp" (.failed (.new .moduleLoadError ""))]).2.map Except.toOption =
      some none := by decide +kernel
  obtain ⟨result, hresult, hnone⟩ := Option.map_eq_some_iff.mp hrun
  cases result with
  | ok moduleIds => cases hnone
  | error e => exact (registerMultiClass_atomic _ _ _ _).1 e hresult

end Registry

end Apcore
