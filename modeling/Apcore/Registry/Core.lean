import Mathlib.Logic.Function.Basic
import Apcore.Module
import Apcore.Registry.Ids
import Apcore.Registry.Version

/-! # `Registry.Core` — the maps of a registry and its critical sections

Everything a registry holds behind `core` is changed in one critical section at a time; each is a
function of the maps here. A module object is known by the number of the registration that brought
it. -/

namespace Apcore

/-- `DEFAULT_MODULE_VERSION`. -/
def defaultModuleVersion : String := "1.0.0"

/-- A `ModuleDescriptor`, with what a registration reads. -/
structure RegisteredDescriptor extends ModuleDescriptor where
  version : String
  inputSchema : Json
  outputSchema : Json

/-- What `schema_cache` keeps of a descriptor. -/
def RegisteredDescriptor.schema (descriptor : RegisteredDescriptor) : Json :=
  .object [("input", descriptor.inputSchema), ("output", descriptor.outputSchema)]

/-- An `Arc<dyn Module>`, by identity. -/
abbrev Instance := Nat

/-- `VersionEntry`. -/
structure VersionEntry where
  version : String
  module : Instance
  descriptor : RegisteredDescriptor

/-- `RegistryCore`. -/
structure RegistryCore where
  modules : String → Option Instance
  descriptors : String → Option RegisteredDescriptor
  refCounts : String → Option Nat
  draining : String → Bool
  lowercaseMap : String → Option String
  schemaCache : String → Option Json
  versions : String → Option (List VersionEntry)
  sources : String → Option String

/-- The entry of highest version, the last of them where several are highest: `max_by_key`. -/
def latestVersion : List VersionEntry → Option VersionEntry
  | [] => none
  | first :: rest => some (rest.foldl (fun best entry =>
      if parseSemver best.version ≤ parseSemver entry.version then entry else best) first)

namespace RegistryCore

/-- `RegistryCore::new`. -/
def new : RegistryCore where
  modules _ := none
  descriptors _ := none
  refCounts _ := none
  draining _ := false
  lowercaseMap _ := none
  schemaCache _ := none
  versions _ := none
  sources _ := none

/-- Whether the id is registered: `modules.contains_key`. -/
def contains (core : RegistryCore) (name : String) : Bool := (core.modules name).isSome

/-- The insertions that publish a module. -/
def insertModule (core : RegistryCore) (name : String) (inst : Instance)
    (descriptor : RegisteredDescriptor) : RegistryCore :=
  { core with
    schemaCache := Function.update core.schemaCache name (some descriptor.schema)
    lowercaseMap := Function.update core.lowercaseMap (toLowercase name) (some name)
    modules := Function.update core.modules name (some inst)
    descriptors := Function.update core.descriptors name (some descriptor) }

/-- The commit of `register_discovered`, which does not look whether the id is registered by now. -/
def commitDiscovered (core : RegistryCore) (name : String) (inst : Instance)
    (descriptor : RegisteredDescriptor) (source : String) : RegistryCore :=
  { core.insertModule name inst descriptor with
    sources := Function.update core.sources name (some source) }

/-- `version_registered`. -/
def versionRegistered (core : RegistryCore) (name version : String) : Bool :=
  match core.versions name with
  | some entries => entries.any (·.version == version)
  | none => (core.descriptors name).any (·.version == version)

/-- The critical section of `add_version`. -/
inductive AddVersion where
  /-- Unregistered in the meantime. -/
  | missing
  /-- The version is there; the entries may be new all the same. -/
  | duplicate (core : RegistryCore)
  | added (core : RegistryCore)

/-- What the entry of an id is before a version is added to it: `or_insert_with`. -/
def entriesOf (core : RegistryCore) (name : String) (current : Instance)
    (descriptor : RegisteredDescriptor) : List VersionEntry :=
  (core.versions name).getD
    [{ version := descriptor.version, module := current, descriptor := descriptor }]

/-- The maps with the entries of an id, whose latest version is the one that is looked up. -/
def installEntries (core : RegistryCore) (name : String) (entries : List VersionEntry) :
    RegistryCore :=
  match latestVersion entries with
  | none => { core with versions := Function.update core.versions name (some entries) }
  | some latest =>
    { core with
      versions := Function.update core.versions name (some entries)
      schemaCache := Function.update core.schemaCache name (some latest.descriptor.schema)
      modules := Function.update core.modules name (some latest.module)
      descriptors := Function.update core.descriptors name (some latest.descriptor) }

/-- `add_version`, under the lock. -/
def addVersion (core : RegistryCore) (name : String) (inst : Instance)
    (descriptor : RegisteredDescriptor) : AddVersion :=
  match core.modules name, core.descriptors name with
  | some current, some currentDescriptor =>
    let entries := core.entriesOf name current currentDescriptor
    -- the entries of the id are made before the version is looked for among them
    if entries.any (·.version == descriptor.version) then
      .duplicate { core with versions := Function.update core.versions name (some entries) }
    else
      .added (core.installEntries name
        (entries ++ [{ version := descriptor.version, module := inst, descriptor := descriptor }]))
  | _, _ => .missing

/-- The removal of `unregister`, of an id that is registered. -/
def removeModule (core : RegistryCore) (name : String) : RegistryCore where
  modules := Function.update core.modules name none
  descriptors := Function.update core.descriptors name none
  lowercaseMap := Function.update core.lowercaseMap (toLowercase name) none
  schemaCache := Function.update core.schemaCache name none
  versions := Function.update core.versions name none
  sources := Function.update core.sources name none
  refCounts := Function.update core.refCounts name none
  draining := Function.update core.draining name false

/-- `draining.insert`, or `draining.remove`. -/
def setDraining (core : RegistryCore) (name : String) (draining : Bool) : RegistryCore :=
  { core with draining := Function.update core.draining name draining }

/-- `ref_counts.get(name).copied().unwrap_or(0)`. -/
def refs (core : RegistryCore) (name : String) : Nat := (core.refCounts name).getD 0

/-- `acquire`. -/
def acquire (core : RegistryCore) (name : String) :
    Except ModuleError (RegistryCore × Instance) :=
  if core.draining name then
    .error (.new .moduleNotFound ("Module '" ++ name ++ "' is draining"))
  else
    match core.modules name with
    | none => .error (.moduleNotFound name)
    | some inst => .ok
      ({ core with refCounts := Function.update core.refCounts name (some (core.refs name + 1)) },
        inst)

/-- `release`, under the lock; true where a waiter is to be told. -/
def release (core : RegistryCore) (name : String) : RegistryCore × Bool :=
  match core.refCounts name with
  | none => (core, false)
  | some count =>
    -- a count of zero stays at zero, and is taken out as well
    if count - 1 = 0 then ({ core with refCounts := Function.update core.refCounts name none }, true)
    else
      ({ core with refCounts := Function.update core.refCounts name (some (count - 1)) }, false)

/-- `enable` and `disable`. -/
def setEnabled (core : RegistryCore) (name : String) (enabled : Bool) :
    Except ModuleError RegistryCore :=
  match core.descriptors name with
  | none => .error (.new .moduleNotFound ("Module '" ++ name ++ "' not found"))
  | some descriptor => .ok { core with
      descriptors := Function.update core.descriptors name (some { descriptor with enabled }) }

/-! ## The latest version -/

end RegistryCore

/-- No entry is of a higher version. -/
def IsLatest (entries : List VersionEntry) (latest : VersionEntry) : Prop :=
  latest ∈ entries ∧ ∀ entry ∈ entries, parseSemver entry.version ≤ parseSemver latest.version

theorem foldl_latest (rest : List VersionEntry) (best : VersionEntry) :
    IsLatest (best :: rest) (rest.foldl (fun best entry =>
      if parseSemver best.version ≤ parseSemver entry.version then entry else best) best) := by
  -- the best so far is carried along, so the induction is over any of them
  induction rest generalizing best with
  | nil => exact ⟨List.mem_cons_self, by simp⟩
  | cons entry rest ih =>
    rw [List.foldl_cons]
    split_ifs with hle
    · obtain ⟨hmem, hmax⟩ := ih entry
      refine ⟨List.mem_cons_of_mem _ hmem, ?_⟩
      rintro other (_ | ⟨_, hother⟩)
      · exact le_trans hle (hmax entry List.mem_cons_self)
      · exact hmax other hother
    · obtain ⟨hmem, hmax⟩ := ih best
      constructor
      · rcases List.mem_cons.mp hmem with heq | hrest
        · rw [heq]
          exact List.mem_cons_self
        · exact List.mem_cons_of_mem _ (List.mem_cons_of_mem _ hrest)
      · rintro other (_ | ⟨_, _ | ⟨_, hother⟩⟩)
        · exact hmax best List.mem_cons_self
        · exact le_trans (le_of_not_ge hle) (hmax best List.mem_cons_self)
        · exact hmax other (List.mem_cons_of_mem _ hother)

theorem exists_latestVersion {entries : List VersionEntry} (h : entries ≠ []) :
    ∃ latest, latestVersion entries = some latest := by
  cases entries with
  | nil => exact absurd rfl h
  | cons first rest => exact ⟨_, rfl⟩

/-- What `installEntries` does where there are entries. -/
theorem RegistryCore.installEntries_eq {core : RegistryCore} {name : String}
    {entries : List VersionEntry} {latest : VersionEntry}
    (h : latestVersion entries = some latest) : core.installEntries name entries = { core with
      versions := Function.update core.versions name (some entries)
      schemaCache := Function.update core.schemaCache name (some latest.descriptor.schema)
      modules := Function.update core.modules name (some latest.module)
      descriptors := Function.update core.descriptors name (some latest.descriptor) } := by
  rw [installEntries, h]

theorem RegistryCore.refCounts_installEntries (core : RegistryCore) (name : String)
    (entries : List VersionEntry) :
    (core.installEntries name entries).refCounts = core.refCounts := by
  unfold installEntries
  split <;> rfl

theorem RegistryCore.modules_installEntries_of_ne {core : RegistryCore} {name other : String}
    {entries : List VersionEntry} (hne : other ≠ name) :
    (core.installEntries name entries).modules other = core.modules other := by
  unfold installEntries
  split
  · rfl
  · exact Function.update_of_ne hne ..

/-- `version_registered`, in terms of the entries that a new version is added to. -/
theorem RegistryCore.versionRegistered_eq {core : RegistryCore} {name version : String}
    {current : Instance} {descriptor : RegisteredDescriptor}
    (h : core.descriptors name = some descriptor) : core.versionRegistered name version =
      (core.entriesOf name current descriptor).any (·.version == version) := by
  unfold versionRegistered entriesOf
  cases core.versions name with
  | some entries => rfl
  | none =>
    rw [h]
    simp

theorem isLatest_of_latestVersion {entries : List VersionEntry} {latest : VersionEntry}
    (h : latestVersion entries = some latest) : IsLatest entries latest := by
  cases entries with
  | nil => cases h
  | cons first rest =>
    rw [← Option.some.inj h]
    exact foldl_latest rest first

end Apcore

/-! ## What a registration checks before it loads

The ways into a registry differ in which checks they make. All of them make their checks, on the
module, its descriptor and the ids that are registered, before `on_load` is called. -/

namespace Apcore

namespace ModuleError

/-- `ModuleError::streaming_interface_mismatch`. -/
def streamingInterfaceMismatch (moduleId mismatchReason : String) : ModuleError :=
  (new .streamingInterfaceMismatch ("Module '" ++ moduleId ++ "' streaming interface mismatch: " ++
    mismatchReason)).withDetails
    [("mismatch_reason", .string mismatchReason), ("module_id", .string moduleId)]

/-- `ModuleError::duplicate_module_id`. -/
def duplicateModuleId (moduleId : String) : ModuleError :=
  (new .duplicateModuleId ("Module '" ++ moduleId ++
    "' is already registered or registration is in progress")).withDetails
    [("module_id", .string moduleId)]

end ModuleError

namespace Registry

/-- What a registration reads off a `dyn Module`, its hooks apart. -/
structure Loadable where
  /-- `as_streaming().is_some()`. -/
  streams : Bool
  version : Option String
  annotations : ModuleAnnotations
  inputSchema : Json
  outputSchema : Json

/-- The descriptor that `register_module` and `register_versioned` derive: an explicit version, else
the module's own, else the default. -/
def Loadable.descriptor (module : Loadable) (version : Option String) : RegisteredDescriptor where
  annotations := some module.annotations
  enabled := true
  version := ((version.filter (· != "")).or (module.version.filter (· != ""))).getD
    defaultModuleVersion
  inputSchema := module.inputSchema
  outputSchema := module.outputSchema

/-- The ways into a registry. -/
inductive RegistrationPath where
  /-- `register`, and what derives a descriptor for it. -/
  | register
  /-- `register_internal`. -/
  | internal
  /-- `reinstate_internal`. -/
  | reinstate
  /-- `add_version`. -/
  | versioned
  /-- `register_core`, from an `add_version` that found the id unregistered. -/
  | fallback
  /-- An entry of `register_discovered`, with its source. -/
  | discovered (source : String)
  deriving DecidableEq

/-- Whether a reserved first segment is allowed. -/
def RegistrationPath.allowReserved : RegistrationPath → Bool
  | .internal | .reinstate => true
  | _ => false

/-- Whether the custom validator is asked. -/
def RegistrationPath.runValidator : RegistrationPath → Bool
  | .register | .versioned | .discovered _ => true
  | _ => false

/-- A registration on its way. Its number is the module object it brings. -/
structure Registration where
  inst : Instance
  name : String
  path : RegistrationPath
  streams : Bool
  descriptor : RegisteredDescriptor

/-- `check_registration`; the verdict of a validator is the messages with which it rejects. -/
def checkRegistration (name : String) (streams : Bool) (descriptor : RegisteredDescriptor)
    (allowReserved runValidator : Bool) (verdict : Option (List String)) :
    Except ModuleError Unit := do
  validateModuleId name allowReserved
  if ModuleAnnotations.flag (·.streaming) descriptor.annotations && !streams then
    .error (.streamingInterfaceMismatch name
      ("missing_marker: module declares streaming=true but does not implement StreamingModule"))
  else
    match verdict with
    | some messages =>
      if runValidator then
        .error (.new .generalInvalidInput
          ("Module '" ++ name ++ "' failed validation: " ++ ", ".intercalate messages))
      else .ok ()
    | none => .ok ()

/-- An object or `null`. -/
def schemaShapeIsValid : Json → Bool
  | .object _ | .null => true
  | _ => false

/-- `descriptor_schema_shape_is_valid`. -/
def descriptorSchemaShapeIsValid (descriptor : RegisteredDescriptor) : Bool :=
  schemaShapeIsValid descriptor.inputSchema && schemaShapeIsValid descriptor.outputSchema

/-- The checks of `register_discovered`, which skips an entry that fails one. -/
def checkDiscovered (name : String) (descriptor : RegisteredDescriptor)
    (verdict : Option (List String)) : Bool :=
  (validateModuleId name false).isOk && !isEphemeralModuleId name && verdict.isNone &&
    descriptorSchemaShapeIsValid descriptor

/-- What a finished call answers. -/
inductive Answer where
  | registration (name : String) (inst : Instance) (result : Except ModuleError Unit)
  /-- Whether an entry of `register_discovered` is counted. -/
  | discovered (name : String) (inst : Instance) (registered : Bool)
  | unregistered (found : Bool)
  /-- The answer of `safe_unregister`, with the instance that was registered when it began. -/
  | drained (name : String) (began : Option Instance) (clean : Bool)
  | acquired (name : String) (result : Except ModuleError Instance)
  | released
  | toggled (result : Except ModuleError Unit)

/-- The object of a registration that failed. -/
def Answer.failed : Answer → Option Instance
  | .registration _ inst (.error _) => some inst
  | .discovered _ inst false => some inst
  | _ => none

/-- The id and the object of a registration that reports success. -/
def Answer.succeeded : Answer → Option (String × Instance)
  | .registration name inst (.ok ()) => some (name, inst)
  | .discovered name inst true => some (name, inst)
  | _ => none

namespace Registration

/-- What a registration answers. -/
def answer (r : Registration) (result : Except ModuleError Unit) : Answer :=
  match r.path with
  | .discovered _ => .discovered r.name r.inst result.isOk
  | _ => .registration r.name r.inst result

/-- The checks that read nothing of the registry; a failing one gives the answer. -/
def checks (r : Registration) (verdict : Option (List String)) : Except Answer Unit :=
  match r.path with
  | .discovered _ =>
    if checkDiscovered r.name r.descriptor verdict then .ok ()
    else .error (.discovered r.name r.inst false)
  | _ =>
    if r.path = .internal && isEphemeralModuleId r.name then
      .error (r.answer (.error (.new .invalidModuleId
        ("ephemeral.* module IDs must be registered via Registry::register(), " ++
          "not register_internal(). See protocol-spec §2.5.1 for rationale. (offending id: '" ++
          r.name ++ "')"))))
    else
      match checkRegistration r.name r.streams r.descriptor r.path.allowReserved
          r.path.runValidator verdict with
      | .ok () => .ok ()
      | .error e => .error (r.answer (.error e))

/-- The conflict with what is registered that ends a registration; a collision of cases is only
logged. -/
def conflict (r : Registration) (core : RegistryCore) : Option ModuleError :=
  match detectIdConflicts r.name core.contains
      (if r.path.allowReserved then [] else reservedWords) core.lowercaseMap with
  | none => none
  | some found =>
    match found.severity with
    | .error => some (.new
        (if found.conflictType = .duplicateId then .duplicateModuleId else .generalInvalidInput)
        found.message)
    | .warning => none

/-- The error of a version that is there already. -/
def duplicateVersion (r : Registration) : ModuleError :=
  .new .duplicateModuleId ("Module '" ++ r.name ++ "' version '" ++ r.descriptor.version ++
    "' is already registered")

@[simp] theorem failed_answer_error (r : Registration) (e : ModuleError) :
    (r.answer (.error e)).failed = some r.inst := by
  unfold answer
  split <;> rfl

@[simp] theorem failed_answer_ok (r : Registration) : (r.answer (.ok ())).failed = none := by
  unfold answer
  split <;> rfl

@[simp] theorem succeeded_answer_error (r : Registration) (e : ModuleError) :
    (r.answer (.error e)).succeeded = none := by
  unfold answer
  split <;> rfl

@[simp] theorem succeeded_answer_ok (r : Registration) :
    (r.answer (.ok ())).succeeded = some (r.name, r.inst) := by
  unfold answer
  split <;> rfl

/-- A registration that fails a check answers so. -/
theorem failed_of_checks {r : Registration} {verdict : Option (List String)} {answer : Answer}
    (h : r.checks verdict = .error answer) :
    answer.failed = some r.inst ∧ answer.succeeded = none := by
  unfold checks at h
  split at h
  · split_ifs at h
    cases h
    exact ⟨rfl, rfl⟩
  · split_ifs at h
    · cases h
      exact ⟨r.failed_answer_error _, r.succeeded_answer_error _⟩
    · split at h
      · cases h
      · cases h
        exact ⟨r.failed_answer_error _, r.succeeded_answer_error _⟩

/-- Every registration that passes its checks is of a valid id. -/
theorem lowercase_of_checks {r : Registration} {verdict : Option (List String)}
    (h : r.checks verdict = .ok ()) : toLowercase r.name = r.name := by
  have hcheck : ∀ allow run, checkRegistration r.name r.streams r.descriptor allow run verdict =
      .ok () → toLowercase r.name = r.name := by
    intro allow run hok
    cases hvalid : validateModuleId r.name allow with
    | error e =>
      unfold checkRegistration at hok
      rw [hvalid] at hok
      cases hok
    | ok u => exact toLowercase_of_valid hvalid
  unfold checks at h
  split at h
  · split_ifs at h with hdiscovered
    simp only [checkDiscovered, Bool.and_eq_true] at hdiscovered
    cases hvalid : validateModuleId r.name false with
    | error e =>
      rw [hvalid] at hdiscovered
      cases hdiscovered.1.1.1
    | ok u => exact toLowercase_of_valid hvalid
  · split_ifs at h with hephemeral
    split at h
    · exact hcheck _ _ ‹_›
    · cases h

end Registration

end Registry

end Apcore
