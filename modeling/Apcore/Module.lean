import Apcore.World

/-! # `Module` — modules, their annotations and the registry a call reads

A module is the code behind an `Arc<dyn Module>`. The registry is mutable, so a handle on it is what
it holds in each world. -/

namespace Apcore

/-- `ModuleAnnotations`. -/
structure ModuleAnnotations where
  readonly : Bool := false
  destructive : Bool := false
  idempotent : Bool := false
  requiresApproval : Bool := false
  openWorld : Bool := true
  streaming : Bool := false
  cacheable : Bool := false
  cacheTtl : Nat := 0
  cacheKeyFields : Option (List String) := none
  paginated : Bool := false
  paginationStyle : String := "cursor"
  discoverable : Bool := true
  extra : List (String × Json) := []

/-- `ModuleAnnotations::governance_union`: the annotations of the instance and of the descriptor,
joined on the two fields that govern. -/
def ModuleAnnotations.governanceUnion :
    Option ModuleAnnotations → Option ModuleAnnotations → Option ModuleAnnotations
  | some m, some d => some
      { m with
        requiresApproval := m.requiresApproval || d.requiresApproval
        destructive := m.destructive || d.destructive }
  | some m, none => some m
  | none, some d => some d
  | none, none => none

/-- A flag of annotations that may be missing: absent annotations set none. -/
def ModuleAnnotations.flag (field : ModuleAnnotations → Bool)
    (annotations : Option ModuleAnnotations) : Bool :=
  annotations.any field

/-- Either source is enough to require approval. -/
theorem ModuleAnnotations.requiresApproval_union (m d : Option ModuleAnnotations) :
    flag requiresApproval (governanceUnion m d) =
      (flag requiresApproval m || flag requiresApproval d) := by
  cases m <;> cases d <;> simp [governanceUnion, flag]

/-- Either source is enough to be destructive. -/
theorem ModuleAnnotations.destructive_union (m d : Option ModuleAnnotations) :
    flag destructive (governanceUnion m d) = (flag destructive m || flag destructive d) := by
  cases m <;> cases d <;> simp [governanceUnion, flag]

/-- A chunk stream, by its pulls: the `n`-th pull gives the next chunk, or `none` at the end. -/
abbrev ChunkStream (σ : Type) := Nat → Code σ (Option (Except ModuleError Json))

/-- A `dyn Module`. -/
structure Module (σ : Type) where
  annotations : ModuleAnnotations
  description : String
  tags : List String
  inputSchema : Json
  outputSchema : Json
  execute : Json → Context → Code σ (Except ModuleError Json)
  /-- Where the world stands when an invocation is still running at its time limit (in
  milliseconds); `none` when it ends in time. -/
  overruns : Nat → Json → Context → World σ → Option (World σ)
  /-- `none` is the default of the trait: the module does not stream. -/
  stream : Json → Context → Option (ChunkStream σ)
  preflight : Json → Option Context → Code σ (List String)
  preview : Json → Option Context → Code σ (Option (List Json))

/-- A module with the defaults of the trait, whose every call gives `null`. -/
def Module.inert (σ : Type) : Module σ where
  annotations := {}
  description := ""
  tags := []
  inputSchema := .null
  outputSchema := .null
  execute := fun _ _ => pure (.ok .null)
  overruns := fun _ _ _ _ => none
  stream := fun _ _ => none
  preflight := fun _ _ => pure []
  preview := fun _ _ => pure none

/-- `ModuleDescriptor`, as far as a call reads it. -/
structure ModuleDescriptor where
  annotations : Option ModuleAnnotations
  enabled : Bool

/-- What a registry holds: a registered id has its instance and its descriptor. -/
structure RegistryEntry (σ : Type) where
  module : Module σ
  descriptor : ModuleDescriptor

/-- An `Arc<Registry>`: its entries, as the world stands. -/
abbrev Registry (σ : Type) := World σ → List (String × RegistryEntry σ)

namespace Registry

variable {σ : Type}

/-- `Registry::get`. -/
def get (registry : Registry σ) (w : World σ) (name : String) :
    Except ModuleError (Option (Module σ)) :=
  if name = "" then .error (.new .moduleNotFound "Module ID must not be empty")
  else .ok ((Fields.get? (registry w) name).map (·.module))

/-- `get_definition(name).ok().flatten()`. -/
def definition (registry : Registry σ) (w : World σ) (name : String) : Option ModuleDescriptor :=
  if name = "" then none else (Fields.get? (registry w) name).map (·.descriptor)

/-- `Registry::is_enabled`. -/
def isEnabled (registry : Registry σ) (w : World σ) (name : String) : Option Bool :=
  (Fields.get? (registry w) name).map (·.descriptor.enabled)

end Registry

end Apcore
