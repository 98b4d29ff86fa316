import Apcore.Schema.ResolvedData

/-! # `Schema.Loader` — loading schemas

`SchemaLoader` reads a schema from its file, and keeps what it read. The first load of a module
resolves it before it shapes a definition; a later one takes what was kept, which is not resolved. So
a load can be repeated where there is nothing to resolve, and elsewhere it cannot. -/

namespace Apcore

open Relation
open Fallible (mapM_eq_self_iff)

variable {Path : Type}

/-- The files a loader reads; `std::path`, `std::fs` and the parsers are parameters, and so is what
`serde_json` says of a value that is no definition. -/
structure FileTree (Path : Type) extends FileSystem Path where
  /-- `Path::exists`. -/
  pathExists : Path → Bool
  /-- `PathBuf::from(".")`. -/
  here : Path
  definitionError : Json → String

/-- `SchemaDefinition`. -/
structure SchemaDefinition where
  moduleId : String
  description : String
  inputSchema : Json
  outputSchema : Json
  errorSchema : Option Json
  definitions : Option Json
  version : Option String

/-- `SchemaStrategy`. -/
inductive SchemaStrategy where
  | yamlFirst | nativeFirst | yamlOnly
  deriving DecidableEq

/-- `SchemaLoader`. -/
structure SchemaLoader (Path : Type) where
  schemas : List (String × Json) := []
  strategy : SchemaStrategy := .yamlFirst
  schemasDir : Option Path := none
  maxRefDepth : Nat := 32

/-- An optional string of a record that is read: `null` is none, and only a string is one. -/
def SchemaDefinition.readVersion (value : Json) : Option (Option String) :=
  match Fields.ofJson? value "version" with
  | none | some .null => some none
  | some (.string version) => some (some version)
  | some _ => none

/-- `serde_json::from_value::<SchemaDefinition>`. -/
def SchemaDefinition.ofJson? (value : Json) : Option SchemaDefinition := do
  let moduleId ← (Fields.ofJson? value "module_id").bind Json.asStr?
  let description ← (Fields.ofJson? value "description").bind Json.asStr?
  let inputSchema ← Fields.ofJson? value "input_schema"
  let outputSchema ← Fields.ofJson? value "output_schema"
  let version ← SchemaDefinition.readVersion value
  pure
    { moduleId, description, inputSchema, outputSchema, version
      errorSchema := (Fields.ofJson? value "error_schema").filter (!·.isNull)
      definitions := (Fields.ofJson? value "definitions").filter (!·.isNull) }

namespace RefResolver

variable (resolver : RefResolver Path)

/-- `resolve_in_document`. -/
def resolveInDocument (node document : Json) : Except ModuleError Json :=
  resolver.resolveInner resolver.maxDepth false node (resolver.documentBase document)
    (rootRefAliases document)

/-- `with_node_fallback`. -/
def withNodeFallback (node : Json) : RefResolver Path := { resolver with nodeFallback := some node }

end RefResolver

namespace SchemaLoader

variable (files : FileTree Path) (loader : SchemaLoader Path)

/-! ## Resolving and shaping -/

/-- `build_resolver`. Registering every entry of a map with a new resolver makes a copy of the map. -/
def buildResolver (currentFile : Option Path) : RefResolver Path where
  schemas := loader.schemas
  maxDepth := loader.maxRefDepth
  schemasDir := loader.schemasDir
  currentFile := currentFile
  fs := files.toFileSystem

/-- The keys of `resolve` whose node is its own fallback. -/
def nodeKeys : List String := ["input_schema", "output_schema", "error_schema"]

/-- One node of the second pass of `resolve`. -/
def resolveEntry (schema : Json) (currentFile : Option Path) (entry : String × Json) :
    Except ModuleError (String × Json) :=
  let resolver := loader.buildResolver files currentFile
  let resolver := if entry.1 ∈ nodeKeys then resolver.withNodeFallback entry.2 else resolver
  (resolver.resolveInDocument entry.2 schema).map (Prod.mk entry.1)

/-- `resolve`: as a whole, and where something is not found, node by node. -/
def resolve (schema : Json) (currentFile : Option Path) : Except ModuleError Json :=
  match (loader.buildResolver files currentFile).resolve schema with
  | .ok resolved => .ok resolved
  | .error err =>
    if err.code = .schemaNotFound then
      match schema with
      | .object obj =>
        if !Fields.containsKey obj "input_schema" && !Fields.containsKey obj "output_schema" then
          .error err
        else (obj.mapM (loader.resolveEntry files schema currentFile)).map fun entries =>
          .object (entries.foldl (fun out entry => Fields.insert entry.1 entry.2 out) [])
      | _ => .error err
    else .error err

/-- `value_to_schema_def`. -/
def valueToSchemaDef (moduleId : String) (value : Json) : Except ModuleError SchemaDefinition :=
  if (Fields.ofJson? value "input_schema").isSome && (Fields.ofJson? value "output_schema").isSome then
    match SchemaDefinition.ofJson? value with
    | some definition => .ok definition
    | none => .error (.new .schemaParseError ("Failed to deserialize SchemaDefinition for '" ++
        moduleId ++ "': " ++ files.definitionError value))
  else .ok
    { moduleId
      description := ((Fields.ofJson? value "description").bind Json.asStr?).getD ""
      inputSchema := ((Fields.ofJson? value "input_schema").or
        (Fields.ofJson? value "inputSchema")).getD value
      outputSchema := ((Fields.ofJson? value "output_schema").or
        (Fields.ofJson? value "outputSchema")).getD (.object [])
      errorSchema := none
      definitions := none
      version := none }

/-! ## Loading -/

/-- `get`. -/
def get (name : String) : Option Json := Fields.get? loader.schemas name

/-- `load_from_value`. -/
def loadFromValue (name : String) (schema : Json) : SchemaLoader Path :=
  { loader with schemas := Fields.insert name schema loader.schemas }

/-- What `load_from_file` reads. -/
def readSchema (path : Path) : Except ModuleError Json :=
  match files.readToString path with
  | .error e => .error (.new .schemaNotFound
      ("Failed to read schema file '" ++ files.display path ++ "': " ++ e))
  | .ok contents =>
    let isJson := files.extension path = some "json"
    match (if isJson then files.parseJson else files.parseYaml) contents with
    | .ok value => .ok value
    | .error e => .error (.new .schemaParseError
        ("Failed to parse " ++ (if isJson then "JSON" else "YAML") ++ " schema '" ++
          files.display path ++ "': " ++ e))

/-- `load_from_file`, with what it read, which is what `get` gives then. Nothing is kept of a file that
cannot be read. -/
def loadFromFile (name : String) (path : Path) : Except ModuleError (Json × SchemaLoader Path) :=
  (readSchema files path).map fun value => (value, loader.loadFromValue name value)

/-- The files `load` tries, in order. -/
def candidates (moduleId : String) : List Path :=
  let modulePath := String.ofList (moduleId.toList.map fun c => if c = '.' then '/' else c)
  RefResolver.schemaFileSuffixes.map fun suffix =>
    files.join (loader.schemasDir.getD files.here) (modulePath ++ suffix)

/-- The error of `load` where there is no file; it names the last candidate. -/
def notFoundError (moduleId : String) : ModuleError :=
  .new .schemaNotFound (match (loader.candidates files moduleId).getLast? with
    | some path => "Schema file not found for module '" ++ moduleId ++ "' (tried " ++
        files.display path ++ ")"
    | none => "Schema not found for module '" ++ moduleId ++ "'")

/-- The candidate `load` takes. -/
def fileOf (moduleId : String) : Option Path :=
  (loader.candidates files moduleId).find? files.pathExists

/-- `load`, and the loader after it. What was read is kept before it is resolved. -/
def load (moduleId : String) : Except ModuleError SchemaDefinition × SchemaLoader Path :=
  match loader.get moduleId with
  | some value => (valueToSchemaDef files moduleId value, loader)
  | none =>
    match loader.fileOf files moduleId with
    | none => (.error (loader.notFoundError files moduleId), loader)
    | some path =>
      match loader.loadFromFile files moduleId path with
      | .error e => (.error e, loader)
      | .ok (value, kept) =>
        ((kept.resolve files value (some path)).bind (valueToSchemaDef files moduleId), kept)

/-- `wrap_native`. -/
def wrapNative (moduleId : String) (inputSchema outputSchema : Json) : SchemaDefinition where
  moduleId := moduleId
  description := ""
  inputSchema := inputSchema
  outputSchema := outputSchema
  errorSchema := none
  definitions := none
  version := none

/-- The native fallback of `get_schema`. -/
def orNative (moduleId : String) (natives : Option Json × Option Json)
    (loaded : Except ModuleError SchemaDefinition) : Except ModuleError SchemaDefinition :=
  match loaded with
  | .ok definition => .ok definition
  | .error err =>
    if err.code = .schemaNotFound then
      match natives with
      | (some input, some output) => .ok (wrapNative moduleId input output)
      | _ => .error err
    else .error err

/-- `get_schema`. -/
def getSchema (moduleId : String) (natives : Option Json × Option Json) :
    Except ModuleError SchemaDefinition × SchemaLoader Path :=
  match loader.strategy with
  | .yamlFirst => (loader.load files moduleId).map (orNative moduleId natives) id
  | .nativeFirst =>
    match natives with
    | (some input, some output) => (.ok (wrapNative moduleId input output), loader)
    | _ => loader.load files moduleId
  | .yamlOnly => loader.load files moduleId

end SchemaLoader

/-! ## What is asked of it -/

/-- A call that gives a definition. -/
inductive SchemaQuery where
  | load (moduleId : String)
  | getSchema (moduleId : String) (natives : Option Json × Option Json)

def SchemaQuery.moduleId : SchemaQuery → String
  | .load moduleId | .getSchema moduleId _ => moduleId

/-- The same definition, or errors with the same code. -/
def SameOutcome : Except ModuleError SchemaDefinition → Except ModuleError SchemaDefinition → Prop
  | .ok definition, .ok definition' => definition = definition'
  | .error err, .error err' => err.code = err'.code
  | _, _ => False

theorem SameOutcome.refl (outcome : Except ModuleError SchemaDefinition) :
    SameOutcome outcome outcome := by
  cases outcome <;> rfl

namespace SchemaLoader

variable (files : FileTree Path) (loader : SchemaLoader Path)

def answer : SchemaQuery → Except ModuleError SchemaDefinition × SchemaLoader Path
  | .load moduleId => loader.load files moduleId
  | .getSchema moduleId natives => loader.getSchema files moduleId natives

/-- The loader after some calls. -/
def after (history : List SchemaQuery) : SchemaLoader Path :=
  history.foldl (fun loader query => (loader.answer files query).2) loader

/-- The schema of a module is read from this file, as this value. -/
structure ReadAs (moduleId : String) (path : Path) (value : Json) : Prop where
  file : loader.fileOf files moduleId = some path
  content : readSchema files path = .ok value

/-- No schema that is read for the module refers to the other one by name. -/
def Unnamed (moduleId other : String) : Prop :=
  ∀ path value, loader.ReadAs files moduleId path value →
    RefResolver.Everywhere (refOf · ≠ some other) value

/-- A call gives the same at every point of every run of calls for the same module and for modules its
schema does not name. -/
def AnswersStably (query : SchemaQuery) : Prop :=
  ∀ history : List SchemaQuery,
    (∀ other ∈ history, other.moduleId = query.moduleId ∨
      loader.Unnamed files query.moduleId other.moduleId) →
      SameOutcome ((loader.after files history).answer files query).1 (loader.answer files query).1

/-- The call loads. -/
def Loads : SchemaQuery → Prop
  | .getSchema _ (some _, some _) => loader.strategy ≠ .nativeFirst
  | _ => True

/-- The first load of a module has nothing to resolve: the outermost references in its file are to the
document itself, and stay. -/
def ReadsInert (moduleId : String) : Prop :=
  loader.get moduleId = none → ∀ path value, loader.ReadAs files moduleId path value →
    loader.maxRefDepth ≠ 0 ∧
      ((loader.loadFromValue moduleId value).buildResolver files (some path)).Inert
        (((loader.loadFromValue moduleId value).buildResolver files (some path)).start value)

variable {files loader}

/-! ## What a call does -/

/-- A call leaves the loader, or keeps what it read for a module it had nothing for. -/
theorem loader_of_load (moduleId : String) :
    (loader.load files moduleId).2 = loader ∨
      (loader.get moduleId = none ∧ ∃ path value, loader.ReadAs files moduleId path value ∧
        (loader.load files moduleId).2 = loader.loadFromValue moduleId value) := by
  unfold load
  cases hget : loader.get moduleId with
  | some value => exact .inl rfl
  | none =>
    cases hfile : loader.fileOf files moduleId with
    | none => exact .inl rfl
    | some path =>
      dsimp only
      unfold loadFromFile
      cases hread : readSchema files path with
      | error e => exact .inl rfl
      | ok value => exact .inr ⟨rfl, path, value, ⟨hfile, hread⟩, rfl⟩

variable (files loader) in
theorem loader_of_answer (query : SchemaQuery) :
    (loader.answer files query).2 = loader ∨
      (loader.get query.moduleId = none ∧ ∃ path value, loader.ReadAs files query.moduleId path value ∧
        (loader.answer files query).2 = loader.loadFromValue query.moduleId value) := by
  cases query with
  | load moduleId => exact loader_of_load moduleId
  | getSchema moduleId natives =>
    change (loader.getSchema files moduleId natives).2 = loader ∨ _ ∧ ∃ path value, _ ∧
      (loader.getSchema files moduleId natives).2 = _
    unfold getSchema
    cases loader.strategy with
    | yamlFirst => exact loader_of_load moduleId
    | yamlOnly => exact loader_of_load moduleId
    | nativeFirst =>
      rcases natives with ⟨_ | input, _ | output⟩
      · exact loader_of_load moduleId
      · exact loader_of_load moduleId
      · exact loader_of_load moduleId
      · exact .inl rfl

theorem get_loadFromValue_self (name : String) (value : Json) :
    (loader.loadFromValue name value).get name = some value :=
  Fields.get?_insert_self name value loader.schemas

theorem get_loadFromValue_ne {name other : String} (hne : other ≠ name) (value : Json) :
    (loader.loadFromValue name value).get other = loader.get other :=
  Fields.get?_insert_ne hne value loader.schemas

/-! ## What a run does -/

variable (files loader) in
/-- A loader that some calls were made to. For the module it has what it had, or what is in the file;
what the schema of the module refers to is as it was. -/
structure Later (moduleId : String) (later : SchemaLoader Path) : Prop where
  strategy : later.strategy = loader.strategy
  schemasDir : later.schemasDir = loader.schemasDir
  maxRefDepth : later.maxRefDepth = loader.maxRefDepth
  kept : later.get moduleId = loader.get moduleId ∨ (loader.get moduleId = none ∧
    ∃ path value, loader.ReadAs files moduleId path value ∧ later.get moduleId = some value)
  named : ∀ name, name ≠ moduleId → ¬loader.Unnamed files moduleId name →
    later.get name = loader.get name

theorem Later.fileOf_eq {moduleId : String} {later : SchemaLoader Path}
    (h : loader.Later files moduleId later) (other : String) :
    later.fileOf files other = loader.fileOf files other := by
  unfold fileOf candidates
  rw [h.schemasDir]

theorem Later.step {moduleId : String} {later : SchemaLoader Path}
    (h : loader.Later files moduleId later) {query : SchemaQuery}
    (hquery : query.moduleId = moduleId ∨ loader.Unnamed files moduleId query.moduleId) :
    loader.Later files moduleId (later.answer files query).2 := by
  rcases loader_of_answer files later query with heq | ⟨hnone, path, value, hread, heq⟩
  · rwa [heq]
  · rw [heq]
    refine ⟨h.strategy, h.schemasDir, h.maxRefDepth, ?_, fun name hname hnamed => ?_⟩
    · by_cases hsame : query.moduleId = moduleId
      · rw [hsame] at hnone hread ⊢
        have hfirst : loader.get moduleId = none := by
          rcases h.kept with hkept | ⟨hkept, -⟩
          · exact hkept.symm.trans hnone
          · exact hkept
        exact .inr ⟨hfirst, path, value, ⟨(h.fileOf_eq moduleId).symm.trans hread.file, hread.content⟩,
          get_loadFromValue_self moduleId value⟩
      · rw [get_loadFromValue_ne (Ne.symm hsame)]
        exact h.kept
    · have hother : name ≠ query.moduleId := by
        rintro rfl
        exact hquery.elim hname hnamed
      rw [get_loadFromValue_ne hother]
      exact h.named name hname hnamed

theorem later_after {moduleId : String} {history : List SchemaQuery}
    (hhistory : ∀ query ∈ history, query.moduleId = moduleId ∨
      loader.Unnamed files moduleId query.moduleId) :
    loader.Later files moduleId (loader.after files history) := by
  have hrun : ∀ later, loader.Later files moduleId later →
      loader.Later files moduleId (later.after files history) := by
    induction history with
    | nil => exact fun _ h => h
    | cons query rest ih =>
      intro later h
      exact ih (fun other hmem => hhistory other (List.mem_cons_of_mem _ hmem)) _
        (h.step (hhistory query List.mem_cons_self))
  exact hrun loader ⟨rfl, rfl, rfl, .inl rfl, fun _ _ _ => rfl⟩

/-! ## Where there is nothing to resolve -/

theorem firstFile_schemas (resolver : RefResolver Path) (schemas : List (String × Json)) (ref : String)
    (root : Path) (tried : List Path) :
    RefResolver.firstFile { resolver with schemas := schemas } ref root tried =
      resolver.firstFile ref root tried := by
  induction tried with
  | nil => rfl
  | cons candidate rest ih =>
    unfold RefResolver.firstFile
    rw [ih]

/-- A lookup reads what is registered under the reference only. -/
theorem lookupRef_schemas {resolver : RefResolver Path} {schemas : List (String × Json)} {ref : String}
    (h : Fields.get? schemas ref = Fields.get? resolver.schemas ref) (base : DocumentBase Path) :
    RefResolver.lookupRef { resolver with schemas := schemas } ref base = resolver.lookupRef ref base := by
  have hpath : ∀ filePart baseFile isCanonical,
      RefResolver.resolveRefFile { resolver with schemas := schemas } filePart baseFile isCanonical ref =
        resolver.resolveRefFile filePart baseFile isCanonical ref := by
    intro filePart baseFile isCanonical
    unfold RefResolver.resolveRefFile
    simp only [firstFile_schemas]
    rfl
  have hfile : RefResolver.lookupFile { resolver with schemas := schemas } ref base.file =
      resolver.lookupFile ref base.file := by
    unfold RefResolver.lookupFile
    simp only [hpath]
    rfl
  unfold RefResolver.lookupRef
  rw [h, hfile]
  rfl

/-- There is nothing to resolve with other registered schemas either, where none is referred to. -/
theorem inert_of_schemas {resolver : RefResolver Path} {value : Json}
    (h : resolver.Inert (resolver.start value)) {schemas : List (String × Json)}
    (hsame : ∀ ref, ¬RefResolver.Everywhere (refOf · ≠ some ref) value →
      Fields.get? schemas ref = Fields.get? resolver.schemas ref) :
    RefResolver.Inert { resolver with schemas := schemas } (resolver.start value) :=
  h.of_lookups fun ref href => lookupRef_schemas (hsame ref href) _

theorem resolve_of_inert {value : Json} {currentFile : Option Path} (hdepth : loader.maxRefDepth ≠ 0)
    (h : (loader.buildResolver files currentFile).Inert
      ((loader.buildResolver files currentFile).start value)) :
    loader.resolve files value currentFile = .ok value := by
  obtain ⟨depth, hdepth⟩ := Nat.exists_eq_succ_of_ne_zero hdepth
  have hok : (loader.buildResolver files currentFile).resolve value = .ok value :=
    RefResolver.resolveVisit_of_inert hdepth rfl h
  unfold resolve
  rw [hok]

/-- The first load shapes what is in the file, where there is nothing to resolve in it. -/
theorem load_of_inert {moduleId : String} {path : Path} {value : Json} (hnone : loader.get moduleId = none)
    (hread : loader.ReadAs files moduleId path value) (hdepth : loader.maxRefDepth ≠ 0)
    (h : ((loader.loadFromValue moduleId value).buildResolver files (some path)).Inert
      (((loader.loadFromValue moduleId value).buildResolver files (some path)).start value)) :
    (loader.load files moduleId).1 = valueToSchemaDef files moduleId value := by
  unfold load loadFromFile
  rw [hnone, hread.file]
  dsimp only
  rw [hread.content]
  change ((loader.loadFromValue moduleId value).resolve files value (some path)).bind
    (valueToSchemaDef files moduleId) = _
  have hdepth' : (loader.loadFromValue moduleId value).maxRefDepth ≠ 0 := hdepth
  rw [resolve_of_inert hdepth' h]
  rfl

theorem load_of_get {moduleId : String} {value : Json} (h : loader.get moduleId = some value) :
    (loader.load files moduleId).1 = valueToSchemaDef files moduleId value := by
  unfold load
  rw [h]

/-- A load gives the same later on. -/
theorem Later.load_eq {moduleId : String} {later : SchemaLoader Path}
    (h : loader.Later files moduleId later) (hinert : loader.ReadsInert files moduleId) :
    (later.load files moduleId).1 = (loader.load files moduleId).1 := by
  cases hget : loader.get moduleId with
  | some value =>
    have hlater : later.get moduleId = some value := by
      rcases h.kept with hkept | ⟨hnone, -⟩
      · rw [hkept, hget]
      · cases hnone.symm.trans hget
    rw [load_of_get hget, load_of_get hlater]
  | none =>
    have hfirst : ∀ path value, loader.ReadAs files moduleId path value →
        (loader.load files moduleId).1 = valueToSchemaDef files moduleId value := fun path value hread =>
      load_of_inert hget hread (hinert hget path value hread).1 (hinert hget path value hread).2
    cases hlater : later.get moduleId with
    | some value =>
      rcases h.kept with hkept | ⟨-, path, value', hread, hkept⟩
      · cases hlater.symm.trans (hkept.trans hget)
      · rw [hfirst path value' hread, load_of_get hkept]
    | none =>
      cases hfile : loader.fileOf files moduleId with
      | none =>
        unfold load
        rw [hlater, hget, h.fileOf_eq, hfile]
        dsimp only
        unfold notFoundError candidates
        rw [h.schemasDir]
      | some path =>
        cases hread : readSchema files path with
        | error e =>
          unfold load loadFromFile
          rw [hlater, hget, h.fileOf_eq, hfile]
          dsimp only
          rw [hread]
          rfl
        | ok value =>
          have hreadAs : loader.ReadAs files moduleId path value := ⟨hfile, hread⟩
          obtain ⟨hdepth, hnothing⟩ := hinert hget path value hreadAs
          have hdepth' : later.maxRefDepth ≠ 0 := h.maxRefDepth ▸ hdepth
          rw [hfirst path value hreadAs]
          have hbuild : (later.loadFromValue moduleId value).buildResolver files (some path) =
              { (loader.loadFromValue moduleId value).buildResolver files (some path) with
                schemas := (later.loadFromValue moduleId value).schemas } := by
            unfold buildResolver loadFromValue
            rw [h.maxRefDepth, h.schemasDir]
          refine load_of_inert hlater ⟨(h.fileOf_eq moduleId).trans hfile, hread⟩ hdepth' ?_
          rw [hbuild]
          refine inert_of_schemas hnothing fun ref href => ?_
          by_cases hself : ref = moduleId
          · subst hself
            exact (get_loadFromValue_self ref value).trans (get_loadFromValue_self ref value).symm
          · have hnamed : ¬loader.Unnamed files moduleId ref :=
              fun hunnamed => href (hunnamed path value hreadAs)
            exact (get_loadFromValue_ne hself value).trans
              ((h.named ref hself hnamed).trans (get_loadFromValue_ne hself value).symm)

/-- So does a call. -/
theorem Later.answer_eq {query : SchemaQuery} {later : SchemaLoader Path}
    (h : loader.Later files query.moduleId later)
    (hinert : loader.Loads query → loader.ReadsInert files query.moduleId) :
    (later.answer files query).1 = (loader.answer files query).1 := by
  cases query with
  | load moduleId => exact h.load_eq (hinert trivial)
  | getSchema moduleId natives =>
    change (later.getSchema files moduleId natives).1 = (loader.getSchema files moduleId natives).1
    unfold getSchema
    rw [h.strategy]
    have hload : loader.Loads (.getSchema moduleId natives) →
        (later.load files moduleId).1 = (loader.load files moduleId).1 := fun hloads =>
      h.load_eq (hinert hloads)
    cases hstrategy : loader.strategy with
    | yamlFirst =>
      have hloads : loader.Loads (.getSchema moduleId natives) := by
        rcases natives with ⟨_ | input, _ | output⟩ <;> first
          | trivial
          | exact fun heq => SchemaStrategy.noConfusion (hstrategy.symm.trans heq)
      exact congrArg (orNative moduleId natives) (hload hloads)
    | yamlOnly =>
      have hloads : loader.Loads (.getSchema moduleId natives) := by
        rcases natives with ⟨_ | input, _ | output⟩ <;> first
          | trivial
          | exact fun heq => SchemaStrategy.noConfusion (hstrategy.symm.trans heq)
      exact hload hloads
    | nativeFirst =>
      rcases natives with ⟨_ | input, _ | output⟩
      · exact hload trivial
      · exact hload trivial
      · exact hload trivial
      · rfl

/-! ## Where there is something to resolve -/

/-- The keys a definition is read from. -/
def definitionKeys : List String := ["input_schema", "inputSchema", "output_schema", "outputSchema"]

variable (files loader) in
/-- The file of a module holds the input schema itself, and no object in it becomes a reference. -/
structure ReadsBare (moduleId : String) (path : Path) (value : Json) : Prop where
  read : loader.ReadAs files moduleId path value
  keys : ∀ key ∈ definitionKeys, Fields.ofJson? value key = none
  body : refOf value = none
  plain : ((loader.loadFromValue moduleId value).buildResolver files (some path)).NoSpelledReference value

/-- A value without the keys of a definition is the input schema. -/
theorem valueToSchemaDef_of_keys (files : FileTree Path) (moduleId : String) {value : Json}
    (h : ∀ key ∈ definitionKeys, Fields.ofJson? value key = none) :
    ∃ definition, valueToSchemaDef files moduleId value = .ok definition ∧
      definition.inputSchema = value := by
  have hinput := h "input_schema" (by decide)
  have hcamel := h "inputSchema" (by decide)
  unfold valueToSchemaDef
  rw [hinput, hcamel]
  exact ⟨_, rfl, rfl⟩

/-- Resolving takes no key away and adds none, where the whole is no reference. -/
theorem ofJson?_of_resolve {resolver : RefResolver Path} {value result : Json} {key : String}
    (hbody : refOf value = none) (hok : resolver.resolve value = .ok result)
    (h : Fields.ofJson? value key = none) : Fields.ofJson? result key = none := by
  obtain ⟨budget, hbudget⟩ := RefResolver.budget_of_ok (v := resolver.start value) hok
  cases hresult : Fields.ofJson? result key with
  | none => rfl
  | some part =>
    obtain ⟨map, rfl⟩ := (RefResolver.object_iff_of_not_ref (v := resolver.start value) hbody hok).mp
      (Json.isObject_iff.mp (Json.isObject_of_ofJson? hresult))
    rw [RefResolver.resolve_eq_resolveVisit, RefResolver.resolveVisit_succ hbudget] at hok
    change resolver.resolveNode (resolver.resolveInner budget true) (resolver.documentBase (.object map))
      (rootRefAliases (.object map)) false (.object map) = .ok result at hok
    rw [RefResolver.resolveNode_body hbody] at hok
    obtain ⟨fields, hfields, rfl⟩ := Fallible.map_eq_ok.mp hok
    have hlookup := RefResolver.get?_of_children hbudget hfields key
    rw [show Fields.get? map key = none from h, show Fields.get? fields key = some part from hresult]
      at hlookup
    cases hlookup

/-- What is resolved as a whole is resolved, where there is no definition in it. -/
theorem resolve_of_keys {value result : Json} {currentFile : Option Path}
    (hkeys : ∀ key ∈ definitionKeys, Fields.ofJson? value key = none)
    (hok : loader.resolve files value currentFile = .ok result) :
    (loader.buildResolver files currentFile).resolve value = .ok result := by
  unfold resolve at hok
  cases hwhole : (loader.buildResolver files currentFile).resolve value with
  | ok resolved =>
    rw [hwhole] at hok
    exact hok
  | error err =>
    rw [hwhole] at hok
    dsimp only at hok
    by_cases hcode : err.code = .schemaNotFound
    · rw [if_pos hcode] at hok
      cases value with
      | object map =>
        have hinput : Fields.get? map "input_schema" = none := hkeys "input_schema" (by decide)
        have houtput : Fields.get? map "output_schema" = none := hkeys "output_schema" (by decide)
        dsimp only at hok
        unfold Fields.containsKey at hok
        rw [hinput, houtput] at hok
        cases hok
      | _ => cases hok
    · rw [if_neg hcode] at hok
      cases hok

/-- A load that can be repeated had nothing to resolve. -/
theorem readsInert_of_repeats {moduleId : String} {path : Path} {value : Json}
    (hnone : loader.get moduleId = none) (hbare : loader.ReadsBare files moduleId path value)
    (hstable : loader.AnswersStably files (.load moduleId)) : loader.ReadsInert files moduleId := by
  obtain ⟨definition, hdefinition, hinput⟩ :=
    valueToSchemaDef_of_keys files moduleId hbare.keys
  have hagain := hstable [.load moduleId] fun other hother => .inl (by rw [List.mem_singleton.mp hother])
  have hfirst : loader.load files moduleId =
      (((loader.loadFromValue moduleId value).resolve files value (some path)).bind
        (valueToSchemaDef files moduleId), loader.loadFromValue moduleId value) := by
    unfold load loadFromFile
    rw [hnone, hbare.read.file]
    dsimp only
    rw [hbare.read.content]
    rfl
  have hsecond : ((loader.after files [.load moduleId]).answer files (.load moduleId)).1 =
      .ok definition := by
    change ((loader.load files moduleId).2.load files moduleId).1 = _
    rw [hfirst, load_of_get (get_loadFromValue_self moduleId value), hdefinition]
  rw [hsecond] at hagain
  change SameOutcome _ (loader.load files moduleId).1 at hagain
  rw [hfirst] at hagain
  intro _ path' value' hread
  obtain rfl := Option.some.inj (hbare.read.file.symm.trans hread.file)
  obtain rfl := Except.ok.inj (hbare.read.content.symm.trans hread.content)
  cases hresolve : (loader.loadFromValue moduleId value).resolve files value (some path) with
  | error err =>
    rw [hresolve] at hagain
    cases hagain
  | ok result =>
    have hok := resolve_of_keys hbare.keys hresolve
    obtain ⟨definition', hdefinition', hinput'⟩ :=
      valueToSchemaDef_of_keys files moduleId
        fun key hkey => ofJson?_of_resolve hbare.body hok (hbare.keys key hkey)
    rw [hresolve] at hagain
    change SameOutcome (.ok definition) (valueToSchemaDef files moduleId result) at hagain
    rw [hdefinition'] at hagain
    obtain rfl : definition = definition' := hagain
    obtain rfl : result = value := hinput'.symm.trans hinput
    obtain ⟨budget, hbudget⟩ := RefResolver.budget_of_ok
      (v := ((loader.loadFromValue moduleId result).buildResolver files (some path)).start result) hok
    exact ⟨fun hzero => Nat.succ_ne_zero budget (hbudget.symm.trans hzero),
      RefResolver.inert_of_resolveVisit hbare.plain .refl hok⟩

/-! ## When a load can be repeated -/

variable (files loader)

/-- **A call gives the same again** where it does not load, or the module has its schema already, or
there is nothing to resolve in the file. Of a file that holds an input schema, it does so only there. -/
theorem answersStably_exact (query : SchemaQuery) :
    ((loader.Loads query → loader.ReadsInert files query.moduleId) → loader.AnswersStably files query) ∧
      ∀ moduleId path value, query = .load moduleId → loader.get moduleId = none →
        loader.ReadsBare files moduleId path value → loader.AnswersStably files query →
          loader.ReadsInert files moduleId := by
  constructor
  · intro hinert history hhistory
    rw [(later_after hhistory).answer_eq hinert]
    exact .refl _
  · rintro moduleId path value rfl hnone hbare hstable
    exact readsInert_of_repeats hnone hbare hstable

/-! ## Two files -/

/-- A schema with a reference to a definition it lacks. -/
def greetSchema : Json :=
  .object [("properties", .object [("name", .object [("$ref", .string "#/$defs/Name")])])]

/-- A schema without references. -/
def pingSchema : Json := .object [("type", .string "object")]

def greetText : String := "properties:\n  name:\n    $ref: \"#/$defs/Name\""

/-- A directory with these two files. -/
def greetFiles : FileTree String where
  toFileSystem := { RefResolver.noFiles with
    extension := fun _ => some "yaml"
    readToString := fun path =>
      if path = "./greet.schema.yaml" then .ok greetText
      else if path = "./ping.schema.yaml" then .ok "type: object"
      else .error "not found"
    parseYaml := fun text =>
      if text = greetText then .ok greetSchema
      else if text = "type: object" then .ok pingSchema
      else .error "no YAML" }
  pathExists := fun path => path = "./greet.schema.yaml" ∨ path = "./ping.schema.yaml"
  here := "."
  definitionError := fun _ => "missing field"

/-- `SchemaLoader::new()`. -/
def fresh : SchemaLoader String := {}

/-- The schema without references loads again. -/
theorem answersStably_ping : (fresh.Loads (.load "ping") → fresh.ReadsInert greetFiles "ping") ∧
    fresh.AnswersStably greetFiles (.load "ping") := by
  have hfree : RefResolver.RefFree pingSchema := by
    refine RefResolver.everywhere_object rfl fun entry hmem => ?_
    obtain rfl := List.mem_singleton.mp hmem
    exact RefResolver.everywhere_string rfl
  have hinert : fresh.Loads (.load "ping") → fresh.ReadsInert greetFiles "ping" := by
    intro _ _ path value hread
    obtain rfl : "./ping.schema.yaml" = path := Option.some.inj hread.file
    obtain rfl : pingSchema = value := Except.ok.inj hread.content
    refine ⟨by decide, fun v' ref hpath href => ?_⟩
    rw [hfree v'.site.node (RefResolver.descent_site hpath).2.2] at href
    cases href
  exact ⟨hinert, (answersStably_exact greetFiles fresh (.load "ping")).1 hinert⟩

/-- The schema with the missing definition is not found, and then it is. -/
theorem not_answersStably_greet :
    (∃ err, (fresh.load greetFiles "greet").1 = .error err ∧ err.code = .schemaNotFound) ∧
      (∃ definition, ((fresh.load greetFiles "greet").2.load greetFiles "greet").1 = .ok definition ∧
        definition.inputSchema = greetSchema) ∧
      ¬fresh.AnswersStably greetFiles (.load "greet") := by
  refine ⟨⟨_, rfl, rfl⟩, ⟨_, rfl, rfl⟩, fun hstable => ?_⟩
  have hagain : SameOutcome ((fresh.load greetFiles "greet").2.load greetFiles "greet").1
      (fresh.load greetFiles "greet").1 :=
    hstable [.load "greet"] fun other hother => .inl (by rw [List.mem_singleton.mp hother])
  exact hagain

end SchemaLoader

end Apcore
