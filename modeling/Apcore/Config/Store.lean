import Apcore.Config.Keys
import Apcore.Config.Value

/-! # `Config.Store` — the configuration and its keys

`Config` keeps some keys in typed fields and everything as written in `user_namespaces`. `get`
consults the typed field of a key, then the views of the two typed sections, then what is written,
then the `apcore` namespace, then the defaults; `set` writes both stores. -/

namespace Apcore

namespace Config

/-- `ExecutorConfig`. -/
structure ExecutorConfig where
  defaultTimeout : UInt64 := 30000
  globalTimeout : UInt64 := 60000
  maxCallDepth : UInt32 := 32
  maxModuleRepeat : UInt32 := 3

/-- `TracingConfig`. -/
structure TracingConfig where
  enabled : Bool := false
  samplingRate : ℚ := 1
  exporter : String := "stdout"
  strategy : String := "full"
  otlpEndpoint : Option String := none

structure MetricsConfig where
  enabled : Bool := false

structure ObservabilityConfig where
  tracing : TracingConfig := {}
  metrics : MetricsConfig := {}

inductive ConfigMode where
  | legacy
  | namespaced
  deriving DecidableEq, Repr

/-- A `NamespaceRegistration`: what reading a configuration uses of it. -/
structure NamespaceRegistration where
  name : String
  defaults : Option Value := none
  schema : Option Value := none

/-- `global_ns_registry()`, with each name once. -/
abbrev NamespaceRegistry := List NamespaceRegistration

/-- The typed fields of `Config`. -/
structure TypedFields where
  modulesPath : Option String := none
  executor : ExecutorConfig := {}
  observability : ObservabilityConfig := {}

end Config

open Config in
/-- `Config`; `user_namespaces`, which has everything as written, is an object. -/
structure Config extends TypedFields where
  userNamespaces : Value := .empty
  isObject : userNamespaces.1.isObject = true := by rfl
  mode : ConfigMode := .legacy
  generation : Nat := 0

namespace Config

/-! ## Typed fields -/

/-- The keys of the typed fields. -/
inductive TypedField where
  | maxCallDepth | maxModuleRepeat | defaultTimeout | globalTimeout
  | tracingEnabled | samplingRate | exporter | strategy | otlpEndpoint | metricsEnabled
  | modulesPath
  deriving DecidableEq, Repr

namespace TypedField

def key : TypedField → String
  | maxCallDepth => "executor.max_call_depth"
  | maxModuleRepeat => "executor.max_module_repeat"
  | defaultTimeout => "executor.default_timeout"
  | globalTimeout => "executor.global_timeout"
  | tracingEnabled => "observability.tracing.enabled"
  | samplingRate => "observability.tracing.sampling_rate"
  | exporter => "observability.tracing.exporter"
  | strategy => "observability.tracing.strategy"
  | otlpEndpoint => "observability.tracing.otlp_endpoint"
  | metricsEnabled => "observability.metrics.enabled"
  | modulesPath => "modules_path"

def all : List TypedField :=
  [maxCallDepth, maxModuleRepeat, defaultTimeout, globalTimeout, tracingEnabled, samplingRate,
    exporter, strategy, otlpEndpoint, metricsEnabled, modulesPath]

/-- The field a key names. -/
def ofKey? (key : String) : Option TypedField := all.find? (·.key = key)

/-- The value of a field. -/
def read (t : TypedFields) : TypedField → Option Value
  | maxCallDepth => some (.number (.posInt t.executor.maxCallDepth.toUInt64))
  | maxModuleRepeat => some (.number (.posInt t.executor.maxModuleRepeat.toUInt64))
  | defaultTimeout => some (.number (.posInt t.executor.defaultTimeout))
  | globalTimeout => some (.number (.posInt t.executor.globalTimeout))
  | tracingEnabled => some (.bool t.observability.tracing.enabled)
  | samplingRate => some (.number (.float t.observability.tracing.samplingRate))
  | exporter => some (.string t.observability.tracing.exporter)
  | strategy => some (.string t.observability.tracing.strategy)
  | otlpEndpoint => some (t.observability.tracing.otlpEndpoint.elim .null .string)
  | metricsEnabled => some (.bool t.observability.metrics.enabled)
  | modulesPath => t.modulesPath.map .string

/-- The fields with one of them set; `none` where the value is not of its type. A call depth and a
repeat count are cut to 32 bits. -/
def write (t : TypedFields) (value : Value) : TypedField → Option TypedFields
  | maxCallDepth => value.1.asU64?.map fun n =>
    { t with executor := { t.executor with maxCallDepth := .ofNat n } }
  | maxModuleRepeat => value.1.asU64?.map fun n =>
    { t with executor := { t.executor with maxModuleRepeat := .ofNat n } }
  | defaultTimeout => value.1.asU64?.map fun n =>
    { t with executor := { t.executor with defaultTimeout := .ofNat n } }
  | globalTimeout => value.1.asU64?.map fun n =>
    { t with executor := { t.executor with globalTimeout := .ofNat n } }
  | tracingEnabled => value.1.asBool?.map fun b =>
    { t with observability.tracing.enabled := b }
  | samplingRate => value.1.asF64?.map fun q =>
    { t with observability.tracing.samplingRate := q }
  | exporter => value.1.asStr?.map fun s =>
    { t with observability.tracing.exporter := s }
  | strategy => value.1.asStr?.map fun s =>
    { t with observability.tracing.strategy := s }
  | otlpEndpoint =>
    if value.1.isNull then some { t with observability.tracing.otlpEndpoint := none }
    else value.1.asStr?.map fun s => { t with observability.tracing.otlpEndpoint := some s }
  | metricsEnabled => value.1.asBool?.map fun b =>
    { t with observability.metrics.enabled := b }
  | modulesPath => value.1.asStr?.map fun s => { t with modulesPath := some s }

end TypedField

/-- `get_typed_field`. -/
def getTypedField (t : TypedFields) (key : String) : Option Value :=
  (TypedField.ofKey? key).bind (TypedField.read t)

/-- `set_typed_field`; `none` is `false`. -/
def setTypedField (t : TypedFields) (key : String) (value : Value) : Option TypedFields :=
  (TypedField.ofKey? key).bind (TypedField.write t value)

/-- The serialization of `ExecutorConfig`. -/
def ExecutorConfig.toValue (e : ExecutorConfig) : Value :=
  .ofEntries [("default_timeout", .number (.posInt e.defaultTimeout)),
    ("global_timeout", .number (.posInt e.globalTimeout)),
    ("max_call_depth", .number (.posInt e.maxCallDepth.toUInt64)),
    ("max_module_repeat", .number (.posInt e.maxModuleRepeat.toUInt64))]

/-- The serialization of `ObservabilityConfig`. -/
def ObservabilityConfig.toValue (o : ObservabilityConfig) : Value :=
  .ofEntries [
    ("tracing", .ofEntries [("enabled", .bool o.tracing.enabled),
      ("sampling_rate", .number (.float o.tracing.samplingRate)),
      ("exporter", .string o.tracing.exporter), ("strategy", .string o.tracing.strategy),
      ("otlp_endpoint", o.tracing.otlpEndpoint.elim .null .string)]),
    ("metrics", .ofEntries [("enabled", .bool o.metrics.enabled)])]

/-! ## Reading -/

variable (registry : NamespaceRegistry) (c : Config) (key : String)

/-- `match_registered_namespace`: the longest registered name that is the key or is before a dot in
it, with what follows. -/
def matchRegisteredNamespace : Option (String × String) :=
  ((registry.map (·.name)).mergeSort fun a b => b.utf8ByteSize ≤ a.utf8ByteSize).findSome? fun name =>
    if key = name then some (name, "") else (stripLead (name ++ ".") key).map (name, ·)

/-- The place a key names in the document. -/
def writtenPath : List String :=
  match matchRegisteredNamespace registry key with
  | some (name, rest) => name :: if rest = "" then [] else segments rest
  | none => segments key

/-- `get_as_written`. -/
def getAsWritten : Option Value :=
  Value.nested.read (writtenPath registry key) c.userNamespaces

/-- `typed_namespace_view`. -/
def typedNamespaceView (name : String) (typed : Value) : Value :=
  .merge (((c.userNamespaces.child name).filter (·.1.isObject)).getD .empty) typed

/-- `observability_view`. -/
def observabilityView : Value := c.typedNamespaceView "observability" c.observability.toValue

/-- `executor_view`. -/
def executorView : Value := c.typedNamespaceView "executor" c.executor.toValue

/-- `get_direct`. -/
def getDirect : Option Value :=
  (getTypedField c.toTypedFields key).or <|
    match stripNamespace key "observability", stripNamespace key "executor" with
    | some rest, _ =>
      (c.userNamespaces.child "observability").bind fun _ =>
        Value.nested.read (viewParts rest) c.observabilityView
    | none, some rest => Value.nested.read (viewParts rest) c.executorView
    | none, none => c.getAsWritten registry key

/-- Whether a key that is not found is looked for under `apcore`. -/
def impliesApcore : Bool :=
  c.mode = .namespaced && key ≠ "apcore" && (stripLead "apcore." key).isNone &&
    (c.userNamespaces.child "apcore").isSome

/-- `registered_namespace_default`. -/
def registeredNamespaceDefault : Option Value :=
  (matchRegisteredNamespace registry key).bind fun (name, rest) =>
    (registry.find? (·.name = name)).bind fun registration =>
      registration.defaults.bind (Value.nested.read (if rest = "" then [] else segments rest))

/-- `CONFIG_DEFAULTS`. -/
def configDefaults : List (String × Value) :=
  [("extensions.root", .string "./extensions"), ("extensions.auto_discover", .bool true),
    ("extensions.max_depth", .number (.posInt 8)), ("extensions.follow_symlinks", .bool false),
    ("schema.root", .string "./schemas"), ("schema.strategy", .string "yaml_first"),
    ("schema.max_ref_depth", .number (.posInt 32)), ("acl.root", .string "./acl"),
    ("acl.default_effect", .string "deny"), ("sys_modules.enabled", .bool false),
    ("stream.max_merge_depth", .number (.posInt 32)), ("bindings.dir", .string "./bindings"),
    ("validation.binding.version_require_semver", .bool false),
    ("bindings.pattern", .string "*.binding.yaml")]

/-- `default_for`. -/
def defaultFor : Option Value := (configDefaults.find? (·.1 = key)).map (·.2)

/-- `get`. -/
def get : Option Value :=
  (c.getDirect registry key).or <|
    (if c.impliesApcore key then c.getDirect registry (qualified key) else none).or <|
      (if c.mode = .namespaced then registeredNamespaceDefault registry key else none).or <|
        defaultFor key

/-- `get_declared`. -/
def getDeclared : Option Value :=
  (c.getAsWritten registry key).or <|
    if c.impliesApcore key then c.getAsWritten registry (qualified key) else none

/-- `data`: the wire form. -/
def data : Json :=
  .object (Fields.ofList
    ((c.modulesPath.map fun path => ("modules_path", .string path)).toList ++
      [("executor", c.executorView.1), ("observability", c.observabilityView.1)] ++
      c.userNamespaces.entries.filter fun entry =>
        entry.1 ≠ "observability" && entry.1 ≠ "executor"))

/-! ## Writing -/

/-- Where something was written below a value, the value is an object. -/
theorem isObject_write {path : List String} (h : path ≠ []) (value v : Value) :
    (Value.nested.write path value v).1.isObject = true := by
  cases path with
  | nil => exact absurd rfl h
  | cons key path => rfl

/-- `set`. A key that is qualified sets the typed field it is about as well. The typed fields apart,
the insertion is the same whether the key is typed (`record_typed_as_written`) or not. -/
def set (c : Config) (key : String) (value : Value) : Config :=
  let typed := match stripLead "apcore." key with
    | some frameworkKey => (setTypedField c.toTypedFields frameworkKey value).getD c.toTypedFields
    | none => c.toTypedFields
  { toTypedFields := (setTypedField typed key value).getD typed
    userNamespaces := Value.nested.write (segments key) value c.userNamespaces
    isObject := isObject_write (segments_ne_nil key) value c.userNamespaces
    mode := c.mode
    generation := c.generation + 1 }

end Config

end Apcore
