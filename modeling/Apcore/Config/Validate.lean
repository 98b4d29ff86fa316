import Apcore.Config.Store
import Apcore.Pipeline.BuiltinSteps

/-! # `Config.Validate` — what a valid configuration is

`validate_key_constraint` checks one value under one spelling of its key; `validate` checks what
`get` answers for each key with a constraint, the keys that go together, the required keys, the
keys of the framework sections in strict mode, and the namespaces. -/

namespace Apcore.Config

/-! ## The constraint of a key -/

/-- The check on a value. -/
inductive Constraint where
  | effect | unitInterval | strategy | exporter | endpoint | positive | depth | nonNegative
  | atLeastOne
  deriving DecidableEq, Repr

namespace Constraint

/-- Whether an integer is in a range. -/
def integer (v : Json) (accepts : Int → Bool) : Bool := v.asI64?.any accepts

def holds (v : Json) : Constraint → Bool
  | effect => v.asStr? == some "allow" || v.asStr? == some "deny"
  | unitInterval => v.asF64?.any fun q => 0 ≤ q && q ≤ 1
  | strategy => v.asStr?.any (["full", "proportional", "error_first", "off"].contains ·)
  | exporter => v.asStr?.any (["stdout", "otlp", "jaeger"].contains ·)
  | endpoint => v.isNull || v.asStr?.any fun s => !(rustTrim s.toList).isEmpty
  | positive => v.asF64?.any (0 < ·)
  | depth => integer v fun n => 1 ≤ n && n ≤ 16
  | nonNegative => integer v (0 ≤ ·)
  | atLeastOne => integer v (1 ≤ ·)

/-- What `validate_key_constraint` says of a value that fails. -/
def message : Constraint → String
  | effect => "must be 'allow' or 'deny'"
  | unitInterval => "must be a number in [0.0, 1.0]"
  | strategy => "must be 'full', 'proportional', 'error_first' or 'off'"
  | exporter => "must be 'stdout', 'otlp' or 'jaeger'"
  | endpoint => "must be a non-empty URL string, or null"
  | positive => "must be a positive number"
  | depth => "must be an integer in [1, 16]"
  | nonNegative => "must be a non-negative integer (milliseconds)"
  | atLeastOne => "must be a positive integer"

/-- What `validate` says of it. -/
def collectedMessage : Constraint → String
  | nonNegative => "must be a non-negative integer"
  | atLeastOne => "must be an integer >= 1"
  | other => other.message

end Constraint

/-- The keys with a constraint, in the order `collect_constraint_errors` takes them. -/
def constrainedKeys : List (String × Constraint) :=
  [("observability.tracing.strategy", .strategy), ("observability.tracing.exporter", .exporter),
    ("observability.tracing.otlp_endpoint", .endpoint), ("acl.default_effect", .effect),
    ("observability.tracing.sampling_rate", .unitInterval),
    ("sys_modules.events.thresholds.error_rate", .unitInterval),
    ("sys_modules.events.thresholds.latency_p99_ms", .positive),
    ("executor.default_timeout", .nonNegative), ("executor.global_timeout", .nonNegative),
    ("executor.max_call_depth", .atLeastOne), ("executor.max_module_repeat", .atLeastOne),
    ("sys_modules.error_history.max_entries_per_module", .atLeastOne),
    ("sys_modules.error_history.max_total_entries", .atLeastOne), ("extensions.max_depth", .depth)]

/-- The constraint of a key, under this spelling. -/
def constraintOf (key : String) : Option Constraint :=
  (constrainedKeys.find? (·.1 = key)).map (·.2)

/-- `validate_key_constraint`. -/
def validateKeyConstraint (key : String) (value : Value) : Option (Except String Unit) :=
  (constraintOf key).map fun constraint =>
    if constraint.holds value.1 then .ok () else .error constraint.message

/-! ## The framework keys -/

/-- `FRAMEWORK_CONFIG_KEYS`. -/
def frameworkConfigKeys : List String :=
  ["$schema", "_config.allow_unknown", "_config.strict", "acl.audit.enabled",
    "acl.audit.include_denied", "acl.audit.log_level", "acl.default_effect", "acl.root",
    "bindings.dir", "bindings.pattern", "executor.default_timeout", "executor.global_timeout",
    "executor.max_call_depth", "executor.max_module_repeat", "extensions.auto_discover",
    "extensions.follow_symlinks", "extensions.ignore_patterns", "extensions.lazy_load",
    "extensions.max_depth", "extensions.namespace", "extensions.root", "extensions.roots",
    "id_map.auto_detect", "id_map.overrides", "logging.format", "logging.level",
    "middleware.disabled", "obs.redaction.regex_patterns", "obs.redaction.replacement",
    "obs.redaction.sensitive_keys", "observability.metrics.enabled",
    "observability.metrics.exporter", "observability.tracing.enabled",
    "observability.tracing.exporter", "observability.tracing.otlp_endpoint",
    "observability.tracing.sampling_rate", "observability.tracing.strategy",
    "pipeline.configure", "pipeline.remove", "pipeline.steps", "project.name", "project.version",
    "schema.max_ref_depth", "schema.root", "schema.strategy", "stream.max_merge_depth",
    "sys_modules.control.enabled", "sys_modules.control.overrides_path", "sys_modules.enabled",
    "sys_modules.error_history.max_entries_per_module",
    "sys_modules.error_history.max_total_entries", "sys_modules.events.enabled",
    "sys_modules.events.subscribers", "sys_modules.events.thresholds.error_rate",
    "sys_modules.events.thresholds.latency_p99_ms", "sys_modules.health.enabled",
    "sys_modules.manifest.enabled", "sys_modules.usage.bucketing_strategy",
    "sys_modules.usage.enabled", "sys_modules.usage.retention_hours",
    "validation.binding.description_max_length", "validation.binding.documentation_max_length",
    "validation.binding.tags_pattern", "validation.binding.version_require_semver",
    "validation.pipeline.step_name_max_length", "validation.pipeline.timeout_ms_max", "version"]

/-- `is_declared_prefix`. -/
def isDeclaredPrefix (path : String) : Bool :=
  frameworkConfigKeys.any fun key => key == path || (stripLead (path ++ ".") key).isSome

/-- `is_declared_container`. -/
def isDeclaredContainer (path : String) : Bool :=
  frameworkConfigKeys.any fun key => (stripLead (path ++ ".") key).isSome

/-- `is_framework_section`. -/
def isFrameworkSection (name : String) : Bool :=
  frameworkConfigKeys.any fun path => (segments path).head? == some name && path.contains '.'

/-- The sections of `reject_unknown_framework_keys`. -/
def frameworkSections : List String :=
  ((frameworkConfigKeys.filterMap fun path => (splitOnce '.' path).map (·.1)).mergeSort (· ≤ ·)).dedup

/-! ## `validate` -/

/-- One thing `validate` reports. -/
inductive Fault where
  | missingField (field : String)
  | violated (key : String) (constraint : Constraint) (value : Json)
  | unreadEndpoint (exporter : String)
  | unknownKey (path : String)
  | unknownNamespace (name : String)
  | schema (name message : String)
  | pattern (index : Nat) (pattern reason : String)

/-- What a configuration asks of its surroundings: the registered namespaces, the schema compiler,
why a pattern does not compile, and how a value is displayed. -/
structure Surroundings where
  registry : NamespaceRegistry := []
  compileSchema : Json → Except String (Json → List SchemaViolation) := fun _ => .ok fun _ => []
  patternError : String → Option String := fun _ => none
  display : Json → String := fun _ => ""

mutual

/-- The `walk` of `reject_unknown_framework_keys`, below a path. -/
def unknownKeys (path : String) : Json → List Fault
  | .object fields => unknownEntries path fields
  | _ => []

def unknownEntries (path : String) : List (String × Json) → List Fault
  | [] => []
  | entry :: rest => unknownEntry path entry ++ unknownEntries path rest

def unknownEntry (path : String) : String × Json → List Fault
  | (key, value) =>
    let below := path ++ "." ++ key
    if !isDeclaredPrefix below then [.unknownKey below]
    else if isDeclaredContainer below then unknownKeys below value else []

end

section Validate

variable (s : Surroundings) (c : Config)

def missingFields : List Fault :=
  if c.mode = .namespaced then []
  else (["version", "project.name"].filter fun field =>
    (c.getDeclared s.registry field).isNone).map .missingField

/-- `collect_constraint_errors`. -/
def collectConstraintErrors : List Fault :=
  constrainedKeys.flatMap fun (key, constraint) =>
    ((c.get s.registry key).filter fun v => !constraint.holds v.1).toList.map fun v =>
      .violated key constraint v.1

def endpointFaults : List Fault :=
  if c.observability.tracing.otlpEndpoint.isSome && c.observability.tracing.exporter ≠ "otlp" then
    [.unreadEndpoint c.observability.tracing.exporter]
  else []

/-- `strict_mode`. -/
def strictMode : Bool :=
  (((c.userNamespaces.child "_config").bind (·.child "strict")).bind (·.1.asBool?)).getD false

/-- `reject_unknown_framework_keys`. -/
def rejectUnknownFrameworkKeys : List Fault :=
  frameworkSections.flatMap fun name =>
    (c.userNamespaces.child name).toList.flatMap fun v => unknownKeys name v.1

/-- What is found of one entry of the document as a namespace. -/
def namespaceFaults (entry : String × Json) : List Fault :=
  if entry.1 = "apcore" ∨ entry.1 = "_config" ∨ entry.2.isObject = false then []
  else match s.registry.find? (·.name = entry.1) with
    | none =>
      if c.strictMode && !isFrameworkSection entry.1 then [.unknownNamespace entry.1] else []
    | some registration => registration.schema.toList.flatMap fun schema =>
      match validateAgainstSchema (σ := Unit)
          { Externals.lax with compileSchema := s.compileSchema } entry.2 schema.1 "Config" with
      | .ok () => []
      | .error e => [.schema entry.1 e.message]

/-- The patterns of `obs.redaction.regex_patterns` that do not compile. -/
def patternFaults : List Fault :=
  ((c.get s.registry "obs.redaction.regex_patterns").bind (·.1.asArray?)).toList.flatMap fun patterns =>
    patterns.zipIdx.flatMap fun (entry, index) =>
      (entry.asStr?.filter (· ≠ "")).toList.flatMap fun pattern =>
        ((s.patternError pattern).map (Fault.pattern index pattern)).toList

/-- All that `validate` reports. The namespaces are in the order of the document here, where the
source takes them in that of a hash map. -/
def faults : List Fault :=
  c.missingFields s ++ c.collectConstraintErrors s ++ c.endpointFaults ++
    (if c.strictMode then c.rejectUnknownFrameworkKeys else []) ++
    (if c.mode = .namespaced then c.userNamespaces.entries.flatMap (c.namespaceFaults s) else []) ++
    c.patternFaults s

/-- `validate`. -/
def validate : Except (List Fault) Unit :=
  if (c.faults s).isEmpty then .ok () else .error (c.faults s)

end Validate

end Apcore.Config
