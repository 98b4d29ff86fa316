import Apcore.Json

/-! # `Errors` — error codes, structured errors and their wire form

`ModuleError` is the one error type of the program. The pipeline wraps a step's error in another
one by storing its JSON form among the details, and the entry points decode it again, so the JSON
form and its decoder are part of the model: `ModuleError.ofJson_toJson` is the round trip. -/

namespace Apcore

/-- `ErrorCode`. -/
inductive ErrorCode where
  | configNotFound | configInvalid | aclRuleError | aclDenied | moduleNotFound | moduleDisabled
  | moduleTimeout | moduleLoadError | moduleExecuteError | reloadFailed | executionCancelled
  | schemaValidationError | schemaNotFound | schemaParseError | schemaCircularRef
  | schemaUnionNoMatch | schemaUnionAmbiguous | schemaMaxDepthExceeded | callDepthExceeded
  | circularCall | callFrequencyExceeded | generalInvalidInput | invalidModuleId
  | generalInternalError | generalNotImplemented | funcMissingTypeHint | funcMissingReturnType
  | bindingInvalidTarget | bindingModuleNotFound | bindingCallableNotFound | bindingNotCallable
  | bindingSchemaMissing | bindingSchemaInferenceFailed | bindingSchemaModeConflict
  | bindingStrictSchemaIncompatible | bindingFileInvalid | circularDependency
  | middlewareChainError | approvalDenied | approvalTimeout | approvalPending
  | versionIncompatible | errorCodeCollision | dependencyNotFound | dependencyVersionMismatch
  | configNamespaceDuplicate | configNamespaceReserved | configEnvPrefixConflict
  | configMountError | configBindError | configEnvMapConflict | errorFormatterDuplicate
  | pipelineAbort | pipelineConfigInvalid | pipelineConfigurationError
  | pipelineHandlerNotSupported | pipelineStepInsertionAmbiguous | pipelineStepError
  | pipelineStepNotFound | pipelineDependencyError | stepNotFound | stepNotRemovable
  | stepNotReplaceable | stepNameDuplicate | strategyNotFound | entryPointNotFound
  | entryPointAmbiguous | entryPointRuntimeUnsupported | noDiscovererConfigured
  | taskLimitExceeded | taskStoreUnavailable | reaperAlreadyRunning | versionConstraintInvalid
  | invalidParentId | moduleIdConflict | invalidSegment | idTooLong | circuitBreakerOpen
  | moduleReloadConflict | sysModuleRegistrationFailed | sysModulesDisabled | configKeyRestricted
  | streamingInterfaceMismatch | duplicateModuleId | contextBindingError
  deriving DecidableEq, Repr

namespace ErrorCode

/-- `wire_str`: the code in its serialised spelling. -/
def wireStr : ErrorCode → String
  | .configNotFound => "CONFIG_NOT_FOUND"
  | .configInvalid => "CONFIG_INVALID"
  | .aclRuleError => "ACL_RULE_ERROR"
  | .aclDenied => "ACL_DENIED"
  | .moduleNotFound => "MODULE_NOT_FOUND"
  | .moduleDisabled => "MODULE_DISABLED"
  | .moduleTimeout => "MODULE_TIMEOUT"
  | .moduleLoadError => "MODULE_LOAD_ERROR"
  | .moduleExecuteError => "MODULE_EXECUTE_ERROR"
  | .reloadFailed => "RELOAD_FAILED"
  | .executionCancelled => "EXECUTION_CANCELLED"
  | .schemaValidationError => "SCHEMA_VALIDATION_ERROR"
  | .schemaNotFound => "SCHEMA_NOT_FOUND"
  | .schemaParseError => "SCHEMA_PARSE_ERROR"
  | .schemaCircularRef => "SCHEMA_CIRCULAR_REF"
  | .schemaUnionNoMatch => "SCHEMA_UNION_NO_MATCH"
  | .schemaUnionAmbiguous => "SCHEMA_UNION_AMBIGUOUS"
  | .schemaMaxDepthExceeded => "SCHEMA_MAX_DEPTH_EXCEEDED"
  | .callDepthExceeded => "CALL_DEPTH_EXCEEDED"
  | .circularCall => "CIRCULAR_CALL"
  | .callFrequencyExceeded => "CALL_FREQUENCY_EXCEEDED"
  | .generalInvalidInput => "GENERAL_INVALID_INPUT"
  | .invalidModuleId => "INVALID_MODULE_ID"
  | .generalInternalError => "GENERAL_INTERNAL_ERROR"
  | .generalNotImplemented => "GENERAL_NOT_IMPLEMENTED"
  | .funcMissingTypeHint => "FUNC_MISSING_TYPE_HINT"
  | .funcMissingReturnType => "FUNC_MISSING_RETURN_TYPE"
  | .bindingInvalidTarget => "BINDING_INVALID_TARGET"
  | .bindingModuleNotFound => "BINDING_MODULE_NOT_FOUND"
  | .bindingCallableNotFound => "BINDING_CALLABLE_NOT_FOUND"
  | .bindingNotCallable => "BINDING_NOT_CALLABLE"
  | .bindingSchemaMissing => "BINDING_SCHEMA_MISSING"
  | .bindingSchemaInferenceFailed => "BINDING_SCHEMA_INFERENCE_FAILED"
  | .bindingSchemaModeConflict => "BINDING_SCHEMA_MODE_CONFLICT"
  | .bindingStrictSchemaIncompatible => "BINDING_STRICT_SCHEMA_INCOMPATIBLE"
  | .bindingFileInvalid => "BINDING_FILE_INVALID"
  | .circularDependency => "CIRCULAR_DEPENDENCY"
  | .middlewareChainError => "MIDDLEWARE_CHAIN_ERROR"
  | .approvalDenied => "APPROVAL_DENIED"
  | .approvalTimeout => "APPROVAL_TIMEOUT"
  | .approvalPending => "APPROVAL_PENDING"
  | .versionIncompatible => "VERSION_INCOMPATIBLE"
  | .errorCodeCollision => "ERROR_CODE_COLLISION"
  | .dependencyNotFound => "DEPENDENCY_NOT_FOUND"
  | .dependencyVersionMismatch => "DEPENDENCY_VERSION_MISMATCH"
  | .configNamespaceDuplicate => "CONFIG_NAMESPACE_DUPLICATE"
  | .configNamespaceReserved => "CONFIG_NAMESPACE_RESERVED"
  | .configEnvPrefixConflict => "CONFIG_ENV_PREFIX_CONFLICT"
  | .configMountError => "CONFIG_MOUNT_ERROR"
  | .configBindError => "CONFIG_BIND_ERROR"
  | .configEnvMapConflict => "CONFIG_ENV_MAP_CONFLICT"
  | .errorFormatterDuplicate => "ERROR_FORMATTER_DUPLICATE"
  | .pipelineAbort => "PIPELINE_ABORT"
  | .pipelineConfigInvalid => "PIPELINE_CONFIG_INVALID"
  | .pipelineConfigurationError => "PIPELINE_CONFIGURATION_ERROR"
  | .pipelineHandlerNotSupported => "PIPELINE_HANDLER_NOT_SUPPORTED"
  | .pipelineStepInsertionAmbiguous => "PIPELINE_STEP_INSERTION_AMBIGUOUS"
  | .pipelineStepError => "PIPELINE_STEP_ERROR"
  | .pipelineStepNotFound => "PIPELINE_STEP_NOT_FOUND"
  | .pipelineDependencyError => "PIPELINE_DEPENDENCY_ERROR"
  | .stepNotFound => "STEP_NOT_FOUND"
  | .stepNotRemovable => "STEP_NOT_REMOVABLE"
  | .stepNotReplaceable => "STEP_NOT_REPLACEABLE"
  | .stepNameDuplicate => "STEP_NAME_DUPLICATE"
  | .strategyNotFound => "STRATEGY_NOT_FOUND"
  | .entryPointNotFound => "ENTRY_POINT_NOT_FOUND"
  | .entryPointAmbiguous => "ENTRY_POINT_AMBIGUOUS"
  | .entryPointRuntimeUnsupported => "ENTRY_POINT_RUNTIME_UNSUPPORTED"
  | .noDiscovererConfigured => "NO_DISCOVERER_CONFIGURED"
  | .taskLimitExceeded => "TASK_LIMIT_EXCEEDED"
  | .taskStoreUnavailable => "TASK_STORE_UNAVAILABLE"
  | .reaperAlreadyRunning => "REAPER_ALREADY_RUNNING"
  | .versionConstraintInvalid => "VERSION_CONSTRAINT_INVALID"
  | .invalidParentId => "INVALID_PARENT_ID"
  | .moduleIdConflict => "MODULE_ID_CONFLICT"
  | .invalidSegment => "INVALID_SEGMENT"
  | .idTooLong => "ID_TOO_LONG"
  | .circuitBreakerOpen => "CIRCUIT_BREAKER_OPEN"
  | .moduleReloadConflict => "MODULE_RELOAD_CONFLICT"
  | .sysModuleRegistrationFailed => "SYS_MODULE_REGISTRATION_FAILED"
  | .sysModulesDisabled => "SYS_MODULES_DISABLED"
  | .configKeyRestricted => "CONFIG_KEY_RESTRICTED"
  | .streamingInterfaceMismatch => "STREAMING_INTERFACE_MISMATCH"
  | .duplicateModuleId => "DUPLICATE_MODULE_ID"
  | .contextBindingError => "CONTEXT_BINDING_ERROR"

/-- The decoder of `wireStr`; `BINDING_SCHEMA_MISSING` is also its own alias. -/
def ofWireStr : String → Option ErrorCode
  | "CONFIG_NOT_FOUND" => some .configNotFound
  | "CONFIG_INVALID" => some .configInvalid
  | "ACL_RULE_ERROR" => some .aclRuleError
  | "ACL_DENIED" => some .aclDenied
  | "MODULE_NOT_FOUND" => some .moduleNotFound
  | "MODULE_DISABLED" => some .moduleDisabled
  | "MODULE_TIMEOUT" => some .moduleTimeout
  | "MODULE_LOAD_ERROR" => some .moduleLoadError
  | "MODULE_EXECUTE_ERROR" => some .moduleExecuteError
  | "RELOAD_FAILED" => some .reloadFailed
  | "EXECUTION_CANCELLED" => some .executionCancelled
  | "SCHEMA_VALIDATION_ERROR" => some .schemaValidationError
  | "SCHEMA_NOT_FOUND" => some .schemaNotFound
  | "SCHEMA_PARSE_ERROR" => some .schemaParseError
  | "SCHEMA_CIRCULAR_REF" => some .schemaCircularRef
  | "SCHEMA_UNION_NO_MATCH" => some .schemaUnionNoMatch
  | "SCHEMA_UNION_AMBIGUOUS" => some .schemaUnionAmbiguous
  | "SCHEMA_MAX_DEPTH_EXCEEDED" => some .schemaMaxDepthExceeded
  | "CALL_DEPTH_EXCEEDED" => some .callDepthExceeded
  | "CIRCULAR_CALL" => some .circularCall
  | "CALL_FREQUENCY_EXCEEDED" => some .callFrequencyExceeded
  | "GENERAL_INVALID_INPUT" => some .generalInvalidInput
  | "INVALID_MODULE_ID" => some .invalidModuleId
  | "GENERAL_INTERNAL_ERROR" => some .generalInternalError
  | "GENERAL_NOT_IMPLEMENTED" => some .generalNotImplemented
  | "FUNC_MISSING_TYPE_HINT" => some .funcMissingTypeHint
  | "FUNC_MISSING_RETURN_TYPE" => some .funcMissingReturnType
  | "BINDING_INVALID_TARGET" => some .bindingInvalidTarget
  | "BINDING_MODULE_NOT_FOUND" => some .bindingModuleNotFound
  | "BINDING_CALLABLE_NOT_FOUND" => some .bindingCallableNotFound
  | "BINDING_NOT_CALLABLE" => some .bindingNotCallable
  | "BINDING_SCHEMA_MISSING" => some .bindingSchemaMissing
  | "BINDING_SCHEMA_INFERENCE_FAILED" => some .bindingSchemaInferenceFailed
  | "BINDING_SCHEMA_MODE_CONFLICT" => some .bindingSchemaModeConflict
  | "BINDING_STRICT_SCHEMA_INCOMPATIBLE" => some .bindingStrictSchemaIncompatible
  | "BINDING_FILE_INVALID" => some .bindingFileInvalid
  | "CIRCULAR_DEPENDENCY" => some .circularDependency
  | "MIDDLEWARE_CHAIN_ERROR" => some .middlewareChainError
  | "APPROVAL_DENIED" => some .approvalDenied
  | "APPROVAL_TIMEOUT" => some .approvalTimeout
  | "APPROVAL_PENDING" => some .approvalPending
  | "VERSION_INCOMPATIBLE" => some .versionIncompatible
  | "ERROR_CODE_COLLISION" => some .errorCodeCollision
  | "DEPENDENCY_NOT_FOUND" => some .dependencyNotFound
  | "DEPENDENCY_VERSION_MISMATCH" => some .dependencyVersionMismatch
  | "CONFIG_NAMESPACE_DUPLICATE" => some .configNamespaceDuplicate
  | "CONFIG_NAMESPACE_RESERVED" => some .configNamespaceReserved
  | "CONFIG_ENV_PREFIX_CONFLICT" => some .configEnvPrefixConflict
  | "CONFIG_MOUNT_ERROR" => some .configMountError
  | "CONFIG_BIND_ERROR" => some .configBindError
  | "CONFIG_ENV_MAP_CONFLICT" => some .configEnvMapConflict
  | "ERROR_FORMATTER_DUPLICATE" => some .errorFormatterDuplicate
  | "PIPELINE_ABORT" => some .pipelineAbort
  | "PIPELINE_CONFIG_INVALID" => some .pipelineConfigInvalid
  | "PIPELINE_CONFIGURATION_ERROR" => some .pipelineConfigurationError
  | "PIPELINE_HANDLER_NOT_SUPPORTED" => some .pipelineHandlerNotSupported
  | "PIPELINE_STEP_INSERTION_AMBIGUOUS" => some .pipelineStepInsertionAmbiguous
  | "PIPELINE_STEP_ERROR" => some .pipelineStepError
  | "PIPELINE_STEP_NOT_FOUND" => some .pipelineStepNotFound
  | "PIPELINE_DEPENDENCY_ERROR" => some .pipelineDependencyError
  | "STEP_NOT_FOUND" => some .stepNotFound
  | "STEP_NOT_REMOVABLE" => some .stepNotRemovable
  | "STEP_NOT_REPLACEABLE" => some .stepNotReplaceable
  | "STEP_NAME_DUPLICATE" => some .stepNameDuplicate
  | "STRATEGY_NOT_FOUND" => some .strategyNotFound
  | "ENTRY_POINT_NOT_FOUND" => some .entryPointNotFound
  | "ENTRY_POINT_AMBIGUOUS" => some .entryPointAmbiguous
  | "ENTRY_POINT_RUNTIME_UNSUPPORTED" => some .entryPointRuntimeUnsupported
  | "NO_DISCOVERER_CONFIGURED" => some .noDiscovererConfigured
  | "TASK_LIMIT_EXCEEDED" => some .taskLimitExceeded
  | "TASK_STORE_UNAVAILABLE" => some .taskStoreUnavailable
  | "REAPER_ALREADY_RUNNING" => some .reaperAlreadyRunning
  | "VERSION_CONSTRAINT_INVALID" => some .versionConstraintInvalid
  | "INVALID_PARENT_ID" => some .invalidParentId
  | "MODULE_ID_CONFLICT" => some .moduleIdConflict
  | "INVALID_SEGMENT" => some .invalidSegment
  | "ID_TOO_LONG" => some .idTooLong
  | "CIRCUIT_BREAKER_OPEN" => some .circuitBreakerOpen
  | "MODULE_RELOAD_CONFLICT" => some .moduleReloadConflict
  | "SYS_MODULE_REGISTRATION_FAILED" => some .sysModuleRegistrationFailed
  | "SYS_MODULES_DISABLED" => some .sysModulesDisabled
  | "CONFIG_KEY_RESTRICTED" => some .configKeyRestricted
  | "STREAMING_INTERFACE_MISMATCH" => some .streamingInterfaceMismatch
  | "DUPLICATE_MODULE_ID" => some .duplicateModuleId
  | "CONTEXT_BINDING_ERROR" => some .contextBindingError
  | _ => none

/-- `retryable_for_code`. -/
def retryableForCode : ErrorCode → Option Bool
  | .approvalTimeout | .moduleTimeout | .generalInternalError | .taskLimitExceeded
  | .taskStoreUnavailable | .reloadFailed | .executionCancelled | .circuitBreakerOpen =>
    some true
  | .schemaValidationError | .generalInvalidInput | .schemaUnionNoMatch | .schemaUnionAmbiguous
  | .invalidParentId | .aclDenied | .aclRuleError | .approvalDenied | .approvalPending
  | .moduleDisabled | .callDepthExceeded | .circularCall | .callFrequencyExceeded
  | .moduleNotFound | .moduleLoadError | .versionConstraintInvalid | .versionIncompatible
  | .dependencyNotFound | .dependencyVersionMismatch | .circularDependency | .errorCodeCollision
  | .middlewareChainError | .schemaNotFound | .schemaParseError | .schemaCircularRef
  | .schemaMaxDepthExceeded | .bindingInvalidTarget | .bindingModuleNotFound
  | .bindingCallableNotFound | .bindingNotCallable | .bindingFileInvalid | .bindingSchemaMissing
  | .bindingSchemaInferenceFailed | .bindingSchemaModeConflict | .bindingStrictSchemaIncompatible
  | .funcMissingTypeHint | .funcMissingReturnType | .configNotFound | .configInvalid
  | .configNamespaceDuplicate | .configNamespaceReserved | .configEnvPrefixConflict
  | .configMountError | .configBindError | .configEnvMapConflict | .configKeyRestricted
  | .pipelineConfigurationError =>
    some false
  | _ => none

/-- `user_fixable_for_code`. -/
def userFixableForCode : ErrorCode → Option Bool
  | .schemaValidationError | .generalInvalidInput | .moduleNotFound | .versionConstraintInvalid
  | .invalidParentId | .bindingSchemaInferenceFailed | .bindingSchemaModeConflict
  | .bindingStrictSchemaIncompatible | .dependencyNotFound | .dependencyVersionMismatch =>
    some true
  | .aclDenied | .approvalDenied | .approvalTimeout | .moduleTimeout | .moduleDisabled
  | .callDepthExceeded | .circularCall | .callFrequencyExceeded | .generalInternalError =>
    some false
  | _ => none

/-- From `SCREAMING_SNAKE` to `PascalCase`; the flag tells that a word begins. -/
def pascalCase : Bool → List Char → List Char
  | _, [] => []
  | _, '_' :: cs => pascalCase true cs
  | true, c :: cs => c :: pascalCase false cs
  | false, c :: cs => c.toLower :: pascalCase false cs

/-- The derived `Debug`: the name of the variant. -/
def debugStr : ErrorCode → String
  | .aclDenied => "ACLDenied"
  | .aclRuleError => "ACLRuleError"
  | code => String.ofList (pascalCase true code.wireStr.toList)

example : ErrorCode.debugStr .pipelineStepError = "PipelineStepError" := by decide +kernel

/-- Every code is read back from its wire spelling. -/
@[simp] theorem ofWireStr_wireStr (code : ErrorCode) : ofWireStr code.wireStr = some code := by
  cases code <;> decide +kernel

end ErrorCode

/-- `ModuleError`, without the wall-clock reading it is stamped with. -/
structure ModuleError where
  code : ErrorCode
  message : String
  details : List (String × Json)
  cause : Option String
  traceId : Option String
  retryable : Option Bool
  aiGuidance : Option String
  userFixable : Option Bool
  suggestion : Option String
  deriving Repr

namespace ModuleError

/-- `ModuleError::new`: the recovery fields take the defaults of the code. -/
def new (code : ErrorCode) (message : String) : ModuleError where
  code := code
  message := message
  details := []
  cause := none
  traceId := none
  retryable := code.retryableForCode
  aiGuidance := none
  userFixable := code.userFixableForCode
  suggestion := none

def withDetails (e : ModuleError) (details : List (String × Json)) : ModuleError := { e with details }

def withCause (e : ModuleError) (cause : String) : ModuleError := { e with cause := some cause }

def withAiGuidance (e : ModuleError) (guidance : String) : ModuleError :=
  { e with aiGuidance := some guidance }

@[simp] theorem new_code (code : ErrorCode) (message : String) : (new code message).code = code := rfl

@[simp] theorem withDetails_code (e : ModuleError) (details : List (String × Json)) :
    (e.withDetails details).code = e.code := rfl

@[simp] theorem withCause_code (e : ModuleError) (cause : String) :
    (e.withCause cause).code = e.code := rfl

/-! ## The JSON form -/

/-- An optional field of a serialised record: absent when there is no value. -/
def optEntry (key : String) (value : Option Json) : List (String × Json) :=
  value.toList.map (key, ·)

/-- The derived `Serialize`: fields without a value are left out. -/
def toFields (e : ModuleError) : List (String × Json) :=
  optEntry "ai_guidance" (e.aiGuidance.map .string) ++
  (optEntry "cause" (e.cause.map .string) ++
  (optEntry "code" (some (.string e.code.wireStr)) ++
  (optEntry "details" (if e.details.isEmpty then none else some (.object e.details)) ++
  (optEntry "message" (some (.string e.message)) ++
  (optEntry "retryable" (e.retryable.map .bool) ++
  (optEntry "suggestion" (e.suggestion.map .string) ++
  (optEntry "trace_id" (e.traceId.map .string) ++
  optEntry "user_fixable" (e.userFixable.map .bool))))))))

/-- `serde_json::to_value`. -/
def toJson (e : ModuleError) : Json := .object e.toFields

/-- Decode an optional field: absent and `null` are both "no value", another type is an error. -/
def decodeOpt {α : Type} (decode : Json → Option α) : Option Json → Option (Option α)
  | none | some .null => some none
  | some v => (decode v).map some

/-- The derived `Deserialize`, which ignores unknown fields. -/
def ofFields (fields : List (String × Json)) : Option ModuleError := do
  let code ← ErrorCode.ofWireStr (← (← Fields.get? fields "code").asStr?)
  let message ← (← Fields.get? fields "message").asStr?
  let details ← ((Fields.get? fields "details").getD (.object [])).asObject?
  let cause ← decodeOpt Json.asStr? (Fields.get? fields "cause")
  let traceId ← decodeOpt Json.asStr? (Fields.get? fields "trace_id")
  let retryable ← decodeOpt Json.asBool? (Fields.get? fields "retryable")
  let aiGuidance ← decodeOpt Json.asStr? (Fields.get? fields "ai_guidance")
  let userFixable ← decodeOpt Json.asBool? (Fields.get? fields "user_fixable")
  let suggestion ← decodeOpt Json.asStr? (Fields.get? fields "suggestion")
  pure { code, message, details, cause, traceId, retryable, aiGuidance, userFixable, suggestion }

/-- `serde_json::from_value::<ModuleError>`. -/
def ofJson (v : Json) : Option ModuleError := v.asObject?.bind ofFields

/-- Reading a record field by field: a leading optional entry answers for its own key only. -/
theorem get?_optEntry_append (key other : String) (value : Option Json)
    (rest : List (String × Json)) :
    Fields.get? (optEntry key value ++ rest) other =
      if key = other then value.or (Fields.get? rest other) else Fields.get? rest other := by
  cases value with
  | none => by_cases h : key = other <;> simp [optEntry, h]
  | some v => by_cases h : key = other <;> simp [optEntry, Fields.get?_cons, h]

theorem get?_optEntry (key other : String) (value : Option Json) :
    Fields.get? (optEntry key value) other = if key = other then value else none := by
  have h := get?_optEntry_append key other value []
  simpa using h

theorem decodeOpt_str (o : Option String) : decodeOpt Json.asStr? (o.map .string) = some o := by
  cases o <;> rfl

theorem decodeOpt_bool (o : Option Bool) : decodeOpt Json.asBool? (o.map .bool) = some o := by
  cases o <;> rfl

theorem details_roundTrip (details : List (String × Json)) :
    ((if details.isEmpty then none else some (Json.object details)).getD (.object [])).asObject? =
      some details := by
  cases details <;> rfl

/-- **Round trip.** A serialised error decodes to itself. -/
theorem ofJson_toJson (e : ModuleError) : ofJson e.toJson = some e := by
  show ofFields e.toFields = some e
  simp only [ofFields, toFields, get?_optEntry_append, get?_optEntry, String.reduceEq, if_true,
    if_false, Option.or_none, Option.pure_def, Option.bind_eq_bind, Option.bind_some, Option.some_or,
    Json.asStr?_string, ErrorCode.ofWireStr_wireStr, details_roundTrip, decodeOpt_str,
    decodeOpt_bool]

/-! ## Wrapping and unwrapping -/

/-- `ModuleError::acl_denied`. -/
def aclDenied (callerId : Option String) (targetId : String) : ModuleError :=
  let caller := callerId.getD "@external"
  ((new .aclDenied ("Access denied: " ++ caller ++ " -> " ++ targetId)).withDetails
    [("caller_id", (callerId.map Json.string).getD .null), ("target_id", .string targetId)])
  |>.withAiGuidance ("Access denied for '" ++ caller ++ "' calling '" ++ targetId ++
      "'. Verify the caller has the required role or permission, " ++
      "or try an alternative module with similar functionality.")

/-- A list of names as a JSON array. -/
def namesJson (names : List String) : Json := .array (names.map .string)

/-- A count as a JSON number. -/
def countJson (n : Nat) : Json := .number (.posInt (UInt64.ofNat n))

/-- `Display`. -/
def display (e : ModuleError) : String := "[" ++ e.code.debugStr ++ "] " ++ e.message

/-- `ModuleError::module_not_found`. -/
def moduleNotFound (moduleId : String) : ModuleError :=
  ((new .moduleNotFound ("Module not found: " ++ moduleId)).withDetails
    [("module_id", .string moduleId)]).withAiGuidance
    ("Module '" ++ moduleId ++ "' does not exist in the registry. Verify the module ID " ++
      "spelling. Use system.manifest.full to list available modules.")

/-- `ModuleError::module_disabled`. -/
def moduleDisabled (moduleId : String) : ModuleError :=
  ((new .moduleDisabled ("Module '" ++ moduleId ++ "' is disabled")).withDetails
    [("module_id", .string moduleId)]).withAiGuidance
    ("Module '" ++ moduleId ++ "' is currently disabled. Use system.control.toggle_feature " ++
      "to re-enable it, or find an alternative module.")

/-- `ModuleError::module_timeout`. -/
def moduleTimeout (moduleId : String) (timeoutMs : Nat) : ModuleError :=
  ((new .moduleTimeout
      ("Module " ++ moduleId ++ " timed out after " ++ toString timeoutMs ++ "ms")).withDetails
    [("module_id", .string moduleId), ("timeout_ms", countJson timeoutMs)]).withAiGuidance
    ("Module '" ++ moduleId ++ "' timed out after " ++ toString timeoutMs ++
      "ms. Consider: 1) Breaking the operation into smaller steps. " ++
      "2) Reducing the input data size. 3) Asking the user if a longer timeout is acceptable.")

/-- `ModuleError::invalid_input`. -/
def invalidInput (message : String) : ModuleError :=
  (new .generalInvalidInput message).withAiGuidance
    ("The input was malformed or missing required fields. Check the values against the " ++
      "module's input_schema and retry with corrected input.")

/-- `ExecutionCancelledError::new(module_id, ..).to_module_error()`. -/
def executionCancelled (moduleId : String) : ModuleError :=
  (new .executionCancelled "Execution was cancelled").withDetails [("module_id", .string moduleId)]

/-- The `MiddlewareChainError` around the error of a hook, which is kept in its JSON form next to
one entry that says where the chain stopped. -/
def middlewareChainError (inner : ModuleError) (place : String × Json) (cause : String) :
    ModuleError :=
  ((new .middlewareChainError inner.message).withDetails
    [("inner_error", inner.toJson), place]).withCause cause

/-- `map.entry(key).or_insert(value)`. -/
def orInsert (key : String) (value : Json) (details : List (String × Json)) :
    List (String × Json) :=
  if Fields.containsKey details key then details else Fields.insert key value details

/-- `propagate_module_error`: fills in the trace id, the module and the call chain where the error
does not carry them yet. -/
def propagate (e : ModuleError) (moduleId traceId : String) (callChain : List String) :
    ModuleError :=
  { e with
    traceId := some (e.traceId.getD traceId)
    details := orInsert "call_chain" (namesJson callChain)
      (orInsert "module_id" (.string moduleId) e.details) }

theorem containsKey_orInsert (key other : String) (value : Json) (details : List (String × Json)) :
    Fields.containsKey (orInsert key value details) other =
      (decide (other = key) || Fields.containsKey details other) := by
  unfold orInsert
  by_cases hother : other = key
  · subst hother
    split_ifs with hkey
    · simp [hkey]
    · simp [Fields.containsKey]
  · split_ifs
    · simp [hother]
    · simp [Fields.containsKey, Fields.get?_insert_ne hother, hother]

/-- What an error carries already is not overwritten. -/
theorem propagate_propagate (e : ModuleError) (moduleId moduleId' traceId traceId' : String)
    (callChain callChain' : List String) : (e.propagate moduleId traceId callChain).propagate
      moduleId' traceId' callChain' = e.propagate moduleId traceId callChain := by
  unfold propagate
  dsimp only
  generalize hdetails : orInsert "call_chain" _ (orInsert "module_id" _ e.details) = details
  have hmodule : orInsert "module_id" (.string moduleId') details = details := by
    refine if_pos ?_
    simp [← hdetails, containsKey_orInsert]
  have hchain : orInsert "call_chain" (namesJson callChain') details = details := by
    refine if_pos ?_
    simp [← hdetails, containsKey_orInsert]
  rw [hmodule, hchain, Option.getD_some]

/-- `ModuleError::pipeline_abort`. -/
def pipelineAbort (step : String) (explanation : Option String) : ModuleError :=
  (new .pipelineAbort ("Pipeline aborted at step '" ++ step ++ "': " ++
    explanation.getD "no explanation")).withDetails [("step", .string step)]

/-- `ModuleError::pipeline_step_error`: the cause is kept in its JSON form. -/
def pipelineStepError (stepName : String) (cause : ModuleError) : ModuleError :=
  ((new .pipelineStepError
      ("Pipeline step '" ++ stepName ++ "' failed: " ++ cause.message)).withDetails
    [("cause", cause.toJson), ("step_name", .string stepName)]).withCause cause.message

/-- `unwrap_pipeline_step_error`. -/
def unwrapPipelineStepError (e : ModuleError) : Option ModuleError :=
  if e.code = .pipelineStepError then (Fields.get? e.details "cause").bind ofJson else none

/-- `unwrap_middleware_chain_error`. -/
def unwrapMiddlewareChainError (e : ModuleError) : Option ModuleError :=
  if e.code = .middlewareChainError then (Fields.get? e.details "inner_error").bind ofJson else none

/-- Unwrapping a step error gives back the error it wraps. -/
@[simp] theorem unwrapPipelineStepError_pipelineStepError (stepName : String)
    (cause : ModuleError) :
    (pipelineStepError stepName cause).unwrapPipelineStepError = some cause := by
  simp [unwrapPipelineStepError, pipelineStepError, new, withDetails, withCause, Fields.get?_cons,
    ofJson_toJson]

/-- Unwrapping a chain error gives back the error of the hook. -/
@[simp] theorem unwrapMiddlewareChainError_middlewareChainError (inner : ModuleError)
    (place : String × Json) (cause : String) :
    (middlewareChainError inner place cause).unwrapMiddlewareChainError = some inner := by
  simp [unwrapMiddlewareChainError, middlewareChainError, new, withDetails, withCause,
    Fields.get?_cons, ofJson_toJson]

/-- Decorating an error keeps its code. -/
@[simp] theorem propagate_code (e : ModuleError) (moduleId traceId : String)
    (callChain : List String) : (e.propagate moduleId traceId callChain).code = e.code := rfl

end ModuleError

end Apcore
