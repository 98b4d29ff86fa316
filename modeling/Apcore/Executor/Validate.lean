import Apcore.Executor.Types

/-! # `Executor.Validate` — the preflight

`validate` runs the pipeline dry, turns what the run has recorded into checks, and lets the module
speak for itself when no check says that the access list denied the call. -/

namespace Apcore

open Run (lift)

variable {σ : Type}

/-- `ACL_CHECK_NAME`. -/
def aclCheckName : String := "acl"

/-- `PreflightCheckResult`. -/
structure PreflightCheckResult where
  check : String
  passed : Bool
  error : Option Json := none
  warnings : List String := []

/-- `PreflightResult`. -/
structure PreflightResult where
  valid : Bool
  checks : List PreflightCheckResult
  requiresApproval : Bool
  predictedChanges : List Json

/-- `step_to_check_name`. -/
def stepToCheckName (stepName : String) : String :=
  match stepName with
  | "context_creation" => "context"
  | "call_chain_guard" => "call_chain"
  | "module_lookup" => "module_lookup"
  | "acl_check" => aclCheckName
  | "approval_gate" => "approval"
  | "middleware_before" => "middleware"
  | "input_validation" => "schema"
  | other => other

/-- The name `validate` gives the error of a step that failed in the dry run. -/
def preflightCheckName (stepName : String) : String :=
  match stepName with
  | "acl_check" => aclCheckName
  | "input_validation" => "schema"
  | "call_chain_guard" => "call_chain"
  | other => other

/-- The name of the check a failed run stands for. -/
def runCheckName (code : ErrorCode) : String :=
  match code with
  | .moduleNotFound => "module_lookup"
  | .aclDenied => aclCheckName
  | .schemaValidationError | .generalInvalidInput => "schema"
  | .callDepthExceeded | .circularCall => "call_chain"
  | _ => "unknown"

/-- A check that failed. -/
def failedCheck (check : String) (error : Option Json) : PreflightCheckResult :=
  { check, passed := false, error }

/-- One entry of `trace_to_checks`; step names are ASCII here. -/
def traceCheck (entry : StepTrace) : PreflightCheckResult :=
  let passed := entry.result.action != "abort"
  { check := stepToCheckName entry.name
    passed
    error :=
      if passed then none
      else entry.result.explanation.map fun message => .object
        [("code", .string ("STEP_" ++ entry.name.toUpper ++ "_FAILED")),
          ("message", .string message)] }

/-- `trace_to_checks`. -/
def traceToChecks (trace : PipelineTrace) : List PreflightCheckResult :=
  (trace.steps.filter (!·.skipped)).map traceCheck

namespace Executor

/-- The check of a run that ended with an error. -/
def runFailureCheck (err : ModuleError) : PreflightCheckResult :=
  let underlying := err.unwrapPipelineStepError.getD err
  failedCheck (runCheckName underlying.code) (some (.object
    [("code", .string underlying.code.wireStr), ("message", .string underlying.message)]))

/-- The checks of a run; the typed entry of an error supersedes the failed entries of the trace. -/
def runChecks : EngineResult σ → List PreflightCheckResult
  | (.ok (_, trace), _) => traceToChecks trace
  | (.error err, ctx) => (traceToChecks ctx.trace).filter (·.passed) ++ [runFailureCheck err]

/-- The checks once the errors the dry run has filed are in: they supersede the failed ones. -/
def filePreflightErrors (preflightErrors : List (String × ModuleError))
    (checks : List PreflightCheckResult) : List PreflightCheckResult :=
  if preflightErrors.isEmpty then checks
  else checks.filter (·.passed) ++ preflightErrors.map fun entry =>
    failedCheck (preflightCheckName entry.1) (some entry.2.toJson)

/-- The checks say that the access list denied the call. -/
def aclDenied (checks : List PreflightCheckResult) : Bool :=
  checks.any fun c => c.check == aclCheckName && !c.passed

/-- The governance-effective approval requirement. -/
def requiresApproval (executor : Executor σ) (w : World σ) (moduleId : String)
    (ctx : PipelineContext σ) : Bool :=
  let annotations := ModuleAnnotations.governanceUnion (ctx.module.map (·.annotations))
    ((executor.registry.definition w moduleId).bind (·.annotations))
  (match executor.policy with
    | some policy => (policy.resolve moduleId annotations).needsApproval
    | none => ModuleAnnotations.flag (·.requiresApproval) annotations) || ctx.aclApprovalRequired

/-- `module.preflight(..)`, as a check. -/
def preflightCheck (module : Module σ) (inputs : Json) (ctx : Option Context) :
    Traced σ PreflightCheckResult := do
  Run.report .preflight
  let warnings ← lift (module.preflight inputs ctx)
  pure { check := "module_preflight", passed := true, warnings }

/-- `module.preview(..)`, as at most one check, with the changes it predicts; a panic is a
warning. -/
def previewCheck (module : Module σ) (inputs : Json) (ctx : Option Context) :
    Traced σ (List PreflightCheckResult × List Json) := do
  Run.report .preview
  match ← lift (Run.catchUnwind (module.preview inputs ctx)) with
  | .ok (some changes) => pure ([{ check := "module_preview", passed := true }], changes)
  | .ok none => pure ([], [])
  | .error message =>
    pure ([{ check := "module_preview", passed := true
             warnings := ["preview() panicked: " ++ message] }], [])

/-- What the resolved module says of the call, unless the access list denied it. -/
def introspect (checks : List PreflightCheckResult) (module : Option (Module σ)) (inputs : Json)
    (ctx : Option Context) : Traced σ (List PreflightCheckResult × List Json) :=
  match aclDenied checks, module with
  | false, some module => do
    let preflight ← preflightCheck module inputs ctx
    let (preview, changes) ← previewCheck module inputs ctx
    pure (checks ++ [preflight] ++ preview, changes)
  | _, _ => pure (checks, [])

/-- A preflight that ends before the pipeline runs. -/
def rejected (check : String) (err : ModuleError) : PreflightResult where
  valid := false
  checks := [failedCheck check (some err.toJson)]
  requiresApproval := false
  predictedChanges := []

/-- The pipeline context of a dry run. -/
def prepareDry (executor : Executor σ) (moduleId : String) (inputs : Json)
    (ctx : Option Context) : Code σ (Except ModuleError (PipelineContext σ)) := do
  let prepared ← executor.prepare executor.strategy moduleId inputs ctx none
  pure (prepared.map fun pipeCtx => { pipeCtx with dryRun := true })

/-- The dry run of `validate`, or the result that ends it before the pipeline runs. -/
def dryRun (executor : Executor σ) (moduleId : String) (inputs : Json) (ctx : Option Context) :
    Traced σ (Except PreflightResult (EngineResult σ)) :=
  match validateModuleId moduleId with
  | .error err => pure (.error (rejected "module_id" err))
  | .ok () => do
    match ← lift (executor.prepareDry moduleId inputs ctx) with
    | .error err => pure (.error (rejected "executor_binding" err))
    | .ok pipeCtx => do
      let result ← PipelineEngine.run executor.strategy pipeCtx
      pure (.ok result)

/-- What `validate` makes of a dry run. -/
def conclude (executor : Executor σ) (moduleId : String) (inputs : Json) (ctx : Option Context)
    (result : EngineResult σ) : Traced σ PreflightResult := do
  let pipeCtx := result.2
  let checks := filePreflightErrors pipeCtx.preflightErrors (runChecks result)
  let w ← Run.world
  let (checks, predictedChanges) ← introspect checks pipeCtx.module inputs ctx
  pure
    { valid := checks.all (·.passed)
      checks
      requiresApproval := executor.requiresApproval w moduleId pipeCtx
      predictedChanges }

/-- `Executor::validate`. -/
def validate (executor : Executor σ) (moduleId : String) (inputs : Json) (ctx : Option Context) :
    Traced σ PreflightResult := do
  match ← executor.dryRun moduleId inputs ctx with
  | .error result => pure result
  | .ok result => executor.conclude moduleId inputs ctx result

end Executor

end Apcore
