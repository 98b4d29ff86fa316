import Apcore.Utils
import Apcore.Pipeline.Engine

/-! # `Pipeline.BuiltinSteps` — the built-in steps around the gates

Every step of the standard pipeline except the approval gate, which has its own module. The schema
compiler is a third-party crate and redaction a subsystem of its own: both are parameters here,
with the store of disabled modules. -/

namespace Apcore

/-- One failure `validator.iter_errors` gives. -/
structure SchemaViolation where
  path : String
  keyword : String
  message : String

/-- What the steps call that is not modelled here. -/
structure Externals (σ : Type) where
  /-- `build_validator`: the failures of a value, or why the schema does not compile. -/
  compileSchema : Json → Except String (Json → List SchemaViolation)
  /-- `redact_sensitive_with`, of a value under its schema. -/
  redact : Json → Json → Json
  /-- The module ids the `ToggleState` of the strategy has disabled. -/
  disabled : World σ → List String

/-- Every schema compiles and accepts every value, nothing is redacted and nothing disabled. -/
def Externals.lax {σ : Type} : Externals σ where
  compileSchema := fun _ => .ok fun _ => []
  redact := fun value _ => value
  disabled := fun _ => []

variable {σ : Type}

/-- `has_schema`. -/
def hasSchema : Json → Bool
  | .null => false
  | .object fields => !fields.isEmpty
  | _ => true

/-- `validate_against_schema`. -/
def validateAgainstSchema (ext : Externals σ) (value schema : Json) (direction : String) :
    Except ModuleError Unit :=
  if !hasSchema schema then .ok ()
  else match ext.compileSchema schema with
    | .error e =>
      let message := direction ++ " schema is invalid: " ++ e
      .error (((ModuleError.new .schemaParseError message).withDetails
        [("errors", .array [.object [("field", .string ""), ("message", .string message)]])])
        |>.withAiGuidance ("The " ++ direction ++ " schema itself could not be compiled. Fix the " ++
          "module's schema declaration; the call arguments are not the cause."))
    | .ok validator =>
      let violations := validator value
      if violations.isEmpty then .ok ()
      else .error (((ModuleError.new .schemaValidationError
          (direction ++ " validation failed")).withDetails
        [("errors", .array (violations.map fun v => .object
          [("keyword", .string v.keyword), ("message", .string v.message),
            ("path", .string v.path)]))]).withAiGuidance
        (direction ++ " failed schema validation. Check the 'errors' field in details for " ++
          "specific validation failures."))

/-- The entries of an object, and none of another value. -/
def entriesOf (v : Json) : List (String × Json) := v.asObject?.getD []

/-- What a body of a step gives back: its result, and the context it leaves. -/
abbrev StepEnd (σ : Type) := Except ModuleError StepResult × PipelineContext σ

/-- `Ok(StepResult::continue_step())`. -/
def continueWith (ctx : PipelineContext σ) : Code σ (StepEnd σ) := pure (.ok .continueStep, ctx)

/-- `Err(e)`. -/
def failWith (e : ModuleError) (ctx : PipelineContext σ) : Code σ (StepEnd σ) := pure (.error e, ctx)

/-- `option.expect(message)`. -/
def expect {α : Type} (o : Option α) (message : String) : Code σ α :=
  match o with
  | some a => pure a
  | none => Run.unwind message

/-! ## Context creation and the call-chain guard -/

namespace BuiltinContextCreation

/-- The deadline a call without one gets from `global_timeout`. -/
def globalDeadline (config : Option ExecutorConfig) (now : ℚ) : Option ℚ :=
  config.bind fun c => if c.globalTimeout > 0 then some (now + c.globalTimeout / 1000) else none

/-- The context of the call, before its cancellation token is derived. -/
def childContext (ctx : PipelineContext σ) (now : ℚ) : Context :=
  Context.child
    { ctx.context with
      callerId := some (ctx.context.callerId.getD externalCaller)
      globalDeadline := ctx.context.globalDeadline.or (globalDeadline ctx.config now) }
    ctx.moduleId

def execute (ctx : PipelineContext σ) : Code σ (StepEnd σ) := do
  let w ← Run.world
  let context := childContext ctx w.now
  let token ← match context.cancelToken with
    | none => CancelToken.new
    | some parent => parent.derive
  continueWith { ctx with context := { context with cancelToken := some token } }

def step : Step σ where
  name := "context_creation"
  description := "Create or inherit execution context"
  removable := false
  replaceable := false
  isPure := true
  provides := ["context"]
  execute := execute

end BuiltinContextCreation

namespace BuiltinCallChainGuard

def execute (ctx : PipelineContext σ) : Code σ (StepEnd σ) := do
  let config ← expect ctx.config "config must be injected into PipelineContext"
  match ← checkCancelled ctx.context.cancelToken ctx.moduleId with
  | .error e => failWith e ctx
  | .ok () =>
    match guardCallChain ctx.moduleId ctx.context.callChain config.maxCallDepth
        config.maxModuleRepeat with
    | .error e => failWith e ctx
    | .ok () => continueWith ctx

def step : Step σ where
  name := "call_chain_guard"
  description := "Validate call depth and module repeat limits"
  isPure := true
  requires := ["context"]
  execute := execute

end BuiltinCallChainGuard

/-! ## Module lookup -/

namespace BuiltinModuleLookup

/-- `context.redacted_inputs` as the lookup sets it: a copy of the inputs when the module declares
no schema. -/
def redactedInputs (ext : Externals σ) (module : Module σ) (inputs : Json) :
    List (String × Json) :=
  if hasSchema module.inputSchema then entriesOf (ext.redact inputs module.inputSchema)
  else entriesOf inputs

/-- The context once the module is resolved. -/
def resolved (ext : Externals σ) (module : Module σ) (ctx : PipelineContext σ) :
    PipelineContext σ :=
  { ctx with
    module := some module
    governanceProjection := some (.fromArguments ctx.inputs)
    context := { ctx.context with redactedInputs := some (redactedInputs ext module ctx.inputs) } }

def execute (ext : Externals σ) (ctx : PipelineContext σ) : Code σ (StepEnd σ) := do
  let registry ← expect ctx.registry "registry must be injected into PipelineContext"
  let w ← Run.world
  match registry.get w ctx.moduleId with
  | .error e => failWith e ctx
  | .ok none => failWith (.moduleNotFound ctx.moduleId) ctx
  | .ok (some module) =>
    if registry.isEnabled w ctx.moduleId = some false ∨ ctx.moduleId ∈ ext.disabled w then
      failWith (.moduleDisabled ctx.moduleId) ctx
    else continueWith (resolved ext module ctx)

def step (ext : Externals σ) : Step σ where
  name := "module_lookup"
  description := "Resolve module from registry by ID"
  removable := false
  replaceable := false
  isPure := true
  provides := ["module"]
  execute := execute ext

end BuiltinModuleLookup

/-! ## The access gate -/

namespace BuiltinACLCheck

/-- The check the gate asks for. -/
def request (ctx : PipelineContext σ) : AccessRequest where
  callerId := ctx.context.callerId
  targetId := ctx.moduleId
  ctx := some ctx.context
  projection := ctx.governanceProjection

/-- The `apcore.acl.denied` event. -/
def deniedEvent (ctx : PipelineContext σ) : ApCoreEvent where
  eventType := "apcore.acl.denied"
  data := .object
    [("caller_id", (ctx.context.callerId.map Json.string).getD .null),
      ("module_id", .string ctx.moduleId), ("reason", .string "ACL denied"),
      ("trace_id", .string ctx.context.traceId)]
  moduleId := ctx.moduleId
  severity := "warn"

/-- `acl.async_check_access(..)`; a panic of a handler or of the audit callback unwinds. -/
def check (acl : SharedAcl σ) (request : AccessRequest) : Code σ AccessDecision := ⟨fun w =>
  ⟨(acl.acl.asyncCheckAccess w.checkEnv request).decision, [], acl.effect request w⟩⟩

/-- The event of a denial; a dry run publishes none. -/
def announceDenial (ctx : PipelineContext σ) : Code σ Unit :=
  if ctx.dryRun then pure () else emitEvent ctx.eventEmitter (deniedEvent ctx)

def execute (ctx : PipelineContext σ) : Code σ (StepEnd σ) :=
  match ctx.acl with
  | none => continueWith ctx
  | some acl => do
    let decision ← check acl (request ctx)
    let ctx := { ctx with aclApprovalRequired := decision.approvalRequired }
    if decision.isAllowed then continueWith ctx
    else do
      announceDenial ctx
      failWith (.aclDenied ctx.context.callerId ctx.moduleId) ctx

def step : Step σ where
  name := "acl_check"
  description := "Enforce access control rules"
  isPure := true
  requires := ["context", "module"]
  builtinGate := some .acl
  execute := execute

theorem step_gateIntact : (step : Step σ).GateIntact := by
  intro gate hgate
  obtain rfl : BuiltinGate.acl = gate := by simpa [step] using hgate
  exact ⟨rfl, rfl, fun h => by cases h⟩

end BuiltinACLCheck

/-! ## Middleware -/

namespace BuiltinMiddlewareBefore

/-- The middlewares a chain error says were executed. -/
def executedOf (e : ModuleError) : List Nat :=
  ((Fields.get? e.details "executed_middlewares").bind indicesOfJson).getD []

def execute (ctx : PipelineContext σ) : Code σ (StepEnd σ) :=
  match ctx.middlewareManager with
  | none => continueWith ctx
  | some manager => do
    match ← manager.executeBefore ctx.moduleId ctx.inputs ctx.context with
    | .ok (inputs, executed) =>
      continueWith { ctx with inputs, executedMiddlewares := executed }
    | .error e => failWith e { ctx with executedMiddlewares := executedOf e }

def step : Step σ where
  name := "middleware_before"
  description := "Execute before-middleware chain"
  replaceable := false
  execute := execute

end BuiltinMiddlewareBefore

namespace BuiltinMiddlewareAfter

/-- The output is taken off the context first, so a failing chain leaves none. -/
def execute (ctx : PipelineContext σ) : Code σ (StepEnd σ) :=
  match ctx.middlewareManager, ctx.output with
  | none, _ => continueWith ctx
  | some _, none => continueWith ctx
  | some manager, some output => do
    let ctx := { ctx with output := none }
    match ← manager.executeAfter ctx.moduleId ctx.inputs output ctx.context with
    | .ok modified => continueWith { ctx with output := some modified }
    | .error e => failWith e ctx

def step : Step σ where
  name := "middleware_after"
  description := "Execute after-middleware chain"
  replaceable := false
  execute := execute

end BuiltinMiddlewareAfter

/-! ## Validation -/

namespace BuiltinInputValidation

def execute (ext : Externals σ) (ctx : PipelineContext σ) : Code σ (StepEnd σ) := do
  let module ← expect ctx.module "module must be resolved before input_validation"
  match validateAgainstSchema ext ctx.inputs module.inputSchema "Input" with
  | .error e => failWith e ctx
  | .ok () =>
    let redacted :=
      if hasSchema module.inputSchema then
        some (entriesOf (ext.redact ctx.inputs module.inputSchema))
      else ctx.context.redactedInputs
    continueWith
      { ctx with
        context := { ctx.context with redactedInputs := redacted }
        validatedInputs := some ctx.inputs }

def step (ext : Externals σ) : Step σ where
  name := "input_validation"
  description := "Validate inputs against schema"
  isPure := true
  requires := ["module"]
  provides := ["validated_inputs"]
  execute := execute ext

end BuiltinInputValidation

namespace BuiltinOutputValidation

def execute (ext : Externals σ) (ctx : PipelineContext σ) : Code σ (StepEnd σ) :=
  match ctx.output with
  | none => continueWith ctx
  | some output => do
    let module ← expect ctx.module "module must be resolved before output_validation"
    match validateAgainstSchema ext output module.outputSchema "Output" with
    | .error e => failWith e ctx
    | .ok () =>
      let redacted :=
        if hasSchema module.outputSchema then
          some (entriesOf (ext.redact output module.outputSchema))
        else ctx.context.redactedOutput
      continueWith
        { ctx with
          context := { ctx.context with redactedOutput := redacted }
          validatedOutput := some output }

def step (ext : Externals σ) : Step σ where
  name := "output_validation"
  description := "Validate outputs against schema"
  isPure := true
  requires := ["module", "output"]
  provides := ["validated_output"]
  execute := execute ext

end BuiltinOutputValidation

/-! ## The call itself -/

namespace BuiltinExecute

/-- A declared timeout below zero. -/
def isNegative : Json → Bool
  | .number (.negInt n) => n < 0
  | .number (.float q) => q < 0
  | _ => false

/-- A declared timeout that counts: `as_u64`. -/
def asMillis : Json → Option Nat
  | .number (.posInt n) => some n.toNat
  | _ => none

/-- `Display` of a number; a double is written as the rational it stands for. -/
def displayNumber : Json → String
  | .number (.posInt n) => toString n
  | .number (.negInt n) => toString n
  | .number (.float q) => toString q
  | _ => ""

/-- `resolve_effective_timeout_ms`. -/
def resolveEffectiveTimeoutMs (definition : Option ModuleDescriptor) (moduleId : String)
    (globalDeadline : Option ℚ) (defaultTimeout : Nat) (now : ℚ) : Except ModuleError Nat :=
  let declared := do
    let annotations ← (← definition).annotations
    let resources ← Fields.get? annotations.extra "resources"
    Fields.get? (entriesOf resources) "timeout"
  if declared.any isNegative then
    .error (.new .generalInvalidInput
      ("Module '" ++ moduleId ++ "' declares a negative timeout (" ++
        displayNumber (declared.getD .null) ++ "); timeout must be non-negative"))
  else
    let timeoutMs := (declared.bind asMillis).getD defaultTimeout
    match globalDeadline with
    | none => .ok timeoutMs
    | some deadline =>
      let remainingMs := ((deadline - now) * 1000).floor.toNat
      if remainingMs = 0 then
        .error (.new .moduleTimeout
          ("Module '" ++ moduleId ++ "' execution aborted: global deadline already exceeded"))
      else if timeoutMs = 0 ∨ remainingMs < timeoutMs then .ok remainingMs
      else .ok timeoutMs

/-- `token.cancel()` of the token of the call, when it has one. -/
def cancelToken (ctx : PipelineContext σ) : Code σ Unit :=
  match ctx.context.cancelToken with
  | none => pure ()
  | some token => token.cancel

/-- A deadline that has passed cancels the token of the call. -/
def cancelOnTimeout (ctx : PipelineContext σ) (error : ModuleError) : Code σ Unit :=
  if error.code = .moduleTimeout then cancelToken ctx else pure ()

/-- The invocation of the module: under a limit it runs in a task of its own, whose panic is an
error and whose overrun cancels the token of the call. -/
def invoke (module : Module σ) (timeoutMs : Nat) (ctx : PipelineContext σ) :
    Code σ (Except ModuleError Json) :=
  if timeoutMs > 0 then do
    let w ← Run.world
    match module.overruns timeoutMs ctx.inputs ctx.context w with
    | some w' => do
      Run.setWorld w'
      cancelToken ctx
      pure (.error (.moduleTimeout ctx.moduleId timeoutMs))
    | none => do
      match ← Run.catchUnwind (module.execute ctx.inputs ctx.context) with
      | .ok result => pure result
      | .error message =>
        pure (.error (.new .generalInternalError ("Module execution task failed: " ++ message)))
  else module.execute ctx.inputs ctx.context

def execute (ctx : PipelineContext σ) : Code σ (StepEnd σ) := do
  let module ← expect ctx.module "module must be resolved before execute"
  let config ← expect ctx.config "config must be injected into PipelineContext"
  let w ← Run.world
  let definition := ctx.registry.bind (·.definition w ctx.moduleId)
  match resolveEffectiveTimeoutMs definition ctx.moduleId ctx.context.globalDeadline
      config.defaultTimeout w.now with
  | .error error => do
    cancelOnTimeout ctx error
    failWith error ctx
  | .ok timeoutMs => do
    match ← checkCancelled ctx.context.cancelToken ctx.moduleId with
    | .error e => failWith e ctx
    | .ok () => do
      match ← invoke module timeoutMs ctx with
      | .ok output => continueWith { ctx with output := some output }
      | .error e => failWith e ctx

def step : Step σ where
  name := "execute"
  description := "Invoke the module with timeout"
  removable := false
  requires := ["module"]
  provides := ["output"]
  execute := execute

end BuiltinExecute

namespace BuiltinReturnResult

def execute (ctx : PipelineContext σ) : Code σ (StepEnd σ) := continueWith ctx

def step : Step σ where
  name := "return_result"
  description := "Finalize and return output"
  removable := false
  replaceable := false
  isPure := true
  requires := ["output"]
  execute := execute

end BuiltinReturnResult

end Apcore
