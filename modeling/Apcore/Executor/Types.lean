import Apcore.Pipeline.Standard
import Apcore.Registry.Ids

/-! # `Executor.Types` — executors and the preamble of a call

An executor holds what it injects into the pipeline context of every call. The checks every entry
point makes before the pipeline runs are here, and what every entry point does with the error of a
run. -/

namespace Apcore

open Run (lift)

variable {σ : Type}

/-- `Executor`. -/
structure Executor (σ : Type) where
  registry : Registry σ
  config : ExecutorConfig
  acl : Option (SharedAcl σ) := none
  approvalHandler : Option (ApprovalHandler σ) := none
  policy : Option ExecutionPolicy := none
  eventEmitter : Option (EventEmitter σ) := none
  middlewareManager : MiddlewareManager σ := fun _ => []
  strategy : ExecutionStrategy σ
  /-- The cell that identifies the instance. -/
  instanceHandle : Nat

/-- An executor over the one module `billing.charge`, with nothing else configured. -/
def Executor.over {σ : Type} (module : Module σ) (strategy : ExecutionStrategy σ) : Executor σ where
  registry := fun _ =>
    [("billing.charge", { module, descriptor := { annotations := none, enabled := true } })]
  config := { maxCallDepth := 32, maxModuleRepeat := 3, defaultTimeout := 30000, globalTimeout := 0 }
  strategy := strategy
  instanceHandle := 0

/-! ## Module ids -/

/-- `validate_module_id`. -/
def validateModuleId (moduleId : String) : Except ModuleError Unit :=
  if !matchesIdPattern false moduleId.toList then
    .error (.new .invalidModuleId
      ("Invalid module ID: '" ++ moduleId ++ "'. Must match pattern: " ++ moduleIdPattern))
  else if moduleId.utf8ByteSize > maxModuleIdLength then
    .error (.new .invalidModuleId
      ("Module ID exceeds maximum length of " ++ toString maxModuleIdLength ++ ": " ++
        toString moduleId.utf8ByteSize))
  else .ok ()

namespace Executor

/-! ## Before the pipeline runs -/

/-- The context of a call: the caller's, or a fresh anonymous one. The random trace id is named by
the cell of the data map. -/
def callerContext : Option Context → Code σ Context
  | some ctx => pure ctx
  | none => do
    let cell ← freshCell
    pure (.anonymous (toString cell) cell)

/-- `inject_resources`. -/
def injectResources (executor : Executor σ) (ctx : PipelineContext σ) : PipelineContext σ :=
  { ctx with
    registry := some executor.registry
    config := some executor.config
    acl := executor.acl
    approvalHandler := executor.approvalHandler
    policy := executor.policy
    eventEmitter := executor.eventEmitter
    governanceWarned := true
    middlewareManager := some executor.middlewareManager }

/-- `Context::bind_executor`. -/
def bindExecutor (handle : Nat) (ctx : Context) : Except ModuleError Context :=
  match ctx.executor with
  | none => .ok { ctx with executor := some handle }
  | some existing =>
    if existing = handle then .ok ctx
    else .error (.new .contextBindingError
      "Context already bound to a different Executor instance")

/-- `bind_to_context`. -/
def bindToContext (executor : Executor σ) (ctx : PipelineContext σ) :
    Except ModuleError (PipelineContext σ) :=
  (bindExecutor executor.instanceHandle ctx.context).map fun context => { ctx with context }

/-- Binding changes nothing a gate reads. -/
theorem bindExecutor_spec {handle : Nat} {ctx ctx' : Context}
    (h : bindExecutor handle ctx = .ok ctx') : ctx' = { ctx with executor := some handle } := by
  unfold bindExecutor at h
  cases hex : ctx.executor with
  | none =>
    rw [hex] at h
    exact (Except.ok.inj h).symm
  | some existing =>
    rw [hex] at h
    dsimp only at h
    split_ifs at h with heq
    obtain rfl := Except.ok.inj h
    subst heq
    cases ctx
    cases hex
    rfl

/-- The pipeline context of a call, with everything injected and the context bound. -/
def prepare (executor : Executor σ) (strategy : ExecutionStrategy σ) (moduleId : String)
    (inputs : Json) (ctx : Option Context) (versionHint : Option String) :
    Code σ (Except ModuleError (PipelineContext σ)) := do
  let context ← callerContext ctx
  let pipeCtx := { PipelineContext.new moduleId inputs context strategy.name with versionHint }
  pure (executor.bindToContext (executor.injectResources pipeCtx))

/-- What the preamble hands to the pipeline: the caller's context, bound to the executor, and
everything the executor injects. -/
theorem prepare_spec {executor : Executor σ} {strategy : ExecutionStrategy σ} {moduleId : String}
    {inputs : Json} {ctx : Option Context} {versionHint : Option String} {w : World σ}
    {pipeCtx : PipelineContext σ}
    (h : (executor.prepare strategy moduleId inputs ctx versionHint w).outcome =
      .ok (.ok pipeCtx)) :
    ∃ context, (callerContext ctx w).outcome = .ok context ∧
      pipeCtx = executor.injectResources { PipelineContext.new moduleId inputs
        { context with executor := some executor.instanceHandle } strategy.name with versionHint } := by
  obtain ⟨context, hcontext, hbind⟩ := Run.bind_outcome_eq_ok.mp h
  refine ⟨context, hcontext, ?_⟩
  have hbind : (bindExecutor executor.instanceHandle context).map (fun bound =>
      ({ executor.injectResources { PipelineContext.new moduleId inputs context strategy.name with
        versionHint } with context := bound } : PipelineContext σ)) = .ok pipeCtx :=
    Except.ok.inj hbind
  cases hbound : bindExecutor executor.instanceHandle context with
  | error e =>
    rw [hbound] at hbind
    cases hbind
  | ok bound =>
    rw [hbound] at hbind
    obtain rfl := Except.ok.inj hbind
    obtain rfl := bindExecutor_spec hbound
    rfl

/-! ## After the pipeline has run -/

/-- `reject_aborted_trace`. -/
def rejectAbortedTrace (trace : PipelineTrace) : Except ModuleError Unit :=
  if trace.success then .ok ()
  else match trace.steps.find? (·.result.action == "abort") with
    | some entry => .error (.pipelineAbort entry.name entry.result.explanation)
    | none => .error (.pipelineAbort "unknown" none)

/-- The typed cause of a failed run, decorated for the caller. -/
def surface (err : ModuleError) (moduleId : String) (ctx : Context) : ModuleError :=
  let underlying := err.unwrapPipelineStepError.getD err
  let underlying := underlying.unwrapMiddlewareChainError.getD underlying
  underlying.propagate moduleId ctx.traceId ctx.callChain

/-- A call that fails with an error: the step that fails, whether a hook of the middlewares hands
the error on, the module that is called, and the context. -/
structure FailedCall where
  stepName : String
  hook : Option ((String × Json) × String)
  moduleId : String
  ctx : Context

/-- What the engine makes of the error, in the form its caller is given. -/
def FailedCall.fail (c : FailedCall) (err : ModuleError) : ModuleError :=
  surface (.pipelineStepError c.stepName
    (match c.hook with
      | none => err
      | some (place, cause) => .middlewareChainError err place cause)) c.moduleId c.ctx

theorem FailedCall.fail_eq (c : FailedCall) {err : ModuleError}
    (h : err.code ≠ .middlewareChainError) :
    c.fail err = err.propagate c.moduleId c.ctx.traceId c.ctx.callChain := by
  unfold fail surface
  rw [ModuleError.unwrapPipelineStepError_pipelineStepError]
  cases c.hook with
  | none =>
    simp only [Option.getD_some, ModuleError.unwrapMiddlewareChainError, if_neg h, Option.getD_none]
  | some wrapped =>
    simp only [Option.getD_some, ModuleError.unwrapMiddlewareChainError_middlewareChainError]

/-- **An error surfaces as it was.** However many calls a module error passes on its way out, the
wrappers of the engine and of the middlewares are gone at the end, and what it tells of the trace,
the module and the call chain is what the innermost call has added. -/
theorem surfaces_innermost {err : ModuleError} (h : err.code ≠ .middlewareChainError)
    (innermost : FailedCall) (outer : List FailedCall) :
    outer.foldl (fun err c => c.fail err) (innermost.fail err) =
      err.propagate innermost.moduleId innermost.ctx.traceId innermost.ctx.callChain := by
  rw [innermost.fail_eq h]
  induction outer with
  | nil => rfl
  | cons c rest ih =>
    rw [List.foldl_cons, c.fail_eq (by rwa [ModuleError.propagate_code]),
      ModuleError.propagate_propagate]
    exact ih

/-- A denied call below another, whose middlewares hand the error on. -/
theorem surfaces_innermost_denied :
    let denied : ModuleError := .aclDenied none "inner"
    let inner : FailedCall := ⟨"acl_check", none, "inner", .anonymous "inner trace" 0⟩
    let outer : FailedCall :=
      ⟨"execute", some (("failed_at", .string "audit"), "refused"), "outer", .anonymous "trace" 0⟩
    [outer].foldl (fun err c => c.fail err) (inner.fail denied) =
      denied.propagate "inner" "inner trace" [] :=
  surfaces_innermost (by decide) _ _

/-- What the `on_error` chain of the executed middlewares makes of an error; without an executed
middleware it is not asked. -/
def onErrorOutcome (executor : Executor σ) (moduleId : String) (pipeCtx : PipelineContext σ)
    (error : ModuleError) : Code σ (Option OnErrorOutcome) :=
  if pipeCtx.executedMiddlewares.isEmpty then pure none
  else executor.middlewareManager.executeOnErrorOutcome moduleId pipeCtx.inputs error
    pipeCtx.context pipeCtx.executedMiddlewares

theorem onErrorOutcome_ne_retry {executor : Executor σ}
    (h : executor.middlewareManager.NeverRetries) (moduleId : String)
    (pipeCtx : PipelineContext σ) (error : ModuleError) (w : World σ) (inputs : Json) :
    (executor.onErrorOutcome moduleId pipeCtx error w).outcome ≠ .ok (some (.retry inputs)) := by
  unfold onErrorOutcome
  split_ifs
  · intro hout
    cases hout
  · exact h.executeOnErrorOutcome _ _ _ _ _ w inputs

end Executor

end Apcore

/-! ## Calls and traced calls

`call` runs the pipeline again for as long as the `on_error` chain asks for a retry, on the pipeline
context the failed attempt has left. The number of attempts is the fuel of its loop: a call that has
used it up gives no result here, and runs on in the program. -/

namespace Apcore

namespace Executor

open Run (lift loop)

variable {σ : Type}

/-- What a retry resets. -/
def resetForRetry (pipeCtx : PipelineContext σ) (inputs : Json) : PipelineContext σ :=
  { pipeCtx with
    inputs
    validatedInputs := none
    module := none
    output := none
    validatedOutput := none
    executedMiddlewares := [] }

/-- What a successful run gives the caller. -/
def settle (output : Option Json) (trace : PipelineTrace) : Except ModuleError Json :=
  (rejectAbortedTrace trace).map fun _ => output.getD .null

/-- One attempt of `call`: it ends the call, or leaves the pipeline context of the next attempt. -/
def attempt (executor : Executor σ) (moduleId : String) (pipeCtx : PipelineContext σ) :
    Traced σ (PipelineContext σ ⊕ Except ModuleError Json) := do
  match ← PipelineEngine.run executor.strategy pipeCtx with
  | (.ok (output, trace), _) => pure (.inr (settle output trace))
  | (.error err, pipeCtx) =>
    let underlying := surface err moduleId pipeCtx.context
    if underlying.code = .executionCancelled then pure (.inr (.error underlying))
    else do
      match ← lift (executor.onErrorOutcome moduleId pipeCtx underlying) with
      | some (.recovery value) => pure (.inr (.ok value))
      | some (.retry inputs) => do
        Run.report (.rerun inputs)
        pure (.inl (resetForRetry pipeCtx inputs))
      | none => pure (.inr (.error underlying))

/-- The loop of `call`, for at most so many attempts. -/
def callLoop (executor : Executor σ) (moduleId : String) (attempts : Nat)
    (pipeCtx : PipelineContext σ) : Traced σ (PipelineContext σ ⊕ Except ModuleError Json) :=
  loop (fun _ => true) (executor.attempt moduleId) attempts pipeCtx

/-- `Executor::call`; `none` when all the attempts ended in a retry. -/
def call (executor : Executor σ) (attempts : Nat) (moduleId : String) (inputs : Json)
    (ctx : Option Context) (versionHint : Option String) :
    Traced σ (Option (Except ModuleError Json)) :=
  match validateModuleId moduleId with
  | .error e => pure (some (.error e))
  | .ok () => do
    match ← lift (executor.prepare executor.strategy moduleId inputs ctx versionHint) with
    | .error e => pure (some (.error e))
    | .ok pipeCtx => do
      match ← executor.callLoop moduleId attempts pipeCtx with
      | .inl _ => pure none
      | .inr result => pure (some result)

/-- What `call_with_trace` makes of the end of a run. -/
def settleWithTrace (executor : Executor σ) (moduleId : String) :
    EngineResult σ → Traced σ (Except ModuleError (Json × PipelineTrace))
  | (.ok (output, trace), _) => pure ((settle output trace).map fun value => (value, trace))
  | (.error err, pipeCtx) =>
    let underlying := surface err moduleId pipeCtx.context
    if underlying.code = .executionCancelled then pure (.error underlying)
    else do
      match ← lift (executor.onErrorOutcome moduleId pipeCtx underlying) with
      | some (.recovery value) => pure (.ok (value, pipeCtx.trace))
      -- a retry is a failure here, as is no outcome at all
      | _ => pure (.error underlying)

/-- `Executor::call_with_trace`. -/
def callWithTrace (executor : Executor σ) (moduleId : String) (inputs : Json)
    (ctx : Option Context) (versionHint : Option String)
    (strategy : Option (ExecutionStrategy σ)) :
    Traced σ (Except ModuleError (Json × PipelineTrace)) := do
  let effectiveStrategy := strategy.getD executor.strategy
  match ← lift (executor.prepare effectiveStrategy moduleId inputs ctx versionHint) with
  | .error e => pure (.error e)
  | .ok pipeCtx => do
    let result ← PipelineEngine.run effectiveStrategy pipeCtx
    executor.settleWithTrace moduleId result

end Executor

end Apcore
