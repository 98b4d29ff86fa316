import Apcore.Pipeline.Types

/-! # `Pipeline.Engine` — the run loop

`run_with_options` walks the steps by index. One turn of its loop is `turn`: a step is passed over,
or its hooks and its body run and decide how the loop goes on. The engine reports which bodies it
enters, how they end and which hooks it calls; these reports are not part of the program. -/

namespace Apcore

/-- The hooks of a step middleware. -/
inductive HookKind where
  | beforeStep | afterStep | onStepError
  deriving DecidableEq, Repr

/-- What is observed of a call: step bodies and hooks by the index of their step, the re-runs asked
for by middleware, and the introspection of a module. -/
inductive PipelineEvent (σ : Type) where
  /-- The body of a step is entered. -/
  | body (index : Nat) (ctx : PipelineContext σ)
  /-- The body of a step gave an error, and left the context so. -/
  | failed (index : Nat) (ctx : PipelineContext σ) (error : ModuleError)
  /-- A hook recovered the error of a step. -/
  | recovered (index : Nat)
  /-- A hook of the given middleware is called for a step. -/
  | hook (kind : HookKind) (index middleware : Nat)
  | rerun (inputs : Json)
  | preflight
  | preview

/-- A computation that is observed. -/
abbrev Traced (σ α : Type) := Run String (World σ) (PipelineEvent σ) α

/-- `RunOptions`. -/
structure RunOptions (σ : Type) where
  stopBeforeStep : Option String := none
  onlySteps : Option (List String) := none
  until_ : Option (PipelineState σ → Code σ Bool) := none

namespace RunOptions

/-- `RunOptions::stop_before`. -/
def stopBefore {σ : Type} (stepName : String) : RunOptions σ := { stopBeforeStep := some stepName }

/-- `RunOptions::only_steps`. -/
def only {σ : Type} (stepNames : List String) : RunOptions σ := { onlySteps := some stepNames }

end RunOptions

/-- The local state of the run loop. -/
structure LoopState (σ : Type) where
  idx : Nat
  ctx : PipelineContext σ
  stepOutputs : List (String × Option Json)
  failedCapabilities : List String

/-- The result of a run, with the context it leaves. -/
abbrev EngineResult (σ : Type) :=
  Except ModuleError (Option Json × PipelineTrace) × PipelineContext σ

namespace PipelineEngine

open Run (lift loop setWorld world)

variable {σ : Type}

/-! ## Step-middleware hooks -/

/-- The middlewares of a strategy in registration order, each with its position. -/
def chain (strategy : ExecutionStrategy σ) : List (StepMiddleware σ × Nat) :=
  strategy.stepMiddlewares.zipIdx

/-- The `before_step` hooks, up to the first that fails. Those that ran are given back latest
first, the failing one included. -/
def beforeHooks (index : Nat) (state : PipelineState σ) :
    List (StepMiddleware σ × Nat) → List (StepMiddleware σ × Nat) →
      Traced σ (Option ModuleError × List (StepMiddleware σ × Nat))
  | executed, [] => pure (none, executed)
  | executed, mw :: rest => do
    Run.report (.hook .beforeStep index mw.2)
    match ← lift (mw.1.beforeStep state.stepName state) with
    | .ok () => beforeHooks index state (mw :: executed) rest
    | .error e => pure (some e, mw :: executed)

/-- Unwinding a failed `before_step`: every middleware is told, whatever the others answer. -/
def unwindBefore (index : Nat) (state : PipelineState σ) (error : ModuleError) :
    List (StepMiddleware σ × Nat) → Traced σ Unit
  | [] => pure ()
  | mw :: rest => do
    Run.report (.hook .onStepError index mw.2)
    let _ ← lift (mw.1.onStepError state.stepName state error)
    unwindBefore index state error rest

/-- The `on_step_error` hooks over the chain in reverse: the first recovery wins, an error of a hook
ends the pass. -/
def onErrorHooks (index : Nat) (state : PipelineState σ) (error : ModuleError) :
    List (StepMiddleware σ × Nat) → Traced σ (Except ModuleError (Option Json))
  | [] => pure (.ok none)
  | mw :: rest => do
    Run.report (.hook .onStepError index mw.2)
    match ← lift (mw.1.onStepError state.stepName state error) with
    | .ok (some value) => pure (.ok (some value))
    | .ok none => onErrorHooks index state error rest
    | .error e => pure (.error e)

/-- `run_after_step_hooks`, over the chain in reverse. -/
def afterHooks (index : Nat) (state : PipelineState σ) (result : Json) :
    List (StepMiddleware σ × Nat) → Traced σ (Except ModuleError Unit)
  | [] => pure (.ok ())
  | mw :: rest => do
    Run.report (.hook .afterStep index mw.2)
    match ← lift (mw.1.afterStep state.stepName state result) with
    | .ok () => afterHooks index state result rest
    | .error e => pure (.error e)

/-! ## One turn of the loop -/

/-- The trace entry of a step that is passed over. -/
def skippedEntry (name : String) (reason : Option String) : StepTrace :=
  { name, result := .continueStep, skipped := true, skipReason := reason }

/-- The trace entry of a step that ends the run with an error. -/
def abortEntry (name : String) (error : ModuleError) : StepTrace :=
  { name, result := .abort error.display }

/-- The step is outside the segment a run is restricted to. -/
def outsideSegment (opts : RunOptions σ) (step : Step σ) : Bool :=
  opts.onlySteps.any fun only => !only.any (· == step.name)

/-- A dry run cannot give the step what it requires. -/
def missingDependency (st : LoopState σ) (step : Step σ) : Bool :=
  st.ctx.dryRun &&
    ((st.ctx.module.isNone && step.requires.contains "module") ||
      step.requires.any (st.failedCapabilities.contains ·))

/-- `match_modules` leaves the module out. -/
def unmatched (st : LoopState σ) (step : Step σ) : Bool :=
  step.matchModules.any fun patterns => !patterns.any (matchPattern · st.ctx.moduleId)

/-- The loop state after a step that is passed over without running, or `none` for one that runs. -/
def passOver (opts : RunOptions σ) (st : LoopState σ) (step : Step σ) : Option (LoopState σ) :=
  if outsideSegment opts step then some { st with idx := st.idx + 1 }
  else if missingDependency st step then some
    { st with
      idx := st.idx + 1
      failedCapabilities := st.failedCapabilities ++ step.provides
      ctx := st.ctx.record (skippedEntry step.name (some "missing_dependency")) }
  else if unmatched st step then some
    { st with
      idx := st.idx + 1
      ctx := st.ctx.record (skippedEntry step.name (some "no_match")) }
  else if st.ctx.dryRun && !step.isPure then some
    { st with
      idx := st.idx + 1
      ctx := st.ctx.record (skippedEntry step.name (some "dry_run")) }
  else none

/-- The body of a step under its time limit. -/
def executeTimed (step : Step σ) (ctx : PipelineContext σ) :
    Code σ (Except ModuleError StepResult × PipelineContext σ) :=
  if step.timeoutMs > 0 then do
    let w ← world
    match step.overruns step.timeoutMs ctx w with
    | some (ctx', w') => do
      setWorld w'
      pure (.error (.new .moduleTimeout
        ("Step '" ++ step.name ++ "' timed out after " ++ toString step.timeoutMs ++ "ms")), ctx')
    | none => step.execute ctx
  else step.execute ctx

/-- What hooks are shown of a step. -/
def hookState (st : LoopState σ) (step : Step σ) (ctx : PipelineContext σ) : PipelineState σ where
  stepName := step.name
  outputs := st.stepOutputs
  context := ctx

/-- The next turn, with the output of the step on record. -/
def advance (st : LoopState σ) (step : Step σ) (ctx : PipelineContext σ) : LoopState σ :=
  { st with
    idx := st.idx + 1
    ctx
    stepOutputs := Fields.insert step.name ctx.output st.stepOutputs }

/-- The run ends with an error of the given step. -/
def abortRun (step : Step σ) (ctx : PipelineContext σ) (traced returned : ModuleError) :
    LoopState σ ⊕ EngineResult σ :=
  .inr (.error returned, ctx.record (abortEntry step.name traced))

/-- A `before_step` hook failed: the body never runs. -/
def beforeFailed (st : LoopState σ) (step : Step σ) (err : ModuleError)
    (executed : List (StepMiddleware σ × Nat)) : Traced σ (LoopState σ ⊕ EngineResult σ) := do
  let chainErr := ModuleError.middlewareChainError err ("step_name", .string step.name)
    ("StepMiddleware before_step failed for step '" ++ step.name ++ "': " ++ err.display)
  unwindBefore st.idx (hookState st step st.ctx) chainErr executed
  pure (abortRun step st.ctx chainErr chainErr)

/-- A hook recovered the error of a body: the step counts as one that continued. -/
def stepRecovered (strategy : ExecutionStrategy σ) (st : LoopState σ) (step : Step σ)
    (ctx : PipelineContext σ) (err : ModuleError) (value : Json) :
    Traced σ (LoopState σ ⊕ EngineResult σ) := do
  let ctx := { ctx with output := some value }
  match ← afterHooks st.idx (hookState st step ctx) value (chain strategy).reverse with
  | .error afterErr => pure (abortRun step ctx afterErr (.pipelineStepError step.name afterErr))
  | .ok () =>
    let entry : StepTrace :=
      { name := step.name
        result := { explanation := some ("recovered from: " ++ err.display) }
        skipReason := some "error_recovered" }
    pure (.inl (advance st step (ctx.record entry)))

/-- The body of a step gave an error. -/
def stepFailed (strategy : ExecutionStrategy σ) (st : LoopState σ) (step : Step σ)
    (ctx : PipelineContext σ) (err : ModuleError) : Traced σ (LoopState σ ⊕ EngineResult σ) :=
  if ctx.dryRun then
    pure (.inl
      { st with
        idx := st.idx + 1
        failedCapabilities := st.failedCapabilities ++ step.provides
        ctx := { ctx with preflightErrors := ctx.preflightErrors ++ [(step.name, err)] }.record
          (abortEntry step.name err) })
  else do
    match ← onErrorHooks st.idx (hookState st step ctx) err (chain strategy).reverse with
    | .error hookErr => pure (abortRun step ctx hookErr (.pipelineStepError step.name hookErr))
    | .ok (some value) => do
      Run.report (.recovered st.idx)
      stepRecovered strategy st step ctx err value
    | .ok none =>
      if step.ignoreErrors then
        let entry : StepTrace :=
          { name := step.name
            result := { explanation := some err.display }
            skipReason := some "error_ignored" }
        pure (.inl { st with idx := st.idx + 1, ctx := ctx.record entry })
      else pure (abortRun step ctx err (.pipelineStepError step.name err))

/-- The trace of a run that ended where it stands. -/
def finish (ctx : PipelineContext σ) (success : Bool) : EngineResult σ :=
  let ctx := ctx.setSuccess success
  (.ok (ctx.output, ctx.trace), ctx)

/-- `skip_to`: a target behind the step is jumped to, with the steps between marked as skipped. -/
def skipTo (strategy : ExecutionStrategy σ) (st : LoopState σ) (step : Step σ) (target : String) :
    LoopState σ ⊕ EngineResult σ :=
  match (strategy.nameToIdx target).filter (st.idx < ·) with
  | some targetIdx =>
    let between := (strategy.steps.take targetIdx).drop (st.idx + 1)
    .inl
      { st with
        idx := targetIdx
        ctx := between.foldl (fun ctx s => ctx.record (skippedEntry s.name none)) st.ctx }
  | none =>
    .inr (.error (.new .stepNotFound
      ("skip_to target '" ++ target ++ "' not found after step '" ++ step.name ++ "'")), st.ctx)

/-- The flow control of a step that succeeded; `st` already has its output on record. -/
def followAction (strategy : ExecutionStrategy σ) (opts : RunOptions σ) (st : LoopState σ)
    (step : Step σ) (result : StepResult) : Traced σ (LoopState σ ⊕ EngineResult σ) :=
  match result.action with
  | "continue" =>
    match opts.until_ with
    | none => pure (.inl { st with idx := st.idx + 1 })
    | some predicate => do
      let stop ← lift (predicate (hookState st step st.ctx))
      if stop then pure (.inr (finish st.ctx true))
      else pure (.inl { st with idx := st.idx + 1 })
  | "abort" => pure (.inr (finish st.ctx false))
  | "skip_to" => pure (skipTo strategy st step (result.skipTo.getD ""))
  | other => pure (.inr (.error (.new .generalInvalidInput
      ("Unknown step action: '" ++ other ++ "'")), st.ctx))

/-- The body of a step succeeded. -/
def stepSucceeded (strategy : ExecutionStrategy σ) (opts : RunOptions σ) (st : LoopState σ)
    (step : Step σ) (ctx : PipelineContext σ) (result : StepResult) :
    Traced σ (LoopState σ ⊕ EngineResult σ) := do
  match ← afterHooks st.idx (hookState st step ctx) (ctx.output.getD .null)
      (chain strategy).reverse with
  | .error err => pure (abortRun step ctx err (.pipelineStepError step.name err))
  | .ok () =>
    let ctx := ctx.record { name := step.name, result }
    followAction strategy opts
      { st with ctx, stepOutputs := Fields.insert step.name ctx.output st.stepOutputs } step result

/-- A step that is not passed over: its hooks, its body, and what follows from how it ends. -/
def runStep (strategy : ExecutionStrategy σ) (opts : RunOptions σ) (st : LoopState σ)
    (step : Step σ) : Traced σ (LoopState σ ⊕ EngineResult σ) := do
  match ← beforeHooks st.idx (hookState st step st.ctx) [] (chain strategy) with
  | (some err, executed) => beforeFailed st step err executed
  | (none, _) => do
    Run.report (.body st.idx st.ctx)
    match ← lift (executeTimed step st.ctx) with
    | (.error err, ctx) => do
      Run.report (.failed st.idx ctx err)
      stepFailed strategy st step ctx err
    | (.ok result, ctx) => stepSucceeded strategy opts st step ctx result

/-- One turn of the loop. -/
def turn (strategy : ExecutionStrategy σ) (opts : RunOptions σ) (st : LoopState σ) :
    Traced σ (LoopState σ ⊕ EngineResult σ) :=
  match strategy.steps[st.idx]? with
  | none => pure (.inl st)
  | some step =>
    match passOver opts st step with
    | some st' => pure (.inl st')
    | none => runStep strategy opts st step

/-! ## Runs -/

/-- The loop goes on: there is a step, and the run is not to stop before it. -/
def goesOn (strategy : ExecutionStrategy σ) (opts : RunOptions σ) (st : LoopState σ) : Bool :=
  match strategy.steps[st.idx]? with
  | none => false
  | some step => opts.stopBeforeStep != some step.name

/-- The loop from a given state on. Every turn moves the index up, so as many turns as there are
steps left reach the end (`turn_advances`). -/
def loopFrom (strategy : ExecutionStrategy σ) (opts : RunOptions σ) (st : LoopState σ) :
    Traced σ (LoopState σ ⊕ EngineResult σ) :=
  loop (goesOn strategy opts) (turn strategy opts) (strategy.steps.length - st.idx) st

/-- What a run gives back once its loop has ended. -/
def conclude : LoopState σ ⊕ EngineResult σ → EngineResult σ
  | .inl st => finish st.ctx true
  | .inr result => result

/-- The state a run begins in. -/
def start (ctx : PipelineContext σ) : LoopState σ where
  idx := 0
  ctx := ctx
  stepOutputs := []
  failedCapabilities := []

/-- `PipelineEngine::run_with_options`. -/
def runWithOptions (strategy : ExecutionStrategy σ) (ctx : PipelineContext σ)
    (opts : RunOptions σ) : Traced σ (EngineResult σ) := do
  let left ← loopFrom strategy opts (start ctx)
  pure (conclude left)

/-- `PipelineEngine::run`. -/
def run (strategy : ExecutionStrategy σ) (ctx : PipelineContext σ) : Traced σ (EngineResult σ) :=
  runWithOptions strategy ctx {}

/-- `PipelineEngine::run_until_step`. -/
def runUntilStep (strategy : ExecutionStrategy σ) (ctx : PipelineContext σ)
    (stopBeforeStep : String) : Traced σ (EngineResult σ) :=
  runWithOptions strategy ctx (.stopBefore stopBeforeStep)

end PipelineEngine

end Apcore
