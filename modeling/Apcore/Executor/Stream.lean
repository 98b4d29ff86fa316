import Apcore.Executor.Types

/-! # `Executor.Stream` — streamed calls

A stream runs the pipeline up to the `execute` step, then the stream of the module, and last the
post-stream steps over the merged chunks. For a module that does not stream, the strategy runs on
from its `execute` step and what it produced is the only item. A stream is the list of its items
here; the number of pulls is the fuel of its chunk loop. -/

namespace Apcore

open Run (lift)

variable {σ : Type}

/-! ## Merging chunks -/

/-- `DEEP_MERGE_MAX_DEPTH`. -/
def deepMergeMaxDepth : Nat := 32

/-- `resolve_merge_depth`. -/
def resolveMergeDepth (config : ExecutorConfig) : Nat :=
  (config.maxMergeDepth.filter (1 ≤ ·)).getD deepMergeMaxDepth

/-- `stream_chunk_not_object_error`. -/
def streamChunkNotObjectError (index : Nat) (chunk : Json) : ModuleError :=
  let actualType := match chunk with
    | .null => "null"
    | .bool _ => "bool"
    | .number _ => "number"
    | .string _ => "string"
    | .array _ => "array"
    | .object _ => "object"
  (ModuleError.new .generalInvalidInput
    ("Streaming chunk at index " ++ toString index ++ " is not a JSON object (got " ++ actualType ++
      "); chunks must be objects so deep_merge can accumulate them.")).withDetails
    [("actual_type", .string actualType), ("chunk_index", ModuleError.countJson index),
      ("code", .string "STREAM_CHUNK_NOT_OBJECT")]

/-- Entries assigned one by one. -/
def assignFields (base overlay : List (String × Json)) : List (String × Json) :=
  overlay.foldl (fun fields entry => Fields.insert entry.1 entry.2 fields) base

mutual

/-- `deep_merge_value`; `room` is how many levels are left above the cap. -/
def deepMergeValue (room : Nat) (base : Json) : Json → Json
  | .object overlay =>
    match base, room with
    | .object fields, 0 => .object (assignFields fields overlay)
    | .object fields, room + 1 => .object (deepMergeFields room fields overlay)
    | _, _ => .object overlay
  | overlay => overlay

/-- The entries of an overlay merged into those of the base. -/
def deepMergeFields (room : Nat) (base : List (String × Json)) :
    List (String × Json) → List (String × Json)
  | [] => base
  | entry :: rest => deepMergeFields room (deepMergeEntry room base entry) rest

/-- One entry merged. -/
def deepMergeEntry (room : Nat) (base : List (String × Json)) :
    String × Json → List (String × Json)
  | (key, value) =>
    Fields.insert key (deepMergeValue room ((Fields.get? base key).getD .null) value) base

end

/-- The loop of `deep_merge_chunks_checked_with_depth`, from the given index on. -/
def mergeChunksFrom (maxDepth : Nat) : Nat → Json → List Json → Except ModuleError Json
  | _, acc, [] => .ok acc
  | index, acc, chunk :: rest =>
    if chunk.isObject then mergeChunksFrom maxDepth (index + 1) (deepMergeValue maxDepth acc chunk) rest
    else .error (streamChunkNotObjectError index chunk)

/-- `deep_merge_chunks_checked_with_depth`. -/
def deepMergeChunksCheckedWithDepth (chunks : List Json) (maxDepth : Nat) :
    Except ModuleError Json :=
  mergeChunksFrom maxDepth 0 (.object []) chunks

/-! ## The segments of a strategy -/

/-- `execute_and_later_step_names`. -/
def executeAndLaterStepNames (strategy : ExecutionStrategy σ) : List String :=
  strategy.stepNames.dropWhile (· != "execute")

/-- `post_stream_step_names`. -/
def postStreamStepNames (strategy : ExecutionStrategy σ) : List String :=
  strategy.stepNames.filter
    (["output_validation", "middleware_after", "return_result"].contains ·)

namespace Executor

/-- `StreamSetup`, without what the executor and the call already hold. -/
structure StreamSetup (σ : Type) where
  module : Module σ
  pipeCtx : PipelineContext σ

/-- `StreamPrep`. -/
inductive StreamPrep (σ : Type) where
  | setup (setup : StreamSetup σ)
  | recovery (value : Json)

/-! ## Phase 1 -/

/-- The explanation of an aborted pre-stream phase. -/
def abortExplanation (trace : PipelineTrace) : String :=
  (trace.steps.findSome? fun entry =>
    if entry.result.action = "abort" then entry.result.explanation else none).getD
    "pre-stream pipeline aborted"

/-- What `prepare_stream` makes of the steps before `execute`. A retry is not meaningful here, and
surfaces the error. -/
def concludePhase1 (executor : Executor σ) (moduleId : String) :
    EngineResult σ → Code σ (Except ModuleError (StreamPrep σ))
  | (.error err, pipeCtx) =>
    let underlying := surface err moduleId pipeCtx.context
    if underlying.code = .executionCancelled then pure (.error underlying)
    else do
      match ← executor.onErrorOutcome moduleId pipeCtx underlying with
      | some (.recovery value) => pure (.ok (.recovery value))
      | _ => pure (.error underlying)
  | (.ok (_, trace), pipeCtx) =>
    if !trace.success then pure (.error (.new .generalInternalError (abortExplanation trace)))
    else match pipeCtx.module with
      | none => pure (.error (.new .moduleNotFound
          ("Module '" ++ moduleId ++ "' was not resolved during pre-stream setup")))
      | some module => pure (.ok (.setup { module, pipeCtx }))

/-- `prepare_stream`. -/
def prepareStream (executor : Executor σ) (moduleId : String) (inputs : Json)
    (ctx : Option Context) (versionHint : Option String) :
    Traced σ (Except ModuleError (StreamPrep σ)) := do
  match ← lift (executor.prepare executor.strategy moduleId inputs ctx versionHint) with
  | .error e => pure (.error e)
  | .ok pipeCtx => do
    let result ← PipelineEngine.runUntilStep executor.strategy pipeCtx "execute"
    lift (executor.concludePhase1 moduleId result)

/-! ## The fallback -/

/-- `run_stream_fallback`. -/
def runStreamFallback (executor : Executor σ) (moduleId : String) (setup : StreamSetup σ) :
    Traced σ (Except ModuleError Json) :=
  match executeAndLaterStepNames executor.strategy with
  | [] => pure (.ok (setup.pipeCtx.output.getD .null))
  | steps => do
    match ← PipelineEngine.runWithOptions executor.strategy setup.pipeCtx (.only steps) with
    | (.error err, pipeCtx) => pure (.error (surface err moduleId pipeCtx.context))
    | (.ok _, pipeCtx) => pure (.ok (pipeCtx.output.getD .null))

/-! ## Phase 2 -/

/-- `stream_deadline_exceeded`. -/
def streamDeadlineExceeded (deadline : Option ℚ) (moduleId : String) (now : ℚ) :
    Option ModuleError :=
  if deadline.any (· < now) then
    let err := ModuleError.moduleTimeout moduleId 0
    some { err with
      message := "Module '" ++ moduleId ++ "' streaming aborted: global deadline exceeded"
      details := Fields.erase err.details "timeout_ms" }
  else none

/-- `recover_stream_chunk_error`. -/
def recoverStreamChunkError (setup : StreamSetup σ) (decorated : ModuleError)
    (moduleId : String) : Code σ (Option Json) :=
  match setup.pipeCtx.middlewareManager with
  | none => pure none
  | some manager =>
    if setup.pipeCtx.executedMiddlewares.isEmpty then pure none
    else do
      match ← manager.executeOnErrorOutcome moduleId setup.pipeCtx.inputs decorated
          setup.pipeCtx.context setup.pipeCtx.executedMiddlewares with
      | some (.recovery value) => pure (some value)
      | _ => pure none

/-- The item a failing chunk becomes. -/
def failedChunk (setup : StreamSetup σ) (moduleId : String) (err : ModuleError) :
    Code σ (Except ModuleError Json) := do
  let ctx := setup.pipeCtx.context
  let decorated := err.propagate moduleId ctx.traceId ctx.callChain
  match ← recoverStreamChunkError setup decorated moduleId with
  | some recovery => pure (.ok recovery)
  | none => pure (.error decorated)

/-- How the chunk loop ended: the chunks it delivered, and the item that ended it early. -/
abbrev ChunkEnd := List Json × Option (Except ModuleError Json)

/-- The chunk loop, from the given pull on, for at most so many pulls. -/
def chunkLoop (setup : StreamSetup σ) (moduleId : String) (stream : ChunkStream σ) :
    Nat → Nat → List Json → Code σ ChunkEnd
  | 0, _, delivered => pure (delivered, none)
  | pulls + 1, index, delivered => do
    match ← stream index with
    | none => pure (delivered, none)
    | some chunk => do
      let w ← Run.world
      match streamDeadlineExceeded setup.pipeCtx.context.globalDeadline moduleId w.now, chunk with
      | some err, _ => pure (delivered, some (.error err))
      | none, .error err => do
        let item ← failedChunk setup moduleId err
        pure (delivered, some item)
      | none, .ok chunk =>
        if chunk.isObject then
          chunkLoop setup moduleId stream pulls (index + 1) (delivered ++ [chunk])
        else pure (delivered, some (.error (streamChunkNotObjectError delivered.length chunk)))

/-! ## Phase 3 -/

/-- `emit_post_stream_failure`. -/
def emitPostStreamFailure (pipeCtx : PipelineContext σ) (moduleId : String)
    (error : ModuleError) : Code σ Unit :=
  emitEvent pipeCtx.eventEmitter
    { eventType := "apcore.stream.post_validation_failed"
      data := .object
        [("error_type", .string error.code.debugStr), ("message", .string error.message),
          ("trace_id", .string pipeCtx.context.traceId)]
      moduleId
      severity := "error" }

/-- `run_stream_phase3`: the chunks are delivered, so a failure is published and not yielded. -/
def runStreamPhase3 (executor : Executor σ) (moduleId : String) (setup : StreamSetup σ)
    (accumulated : List Json) : Traced σ Unit :=
  match deepMergeChunksCheckedWithDepth accumulated (resolveMergeDepth executor.config) with
  | .error e => lift (emitPostStreamFailure setup.pipeCtx moduleId e)
  | .ok merged =>
    match postStreamStepNames executor.strategy with
    | [] => pure ()
    | steps => do
      match ← PipelineEngine.runWithOptions executor.strategy
          { setup.pipeCtx with output := some merged } (.only steps) with
      | (.ok _, _) => pure ()
      | (.error err, pipeCtx) =>
        let underlying := err.unwrapPipelineStepError.getD err
        let underlying := underlying.unwrapMiddlewareChainError.getD underlying
        lift (emitPostStreamFailure pipeCtx moduleId underlying)

/-! ## Streams -/

/-- What follows Phase 1: the chunks of the module, or the fallback. -/
def deliver (executor : Executor σ) (pulls : Nat) (moduleId : String) (setup : StreamSetup σ) :
    Traced σ (List (Except ModuleError Json)) := do
  match ← lift (checkCancelled setup.pipeCtx.context.cancelToken moduleId) with
  | .error e => pure [.error e]
  | .ok () =>
    match setup.module.stream setup.pipeCtx.inputs setup.pipeCtx.context with
    | none => do
      let item ← executor.runStreamFallback moduleId setup
      pure [item]
    | some stream => do
      match ← lift (chunkLoop setup moduleId stream pulls 0 []) with
      | (delivered, some last) => pure (delivered.map .ok ++ [last])
      | (delivered, none) => do
        executor.runStreamPhase3 moduleId setup delivered
        pure (delivered.map .ok)

/-- `Executor::stream`, by its items. -/
def stream (executor : Executor σ) (pulls : Nat) (moduleId : String) (inputs : Json)
    (ctx : Option Context) (versionHint : Option String) :
    Traced σ (List (Except ModuleError Json)) :=
  match validateModuleId moduleId with
  | .error e => pure [.error e]
  | .ok () => do
    match ← executor.prepareStream moduleId inputs ctx versionHint with
    | .error e => pure [.error e]
    | .ok (.recovery value) => pure [.ok value]
    | .ok (.setup setup) => executor.deliver pulls moduleId setup

end Executor

end Apcore
