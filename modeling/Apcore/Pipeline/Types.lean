import Apcore.Module
import Apcore.Policy
import Apcore.Middleware

/-! # `Pipeline.Types` — approval, steps, strategies and the context a run works on

A step is the code behind a `Box<dyn Step>`: its declarations are data, its `execute` is a
computation that gives back the pipeline context it was handed by `&mut`. A strategy carries the
fact its constructors enforce, that no built-in gate among its steps is weakened. -/

namespace Apcore

/-- `ApprovalRequest`. -/
structure ApprovalRequest where
  moduleId : String
  arguments : Json
  context : Option Context
  annotations : ModuleAnnotations
  callerId : Option String
  action : String
  description : Option String
  tags : List String

/-- `ApprovalResult`; `metadata` is not read by the gate. -/
structure ApprovalResult where
  status : String
  approvedBy : Option String := none
  reason : Option String := none
  approvalId : Option String := none
  deriving DecidableEq

namespace ApprovalResult

/-- `ApprovalResult::approved`. -/
def approved (approver : String) : ApprovalResult :=
  { status := "approved", approvedBy := some approver }

/-- `ApprovalResult::rejected`. -/
def rejected (reason : String) : ApprovalResult := { status := "rejected", reason := some reason }

end ApprovalResult

/-- A `dyn ApprovalHandler`. -/
structure ApprovalHandler (σ : Type) where
  requestApproval : ApprovalRequest → Code σ (Except ModuleError ApprovalResult)
  checkApproval : String → Code σ (Except ModuleError ApprovalResult)

/-- `AutoApproveHandler`. -/
def autoApproveHandler {σ : Type} : ApprovalHandler σ where
  requestApproval := fun _ => pure (.ok (.approved "auto"))
  checkApproval := fun _ => pure (.ok (.approved "auto"))

/-- `AlwaysDenyHandler`. -/
def alwaysDenyHandler {σ : Type} : ApprovalHandler σ where
  requestApproval := fun _ => pure (.ok (.rejected "Always denied"))
  checkApproval := fun _ => pure (.ok (.rejected "Always denied"))

end Apcore

/-! ## Steps and strategies -/

namespace Apcore

/-- `StepResult`. -/
structure StepResult where
  action : String := "continue"
  skipTo : Option String := none
  explanation : Option String := none
  deriving DecidableEq, Repr

namespace StepResult

/-- `StepResult::continue_step`. -/
def continueStep : StepResult := {}

/-- `StepResult::abort`. -/
def abort (explanation : String) : StepResult := { action := "abort", explanation := some explanation }

/-- `StepResult::skip_to`. -/
def skipToStep (target : String) : StepResult := { action := "skip_to", skipTo := some target }

end StepResult

/-- `StepTrace`, without its duration. -/
structure StepTrace where
  name : String
  result : StepResult
  skipped : Bool := false
  skipReason : Option String := none
  deriving DecidableEq, Repr

/-- `PipelineTrace`, without its duration. -/
structure PipelineTrace where
  moduleId : String
  strategyName : String
  steps : List StepTrace := []
  success : Bool := false
  deriving DecidableEq, Repr

/-- What calls read of the configuration: its `executor` section, and the key
`stream.max_merge_depth`. -/
structure ExecutorConfig where
  maxCallDepth : Nat
  maxModuleRepeat : Nat
  /-- In milliseconds; `0` is "no timeout". -/
  defaultTimeout : Nat
  globalTimeout : Nat
  maxMergeDepth : Option Nat := none

/-- An `Arc<ACL>`: the list, and what the condition handlers and the audit callback of a check
leave behind. -/
structure SharedAcl (σ : Type) where
  acl : ACL
  effect : AccessRequest → World σ → World σ

/-- The access list that denies every call, behind an `Arc`. -/
def SharedAcl.denyAll {σ : Type} : SharedAcl σ where
  acl := .denyAll
  effect := fun _ w => w

/-- `PipelineContext`. -/
structure PipelineContext (σ : Type) where
  moduleId : String
  inputs : Json
  context : Context
  module : Option (Module σ) := none
  governanceProjection : Option GovernanceProjection := none
  aclApprovalRequired : Bool := false
  validatedInputs : Option Json := none
  output : Option Json := none
  validatedOutput : Option Json := none
  dryRun : Bool := false
  preflightErrors : List (String × ModuleError) := []
  versionHint : Option String := none
  executedMiddlewares : List Nat := []
  registry : Option (Registry σ) := none
  config : Option ExecutorConfig := none
  acl : Option (SharedAcl σ) := none
  approvalHandler : Option (ApprovalHandler σ) := none
  policy : Option ExecutionPolicy := none
  eventEmitter : Option (EventEmitter σ) := none
  /-- The dedup set of governance warnings is shared. -/
  governanceWarned : Bool := false
  middlewareManager : Option (MiddlewareManager σ) := none
  strategyName : String
  trace : PipelineTrace

namespace PipelineContext

variable {σ : Type}

/-- `PipelineContext::new`. -/
def new (moduleId : String) (inputs : Json) (context : Context) (strategyName : String) :
    PipelineContext σ where
  moduleId := moduleId
  inputs := inputs
  context := context
  strategyName := strategyName
  trace := { moduleId, strategyName }

/-- `ctx.trace.steps.push(..)`. -/
def record (ctx : PipelineContext σ) (entry : StepTrace) : PipelineContext σ :=
  { ctx with trace := { ctx.trace with steps := ctx.trace.steps ++ [entry] } }

/-- `ctx.trace.success = ..`. -/
def setSuccess (ctx : PipelineContext σ) (success : Bool) : PipelineContext σ :=
  { ctx with trace := { ctx.trace with success } }

end PipelineContext

/-- `PipelineState`: what a hook or a predicate is shown. -/
structure PipelineState (σ : Type) where
  stepName : String
  /-- The output snapshots of the steps completed before this one. -/
  outputs : List (String × Option Json)
  context : PipelineContext σ

/-- A `dyn StepMiddleware`. -/
structure StepMiddleware (σ : Type) where
  beforeStep : String → PipelineState σ → Code σ (Except ModuleError Unit)
  afterStep : String → PipelineState σ → Json → Code σ (Except ModuleError Unit)
  onStepError : String → PipelineState σ → ModuleError → Code σ (Except ModuleError (Option Json))

/-- The default hooks of the trait: observe nothing, recover nothing. -/
def StepMiddleware.idle {σ : Type} : StepMiddleware σ where
  beforeStep := fun _ _ => pure (.ok ())
  afterStep := fun _ _ _ => pure (.ok ())
  onStepError := fun _ _ _ => pure (.ok none)

/-- `BuiltinGate`. -/
inductive BuiltinGate where
  | acl | approval
  deriving DecidableEq, Repr

/-- A `dyn Step`. -/
structure Step (σ : Type) where
  name : String
  description : String := ""
  removable : Bool := true
  replaceable : Bool := true
  matchModules : Option (List String) := none
  ignoreErrors : Bool := false
  isPure : Bool := false
  /-- In milliseconds; `0` is "no limit". -/
  timeoutMs : Nat := 0
  requires : List String := []
  provides : List String := []
  builtinGate : Option BuiltinGate := none
  execute : PipelineContext σ → Code σ (Except ModuleError StepResult × PipelineContext σ)
  /-- What the body has left when its time limit (in milliseconds) cuts it off; `none` when it ends
  in time. -/
  overruns : Nat → PipelineContext σ → World σ → Option (PipelineContext σ × World σ) :=
    fun _ _ _ => none

namespace Step

variable {σ : Type}

/-- The fields that would keep a gate from gating, as `reject_weakened_gate` names them. -/
def weakenings (step : Step σ) (gate : BuiltinGate) : List String :=
  (if step.ignoreErrors then ["ignore_errors: true"] else []) ++
  (if step.matchModules.isSome then ["match_modules"] else []) ++
  (if gate = .approval ∧ step.isPure then ["pure: true"] else [])

/-- `gate_weakening_error`. -/
def gateWeakeningError (stepName : String) (offending : List String) : ModuleError :=
  .new .pipelineConfigurationError
    ("Step '" ++ stepName ++ "' is a built-in governance gate and cannot be weakened: " ++
      ", ".intercalate offending ++
      " not allowed (PROTOCOL_SPEC 5.16.1). Only timeout_ms is configurable on a gate step; " ++
      "remove the step instead to take the gate out, which is reported by governance_state().")

/-- `reject_weakened_gate`. -/
def rejectWeakenedGate (step : Step σ) : Except ModuleError Unit :=
  match step.builtinGate with
  | none => .ok ()
  | some gate =>
    if (step.weakenings gate).isEmpty then .ok ()
    else .error (gateWeakeningError step.name (step.weakenings gate))

/-- The built-in gate is not weakened, or the step is no built-in gate. -/
def GateIntact (step : Step σ) : Prop :=
  ∀ gate, step.builtinGate = some gate →
    step.ignoreErrors = false ∧ step.matchModules = none ∧
      (gate = .approval → step.isPure = false)

/-- A step that is no gate cannot be a weakened one. -/
theorem GateIntact.of_none {step : Step σ} (h : step.builtinGate = none) : step.GateIntact := by
  intro gate hgate
  rw [h] at hgate
  cases hgate

/-- `reject_weakened_gate` lets exactly the intact steps through. -/
theorem rejectWeakenedGate_ok_iff (step : Step σ) :
    step.rejectWeakenedGate = .ok () ↔ step.GateIntact := by
  unfold rejectWeakenedGate GateIntact
  cases hgate : step.builtinGate with
  | none => simp
  | some gate =>
    dsimp only
    have hweak : (step.weakenings gate).isEmpty = true ↔
        step.ignoreErrors = false ∧ step.matchModules = none ∧
          (gate = .approval → step.isPure = false) := by
      unfold weakenings
      cases step.ignoreErrors <;> cases step.matchModules <;> cases gate <;>
        cases step.isPure <;> simp
    split_ifs with h
    · simpa using hweak.mp h
    · simpa using fun h1 h2 => h (hweak.mpr ⟨h1, h2⟩)

end Step

/-- `ExecutionStrategy`. The index from names to positions is computed from the steps. -/
structure ExecutionStrategy (σ : Type) where
  name : String
  steps : List (Step σ)
  stepMiddlewares : List (StepMiddleware σ) := []
  gates_intact : ∀ step ∈ steps, step.GateIntact

namespace ExecutionStrategy

variable {σ : Type}

/-- `name_to_idx().get(name)`: the map is rebuilt in order, so the last step of a name counts. -/
def nameToIdx (strategy : ExecutionStrategy σ) (name : String) : Option Nat :=
  strategy.steps.zipIdx.foldl (fun found entry =>
    if entry.1.name = name then some entry.2 else found) none

/-- `step_names`. -/
def stepNames (strategy : ExecutionStrategy σ) : List String := strategy.steps.map (·.name)

/-- `add_step_middleware`. -/
def addStepMiddleware (strategy : ExecutionStrategy σ) (mw : StepMiddleware σ) :
    ExecutionStrategy σ :=
  { strategy with stepMiddlewares := strategy.stepMiddlewares ++ [mw] }

end ExecutionStrategy

end Apcore
