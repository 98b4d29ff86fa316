import Apcore.Pipeline.BuiltinSteps

/-! # `Pipeline.ApprovalGate` — the approval gate

The gate takes the approval token off the inputs, joins the sources of the requirement, and where
approval is needed asks the handler: for a fresh decision, or for the state of an earlier one when
the call carried a token. -/

namespace Apcore

namespace BuiltinApprovalGate

variable {σ : Type}

/-! ## The token -/

/-- The type name a rejected token is reported under. -/
def jsonTypeName : Json → String
  | .number _ => "number"
  | .bool _ => "boolean"
  | .array _ => "array"
  | .object _ => "object"
  | .null => "null"
  | .string _ => "string"

/-- The inputs without the token, rebuilt when they carry one. -/
def stripToken (inputs : Json) : Json :=
  match inputs with
  | .object fields =>
    if Fields.containsKey fields approvalTokenKey then
      .object (Fields.erase fields approvalTokenKey)
    else .object fields
  | other => other

/-- `take_approval_token`: the inputs lose the token whether or not it is well formed. -/
def takeApprovalToken (ctx : PipelineContext σ) :
    Except ModuleError (Option String) × PipelineContext σ :=
  let stripped := { ctx with inputs := stripToken ctx.inputs }
  match Fields.get? (entriesOf ctx.inputs) approvalTokenKey with
  | none => (.ok none, ctx)
  | some (.string token) => (.ok (some token), stripped)
  | some other =>
    (.error (.new .generalInvalidInput
      ("_approval_token must be a string, got " ++ jsonTypeName other)), stripped)

/-! ## The requirement -/

/-- The live module: the one the lookup resolved, else the registered one. -/
def liveModule (registry : Registry σ) (w : World σ) (ctx : PipelineContext σ) :
    Option (Module σ) :=
  ctx.module.or ((registry.get w ctx.moduleId).toOption.bind id)

/-- The governance annotations: those of the live module and of the descriptor, joined. -/
def governance (registry : Registry σ) (w : World σ) (ctx : PipelineContext σ) :
    Option ModuleAnnotations :=
  ModuleAnnotations.governanceUnion ((liveModule registry w ctx).map (·.annotations))
    ((registry.definition w ctx.moduleId).bind (·.annotations))

/-- What the policy decides about the call, when there is one. -/
def policyDecision (ctx : PipelineContext σ) (annotations : Option ModuleAnnotations) :
    Option PolicyDecision :=
  ctx.policy.map (·.resolve ctx.moduleId annotations)

/-- The requirement of annotations, policy rules and `gate_destructive`. -/
def policyEffectiveApproval (ctx : PipelineContext σ) (annotations : Option ModuleAnnotations) :
    Bool :=
  match policyDecision ctx annotations with
  | some decision => decision.needsApproval
  | none => ModuleAnnotations.flag (·.requiresApproval) annotations

/-- The effective `destructive`. -/
def effectiveDestructive (ctx : PipelineContext σ) (annotations : Option ModuleAnnotations) :
    Bool :=
  match policyDecision ctx annotations with
  | some decision => decision.destructive
  | none => ModuleAnnotations.flag (·.destructive) annotations

/-- The call needs approval: for its annotations or policy, or because the access list said so. -/
def needsApproval (ctx : PipelineContext σ) (annotations : Option ModuleAnnotations) : Bool :=
  policyEffectiveApproval ctx annotations || ctx.aclApprovalRequired

/-! ## What the gate announces -/

/-- An optional text as the audit records write it. -/
def textOrEmpty (text : Option String) : Json := .string (text.getD "")

/-- An optional text, or `null`. -/
def textOrNull (text : Option String) : Json := (text.map Json.string).getD .null

/-- The `approval_decision` event of the active span. -/
def decisionSpanEvent (ctx : PipelineContext σ) (result : ApprovalResult) : Json := .object
  [("approval_id", textOrEmpty result.approvalId), ("approved_by", textOrEmpty result.approvedBy),
    ("module_id", .string ctx.moduleId), ("name", .string "approval_decision"),
    ("reason", textOrEmpty result.reason), ("status", .string result.status)]

/-- The `apcore.approval.decision` event. -/
def decisionEvent (ctx : PipelineContext σ) (result : ApprovalResult) : ApCoreEvent where
  eventType := "apcore.approval.decision"
  data := .object
    [("approval_id", textOrNull result.approvalId), ("approved_by", textOrNull result.approvedBy),
      ("module_id", .string ctx.moduleId), ("reason", textOrNull result.reason),
      ("status", .string result.status), ("trace_id", .string ctx.context.traceId)]
  moduleId := ctx.moduleId
  severity := if result.status = "approved" ∨ result.status = "pending" then "info" else "warn"

/-- `emit_approval_decision` and `emit_approval_decision_event`. -/
def announceDecision (ctx : PipelineContext σ) (result : ApprovalResult) : Code σ Unit := do
  modifyWorld (·.appendSpanEvent ctx.context (decisionSpanEvent ctx result))
  emitEvent ctx.eventEmitter (decisionEvent ctx result)

/-- The entries of a policy override, in the span and on the bus. -/
def overrideEntries (decision : PolicyDecision) : List (String × Json) :=
  [("destructive", .bool decision.destructive), ("module_id", .string decision.moduleId),
    ("needs_approval", .bool decision.needsApproval),
    ("pattern", textOrEmpty (decision.rule.map (·.pattern))),
    ("reason", textOrEmpty (decision.rule.bind (·.reason))),
    ("requires_approval", .bool decision.requiresApproval)]

/-- The `policy_override` event of the active span. -/
def overrideSpanEvent (decision : PolicyDecision) : Json :=
  .object (Fields.insert "name" (.string "policy_override") (overrideEntries decision))

/-- The `apcore.policy.override` event. -/
def overrideEvent (ctx : PipelineContext σ) (decision : PolicyDecision) : ApCoreEvent where
  eventType := "apcore.policy.override"
  data := .object
    (Fields.insert "trace_id" (.string ctx.context.traceId) (overrideEntries decision))
  moduleId := decision.moduleId
  severity := "info"

/-- `emit_policy_override` and its event, for a decision that overrides an annotation. -/
def announceOverride (ctx : PipelineContext σ) (decision : Option PolicyDecision) :
    Code σ Unit :=
  match decision with
  | some decision =>
    if decision.overridden then do
      modifyWorld (·.appendSpanEvent ctx.context (overrideSpanEvent decision))
      emitEvent ctx.eventEmitter (overrideEvent ctx decision)
    else pure ()
  | none => pure ()

/-- `warn_once`, as far as it leaves a mark: the key joins the shared set. -/
def warnOnce (ctx : PipelineContext σ) (key : String) : Code σ Unit :=
  if ctx.governanceWarned then
    modifyWorld fun w => if key ∈ w.warned then w else { w with warned := key :: w.warned }
  else pure ()

/-! ## Asking the handler -/

/-- The request for a fresh decision; the handler is shown the effective governance values. -/
def approvalRequest (ctx : PipelineContext σ) (module : Module σ)
    (annotations : Option ModuleAnnotations) : ApprovalRequest where
  moduleId := ctx.moduleId
  arguments := ctx.inputs
  context := some ctx.context
  annotations :=
    { annotations.getD {} with
      requiresApproval := true
      destructive := effectiveDestructive ctx annotations }
  callerId := ctx.context.callerId
  action := ctx.moduleId
  description := if module.description = "" then none else some module.description
  tags := module.tags

/-- The handler's answer: the state of an earlier request when the call carries its token, else a
fresh decision. -/
def consult (handler : ApprovalHandler σ) (token : Option String) (ctx : PipelineContext σ)
    (module : Option (Module σ)) (annotations : Option ModuleAnnotations) :
    Code σ (Except ModuleError ApprovalResult) :=
  match token, module with
  | some token, _ => handler.checkApproval token
  | none, some module => handler.requestApproval (approvalRequest ctx module annotations)
  | none, none => pure (.error (.new .moduleNotFound
      ("Module '" ++ ctx.moduleId ++ "' not found in registry")))

/-- The text a result gives for itself. -/
def reasonOr (result : ApprovalResult) : String := result.reason.getD "no reason given"

/-- The error a result stands for; only `approved` stands for none. -/
def refusal (moduleId : String) (result : ApprovalResult) : Option ModuleError :=
  let denied (text : String) :=
    ModuleError.new .approvalDenied ("Approval denied for module '" ++ moduleId ++ "': " ++ text)
  match result.status with
  | "approved" => none
  | "rejected" => some (denied (reasonOr result))
  | "timeout" => some (.new .approvalTimeout
      ("Approval timed out for module '" ++ moduleId ++ "': " ++ reasonOr result))
  | "pending" => some ((ModuleError.new .approvalPending
      ("Approval pending for module '" ++ moduleId ++ "': " ++ reasonOr result)).withDetails
      [("approval_id", textOrNull result.approvalId)])
  | status => some (denied ("unknown status '" ++ status ++ "'"))

/-- The result a strict policy denies with when no handler is configured. -/
def strictRejection : ApprovalResult :=
  .rejected ("Approval required but no ApprovalHandler is configured; " ++
    "ExecutionPolicy(strict=true) fails closed")

/-- The denial of a strict policy. -/
def strictDenial (moduleId : String) : ModuleError :=
  .new .approvalDenied ("Approval denied for module '" ++ moduleId ++ "': " ++
    strictRejection.reason.getD "")

/-- The call needs approval, and no handler is configured. -/
def withoutHandler (ctx : PipelineContext σ) : Code σ (StepEnd σ) :=
  if ctx.policy.any (·.strict) then do
    announceDecision ctx strictRejection
    failWith (strictDenial ctx.moduleId) ctx
  else do
    warnOnce ctx ("no_handler:" ++ ctx.moduleId)
    continueWith ctx

/-- The call needs approval, and the handler decides. -/
def withHandler (handler : ApprovalHandler σ) (token : Option String) (ctx : PipelineContext σ)
    (module : Option (Module σ)) (annotations : Option ModuleAnnotations) :
    Code σ (StepEnd σ) := do
  match ← consult handler token ctx module annotations with
  | .error e => failWith e ctx
  | .ok result => do
    announceDecision ctx result
    match refusal ctx.moduleId result with
    | some e => failWith e ctx
    | none => continueWith ctx

/-- A destructive module that no approval covers is warned about. -/
def warnUngated (ctx : PipelineContext σ) (annotations : Option ModuleAnnotations) :
    Code σ Unit :=
  if effectiveDestructive ctx annotations then warnOnce ctx ("destructive_ungated:" ++ ctx.moduleId)
  else pure ()

/-- The call does not need approval. -/
def ungated (ctx : PipelineContext σ) (annotations : Option ModuleAnnotations) :
    Code σ (StepEnd σ) := do
  warnUngated ctx annotations
  continueWith ctx

/-- The gate once the token is off. -/
def adjudicate (registry : Registry σ) (token : Option String) (ctx : PipelineContext σ) :
    Code σ (StepEnd σ) := do
  let w ← Run.world
  let module := liveModule registry w ctx
  let annotations := governance registry w ctx
  announceOverride ctx (policyDecision ctx annotations)
  if needsApproval ctx annotations then
    match ctx.approvalHandler with
    | none => withoutHandler ctx
    | some handler => withHandler handler token ctx module annotations
  else ungated ctx annotations

def execute (ctx : PipelineContext σ) : Code σ (StepEnd σ) :=
  match takeApprovalToken ctx with
  | (.error e, ctx) => failWith e ctx
  | (.ok token, ctx) => do
    let registry ← expect ctx.registry "registry must be injected into PipelineContext"
    adjudicate registry token ctx

def step : Step σ where
  name := "approval_gate"
  description := "Handle human or AI approval flow"
  requires := ["context", "module"]
  builtinGate := some .approval
  execute := execute

theorem step_gateIntact : (step : Step σ).GateIntact := fun _ _ => ⟨rfl, rfl, fun _ => rfl⟩

end BuiltinApprovalGate

end Apcore
