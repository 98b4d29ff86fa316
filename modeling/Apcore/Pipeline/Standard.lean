import Apcore.Pipeline.Runs
import Apcore.Pipeline.ApprovalGate

/-! # `Pipeline.Standard` — the standard strategy, and what its steps keep

The gates decide about a caller by the call chain, the caller id and the cancellation token of the
context. Context creation derives them from the context it is handed; no other built-in step touches
them. What the engine files about failed steps, no built-in step touches at all. -/

namespace Apcore

open PipelineEngine (Leaves KeptByStep Bookkept)

variable {σ : Type}

/-- `build_standard_strategy`. -/
def standardStrategy (ext : Externals σ) : ExecutionStrategy σ where
  name := "standard"
  steps :=
    [BuiltinContextCreation.step, BuiltinCallChainGuard.step, BuiltinModuleLookup.step ext,
      BuiltinACLCheck.step, BuiltinApprovalGate.step, BuiltinMiddlewareBefore.step,
      BuiltinInputValidation.step ext, BuiltinExecute.step, BuiltinOutputValidation.step ext,
      BuiltinMiddlewareAfter.step, BuiltinReturnResult.step]
  gates_intact := by
    simp only [List.forall_mem_cons, List.not_mem_nil, false_implies, implies_true, and_true]
    exact ⟨.of_none rfl, .of_none rfl, .of_none rfl, BuiltinACLCheck.step_gateIntact,
      BuiltinApprovalGate.step_gateIntact, .of_none rfl, .of_none rfl, .of_none rfl, .of_none rfl,
      .of_none rfl, .of_none rfl⟩

/-! ## Views -/

/-- What a pipeline context says of the call and its caller. -/
structure CallerView where
  moduleId : String
  callChain : List String
  callerId : Option String
  cancelToken : Option CancelToken
  dryRun : Bool

/-- The view a pipeline context gives. -/
def PipelineContext.callerView (ctx : PipelineContext σ) : CallerView where
  moduleId := ctx.moduleId
  callChain := ctx.context.callChain
  callerId := ctx.context.callerId
  cancelToken := ctx.context.cancelToken
  dryRun := ctx.dryRun

/-- What the body of a step has no business with: the view, and the errors the engine has filed. -/
structure StepView where
  caller : CallerView
  preflightErrors : List (String × ModuleError)

/-- That part of a pipeline context. -/
def PipelineContext.stepView (ctx : PipelineContext σ) : StepView where
  caller := ctx.callerView
  preflightErrors := ctx.preflightErrors

/-- The body of a step leaves the dry-run flag and the filed errors alone. -/
def Step.KeepsRecords (step : Step σ) : Prop :=
  ∀ ctx result ctx', Leaves step ctx result ctx' →
    ctx'.dryRun = ctx.dryRun ∧ ctx'.preflightErrors = ctx.preflightErrors

/-- The engine does not touch the view. -/
theorem bookkept_callerView (view : CallerView) :
    Bookkept fun ctx : PipelineContext σ => ctx.callerView = view where
  record := fun _ _ h => h
  success := fun _ _ h => h
  output := fun _ _ h => h
  preflight := fun _ _ h => h

/-! ## Bodies that keep the view -/

/-- However the body ends, the context it leaves reads as given. -/
def LeavesAs {α : Type} (f : PipelineContext σ → α) (v : α) (x : Code σ (StepEnd σ)) : Prop :=
  ∀ w ended, (x w).outcome = .ok ended → f ended.2 = v

/-- However the body ends, the context it leaves has the given view. -/
def LeavesView (view : StepView) (x : Code σ (StepEnd σ)) : Prop :=
  ∀ w ended, (x w).outcome = .ok ended → ended.2.stepView = view

namespace LeavesAs

variable {α : Type} {f : PipelineContext σ → α} {v : α}

theorem continueWith {ctx : PipelineContext σ} (h : f ctx = v) :
    LeavesAs f v (continueWith ctx) := by
  rintro w ended hended
  cases hended
  exact h

theorem failWith {e : ModuleError} {ctx : PipelineContext σ} (h : f ctx = v) :
    LeavesAs f v (failWith e ctx) := by
  rintro w ended hended
  cases hended
  exact h

theorem bind {β : Type} {x : Code σ β} {g : β → Code σ (StepEnd σ)}
    (h : ∀ b, LeavesAs f v (g b)) : LeavesAs f v (x >>= g) := by
  intro w ended hended
  obtain ⟨b, -, hrest⟩ := Run.bind_outcome_eq_ok.mp hended
  exact h b _ _ hrest

end LeavesAs

/-- A reading that the fields the steps behind context creation write have no part in. -/
structure Aloof {α : Type} (f : PipelineContext σ → α) : Prop where
  resolved : ∀ (ext : Externals σ) module ctx,
    f (BuiltinModuleLookup.resolved ext module ctx) = f ctx
  aclApprovalRequired : ∀ ctx aclApprovalRequired, f { ctx with aclApprovalRequired } = f ctx
  inputs : ∀ ctx inputs, f { ctx with inputs } = f ctx
  executedMiddlewares : ∀ ctx executedMiddlewares, f { ctx with executedMiddlewares } = f ctx
  output : ∀ ctx output, f { ctx with output } = f ctx
  validatedInputs : ∀ ctx redactedInputs validatedInputs,
    f { ctx with context := { ctx.context with redactedInputs }, validatedInputs } = f ctx
  validatedOutput : ∀ ctx redactedOutput validatedOutput,
    f { ctx with context := { ctx.context with redactedOutput }, validatedOutput } = f ctx

/-- A step without a limit is its body. -/
theorem leaves_of_no_limit {step : Step σ} (hlimit : step.timeoutMs = 0) {ctx ctx' : PipelineContext σ}
    {result : Except ModuleError StepResult} (h : Leaves step ctx result ctx') :
    ∃ w, (step.execute ctx w).outcome = .ok (result, ctx') := by
  obtain ⟨w, hw⟩ := h
  have htimed : PipelineEngine.executeTimed step ctx = step.execute ctx := by
    simp [PipelineEngine.executeTimed, hlimit]
  exact ⟨w, htimed ▸ hw⟩

/-- The bodies of a step without a limit keep what is not theirs. -/
def Step.KeepsView (step : Step σ) : Prop :=
  step.timeoutMs = 0 ∧ ∀ ctx, LeavesView ctx.stepView (step.execute ctx)

theorem Step.KeepsView.callerView {step : Step σ} (h : step.KeepsView) (view : CallerView) :
    KeptByStep (fun ctx => ctx.callerView = view) step := by
  rintro ctx result ctx' rfl hleaves
  obtain ⟨w, hw⟩ := leaves_of_no_limit h.1 hleaves
  exact congrArg StepView.caller (h.2 ctx w _ hw)

theorem Step.KeepsView.records {step : Step σ} (h : step.KeepsView) : step.KeepsRecords := by
  intro ctx result ctx' hleaves
  obtain ⟨w, hw⟩ := leaves_of_no_limit h.1 hleaves
  have hview := h.2 ctx w _ hw
  exact ⟨congrArg (·.caller.dryRun) hview, congrArg (·.preflightErrors) hview⟩

section

variable {α : Type} {f : PipelineContext σ → α}

theorem BuiltinCallChainGuard.keeps (ctx : PipelineContext σ) :
    LeavesAs f (f ctx) (execute ctx) := by
  refine .bind fun config => .bind fun answer => ?_
  cases answer with
  | error e => exact .failWith rfl
  | ok u =>
    dsimp only
    cases guardCallChain ctx.moduleId ctx.context.callChain config.maxCallDepth
      config.maxModuleRepeat with
    | error e => exact .failWith rfl
    | ok u => exact .continueWith rfl

theorem BuiltinModuleLookup.keeps (hf : Aloof f) (ext : Externals σ) (ctx : PipelineContext σ) :
    LeavesAs f (f ctx) (execute ext ctx) := by
  refine .bind fun registry => .bind fun w => ?_
  rcases registry.get w ctx.moduleId with e | (_ | module)
  · exact .failWith rfl
  · exact .failWith rfl
  · dsimp only
    split_ifs
    · exact .failWith rfl
    · exact .continueWith (hf.resolved ext module ctx)

theorem BuiltinACLCheck.keeps (hf : Aloof f) (ctx : PipelineContext σ) :
    LeavesAs f (f ctx) (execute ctx) := by
  unfold execute
  split
  · exact .continueWith rfl
  · refine .bind fun decision => ?_
    dsimp only
    split_ifs
    · exact .continueWith (hf.aclApprovalRequired ctx _)
    · exact .bind fun _ => .failWith (hf.aclApprovalRequired ctx _)

/-- Taking the token off touches only the inputs. -/
theorem BuiltinApprovalGate.takeApprovalToken_reads (hf : Aloof f) (ctx : PipelineContext σ) :
    f (takeApprovalToken ctx).2 = f ctx := by
  unfold takeApprovalToken
  dsimp only
  split
  · rfl
  · exact hf.inputs ctx _
  · exact hf.inputs ctx _

theorem BuiltinApprovalGate.keeps (hf : Aloof f) (ctx : PipelineContext σ) :
    LeavesAs f (f ctx) (execute ctx) := by
  rw [← takeApprovalToken_reads hf ctx]
  unfold execute
  rcases takeApprovalToken ctx with ⟨e | token, ctx⟩
  · exact .failWith rfl
  refine .bind fun registry => .bind fun w => .bind fun _ => ?_
  dsimp only
  split_ifs
  · cases ctx.approvalHandler with
    | none =>
      unfold withoutHandler
      split_ifs
      · exact .bind fun _ => .failWith rfl
      · exact .bind fun _ => .continueWith rfl
    | some handler =>
      refine .bind fun answer => ?_
      rcases answer with e | result
      · exact .failWith rfl
      · refine .bind fun _ => ?_
        cases refusal ctx.moduleId result with
        | some e => exact .failWith rfl
        | none => exact .continueWith rfl
  · exact .bind fun _ => .continueWith rfl

theorem BuiltinMiddlewareBefore.keeps (hf : Aloof f) (ctx : PipelineContext σ) :
    LeavesAs f (f ctx) (execute ctx) := by
  unfold execute
  split
  · exact .continueWith rfl
  · refine .bind fun answer => ?_
    rcases answer with e | ⟨inputs, executed⟩
    · exact .failWith (hf.executedMiddlewares ctx _)
    · exact .continueWith ((hf.executedMiddlewares { ctx with inputs } executed).trans
        (hf.inputs ctx inputs))

theorem BuiltinMiddlewareAfter.keeps (hf : Aloof f) (ctx : PipelineContext σ) :
    LeavesAs f (f ctx) (execute ctx) := by
  unfold execute
  split
  · exact .continueWith rfl
  · exact .continueWith rfl
  · refine .bind fun answer => ?_
    cases answer with
    | error e => exact .failWith (hf.output ctx _)
    | ok modified => exact .continueWith (hf.output ctx _)

theorem BuiltinInputValidation.keeps (hf : Aloof f) (ext : Externals σ)
    (ctx : PipelineContext σ) : LeavesAs f (f ctx) (execute ext ctx) := by
  refine .bind fun module => ?_
  cases validateAgainstSchema ext ctx.inputs module.inputSchema "Input" with
  | error e => exact .failWith rfl
  | ok u => exact .continueWith (hf.validatedInputs ctx _ _)

theorem BuiltinOutputValidation.keeps (hf : Aloof f) (ext : Externals σ)
    (ctx : PipelineContext σ) : LeavesAs f (f ctx) (execute ext ctx) := by
  unfold execute
  split
  · exact .continueWith rfl
  · rename_i output _
    refine .bind fun module => ?_
    cases validateAgainstSchema ext output module.outputSchema "Output" with
    | error e => exact .failWith rfl
    | ok u => exact .continueWith (hf.validatedOutput ctx _ _)

theorem BuiltinExecute.keeps (hf : Aloof f) (ctx : PipelineContext σ) :
    LeavesAs f (f ctx) (execute ctx) := by
  refine .bind fun module => .bind fun config => .bind fun w => ?_
  dsimp only
  split
  · exact .bind fun _ => .failWith rfl
  · refine .bind fun answer => ?_
    cases answer with
    | error e => exact .failWith rfl
    | ok u =>
      refine .bind fun answer => ?_
      cases answer with
      | error e => exact .failWith rfl
      | ok output => exact .continueWith (hf.output ctx _)

theorem BuiltinReturnResult.keeps (ctx : PipelineContext σ) :
    LeavesAs f (f ctx) (execute ctx) := .continueWith rfl

/-- **The steps behind context creation keep every reading their fields have no part in.** -/
theorem standard_keeps (hf : Aloof f) (ext : Externals σ) :
    ∀ step ∈ (standardStrategy ext).steps.tail,
      step.timeoutMs = 0 ∧ ∀ ctx, LeavesAs f (f ctx) (step.execute ctx) := by
  simp only [standardStrategy, List.tail_cons, List.forall_mem_cons, List.not_mem_nil,
    false_implies, implies_true, and_true]
  exact ⟨⟨rfl, BuiltinCallChainGuard.keeps⟩, ⟨rfl, BuiltinModuleLookup.keeps hf ext⟩,
    ⟨rfl, BuiltinACLCheck.keeps hf⟩, ⟨rfl, BuiltinApprovalGate.keeps hf⟩,
    ⟨rfl, BuiltinMiddlewareBefore.keeps hf⟩, ⟨rfl, BuiltinInputValidation.keeps hf ext⟩,
    ⟨rfl, BuiltinExecute.keeps hf⟩, ⟨rfl, BuiltinOutputValidation.keeps hf ext⟩,
    ⟨rfl, BuiltinMiddlewareAfter.keeps hf⟩, ⟨rfl, BuiltinReturnResult.keeps⟩⟩

end

theorem aloof_stepView : Aloof fun ctx : PipelineContext σ => ctx.stepView :=
  ⟨fun _ _ _ => rfl, fun _ _ => rfl, fun _ _ => rfl, fun _ _ => rfl, fun _ _ => rfl,
    fun _ _ _ => rfl, fun _ _ _ => rfl⟩

/-- The view a call presents that comes in with the given view: its module joins the chain, the last
module before it is the caller, and its token is a child of the token it came with. -/
structure CallerView.Presents (origin view : CallerView) : Prop where
  callChain : view.callChain = origin.callChain ++ [origin.moduleId]
  callerId : view.callerId = origin.callChain.getLast?
  cancelToken : ∃ token, view.cancelToken = some token ∧
    token.ancestors = (origin.cancelToken.map (·.cells)).getD []
  moduleId : view.moduleId = origin.moduleId
  dryRun : view.dryRun = origin.dryRun

/-- Context creation always continues, with the view of a call. -/
theorem BuiltinContextCreation.execute_spec (ctx : PipelineContext σ) (w : World σ) :
    ∃ ctx', (execute ctx w).outcome = .ok (.ok .continueStep, ctx') ∧
      ctx.callerView.Presents ctx'.callerView ∧ ctx'.preflightErrors = ctx.preflightErrors := by
  cases htoken : ctx.context.cancelToken with
  | none =>
    refine ⟨{ ctx with
      context := { childContext ctx w.now with cancelToken := some ⟨w.nextCell, []⟩ } }, ?_, ?_⟩
    · have hchild : (childContext ctx w.now).cancelToken = none := htoken
      simp only [execute]
      rw [Run.bind_apply_ok (a := w) rfl]
      simp only [hchild]
      rfl
    · exact ⟨⟨rfl, rfl, ⟨_, rfl, by simp [PipelineContext.callerView, htoken]⟩, rfl, rfl⟩, rfl⟩
  | some parent =>
    refine ⟨{ ctx with
      context := { childContext ctx w.now with cancelToken := some (parent.child w.nextCell) } },
      ?_, ?_⟩
    · have hchild : (childContext ctx w.now).cancelToken = some parent := htoken
      simp only [execute]
      rw [Run.bind_apply_ok (a := w) rfl]
      simp only [hchild]
      rfl
    · exact ⟨⟨rfl, rfl, ⟨_, rfl, by simp [PipelineContext.callerView, htoken, CancelToken.child,
        CancelToken.cells]⟩, rfl, rfl⟩, rfl⟩

theorem BuiltinContextCreation.keepsRecords : (step : Step σ).KeepsRecords := by
  intro ctx result ctx' hleaves
  obtain ⟨w, hw⟩ := leaves_of_no_limit rfl hleaves
  obtain ⟨ctx'', hctx'', hview, herrors⟩ := execute_spec ctx w
  obtain ⟨-, rfl⟩ : Except.ok .continueStep = result ∧ ctx'' = ctx' := by
    simpa using hctx''.symm.trans hw
  exact ⟨hview.dryRun, herrors⟩

/-! ## The standard strategy -/

/-- The steps behind context creation keep what is not theirs. -/
theorem standard_keepsView (ext : Externals σ) :
    ∀ step ∈ (standardStrategy ext).steps.tail, step.KeepsView :=
  standard_keeps aloof_stepView ext

theorem standard_keepsCallerView (ext : Externals σ) (view : CallerView) (i : Nat)
    (step : Step σ) (hi : 1 ≤ i) (hstep : (standardStrategy ext).steps[i]? = some step) :
    KeptByStep (fun ctx => ctx.callerView = view) step := by
  obtain ⟨i, rfl⟩ := Nat.exists_eq_add_of_le' hi
  have hmem : step ∈ (standardStrategy ext).steps.tail :=
    List.mem_of_getElem? (i := i) (by simpa using hstep)
  exact (standard_keepsView ext step hmem).callerView view

/-- No step of the standard strategy touches what a preflight is read from. -/
theorem standard_keepsRecords (ext : Externals σ) :
    ∀ step ∈ (standardStrategy ext).steps, step.KeepsRecords := by
  intro step hstep
  rcases List.mem_cons.mp hstep with rfl | hstep
  · exact BuiltinContextCreation.keepsRecords
  · exact (standard_keepsView ext step hstep).records

end Apcore
