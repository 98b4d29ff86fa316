import Apcore.Executor.Validate
import Apcore.Pipeline.Shadow

/-! # `Executor.PreflightGate` — the preflight asks for approval when the gate does

The requirement is computed twice, by the gate on the context of a live run and by the preflight on
the context its dry run ends with. Both join the same sources (`finding_eq`). A live run that gets to
the gate and the dry run of the same call agree on these sources and on the world they are looked up
in, because the dry run shadows the live one up to the gate and changes nothing behind it. -/

namespace Apcore

open Run (bind_outcome_eq_ok bind_apply_ok lift)
open PipelineEngine

variable {σ : Type}

/-! ## What the gate finds -/

namespace BuiltinApprovalGate

/-- What the gate finds out about a call: whether approval is needed. Without a registry it finds
nothing and panics. -/
def finding (ctx : PipelineContext σ) (w : World σ) : Option Bool :=
  let ctx := (takeApprovalToken ctx).2
  ctx.registry.map fun registry => needsApproval ctx (governance registry w ctx)

/-- What the gate does about a call that needs approval. -/
def enforce (registry : Registry σ) (token : Option String) (w : World σ)
    (ctx : PipelineContext σ) : Code σ (StepEnd σ) :=
  match ctx.approvalHandler with
  | none => withoutHandler ctx
  | some handler =>
    withHandler handler token ctx (liveModule registry w ctx) (governance registry w ctx)

/-- The body of the gate goes by what the gate finds. -/
theorem execute_apply {ctx : PipelineContext σ} {token : Option String} {registry : Registry σ}
    (htoken : (takeApprovalToken ctx).1 = .ok token)
    (hregistry : (takeApprovalToken ctx).2.registry = some registry) (w : World σ) :
    let taken := (takeApprovalToken ctx).2
    execute ctx w = (announceOverride taken
      (policyDecision taken (governance registry w taken)) >>= fun _ =>
        if finding ctx w = some true then enforce registry token w taken
        else ungated taken (governance registry w taken)) w := by
  have hfinding : finding ctx w = some (needsApproval (takeApprovalToken ctx).2
      (governance registry w (takeApprovalToken ctx).2)) := by
    simp only [finding, hregistry, Option.map_some]
  simp only [hfinding, Option.some.injEq]
  unfold execute
  rcases htaken : takeApprovalToken ctx with ⟨outcome, taken⟩
  rw [htaken] at htoken hregistry
  obtain rfl : outcome = .ok token := htoken
  dsimp only at hregistry ⊢
  rw [hregistry]
  rfl

end BuiltinApprovalGate

/-! ## The preflight reads what the gate reads -/

/-- What the executor has put into a pipeline context, as far as the requirement depends on it. -/
structure CallSources (σ : Type) where
  moduleId : String
  policy : Option ExecutionPolicy
  registry : Option (Registry σ)

/-- The sources a pipeline context holds. -/
def PipelineContext.callSources (ctx : PipelineContext σ) : CallSources σ where
  moduleId := ctx.moduleId
  policy := ctx.policy
  registry := ctx.registry

namespace Executor

/-- The sources a call of a module has. -/
def sources (executor : Executor σ) (moduleId : String) : CallSources σ where
  moduleId := moduleId
  policy := executor.policy
  registry := some executor.registry

/-- **One requirement**: on a context with the sources of the executor and a resolved module, the
gate finds what the preflight reports. -/
theorem finding_eq {executor : Executor σ} {moduleId : String} {ctx : PipelineContext σ}
    (hsources : ctx.callSources = executor.sources moduleId) (hmodule : ctx.module.isSome)
    (w : World σ) :
    BuiltinApprovalGate.finding ctx w = some (executor.requiresApproval w moduleId ctx) := by
  obtain ⟨module, hmodule⟩ := Option.isSome_iff_exists.mp hmodule
  have hid : ctx.moduleId = moduleId := congrArg CallSources.moduleId hsources
  have hpolicy : ctx.policy = executor.policy := congrArg CallSources.policy hsources
  have hregistry : ctx.registry = some executor.registry := congrArg CallSources.registry hsources
  subst hid
  -- taking the token off touches the inputs only
  obtain ⟨inputs, htaken⟩ : ∃ inputs,
      (BuiltinApprovalGate.takeApprovalToken ctx).2 = { ctx with inputs } := by
    unfold BuiltinApprovalGate.takeApprovalToken
    dsimp only
    split
    · exact ⟨ctx.inputs, rfl⟩
    · exact ⟨_, rfl⟩
    · exact ⟨_, rfl⟩
  unfold BuiltinApprovalGate.finding
  rw [htaken]
  show ctx.registry.map _ = _
  rw [hregistry, Option.map_some]
  congr 1
  simp only [BuiltinApprovalGate.needsApproval, BuiltinApprovalGate.policyEffectiveApproval,
    BuiltinApprovalGate.policyDecision, BuiltinApprovalGate.governance,
    BuiltinApprovalGate.liveModule, requiresApproval, hmodule, hpolicy, Option.some_or,
    Option.map_some]
  cases executor.policy with
  | none => rfl
  | some policy => rfl

/-- The preflight reads of a context only what the run has found out. -/
theorem requiresApproval_congr (executor : Executor σ) (w : World σ) (moduleId : String)
    {ctx ctx' : PipelineContext σ} (hmodule : ctx.module = ctx'.module)
    (hacl : ctx.aclApprovalRequired = ctx'.aclApprovalRequired) :
    executor.requiresApproval w moduleId ctx = executor.requiresApproval w moduleId ctx' := by
  unfold requiresApproval
  rw [hmodule, hacl]

/-! ## The sources of a call -/

/-- Sources are not for a step to write. -/
theorem aloof_callSources : Aloof fun ctx : PipelineContext σ => ctx.callSources :=
  ⟨fun _ _ _ => rfl, fun _ _ => rfl, fun _ _ => rfl, fun _ _ => rfl, fun _ _ => rfl,
    fun _ _ _ => rfl, fun _ _ _ => rfl⟩

theorem contextCreation_keepsSources (ctx : PipelineContext σ) :
    LeavesAs (·.callSources) ctx.callSources (BuiltinContextCreation.execute ctx) := by
  refine .bind fun w => ?_
  dsimp only
  cases (BuiltinContextCreation.childContext ctx w.now).cancelToken with
  | none => exact .bind fun token => .continueWith rfl
  | some parent => exact .bind fun token => .continueWith rfl

theorem bookkept_callSources (sources : CallSources σ) :
    Bookkept fun ctx : PipelineContext σ => ctx.callSources = sources where
  record := fun _ _ h => h
  success := fun _ _ h => h
  output := fun _ _ h => h
  preflight := fun _ _ h => h

theorem standard_keepsSources (ext : Externals σ) (sources : CallSources σ) (i : Nat)
    (step : Step σ) (hstep : (standardStrategy ext).steps[i]? = some step) :
    KeptByStep (fun ctx => ctx.callSources = sources) step := by
  rintro ctx result ctx' rfl hleaves
  rcases List.mem_cons.mp (List.mem_of_getElem? hstep) with rfl | hmem
  · obtain ⟨w, hw⟩ := leaves_of_no_limit rfl hleaves
    exact contextCreation_keepsSources ctx w _ hw
  · obtain ⟨hlimit, hkeeps⟩ := standard_keeps aloof_callSources ext step hmem
    obtain ⟨w, hw⟩ := leaves_of_no_limit hlimit hleaves
    exact hkeeps ctx w _ hw

/-- A run leaves the sources it was given. -/
theorem run_keepsSources (ext : Externals σ) (opts : RunOptions σ) {ctx : PipelineContext σ}
    {w : World σ} {result : EngineResult σ}
    (h : (runWithOptions (standardStrategy ext) ctx opts w).outcome = .ok result) :
    result.2.callSources = ctx.callSources := by
  obtain ⟨left, hleft, hresult⟩ := bind_outcome_eq_ok.mp h
  obtain rfl := Except.ok.inj hresult
  have hkept := bookkept_callSources ctx.callSources
  refine hkept.conclude ?_
  exact (loopFrom_keeps opts hkept
    (fun i step _ => standard_keepsSources ext ctx.callSources i step) (start ctx) (Nat.zero_le _)
    rfl w).2 left hleft

theorem prepare_sources {executor : Executor σ} {strategy : ExecutionStrategy σ}
    {moduleId : String} {inputs : Json} {ctx : Option Context} {versionHint : Option String}
    {w : World σ} {pipeCtx : PipelineContext σ}
    (h : (executor.prepare strategy moduleId inputs ctx versionHint w).outcome =
      .ok (.ok pipeCtx)) : pipeCtx.callSources = executor.sources moduleId := by
  obtain ⟨context, -, rfl⟩ := prepare_spec h
  rfl

/-- The version hint changes nothing else about the preamble. -/
theorem prepare_versionHint {executor : Executor σ} {strategy : ExecutionStrategy σ}
    {moduleId : String} {inputs : Json} {ctx : Option Context} {versionHint : Option String}
    {w : World σ} {pipeCtx : PipelineContext σ}
    (h : (executor.prepare strategy moduleId inputs ctx versionHint w).outcome =
      .ok (.ok pipeCtx)) (other : Option String) :
    (executor.prepare strategy moduleId inputs ctx other w).outcome =
        .ok (.ok { pipeCtx with versionHint := other }) ∧
      (executor.prepare strategy moduleId inputs ctx other w).world =
        (executor.prepare strategy moduleId inputs ctx versionHint w).world := by
  obtain ⟨context, hcontext, hbind⟩ := bind_outcome_eq_ok.mp h
  unfold prepare
  rw [bind_apply_ok hcontext, bind_apply_ok hcontext]
  refine ⟨?_, rfl⟩
  have hbind := Except.ok.inj hbind
  simp only [bindToContext, injectResources, PipelineContext.new] at hbind ⊢
  cases hbound : bindExecutor executor.instanceHandle context with
  | error e =>
    rw [hbound] at hbind
    cases hbind
  | ok bound =>
    rw [hbound] at hbind
    cases hbind
    rfl

/-! ## The two runs -/

/-- A live call up to its approval gate. -/
def untilGate (executor : Executor σ) (moduleId : String) (inputs : Json) (ctx : Option Context)
    (versionHint : Option String) : Traced σ (Except ModuleError (EngineResult σ)) :=
  match validateModuleId moduleId with
  | .error e => pure (.error e)
  | .ok () => do
    match ← lift (executor.prepare executor.strategy moduleId inputs ctx versionHint) with
    | .error e => pure (.error e)
    | .ok pipeCtx => do
      let result ← runUntilStep executor.strategy pipeCtx "approval_gate"
      pure (.ok result)

/-- The live run of a call that got to its gate. -/
theorem untilGate_spec {executor : Executor σ} {moduleId : String} {inputs : Json}
    {ctx : Option Context} {versionHint : Option String} {w : World σ} {result : EngineResult σ}
    (h : (executor.untilGate moduleId inputs ctx versionHint w).outcome = .ok (.ok result)) :
    validateModuleId moduleId = .ok () ∧ ∃ pipeCtx w',
      (executor.prepare executor.strategy moduleId inputs ctx versionHint w).outcome =
        .ok (.ok pipeCtx) ∧
      (executor.prepare executor.strategy moduleId inputs ctx versionHint w).world = w' ∧
      (runUntilStep executor.strategy pipeCtx "approval_gate" w').outcome = .ok result ∧
      (executor.untilGate moduleId inputs ctx versionHint w).world =
        (runUntilStep executor.strategy pipeCtx "approval_gate" w').world := by
  unfold untilGate at h ⊢
  cases hid : validateModuleId moduleId with
  | error e =>
    rw [hid] at h
    cases h
  | ok u =>
    rw [hid] at h
    obtain ⟨prepared, hprepared, hrest⟩ := bind_outcome_eq_ok.mp h
    dsimp only
    rw [bind_apply_ok hprepared]
    cases prepared with
    | error e => cases hrest
    | ok pipeCtx =>
      obtain ⟨ended, hended, hresult⟩ := bind_outcome_eq_ok.mp hrest
      cases hresult
      refine ⟨rfl, pipeCtx, _, hprepared, rfl, hended, ?_⟩
      dsimp only
      rw [bind_apply_ok hended]
      rfl

/-- The dry run of a call whose preamble succeeds is a run of the pipeline. -/
theorem dryRun_apply {executor : Executor σ} {moduleId : String} {inputs : Json}
    {ctx : Option Context} {w : World σ} {pipeCtx : PipelineContext σ}
    (hid : validateModuleId moduleId = .ok ())
    (hprepared : (executor.prepare executor.strategy moduleId inputs ctx none w).outcome =
      .ok (.ok pipeCtx)) {ended : Except PreflightResult (EngineResult σ)}
    (h : (executor.dryRun moduleId inputs ctx w).outcome = .ok ended) :
    ∃ result, ended = .ok result ∧
      (run executor.strategy { pipeCtx with dryRun := true }
        (executor.prepare executor.strategy moduleId inputs ctx none w).world).outcome =
          .ok result ∧
      (executor.dryRun moduleId inputs ctx w).world =
        (run executor.strategy { pipeCtx with dryRun := true }
          (executor.prepare executor.strategy moduleId inputs ctx none w).world).world := by
  have hdry : (executor.prepareDry moduleId inputs ctx w).outcome =
      .ok (.ok { pipeCtx with dryRun := true }) := by
    rw [prepareDry, bind_apply_ok hprepared]
    rfl
  have hworld : (executor.prepareDry moduleId inputs ctx w).world =
      (executor.prepare executor.strategy moduleId inputs ctx none w).world := by
    rw [prepareDry, bind_apply_ok hprepared]
    rfl
  unfold dryRun at h ⊢
  rw [hid] at h ⊢
  dsimp only at h ⊢
  rw [bind_apply_ok (x := (lift (executor.prepareDry moduleId inputs ctx) : Traced σ _)) hdry,
    Run.lift_apply] at h ⊢
  dsimp only at h ⊢
  rw [hworld] at h ⊢
  obtain ⟨result, hresult, hended⟩ := bind_outcome_eq_ok.mp h
  refine ⟨result, (Except.ok.inj hended).symm, hresult, ?_⟩
  rw [bind_apply_ok hresult]
  rfl

/-- A dry run that comes to its end leaves the sources of the call. -/
theorem dryRun_sources {ext : Externals σ} {executor : Executor σ}
    (hstrategy : executor.strategy = standardStrategy ext) {moduleId : String} {inputs : Json}
    {ctx : Option Context} {w : World σ} {result : EngineResult σ}
    (h : (executor.dryRun moduleId inputs ctx w).outcome = .ok (.ok result)) :
    result.2.callSources = executor.sources moduleId := by
  unfold dryRun at h
  cases hid : validateModuleId moduleId with
  | error e =>
    rw [hid] at h
    cases h
  | ok u =>
    rw [hid] at h
    obtain ⟨prepared, hprepared, hrest⟩ := bind_outcome_eq_ok.mp h
    cases prepared with
    | error e => cases hrest
    | ok dryCtx =>
      obtain ⟨ended, hended, hresult⟩ := bind_outcome_eq_ok.mp hrest
      obtain rfl : ended = result := by simpa using hresult
      obtain ⟨pipe, hpipe, hmap⟩ := bind_outcome_eq_ok.mp (show
        (executor.prepareDry moduleId inputs ctx w).outcome = .ok (.ok dryCtx) from hprepared)
      cases pipe with
      | error e => cases hmap
      | ok pipeCtx =>
        cases hmap
        rw [hstrategy] at hended
        have hsources := prepare_sources hpipe
        exact (run_keepsSources ext {} hended).trans hsources

/-- What `validate` reports is read in the world the dry run leaves, off the context it leaves. -/
theorem validate_requiresApproval {executor : Executor σ} {moduleId : String} {inputs : Json}
    {ctx : Option Context} {w : World σ} {result : EngineResult σ} {preflight : PreflightResult}
    (hdry : (executor.dryRun moduleId inputs ctx w).outcome = .ok (.ok result))
    (h : (executor.validate moduleId inputs ctx w).outcome = .ok preflight) :
    preflight.requiresApproval = executor.requiresApproval
      (executor.dryRun moduleId inputs ctx w).world moduleId result.2 := by
  obtain ⟨ended, hended, hrest⟩ := bind_outcome_eq_ok.mp h
  obtain rfl := Except.ok.inj (hdry.symm.trans hended)
  obtain ⟨w', hw', hrest⟩ := bind_outcome_eq_ok.mp hrest
  obtain rfl := Except.ok.inj hw'
  obtain ⟨said, -, hpreflight⟩ := bind_outcome_eq_ok.mp hrest
  obtain rfl := Except.ok.inj hpreflight
  rfl

/-- **The two runs meet**: where the live run gets to its gate, the dry run ends in the world the
gate is entered in, with the findings of the gate's context. -/
theorem dryRun_meets_gate {ext : Externals σ} {executor : Executor σ}
    (hstrategy : executor.strategy = standardStrategy ext) {moduleId : String} {inputs : Json}
    {ctx : Option Context} {versionHint : Option String} {w : World σ}
    {out : Option Json × PipelineTrace} {gateCtx : PipelineContext σ}
    (hgate : (executor.untilGate moduleId inputs ctx versionHint w).outcome =
      .ok (.ok (.ok out, gateCtx)))
    {ended : Except PreflightResult (EngineResult σ)}
    (hdry : (executor.dryRun moduleId inputs ctx w).outcome = .ok ended) :
    ∃ result, ended = .ok result ∧
      (executor.dryRun moduleId inputs ctx w).world =
        (executor.untilGate moduleId inputs ctx versionHint w).world ∧
      result.2.module = gateCtx.module ∧
      result.2.aclApprovalRequired = gateCtx.aclApprovalRequired ∧ gateCtx.module.isSome ∧
      gateCtx.callSources = executor.sources moduleId := by
  obtain ⟨hid, pipeCtx, w', hprepared, rfl, hlive, hworld⟩ := untilGate_spec hgate
  obtain ⟨hprepared', hworld'⟩ := prepare_versionHint hprepared none
  obtain ⟨result, rfl, hresult, hleft⟩ := dryRun_apply hid hprepared' hdry
  rw [hworld', hstrategy] at hresult hleft
  rw [hstrategy] at hlive hworld
  generalize hw' : (executor.prepare (standardStrategy ext) moduleId inputs ctx versionHint w).world
    = w' at hresult hleft hlive hworld
  have hlive' : pipeCtx.dryRun = false := by
    obtain ⟨context, -, rfl⟩ := prepare_spec hprepared
    rfl
  obtain ⟨hmeet, hmodule, hacl, hresolved⟩ :=
    run_shadow ext ⟨none, pipeCtx.trace, rfl⟩ hlive' hlive hresult
  have hsources := run_keepsSources ext _ hlive
  exact ⟨result, rfl, hleft.trans (hmeet.trans hworld.symm), hmodule, hacl, hresolved,
    hsources.trans (prepare_sources hprepared)⟩

/-- **Preflight and gate agree.** Whatever the module, its annotations and descriptor, the policy,
the access list, the inputs and the context, what `validate` reports is what the gate finds: on the
context the dry run itself ends with, once it has resolved the module, and on the context a live
call brings to the gate, in the world it enters the gate in. -/
theorem validate_agrees_with_gate {ext : Externals σ} {executor : Executor σ}
    (hstrategy : executor.strategy = standardStrategy ext) (moduleId : String) (inputs : Json)
    (ctx : Option Context) (w : World σ) {preflight : PreflightResult}
    (hvalidate : (executor.validate moduleId inputs ctx w).outcome = .ok preflight) :
    (∀ result, (executor.dryRun moduleId inputs ctx w).outcome = .ok (.ok result) →
      result.2.module.isSome →
        BuiltinApprovalGate.finding result.2 (executor.dryRun moduleId inputs ctx w).world =
          some preflight.requiresApproval) ∧
    ∀ versionHint out gateCtx,
      (executor.untilGate moduleId inputs ctx versionHint w).outcome =
        .ok (.ok (.ok out, gateCtx)) →
        BuiltinApprovalGate.finding gateCtx
            (executor.untilGate moduleId inputs ctx versionHint w).world =
          some preflight.requiresApproval := by
  constructor
  · intro result hdry hmodule
    rw [validate_requiresApproval hdry hvalidate]
    exact finding_eq (dryRun_sources hstrategy hdry) hmodule _
  · intro versionHint out gateCtx hgate
    obtain ⟨ended, hdry, -⟩ := bind_outcome_eq_ok.mp hvalidate
    obtain ⟨result, rfl, hworld, hmodule, hacl, hresolved, hsources⟩ :=
      dryRun_meets_gate hstrategy hgate hdry
    rw [validate_requiresApproval hdry hvalidate, finding_eq hsources hresolved, hworld,
      requiresApproval_congr executor _ moduleId hmodule hacl]

/-- An executor whose policy gates what is destructive, over a module that only its descriptor calls
so. -/
def gatedExecutor : Executor Unit :=
  { Executor.over (.inert Unit) (standardStrategy .lax) with
    registry := fun _ =>
      [("billing.charge",
        { module := .inert Unit
          descriptor := { annotations := some { destructive := true }, enabled := true } })]
    policy := some { rules := [], gateDestructive := true, strict := false } }

/-- Both find that the destructive call needs approval. -/
theorem validate_agrees_with_gate_destructive :
    ∃ preflight out gateCtx,
      (gatedExecutor.validate "billing.charge" .null none (World.fresh ())).outcome =
        .ok preflight ∧
      preflight.requiresApproval = true ∧
      (gatedExecutor.untilGate "billing.charge" .null none none (World.fresh ())).outcome =
        .ok (.ok (.ok out, gateCtx)) ∧
      BuiltinApprovalGate.finding gateCtx
          (gatedExecutor.untilGate "billing.charge" .null none none (World.fresh ())).world =
        some preflight.requiresApproval := by
  refine ⟨_, _, _, rfl, rfl, rfl, ?_⟩
  exact (@validate_agrees_with_gate Unit .lax gatedExecutor rfl "billing.charge" .null none
    (World.fresh ()) _ rfl).2 none _ _ rfl

end Executor

end Apcore
