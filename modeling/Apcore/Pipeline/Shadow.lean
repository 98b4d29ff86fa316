import Mathlib.Tactic.IntervalCases
import Apcore.Pipeline.Segments

/-! # `Pipeline.Shadow` — a dry run beside the live one

Before the approval gate a dry run goes in the shadow of the live run: it differs by the dry-run
flag, its trace and the version hint, and no step looks at these unless it fails. From the gate on
it enters only steps that leave the world and the findings about the call alone. -/

namespace Apcore

open Run (bind_outcome_eq_ok bind_apply_ok)

variable {σ : Type}

/-! ## Bodies in the shadow -/

/-- A pipeline context in the shadow of a live one. -/
def Shadow (ctx dry : PipelineContext σ) : Prop :=
  ∃ versionHint trace, dry = { ctx with dryRun := true, versionHint, trace }

theorem Shadow.record {ctx dry : PipelineContext σ} (h : Shadow ctx dry) (entry entry' : StepTrace) :
    Shadow (ctx.record entry) (dry.record entry') := by
  obtain ⟨versionHint, trace, rfl⟩ := h
  exact ⟨versionHint, _, rfl⟩

/-- Where the first body continues, so does the second, in the same world and in its shadow. -/
def Follows (x y : Code σ (StepEnd σ)) : Prop :=
  ∀ w result ctx, (x w).outcome = .ok (.ok result, ctx) → result = .continueStep ∧
    ∃ dry, Shadow ctx dry ∧ (y w).outcome = .ok (.ok .continueStep, dry) ∧
      (y w).world = (x w).world

namespace Follows

theorem continueWith {ctx dry : PipelineContext σ} (h : Shadow ctx dry) :
    Follows (continueWith ctx) (continueWith dry) := by
  rintro w result ctx' hended
  cases hended
  exact ⟨rfl, dry, h, rfl, rfl⟩

/-- Whatever follows a body that fails. -/
theorem failWith {e : ModuleError} {ctx : PipelineContext σ} (y : Code σ (StepEnd σ)) :
    Follows (failWith e ctx) y := by
  rintro w result ctx' hended
  cases hended

theorem bind {β : Type} {x : Code σ β} {f g : β → Code σ (StepEnd σ)}
    (h : ∀ b, Follows (f b) (g b)) : Follows (x >>= f) (x >>= g) := by
  intro w result ctx hended
  obtain ⟨b, hb, hrest⟩ := bind_outcome_eq_ok.mp hended
  rw [bind_apply_ok hb, bind_apply_ok hb]
  exact h b _ _ _ hrest

/-- A body that fails after some other work does not continue either. -/
theorem bind_failWith {β : Type} {x : Code σ β} {e : ModuleError} {ctx : PipelineContext σ}
    (y : Code σ (StepEnd σ)) : Follows (x >>= fun _ => Apcore.failWith e ctx) y := by
  intro w result ctx' hended
  obtain ⟨b, -, hrest⟩ := bind_outcome_eq_ok.mp hended
  cases hrest

end Follows

/-- The body of a step does the same in the shadow. -/
def Step.ShadowedBody (step : Step σ) : Prop :=
  ∀ ctx dry, Shadow ctx dry → Follows (step.execute ctx) (step.execute dry)

theorem BuiltinContextCreation.shadowed : (step : Step σ).ShadowedBody := by
  rintro ctx _ ⟨versionHint, trace, rfl⟩
  refine .bind fun w => ?_
  have hchild : childContext { ctx with dryRun := true, versionHint, trace } w.now =
      childContext ctx w.now := rfl
  dsimp only
  rw [hchild]
  cases (childContext ctx w.now).cancelToken with
  | none => exact .bind fun token => .continueWith ⟨versionHint, trace, rfl⟩
  | some parent => exact .bind fun token => .continueWith ⟨versionHint, trace, rfl⟩

theorem BuiltinCallChainGuard.shadowed : (step : Step σ).ShadowedBody := by
  rintro ctx _ ⟨versionHint, trace, rfl⟩
  refine .bind fun config => .bind fun live => ?_
  cases live with
  | error e => exact .failWith _
  | ok u =>
    dsimp only
    cases guardCallChain ctx.moduleId ctx.context.callChain config.maxCallDepth
        config.maxModuleRepeat with
    | error e => exact .failWith _
    | ok u => exact .continueWith ⟨versionHint, trace, rfl⟩

theorem BuiltinModuleLookup.shadowed (ext : Externals σ) : (step ext).ShadowedBody := by
  rintro ctx _ ⟨versionHint, trace, rfl⟩
  refine .bind fun registry => .bind fun w => ?_
  dsimp only
  rcases registry.get w ctx.moduleId with e | (_ | module)
  · exact .failWith _
  · exact .failWith _
  · dsimp only
    split_ifs
    · exact .failWith _
    · exact .continueWith ⟨versionHint, trace, rfl⟩

/-- The access list decides alike; only the event of a denial is the live run's alone. -/
theorem BuiltinACLCheck.shadowed : (step : Step σ).ShadowedBody := by
  intro ctx dry hshadow
  have hacl : dry.acl = ctx.acl := by
    obtain ⟨versionHint, trace, rfl⟩ := hshadow
    rfl
  have hrequest : request dry = request ctx := by
    obtain ⟨versionHint, trace, rfl⟩ := hshadow
    rfl
  show Follows (execute ctx) (execute dry)
  unfold execute
  rw [hacl, hrequest]
  cases ctx.acl with
  | none => exact .continueWith hshadow
  | some acl =>
    refine .bind fun decision => ?_
    obtain ⟨versionHint, trace, rfl⟩ := hshadow
    dsimp only
    split_ifs
    · exact .continueWith ⟨versionHint, trace, rfl⟩
    · exact .bind_failWith _

/-- A lookup that continues has resolved the module. -/
theorem BuiltinModuleLookup.resolves (ext : Externals σ) {ctx ctx' : PipelineContext σ}
    {w : World σ} {result : StepResult}
    (h : (execute ext ctx w).outcome = .ok (.ok result, ctx')) : ctx'.module.isSome := by
  obtain ⟨registry, -, hregistry⟩ := bind_outcome_eq_ok.mp h
  obtain ⟨w', -, hworld⟩ := bind_outcome_eq_ok.mp hregistry
  rcases hget : registry.get w' ctx.moduleId with e | (_ | module)
  · rw [hget] at hworld
    cases hworld
  · rw [hget] at hworld
    cases hworld
  · rw [hget] at hworld
    dsimp only at hworld
    split_ifs at hworld
    · cases hworld
    · cases hworld
      rfl

/-- The access check keeps the module. -/
theorem BuiltinACLCheck.keeps_module (ctx : PipelineContext σ) :
    LeavesAs (·.module) ctx.module (execute ctx) := by
  unfold execute
  split
  · exact .continueWith rfl
  · refine .bind fun decision => ?_
    dsimp only
    split_ifs
    · exact .continueWith rfl
    · exact .bind fun _ => .failWith rfl

/-! ## Turns in the shadow -/

namespace PipelineEngine

variable {strategy : ExecutionStrategy σ}

/-- Nothing about a step but its body decides how its turn goes. -/
structure PlainStep (step : Step σ) : Prop where
  isPure : step.isPure = true
  timeoutMs : step.timeoutMs = 0
  matchModules : step.matchModules = none
  ignoreErrors : step.ignoreErrors = false

theorem PlainStep.executeTimed {step : Step σ} (h : PlainStep step) (ctx : PipelineContext σ) :
    executeTimed step ctx = step.execute ctx := by
  simp [PipelineEngine.executeTimed, h.timeoutMs]

/-- The turn of a step without hooks whose body continues. -/
theorem turn_continues (hmw : strategy.stepMiddlewares = []) {st : LoopState σ} {step : Step σ}
    (hplain : PlainStep step) (hstep : strategy.steps[st.idx]? = some step)
    (hpass : passOver {} st step = none) {w : World σ} {ctx : PipelineContext σ}
    (hbody : (step.execute st.ctx w).outcome = .ok (.ok .continueStep, ctx)) :
    (turn strategy {} st w).outcome =
        .ok (.inl (advance st step (ctx.record { name := step.name, result := .continueStep }))) ∧
      (turn strategy {} st w).world = (step.execute st.ctx w).world := by
  have hsucceeded : stepSucceeded strategy {} st step ctx .continueStep =
      pure (.inl (advance st step (ctx.record { name := step.name, result := .continueStep }))) := by
    simp only [stepSucceeded, chain, hmw, List.zipIdx_nil, List.reverse_nil, afterHooks, pure_bind]
    rfl
  rw [turn_plain hmw hstep hpass, hplain.executeTimed, bind_apply_ok rfl]
  dsimp only [Run.report_apply]
  rw [bind_apply_ok (x := (Run.lift (step.execute st.ctx) : Traced σ (StepEnd σ))) hbody]
  dsimp only
  rw [hsucceeded]
  exact ⟨rfl, rfl⟩

/-- The turn of a live step without hooks whose body fails. -/
theorem turn_fails (hmw : strategy.stepMiddlewares = []) {st : LoopState σ} {step : Step σ}
    (hplain : PlainStep step) (hstep : strategy.steps[st.idx]? = some step)
    (hpass : passOver {} st step = none) {w : World σ} {ctx : PipelineContext σ} {e : ModuleError}
    (hbody : (step.execute st.ctx w).outcome = .ok (.error e, ctx)) (hlive : ctx.dryRun = false) :
    (turn strategy {} st w).outcome =
      .ok (abortRun step ctx e (.pipelineStepError step.name e)) := by
  have hfailed : stepFailed strategy st step ctx e =
      pure (abortRun step ctx e (.pipelineStepError step.name e)) := by
    simp only [stepFailed, hlive, hplain.ignoreErrors, chain, hmw, List.zipIdx_nil,
      List.reverse_nil, onErrorHooks, pure_bind, Bool.false_eq_true, if_false]
  rw [turn_plain hmw hstep hpass, hplain.executeTimed, bind_apply_ok rfl]
  dsimp only [Run.report_apply]
  rw [bind_apply_ok (x := (Run.lift (step.execute st.ctx) : Traced σ (StepEnd σ))) hbody]
  dsimp only
  rw [hfailed]
  rfl

/-- A loop state of a dry run in the shadow of a live one. -/
structure InShadow (st dry : LoopState σ) : Prop where
  idx : dry.idx = st.idx
  ctx : Shadow st.ctx dry.ctx
  live : st.ctx.dryRun = false
  nothingFailed : dry.failedCapabilities = []

/-- The dry run passes over no step that the live run can give what it requires. -/
theorem InShadow.passOver {st dry : LoopState σ} (h : InShadow st dry) {step : Step σ}
    (hplain : PlainStep step) (hmodule : "module" ∈ step.requires → st.ctx.module.isSome) :
    passOver {} dry step = none := by
  obtain ⟨versionHint, trace, hctx⟩ := h.ctx
  have hkept : dry.ctx.module = st.ctx.module := by rw [hctx]
  have hmissing : missingDependency dry step = false := by
    simp only [missingDependency, h.nothingFailed, hkept]
    by_cases hrequires : "module" ∈ step.requires
    · simp [Option.isNone_eq_false_iff.mpr (hmodule hrequires)]
    · simp [hrequires]
  simp [PipelineEngine.passOver, outsideSegment, hmissing, unmatched, hplain.matchModules,
    hplain.isPure]

/-- **A turn in the shadow**: the live turn ends the run with an error, or the dry turn goes on as
the live one does. -/
theorem turn_shadow (hmw : strategy.stepMiddlewares = []) {st dry : LoopState σ} {step : Step σ}
    (hplain : PlainStep step) (hbody : step.ShadowedBody) (hrecords : step.KeepsRecords)
    (hstep : strategy.steps[st.idx]? = some step)
    (hmodule : "module" ∈ step.requires → st.ctx.module.isSome) (h : InShadow st dry)
    {w : World σ} {next : LoopState σ ⊕ EngineResult σ}
    (hturn : (turn strategy {} st w).outcome = .ok next) :
    (∃ e ctx, next = .inr (.error e, ctx)) ∨
      ∃ ctx st' dry', (step.execute st.ctx w).outcome = .ok (.ok .continueStep, ctx) ∧
        next = .inl st' ∧ st'.idx = st.idx + 1 ∧ st'.ctx.module = ctx.module ∧
        (turn strategy {} dry w).outcome = .ok (.inl dry') ∧
        (turn strategy {} dry w).world = (turn strategy {} st w).world ∧ InShadow st' dry' := by
  have hpass : PipelineEngine.passOver {} st step = none :=
    passOver_live h.live rfl hplain.matchModules
  -- the body of the live step has returned
  obtain ⟨⟨result, ctx⟩, hended⟩ :
      ∃ ended, (step.execute st.ctx w).outcome = .ok ended := by
    rw [turn_plain hmw hstep hpass, hplain.executeTimed] at hturn
    obtain ⟨u, -, hrest⟩ := bind_outcome_eq_ok.mp hturn
    obtain ⟨ended, hended, -⟩ := bind_outcome_eq_ok.mp hrest
    exact ⟨ended, hended⟩
  have hlive : ctx.dryRun = false :=
    (hrecords _ _ _ ⟨w, hplain.executeTimed st.ctx ▸ hended⟩).1.trans h.live
  cases result with
  | error e =>
    have hfails := turn_fails hmw hplain hstep hpass hended hlive
    exact .inl ⟨_, _, Except.ok.inj (hturn.symm.trans hfails)⟩
  | ok result =>
    obtain ⟨rfl, dryCtx, hshadow, hdry, hworld⟩ := hbody _ _ h.ctx w _ _ hended
    have hstep' : strategy.steps[dry.idx]? = some step := h.idx ▸ hstep
    obtain ⟨houtcome, hleft⟩ := turn_continues hmw hplain hstep hpass hended
    obtain ⟨houtcome', hleft'⟩ :=
      turn_continues hmw hplain hstep' (h.passOver hplain hmodule) hdry
    refine .inr ⟨ctx, _, _, hended, Except.ok.inj (hturn.symm.trans houtcome), rfl, rfl, houtcome',
      hleft'.trans (hworld.trans hleft.symm), ?_⟩
    exact ⟨congrArg (· + 1) h.idx, hshadow.record _ _, hlive, h.nothingFailed⟩

/-! ## The run up to the gate -/

/-- What a shadow needs of the step at an index before the gate. -/
structure BeforeGate (step : Step σ) (i : Nat) : Prop where
  name : step.name ≠ "approval_gate"
  plain : PlainStep step
  shadowed : step.ShadowedBody
  records : step.KeepsRecords
  requires : "module" ∈ step.requires → 3 ≤ i
  resolves : ∀ ctx ctx' w, (step.execute ctx w).outcome = .ok (.ok .continueStep, ctx') → 2 ≤ i →
    (3 ≤ i → ctx.module.isSome) → ctx'.module.isSome

theorem standard_beforeGate (ext : Externals σ) {i : Nat} (hi : i < 4) :
    ∃ step, (standardStrategy ext).steps[i]? = some step ∧ BeforeGate step i := by
  have hrecords := standard_keepsRecords ext
  interval_cases i
  · exact ⟨_, rfl, by simp [BuiltinContextCreation.step], ⟨rfl, rfl, rfl, rfl⟩,
      BuiltinContextCreation.shadowed, hrecords _ (by simp [standardStrategy]), by simp [BuiltinContextCreation.step], by simp⟩
  · exact ⟨_, rfl, by simp [BuiltinCallChainGuard.step], ⟨rfl, rfl, rfl, rfl⟩, BuiltinCallChainGuard.shadowed,
      hrecords _ (by simp [standardStrategy]), by simp [BuiltinCallChainGuard.step], by simp⟩
  · exact ⟨_, rfl, by simp [BuiltinModuleLookup.step], ⟨rfl, rfl, rfl, rfl⟩, BuiltinModuleLookup.shadowed ext,
      hrecords _ (by simp [standardStrategy]), by simp [BuiltinModuleLookup.step],
      fun _ _ _ h _ _ => BuiltinModuleLookup.resolves ext h⟩
  · refine ⟨_, rfl, by simp [BuiltinACLCheck.step], ⟨rfl, rfl, rfl, rfl⟩, BuiltinACLCheck.shadowed,
      hrecords _ (by simp [standardStrategy]), fun _ => le_refl _, ?_⟩
    intro ctx ctx' w h _ hmodule
    have hkept : ctx'.module = ctx.module := BuiltinACLCheck.keeps_module ctx w _ h
    rw [hkept]
    exact hmodule (le_refl _)

/-- The gate is where the first segment stops. -/
theorem standard_stops (ext : Externals σ) {st : LoopState σ} (hidx : st.idx = 4) :
    goesOn (standardStrategy ext) (.stopBefore "approval_gate") st = false := by
  unfold goesOn
  rw [hidx]
  rfl

/-- **The run up to the gate in the shadow**: the live run ends with an error before the gate, or the
dry run reaches the gate with it, in the same world. -/
theorem loopFrom_shadow (ext : Externals σ) (st dry : LoopState σ) (hidx : st.idx ≤ 4)
    (hmodule : 3 ≤ st.idx → st.ctx.module.isSome) (h : InShadow st dry) (w : World σ)
    {left : LoopState σ ⊕ EngineResult σ}
    (hrun : (loopFrom (standardStrategy ext) (.stopBefore "approval_gate") st w).outcome =
      .ok left) :
    (∃ e ctx, left = .inr (.error e, ctx)) ∨
      ∃ st' dry', left = .inl st' ∧ dry'.idx = 4 ∧ st'.ctx.module.isSome ∧
        (loopFrom (standardStrategy ext) (.stopBefore "approval_gate") dry w).outcome =
          .ok (.inl dry') ∧
        (loopFrom (standardStrategy ext) (.stopBefore "approval_gate") dry w).world =
          (loopFrom (standardStrategy ext) (.stopBefore "approval_gate") st w).world ∧
        InShadow st' dry' := by
  generalize hn : 4 - st.idx = n
  induction n generalizing st dry w with
  | zero =>
    have hat : st.idx = 4 := by omega
    rw [loopFrom_eq, standard_stops ext hat, if_neg (by simp)] at hrun
    have hat' : dry.idx = 4 := h.idx.trans hat
    rw [loopFrom_eq, standard_stops ext hat', loopFrom_eq, standard_stops ext hat]
    obtain rfl := Except.ok.inj hrun
    exact .inr ⟨st, dry, rfl, hat', hmodule (by omega), rfl, rfl, h⟩
  | succ n ih =>
    obtain ⟨step, hstep, hbefore⟩ := standard_beforeGate ext (show st.idx < 4 by omega)
    have hgo : goesOn (standardStrategy ext) (.stopBefore "approval_gate") st = true :=
      goesOn_eq_true.mpr ⟨step, hstep, fun heq => hbefore.name (Option.some.inj heq).symm⟩
    have hgo' : goesOn (standardStrategy ext) (.stopBefore "approval_gate") dry = true :=
      goesOn_eq_true.mpr
        ⟨step, h.idx ▸ hstep, fun heq => hbefore.name (Option.some.inj heq).symm⟩
    have hlive := loopFrom_eq (standardStrategy ext) (.stopBefore "approval_gate") st
    have hdry := loopFrom_eq (standardStrategy ext) (.stopBefore "approval_gate") dry
    rw [if_pos hgo, turn_stopBefore] at hlive
    rw [if_pos hgo', turn_stopBefore] at hdry
    rw [hlive] at hrun
    obtain ⟨next, hnext, hrest⟩ := bind_outcome_eq_ok.mp hrun
    rw [hlive, hdry, bind_apply_ok hnext]
    rcases turn_shadow rfl hbefore.plain hbefore.shadowed hbefore.records hstep
        (fun hrequires => hmodule (hbefore.requires hrequires)) h hnext with
      ⟨e, ctx, rfl⟩ | ⟨ctx, st', dry', hbody, rfl, hidx', hkept, hgone, hworld, hshadow⟩
    · exact .inl ⟨e, ctx, (Except.ok.inj hrest).symm⟩
    · rw [bind_apply_ok hgone, hworld]
      refine ih st' dry' (by omega) ?_ hshadow _ hrest (by omega)
      intro hlate
      rw [hkept]
      exact hbefore.resolves _ _ _ hbody (by omega) hmodule

end PipelineEngine

/-! ## From the gate on -/

/-- What a run has found out about a call. -/
structure CallFindings (σ : Type) where
  module : Option (Module σ)
  aclApprovalRequired : Bool
  dryRun : Bool

/-- The findings a pipeline context holds. -/
def PipelineContext.callFindings (ctx : PipelineContext σ) : CallFindings σ where
  module := ctx.module
  aclApprovalRequired := ctx.aclApprovalRequired
  dryRun := ctx.dryRun

/-- Where the body returns, the world is as before and the findings are as given. -/
def Still (findings : CallFindings σ) (x : Code σ (StepEnd σ)) : Prop :=
  ∀ w ended, (x w).outcome = .ok ended → (x w).world = w ∧ ended.2.callFindings = findings

namespace Still

variable {findings : CallFindings σ}

theorem continueWith {ctx : PipelineContext σ} (h : ctx.callFindings = findings) :
    Still findings (continueWith ctx) := by
  rintro w ended hended
  cases hended
  exact ⟨rfl, h⟩

theorem failWith {e : ModuleError} {ctx : PipelineContext σ} (h : ctx.callFindings = findings) :
    Still findings (failWith e ctx) := by
  rintro w ended hended
  cases hended
  exact ⟨rfl, h⟩

theorem expect {α : Type} {o : Option α} {message : String} {f : α → Code σ (StepEnd σ)}
    (h : ∀ a, Still findings (f a)) : Still findings (expect o message >>= f) := by
  cases o with
  | none =>
    rintro w ended hended
    cases hended
  | some a => exact h a

end Still

/-- A dry run passes over the step, or its body changes nothing that counts. -/
def Step.Quiet (step : Step σ) : Prop :=
  step.isPure = false ∨ step.timeoutMs = 0 ∧ ∀ ctx, Still ctx.callFindings (step.execute ctx)

theorem BuiltinInputValidation.quiet (ext : Externals σ) : (step ext).Quiet := by
  refine .inr ⟨rfl, fun ctx => .expect fun module => ?_⟩
  cases validateAgainstSchema ext ctx.inputs module.inputSchema "Input" with
  | error e => exact .failWith rfl
  | ok u => exact .continueWith rfl

theorem BuiltinOutputValidation.quiet (ext : Externals σ) : (step ext).Quiet := by
  refine .inr ⟨rfl, fun ctx => ?_⟩
  show Still ctx.callFindings (execute ext ctx)
  unfold execute
  split
  · exact .continueWith rfl
  · rename_i output _
    refine .expect fun module => ?_
    cases validateAgainstSchema ext output module.outputSchema "Output" with
    | error e => exact .failWith rfl
    | ok u => exact .continueWith rfl

/-- From the gate on, a dry run of the standard strategy enters quiet steps only. -/
theorem standard_quiet (ext : Externals σ) {i : Nat} {step : Step σ} (hi : 4 ≤ i)
    (hstep : (standardStrategy ext).steps[i]? = some step) : step.Quiet := by
  obtain ⟨i, rfl⟩ := Nat.exists_eq_add_of_le' hi
  have hmem : step ∈ (standardStrategy ext).steps.drop 4 :=
    List.mem_of_getElem? (by rw [List.getElem?_drop, Nat.add_comm]; exact hstep)
  revert step
  simp only [standardStrategy, List.drop_succ_cons, List.drop_zero, List.mem_cons,
    List.not_mem_nil, or_false]
  rintro step - (rfl | rfl | rfl | rfl | rfl | rfl | rfl)
  · exact .inl rfl
  · exact .inl rfl
  · exact BuiltinInputValidation.quiet ext
  · exact .inl rfl
  · exact BuiltinOutputValidation.quiet ext
  · exact .inl rfl
  · exact .inr ⟨rfl, fun ctx => .continueWith rfl⟩

namespace PipelineEngine

variable {strategy : ExecutionStrategy σ}

/-- The engine does not touch the findings. -/
theorem bookkept_callFindings (findings : CallFindings σ) :
    Bookkept fun ctx : PipelineContext σ => ctx.callFindings = findings where
  record := fun _ _ h => h
  success := fun _ _ h => h
  output := fun _ _ h => h
  preflight := fun _ _ h => h

/-- A run without a predicate follows the action of a step without touching the world. -/
theorem followAction_world (st : LoopState σ) (step : Step σ) (result : StepResult) (w : World σ) :
    (followAction strategy {} st step result w).world = w := by
  unfold followAction
  split <;> rfl

/-- A step that a dry run enters is pure. -/
theorem isPure_of_passOver {opts : RunOptions σ} {st : LoopState σ} {step : Step σ}
    (hdry : st.ctx.dryRun = true) (hpass : passOver opts st step = none) : step.isPure = true := by
  unfold passOver at hpass
  split_ifs at hpass with _ _ _ himpure
  simpa [hdry] using himpure

/-- Where the body of a step is still, what the engine makes of its end is still as well. -/
theorem turn_still (hmw : strategy.stepMiddlewares = []) {st : LoopState σ} {step : Step σ}
    (hdry : st.ctx.dryRun = true) (hlimit : step.timeoutMs = 0)
    (hstill : Still st.ctx.callFindings (step.execute st.ctx))
    (hstep : strategy.steps[st.idx]? = some step) (hpass : passOver {} st step = none)
    {w : World σ} {next : LoopState σ ⊕ EngineResult σ}
    (hturn : (turn strategy {} st w).outcome = .ok next) : (turn strategy {} st w).world = w := by
  have htimed : executeTimed step st.ctx = step.execute st.ctx := by simp [executeTimed, hlimit]
  rw [turn_plain hmw hstep hpass, htimed, bind_apply_ok rfl] at hturn ⊢
  dsimp only [Run.report_apply] at hturn ⊢
  obtain ⟨⟨result, ctx⟩, hended, -⟩ := bind_outcome_eq_ok.mp hturn
  obtain ⟨hworld, hfindings⟩ := hstill w _ hended
  have hdry' : ctx.dryRun = true := (congrArg CallFindings.dryRun hfindings).trans hdry
  rw [bind_apply_ok (x := (Run.lift (step.execute st.ctx) : Traced σ (StepEnd σ))) hended,
    Run.lift_apply]
  dsimp only
  rw [hworld]
  cases result with
  | error e =>
    rw [bind_apply_ok rfl, stepFailed, if_pos hdry']
    rfl
  | ok result =>
    simp only [stepSucceeded, chain, hmw, List.zipIdx_nil, List.reverse_nil, afterHooks, pure_bind]
    exact followAction_world _ step result w

/-- **A quiet turn** of a dry run leaves the world and the findings alone. -/
theorem turn_quiet (hmw : strategy.stepMiddlewares = []) {st : LoopState σ}
    (hdry : st.ctx.dryRun = true)
    (hquiet : ∀ step, strategy.steps[st.idx]? = some step → step.Quiet) {w : World σ}
    {next : LoopState σ ⊕ EngineResult σ} (hturn : (turn strategy {} st w).outcome = .ok next) :
    (turn strategy {} st w).world = w ∧ (ctxLeft next).callFindings = st.ctx.callFindings := by
  cases hstep : strategy.steps[st.idx]? with
  | none =>
    simp only [turn, hstep] at hturn ⊢
    cases hturn
    exact ⟨rfl, rfl⟩
  | some step =>
    cases hpass : passOver {} st step with
    | some st' =>
      simp only [turn, hstep, hpass] at hturn ⊢
      cases hturn
      refine ⟨rfl, ?_⟩
      show st'.ctx.callFindings = _
      rcases (passOver_spec hpass).2 with heq | ⟨reason, heq⟩
      · rw [heq]
      · rw [heq]
        rfl
    | none =>
      have hpure := isPure_of_passOver hdry hpass
      obtain himpure | ⟨hlimit, hstill⟩ := hquiet step hstep
      · exact absurd (hpure.symm.trans himpure) (by decide)
      refine ⟨turn_still hmw hdry hlimit (hstill st.ctx) hstep hpass hturn, ?_⟩
      refine turn_keeps (bookkept_callFindings st.ctx.callFindings) ?_ rfl
        (turn_cases strategy {} st w) next hturn
      intro step' hstep' ctx result ctx' hctx hleaves
      obtain rfl : step = step' := Option.some.inj (hstep.symm.trans hstep')
      obtain ⟨w', hw'⟩ := leaves_of_no_limit hlimit hleaves
      exact ((hstill ctx w' _ hw').2).trans hctx

/-- **The run from the gate on**: what is left of a dry run leaves the world and the findings
alone. -/
theorem loopFrom_quiet (ext : Externals σ) (st : LoopState σ) (hidx : 4 ≤ st.idx)
    (hdry : st.ctx.dryRun = true) (w : World σ) {left : LoopState σ ⊕ EngineResult σ}
    (hrun : (loopFrom (standardStrategy ext) {} st w).outcome = .ok left) :
    (loopFrom (standardStrategy ext) {} st w).world = w ∧
      (ctxLeft left).callFindings = st.ctx.callFindings := by
  induction st using steps_left_induction (standardStrategy ext) generalizing w with | h st ih
  rw [loopFrom_eq] at hrun ⊢
  by_cases hgo : goesOn (standardStrategy ext) {} st = true
  · rw [if_pos hgo] at hrun ⊢
    obtain ⟨next, hnext, hrest⟩ := bind_outcome_eq_ok.mp hrun
    obtain ⟨hworld, hfindings⟩ :=
      turn_quiet rfl hdry (fun step hstep => standard_quiet ext hidx hstep) hnext
    rw [bind_apply_ok hnext]
    dsimp only
    rw [hworld] at hrest ⊢
    cases next with
    | inr result =>
      cases hrest
      exact ⟨rfl, hfindings⟩
    | inl st' =>
      have hlt := turn_lowers (standardStrategy ext) {} st w st' hgo hnext
      have hcase := turn_cases (standardStrategy ext) {} st w
      rw [hnext] at hcase
      have hlater := turn_advances hgo hcase
      have hdry' : st'.ctx.dryRun = true := (congrArg CallFindings.dryRun hfindings).trans hdry
      obtain ⟨hstill, hleft⟩ := ih st' hlt (by omega) hdry' w hrest
      exact ⟨hstill, hleft.trans hfindings⟩
  · rw [if_neg hgo] at hrun ⊢
    cases hrun
    exact ⟨rfl, rfl⟩

/-- A run is its loop, as far as the world goes. -/
theorem runWithOptions_world {ctx : PipelineContext σ} {opts : RunOptions σ} {w : World σ}
    {left : LoopState σ ⊕ EngineResult σ}
    (h : (loopFrom strategy opts (start ctx) w).outcome = .ok left) :
    (runWithOptions strategy ctx opts w).world = (loopFrom strategy opts (start ctx) w).world := by
  rw [runWithOptions, bind_apply_ok h]
  rfl

/-- **A dry run in the shadow of a live run that gets to the gate** ends in the world the gate is
entered in, and with the findings of its context. -/
theorem run_shadow (ext : Externals σ) {ctx dry : PipelineContext σ} (hshadow : Shadow ctx dry)
    (hlive : ctx.dryRun = false) {w : World σ} {out : Option Json × PipelineTrace}
    {gateCtx : PipelineContext σ}
    (hgate : (runUntilStep (standardStrategy ext) ctx "approval_gate" w).outcome =
      .ok (.ok out, gateCtx)) {result : EngineResult σ}
    (hrun : (run (standardStrategy ext) dry w).outcome = .ok result) :
    (run (standardStrategy ext) dry w).world =
        (runUntilStep (standardStrategy ext) ctx "approval_gate" w).world ∧
      result.2.module = gateCtx.module ∧
      result.2.aclApprovalRequired = gateCtx.aclApprovalRequired ∧ gateCtx.module.isSome := by
  obtain ⟨left, hloop, hleft⟩ := bind_outcome_eq_ok.mp hgate
  obtain ⟨left', hloop', hleft'⟩ := bind_outcome_eq_ok.mp hrun
  rw [runUntilStep, run, runWithOptions_world hloop, runWithOptions_world hloop']
  obtain rfl : conclude left' = result := by simpa using hleft'
  have hlate : 3 ≤ (start ctx).idx → (start ctx).ctx.module.isSome := by simp [start]
  obtain ⟨e, ended, rfl⟩ | ⟨st, dryEnd, rfl, hidx, hmodule, hdryLoop, hmeet, hend⟩ :=
    loopFrom_shadow ext (start ctx) (start dry) (Nat.zero_le _) hlate ⟨rfl, hshadow, hlive, rfl⟩ w
      hloop
  · cases hleft
  cases hleft
  obtain ⟨versionHint, trace, hctx⟩ := hend.ctx
  -- from the gate on the dry run changes nothing
  rw [loopFrom_split (standardStrategy ext) "approval_gate", bind_apply_ok hdryLoop] at hloop'
  rw [loopFrom_split (standardStrategy ext) "approval_gate" (start dry), bind_apply_ok hdryLoop,
    hmeet]
  rw [hmeet] at hloop'
  have hdryFlag : dryEnd.ctx.dryRun = true := by rw [hctx]
  obtain ⟨hstill, hfindings⟩ := loopFrom_quiet ext dryEnd (le_of_eq hidx.symm) hdryFlag _ hloop'
  have hkept : (conclude left').2.callFindings = dryEnd.ctx.callFindings :=
    (bookkept_callFindings dryEnd.ctx.callFindings).conclude hfindings
  refine ⟨hstill, ?_, ?_, hmodule⟩
  · exact (congrArg CallFindings.module hkept).trans (by rw [hctx]; rfl)
  · exact (congrArg CallFindings.aclApprovalRequired hkept).trans (by rw [hctx]; rfl)

end PipelineEngine

end Apcore
