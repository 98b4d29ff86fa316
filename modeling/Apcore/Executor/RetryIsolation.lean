import Apcore.Executor.Types

/-! # `Executor.RetryIsolation` — what a retry presents to the gates

A retry runs the pipeline again on the pipeline context the failed attempt has left, and context
creation derives a child from whatever context is stored there. So the first attempt presents the
caller as a fresh call does, and every further attempt presents one more call of the module to
itself. -/

namespace Apcore

namespace Executor

open Run PipelineEngine

variable {σ : Type}

/-! ## One attempt on the standard strategy -/

/-- The first turn of a live run: context creation continues, with the view of a call. -/
theorem first_turn (ext : Externals σ) {pipeCtx : PipelineContext σ}
    (hlive : pipeCtx.dryRun = false) (w : World σ) :
    ∃ st, (turn (standardStrategy ext) {} (start pipeCtx) w).outcome = .ok (.inl st) ∧
      st.idx = 1 ∧ pipeCtx.callerView.Presents st.ctx.callerView ∧
      (turn (standardStrategy ext) {} (start pipeCtx) w).events = [.body 0 pipeCtx] := by
  obtain ⟨ctx, hctx, hview, -⟩ := BuiltinContextCreation.execute_spec pipeCtx w
  have hbody : (executeTimed BuiltinContextCreation.step pipeCtx w).outcome =
      .ok (.ok .continueStep, ctx) := hctx
  have hstep : (standardStrategy ext).steps[(start pipeCtx).idx]? =
      some BuiltinContextCreation.step := rfl
  rw [turn_plain rfl hstep (passOver_live hlive rfl rfl), bind_apply_ok rfl]
  rw [bind_apply_ok (a := (.ok .continueStep, ctx)) hbody]
  exact ⟨_, rfl, rfl, hview, rfl⟩

/-- The call-chain guard is entered with whatever context the second turn begins in. -/
theorem guard_entered (ext : Externals σ) {st : LoopState σ} (hidx : st.idx = 1)
    (hlive : st.ctx.dryRun = false) (w : World σ) :
    .body 1 st.ctx ∈ (loopFrom (standardStrategy ext) {} st w).events := by
  have hstep : (standardStrategy ext).steps[st.idx]? = some BuiltinCallChainGuard.step := by
    rw [hidx]
    rfl
  have hgo : goesOn (standardStrategy ext) {} st = true :=
    goesOn_eq_true.mpr ⟨_, hstep, by simp⟩
  have hturn : .body 1 st.ctx ∈ (turn (standardStrategy ext) {} st w).events := by
    rw [turn_plain rfl hstep (passOver_live hlive rfl rfl), bind_apply_ok rfl]
    simp [hidx]
  rw [loopFrom_eq, if_pos hgo]
  cases hout : (turn (standardStrategy ext) {} st w).outcome with
  | error p =>
    rw [bind_apply_error hout]
    exact hturn
  | ok next =>
    rw [bind_apply_ok hout]
    exact List.mem_append_left _ hturn

/-- What one attempt shows of the caller: one view behind context creation, which the guard sees
and which the attempt leaves. -/
structure AttemptView (origin : CallerView) (evs : List (PipelineEvent σ)) (view : CallerView) :
    Prop where
  presents : origin.Presents view
  guard : ∃ c, .body 1 c ∈ evs ∧ c.callerView = view
  bodies : ∀ i c, .body i c ∈ evs → i = 0 ∨ c.callerView = view

/-- A run of the standard strategy has the view of a call behind context creation. -/
theorem standardRun_view (ext : Externals σ) {pipeCtx : PipelineContext σ}
    (hlive : pipeCtx.dryRun = false) :
    (PipelineEngine.run (standardStrategy ext) pipeCtx).Ensures fun out evs =>
      ∃ view, AttemptView pipeCtx.callerView evs view ∧
        ∀ result, out = .ok result → result.2.callerView = view := by
  unfold PipelineEngine.run
  refine runWithOptions_ensures ?_
  intro w
  obtain ⟨st, hout, hidx, hview, hevs⟩ := first_turn ext hlive w
  have hgo : goesOn (standardStrategy ext) {} (start pipeCtx) = true :=
    goesOn_eq_true.mpr ⟨_, rfl, by simp⟩
  rw [loopFrom_eq, if_pos hgo, bind_apply_ok hout, hevs]
  have hkeeps := loopFrom_keeps {} (bookkept_callerView st.ctx.callerView)
    (standard_keepsCallerView ext _) st (Nat.le_of_eq hidx.symm) rfl
    (turn (standardStrategy ext) {} (start pipeCtx) w).world
  have hguard := guard_entered ext hidx (hview.dryRun.trans hlive)
    (turn (standardStrategy ext) {} (start pipeCtx) w).world
  refine ⟨st.ctx.callerView, ⟨hview, ⟨st.ctx, List.mem_cons_of_mem _ hguard, rfl⟩, ?_⟩, ?_⟩
  · intro i c hmem
    rcases List.mem_cons.mp hmem with h | h
    · cases h
      exact .inl rfl
    · exact .inr (hkeeps.1 i c h).2
  · intro result hresult
    simp only [loopOn] at hresult
    cases hloop : (loopFrom (standardStrategy ext) {} st
        (turn (standardStrategy ext) {} (start pipeCtx) w).world).outcome with
    | error p =>
      rw [hloop] at hresult
      cases hresult
    | ok left =>
      rw [hloop] at hresult
      cases hresult
      exact (bookkept_callerView _).conclude (hkeeps.2 left hloop)

variable {executor : Executor σ} {ext : Externals σ}

/-- An attempt goes on to another one exactly when it reports a re-run. -/
theorem attempt_view (hstrategy : executor.strategy = standardStrategy ext) (moduleId : String)
    {pipeCtx : PipelineContext σ} (hlive : pipeCtx.dryRun = false) :
    (executor.attempt moduleId pipeCtx).Ensures fun out evs =>
      ∃ view, AttemptView pipeCtx.callerView evs view ∧
        ((∃ inputs, .rerun inputs ∈ evs) ↔ ∃ next, out = .ok (.inl next)) ∧
        ∀ next, out = .ok (.inl next) → next.callerView = view := by
  have hengine : ∀ {evs : List (PipelineEvent σ)}, (∀ e ∈ evs, ofEngine e) →
      ¬ ∃ inputs, .rerun inputs ∈ evs := fun h ⟨inputs, hmem⟩ => h _ hmem
  unfold attempt
  rw [hstrategy]
  refine ensures_bind (P := fun out evs => (∀ e ∈ evs, ofEngine e) ∧ ∃ view,
    AttemptView pipeCtx.callerView evs view ∧ ∀ result, out = .ok result →
      result.2.callerView = view)
    (fun w => ⟨run_ofEngine _ _ _ w, standardRun_view ext hlive w⟩) ?_ ?_
  · rintro p evs ⟨hevs, view, hview, -⟩
    exact ⟨view, hview, by simpa using hengine hevs, by simp⟩
  · rintro ⟨out, ctx⟩ evs ⟨hevs, view, hview, hleft⟩
    have hctx : ctx.callerView = view := hleft _ rfl
    have hends : ∀ out' : Except String (PipelineContext σ ⊕ Except ModuleError Json),
        (∀ next, out' ≠ .ok (.inl next)) → ∃ view, AttemptView pipeCtx.callerView (evs ++ []) view ∧
          ((∃ inputs, .rerun inputs ∈ evs ++ []) ↔ ∃ next, out' = .ok (.inl next)) ∧
          ∀ next, out' = .ok (.inl next) → next.callerView = view := by
      intro out' hne
      rw [List.append_nil]
      exact ⟨view, hview, by simpa [hne] using hengine hevs, fun next h => absurd h (hne next)⟩
    rcases out with err | ⟨output, trace⟩
    · dsimp only
      split_ifs
      · exact ensures_pure (hends _ (by simp))
      · refine ensures_lift_bind (fun p => hends _ (by simp)) fun answer w _ => ?_
        rcases answer with _ | (value | inputs)
        · exact ensures_pure (hends _ (by simp))
        · exact ensures_pure (hends _ (by simp))
        · refine fun w => ⟨view, ⟨hview.presents, ?_, ?_⟩, ?_, ?_⟩
          · obtain ⟨c, hc, hcview⟩ := hview.guard
            exact ⟨c, List.mem_append_left _ hc, hcview⟩
          · intro i c hmem
            have hmem : .body i c ∈ evs ++ [.rerun inputs] := hmem
            exact hview.bodies i c (by simpa using hmem)
          · exact iff_of_true ⟨inputs, List.mem_append_right evs List.mem_cons_self⟩ ⟨_, rfl⟩
          · rintro next hnext
            cases hnext
            exact hctx
    · exact ensures_pure (hends _ (by simp))

/-! ## The attempts of a call -/

/-- The loop of one more attempt. -/
theorem callLoop_succ (executor : Executor σ) (moduleId : String) (attempts : Nat)
    (pipeCtx : PipelineContext σ) (w : World σ) :
    (executor.callLoop moduleId (attempts + 1) pipeCtx w).events =
      (executor.attempt moduleId pipeCtx w).events ++
        match (executor.attempt moduleId pipeCtx w).outcome with
        | .ok (.inl next) => (executor.callLoop moduleId attempts next
            (executor.attempt moduleId pipeCtx w).world).events
        | _ => [] := by
  unfold callLoop
  rw [loop, if_pos rfl]
  cases hout : (executor.attempt moduleId pipeCtx w).outcome with
  | error p =>
    rw [bind_apply_error hout]
    simp
  | ok next =>
    rw [bind_apply_ok hout]
    cases next <;> rfl

/-- A call that never retries shows the gates the caller as a fresh call does. -/
theorem isolated_of_no_rerun (hstrategy : executor.strategy = standardStrategy ext)
    (moduleId : String) (attempts : Nat) {pipeCtx : PipelineContext σ}
    (hlive : pipeCtx.dryRun = false) (w : World σ)
    (h : ∀ inputs, .rerun inputs ∉ (executor.callLoop moduleId attempts pipeCtx w).events) :
    ∀ i c, .body i c ∈ (executor.callLoop moduleId attempts pipeCtx w).events → i ≠ 0 →
      pipeCtx.callerView.Presents c.callerView := by
  intro i c hmem hi
  cases attempts with
  | zero => cases hmem
  | succ attempts =>
    rw [callLoop_succ] at h hmem
    obtain ⟨view, hview, hrerun, -⟩ := attempt_view hstrategy moduleId hlive w
    have hnone : ∀ next, (executor.attempt moduleId pipeCtx w).outcome ≠ .ok (.inl next) := by
      intro next hnext
      obtain ⟨inputs, hinputs⟩ := hrerun.mpr ⟨next, hnext⟩
      exact h inputs (List.mem_append_left _ hinputs)
    have hmem : .body i c ∈ (executor.attempt moduleId pipeCtx w).events := by
      split at hmem
      · next next hnext => exact absurd hnext (hnone next)
      · simpa using hmem
    rcases hview.bodies i c hmem with h0 | hc
    · exact absurd h0 hi
    · exact hc ▸ hview.presents

/-- After a retry, the guard sees a chain that is one call too long. -/
theorem guard_of_rerun (hstrategy : executor.strategy = standardStrategy ext) (moduleId : String)
    (attempts : Nat) {pipeCtx : PipelineContext σ} (hlive : pipeCtx.dryRun = false) (w : World σ)
    {inputs : Json}
    (h : .rerun inputs ∈ (executor.callLoop moduleId attempts pipeCtx w).events) :
    ∃ c, .body 1 c ∈ (executor.callLoop moduleId 2 pipeCtx w).events ∧
      c.callerView.callChain =
        pipeCtx.callerView.callChain ++ [pipeCtx.moduleId] ++ [pipeCtx.moduleId] := by
  cases attempts with
  | zero => cases h
  | succ attempts =>
    obtain ⟨view, hview, hrerun, hnextView⟩ := attempt_view hstrategy moduleId hlive w
    obtain ⟨next, hnext⟩ : ∃ next, (executor.attempt moduleId pipeCtx w).outcome =
        .ok (.inl next) := by
      rw [callLoop_succ] at h
      rcases List.mem_append.mp h with h | h
      · exact hrerun.mp ⟨inputs, h⟩
      · split at h
        · next next hnext => exact ⟨next, hnext⟩
        · cases h
    have hnextView : next.callerView = view := hnextView next hnext
    have hnextLive : next.dryRun = false := by
      have : view.dryRun = false := hview.presents.dryRun.trans hlive
      rwa [← hnextView] at this
    obtain ⟨view', hview', -, -⟩ := attempt_view hstrategy moduleId hnextLive
      (executor.attempt moduleId pipeCtx w).world
    obtain ⟨c, hc, hcview⟩ := hview'.guard
    refine ⟨c, ?_, ?_⟩
    · rw [callLoop_succ, hnext]
      refine List.mem_append_right _ ?_
      show .body 1 c ∈ (executor.callLoop moduleId 1 next _).events
      rw [callLoop_succ]
      exact List.mem_append_left _ hc
    · rw [hcview, hview'.presents.callChain, hnextView, hview.presents.callChain,
        hview.presents.moduleId]
      rfl

/-! ## Calls -/

/-- The view a call comes in with. -/
def originView (moduleId : String) (ctx : Option Context) : CallerView where
  moduleId := moduleId
  callChain := (ctx.map (·.callChain)).getD []
  callerId := ctx.bind (·.callerId)
  cancelToken := ctx.bind (·.cancelToken)
  dryRun := false

/-- The preamble keeps the view of the caller's context. -/
theorem prepare_view {executor : Executor σ} {strategy : ExecutionStrategy σ} {moduleId : String}
    {inputs : Json} {ctx : Option Context} {versionHint : Option String} {w : World σ}
    {pipeCtx : PipelineContext σ}
    (h : (executor.prepare strategy moduleId inputs ctx versionHint w).outcome =
      .ok (.ok pipeCtx)) :
    pipeCtx.callerView = originView moduleId ctx := by
  obtain ⟨context, hcontext, rfl⟩ := prepare_spec h
  cases ctx with
  | none =>
    cases hcontext
    rfl
  | some ctx =>
    cases hcontext
    rfl

/-- Where `call_chain_guard`, `acl_check` and `execute` stand in the standard strategy. -/
def judgingSteps : List Nat := [1, 3, 7]

example (ext : Externals σ) :
    judgingSteps.map (fun i => ((standardStrategy ext).steps[i]?).map (·.name)) =
      [some "call_chain_guard", some "acl_check", some "execute"] := rfl

/-- The guard, the access check and the execute step are shown the caller as a fresh call with the
caller's context shows it, however often they are entered. -/
def Isolated (moduleId : String) (ctx : Option Context) (evs : List (PipelineEvent σ)) : Prop :=
  ∀ i c, .body i c ∈ evs → i ∈ judgingSteps →
    (originView moduleId ctx).Presents c.callerView

/-- A call reports what its loop reports, or nothing when its preamble fails. -/
theorem call_events (executor : Executor σ) (moduleId : String) (inputs : Json)
    (ctx : Option Context) (versionHint : Option String) (w : World σ) :
    (∀ attempts, (executor.call attempts moduleId inputs ctx versionHint w).events = []) ∨
      ∃ pipeCtx w', pipeCtx.callerView = originView moduleId ctx ∧
        ∀ attempts, (executor.call attempts moduleId inputs ctx versionHint w).events =
          (executor.callLoop moduleId attempts pipeCtx w').events := by
  unfold call
  cases validateModuleId moduleId with
  | error e => exact .inl fun _ => rfl
  | ok u =>
    cases hprep : (executor.prepare executor.strategy moduleId inputs ctx versionHint w).outcome with
    | error p =>
      refine .inl fun attempts => ?_
      rw [bind_apply_error (by simpa using hprep)]
      rfl
    | ok prepared =>
      cases prepared with
      | error e =>
        refine .inl fun attempts => ?_
        rw [bind_apply_ok (a := .error e) (by simpa using hprep)]
        rfl
      | ok pipeCtx =>
        refine .inr ⟨pipeCtx, (executor.prepare executor.strategy moduleId inputs ctx versionHint
          w).world, prepare_view hprep, fun attempts => ?_⟩
        dsimp only
        rw [bind_apply_ok (a := .ok pipeCtx) (by simpa using hprep)]
        simp only [lift_apply, List.nil_append]
        cases hloop : (executor.callLoop moduleId attempts pipeCtx (executor.prepare
            executor.strategy moduleId inputs ctx versionHint w).world).outcome with
        | error p => rw [bind_apply_error hloop]
        | ok last =>
          rw [bind_apply_ok hloop]
          cases last <;> simp

/-- **Retries are isolated exactly when there are none.** A call on the standard strategy shows its
gates the caller as a fresh call does, in all of its attempts, if and only if no attempt ends in a
retry. -/
theorem retries_isolated_iff (executor : Executor σ) (ext : Externals σ) (moduleId : String)
    (inputs : Json) (ctx : Option Context) (versionHint : Option String) (w : World σ) :
    (∀ attempts, Isolated moduleId ctx ({ executor with strategy := standardStrategy ext }.call
        attempts moduleId inputs ctx versionHint w).events) ↔
      ∀ attempts inputs', .rerun inputs' ∉ ({ executor with strategy := standardStrategy ext }.call
        attempts moduleId inputs ctx versionHint w).events := by
  rcases call_events { executor with strategy := standardStrategy ext } moduleId inputs ctx
      versionHint w with hnone | ⟨pipeCtx, w', hview, hevents⟩
  · simp [hnone, Isolated]
  have hlive : pipeCtx.dryRun = false := congrArg CallerView.dryRun hview
  simp only [hevents]
  constructor
  · intro hisolated attempts inputs' hrerun
    obtain ⟨c, hc, hchain⟩ := guard_of_rerun rfl moduleId attempts hlive w' hrerun
    -- the guard of the second attempt sees the module twice
    have hpresents := (hisolated 2 1 c hc (by simp [judgingSteps])).callChain
    rw [hchain, hview] at hpresents
    have hlength := congrArg List.length hpresents
    simp at hlength
  · intro hnever attempts i c hmem hjudging
    have hi : i ≠ 0 := by
      rintro rfl
      simp [judgingSteps] at hjudging
    exact hview ▸ isolated_of_no_rerun rfl moduleId attempts hlive w' (hnever attempts) i c hmem hi

/-! ## A retry that is not isolated -/

/-- A module that always fails. -/
def failingModule : Module Unit :=
  { Module.inert Unit with
    execute := fun _ _ => pure (.error (.new .moduleExecuteError "out of service")) }

/-- A middleware that asks for a retry of every failed call. -/
def alwaysRetry : Middleware Unit :=
  { Middleware.idle "always_retry" with
    onErrorOutcome := fun _ inputs _ _ => pure (.ok (some (.retry inputs))) }

/-- An executor whose only module fails, and is retried. -/
def retrying : Executor Unit :=
  { Executor.over failingModule (standardStrategy .lax) with
    middlewareManager := fun _ => [alwaysRetry] }

/-- The second attempt tells the guard that the module has called itself. -/
theorem retry_not_isolated :
    ¬ ∀ (executor : Executor Unit) (ext : Externals Unit) (attempts : Nat) (moduleId : String)
      (inputs : Json) (ctx : Option Context) (versionHint : Option String) (w : World Unit),
      Isolated moduleId ctx ({ executor with strategy := standardStrategy ext }.call attempts
        moduleId inputs ctx versionHint w).events := by
  intro h
  have hisolated := h retrying .lax 2 "billing.charge" .null none none (World.fresh ())
  obtain ⟨c, hc, hchain⟩ : ∃ c, (retrying.call 2 "billing.charge" .null none none
      (World.fresh ())).events[11]? = some (.body 1 c) ∧
      c.callerView.callChain = ["billing.charge", "billing.charge"] := ⟨_, rfl, rfl⟩
  have hpresents := (hisolated 1 c (List.mem_of_getElem? hc) (by simp [judgingSteps])).callChain
  rw [hchain] at hpresents
  exact absurd hpresents (by decide)

end Executor

end Apcore
